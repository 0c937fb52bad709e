import BrineVault.Api.History

/-!
# A rotated refresh token that comes back

The two paths of `POST /auth/refresh` react differently. With an `Authorization` header, the session that the header names is compared with
the token and deleted; without one, the session is looked up by the hash of the token, and a rotated token has no session.
-/

namespace BrineVault

open Interleaving
open JwtService

namespace Service

/-- The token was issued for the session, and another one has been issued for it since. -/
def Rotated (st : Service) (token : String) (sid : Sid) : Prop :=
  ∃ a ∈ st.issued, a.refreshToken = token ∧ a.accessToken.sid = sid ∧ st.latest sid ≠ some a

/-- A request accepts a token of the session: a refresh token that was issued for it, or an access token that names it. -/
inductive Accepts (x : Crypto) (st : Service) (sid : Sid) (t : Served) : Prop where
  | refresh {drawn : Drawn} {scan : Scan} {authorization : Option String} {a result : AuthResult} (own : a ∈ st.issued)
      (ofSession : a.accessToken.sid = sid) (request : t.request = .refresh drawn scan (some a.refreshToken) authorization)
      (answer : st.answer x t = .ok (.tokens result)) : Accepts x st sid t
  | access {authorization : Option String} {user : JwtPayload} (ofSession : user.sid = sid)
      (request : t.request = .access authorization) (answer : st.answer x t = .ok (.admitted user)) : Accepts x st sid t

/-- The session does not exist, and in every run from here no token of it is accepted. -/
structure Destroyed (x : Crypto) (st : Service) (sid : Sid) : Prop where
  gone : st.backend.session sid = none
  refused : ∀ later st', st.run x later = .ok st' → ∀ t, ¬ st'.Accepts x sid t

/-! ## A session that is gone -/

/-- A session that was issued tokens, and that is not there. -/
structure Gone (st : Service) (sid : Sid) : Prop where
  absent : st.backend.session sid = none
  issued : ∃ a ∈ st.issued, a.accessToken.sid = sid

variable {x : Crypto} {st st' : Service} {sid : Sid} {t : Served}

/-- A session that is not there does not come back as long as its key is left alone, or deleted. -/
theorem session_eq_none_of_le {b b' : Backend} (hn : b.now ≤ b'.now)
    (hs : b'.sessions sid = b.sessions sid ∨ b'.sessions sid = none) (h : b.session sid = none) : b'.session sid = none := by
  rcases hs with hs | hs
  · rw [← Option.not_isSome_iff_eq_none]
    intro hsome
    obtain ⟨data, hdata⟩ := Option.isSome_iff_exists.1 hsome
    rw [Backend.session_of_le hn hs hdata] at h
    cases h
  · refine Backend.session_eq_none.2 (Redis.Keyspace.live_eq_none.2 ?_)
    intro e he
    rw [hs] at he
    cases he

/-- A session that is gone stays so with every request. -/
theorem Gone.step (h : st.Gone sid) (hs : st.step x t = .ok st') : st'.Gone sid := by
  obtain ⟨hfresh, rfl⟩ := step_ok.1 hs
  obtain ⟨habsent, i, hi, hsid⟩ := h
  have heffect := effect x st t
  generalize hr : st.answer x t = r at heffect
  generalize hb : (st.after x t).backend = b' at heffect
  cases heffect with
  | @opened drawn a _ login own opened =>
    obtain ⟨-, -, hnew⟩ := hfresh _ own
    obtain ⟨e, -, hsessions⟩ := opened.sessions
    constructor
    · rw [hb]
      refine session_eq_none_of_le opened.now (.inl ?_) habsent
      rw [hsessions, Function.update_of_ne]
      rw [← hsid]
      exact (hnew i hi).2
    · rw [issued_after_tokens hr]
      exact ⟨i, List.mem_cons_of_mem _ hi, hsid⟩
  | @renewed drawn scan token authorization a _ own refreshed =>
    obtain ⟨data, hfound, -⟩ := refreshed.found
    have hother : sid ≠ a.accessToken.sid := by
      rintro rfl
      rw [habsent] at hfound
      cases hfound
    constructor
    · rw [hb]
      refine session_eq_none_of_le refreshed.renewed.now (.inl ?_) habsent
      rcases refreshed.renewed.sessions with ⟨hsame, -⟩ | ⟨_, _, -, -, -, hset⟩
      · rw [hsame]
      · rw [hset, Function.update_of_ne hother]
    · rw [issued_after_tokens hr]
      exact ⟨i, List.mem_cons_of_mem _ hi, hsid⟩
  | @deleted _ _ k none now accounts sessions =>
    constructor
    · rw [hb]
      refine session_eq_none_of_le now ?_ habsent
      rw [sessions]
      by_cases hk : sid = k
      · rw [hk, Function.update_self]
        exact .inr rfl
      · rw [Function.update_of_ne hk]
        exact .inl rfl
    · rw [issued_after_noTokens (hr ▸ none)]
      exact ⟨i, hi, hsid⟩
  | kept none enrolled =>
    constructor
    · rw [hb]
      exact session_eq_none_of_le enrolled.now (.inl (by rw [enrolled.sessions])) habsent
    · rw [issued_after_noTokens (hr ▸ none)]
      exact ⟨i, hi, hsid⟩

/-- The session that a token finds is the session it was issued for. -/
theorem Sound.found (h : st.Sound x) {a : AuthResult} (ha : a ∈ st.issued) {k : Sid} {data : SessionData}
    (hfound : st.backend.session k = some data) (hhash : data.refreshTokenHash = hashRefreshToken x a.refreshToken) :
    ∃ e, st.backend.sessions k = some e ∧ e.value = data ∧ a.accessToken.sid = k ∧
      (st.latest k ≠ some a → e.expireAt < st.backend.now + 500) := by
  obtain ⟨e, he, rfl⟩ := Option.map_eq_some_iff.1 hfound
  have hstored := (Redis.Keyspace.live_eq_some.1 he).1
  obtain ⟨i, hi, hsid, hi', hold⟩ := h.stored k e hstored
  obtain rfl : i = a := h.unique i hi a ha (hi'.symm.trans hhash)
  exact ⟨e, hstored, rfl, hsid, hold⟩

/-- No token of a session that is gone is accepted. -/
theorem Gone.not_accepts (h : st.Gone sid) (hst : st.Sound x) : ¬ st.Accepts x sid t := by
  intro haccepts
  cases haccepts with
  | @refresh drawn scan authorization a result own ofSession request answer =>
    have heffect := effect x st t
    rw [answer, request] at heffect
    generalize (st.after x t).backend = b' at heffect
    cases heffect with
    | opened login => exact login
    | renewed own' refreshed =>
      cases own'
      obtain ⟨data, hfound, hhash⟩ := refreshed.found
      obtain ⟨-, -, -, hsid, -⟩ := hst.found own hfound hhash
      rw [← hsid, ofSession, h.absent] at hfound
      cases hfound
    | deleted none => exact none result rfl
    | kept none => exact none result rfl
  | @access authorization user ofSession request answer =>
    have hends : Ends (t.request.program x) (fun r _ => ∀ user, r = .ok (.admitted user) → st.backend.session user.sid ≠ none)
        st.backend := by
      rw [request]
      refine (ends_canActivate x authorization st.backend).bind ?_ ?_
      · rintro user b' ⟨-, hthere⟩ user' hu
        cases hu
        exact hthere user rfl
      · rintro e b' - user' hu
        cases hu
    have hthere := runAlone_of_ends hends t.waits user answer
    rw [ofSession] at hthere
    exact hthere h.absent

/-- A session that was issued is destroyed exactly when it is not there. -/
theorem destroyed_iff (hst : st.Sound x) (hi : ∃ a ∈ st.issued, a.accessToken.sid = sid) :
    st.Destroyed x sid ↔ st.backend.session sid = none := by
  constructor
  · intro h
    exact h.gone
  · intro h
    refine ⟨h, ?_⟩
    intro later st' hr t
    have hgone : st'.Gone sid := Steps.run_preserves (step x) (fun _ _ _ => Gone.step) hr ⟨h, hi⟩
    exact hgone.not_accepts (hst.run hr)

/-! ## The request that presents a rotated token -/

/-- What a rotated token finds is its own session, which is about to expire and is left as it is. -/
theorem Rotated.unchanged {token : String} (hrot : st.Rotated token sid) (h : st.Sound x) {drawn : Drawn} {result : AuthResult}
    {b' : Backend} (hr : Refreshed x drawn token st.backend result b') :
    b'.sessions = st.backend.sessions ∧ result.accessToken.sid = sid ∧
      ∃ e, st.backend.sessions sid = some e ∧ e.value.refreshTokenHash = hashRefreshToken x token := by
  obtain ⟨a, ha, rfl, rfl, hne⟩ := hrot
  obtain ⟨data, hfound, hhash⟩ := hr.found
  obtain ⟨e, he, rfl, hsid, hold⟩ := h.found ha hfound hhash
  rw [← hsid] at he hold
  have hexpires := hold hne
  refine ⟨?_, hsid.symm, e, he, hhash⟩
  rcases hr.renewed.sessions with ⟨hsame, -⟩ | ⟨e', _, he', hlong, -, -⟩
  · exact hsame
  · rw [← hsid, he, Option.some.injEq] at he'
    subst he'
    omega

/-- What makes the request end the session: it expires before the request is over, or the header names it and it has another hash. -/
def EndsSession (x : Crypto) (st : Service) (token : String) (authorization : Option String) (sid : Sid) (now : Nat) : Prop :=
  st.backend.sessions.live now sid = none ∨
    (AuthController.headerSid x authorization = some sid ∧
      ∀ e, st.backend.sessions sid = some e → e.value.refreshTokenHash ≠ hashRefreshToken x token)

/-- Where the entry stays, only the clock decides whether the session is there. -/
theorem session_eq_none_iff {b b' : Backend} (hs : b'.sessions sid = b.sessions sid) :
    b'.session sid = none ↔ b.sessions.live b'.now sid = none := by
  rw [Backend.session_eq_none, Redis.Keyspace.live_congr hs]

/-- A request that leaves the session as it is, when the header does not name it or it has the hash of the token. -/
theorem endsSession_iff_of_same {token : String} {authorization : Option String} {b' : Backend}
    (hs : b'.sessions sid = st.backend.sessions sid)
    (hnot : ¬ (AuthController.headerSid x authorization = some sid ∧
      ∀ e, st.backend.sessions sid = some e → e.value.refreshTokenHash ≠ hashRefreshToken x token)) :
    b'.session sid = none ↔ EndsSession x st token authorization sid b'.now := by
  unfold EndsSession
  rw [session_eq_none_iff hs, or_iff_left hnot]

/-- A refresh that answers tokens has found the session of the token, with its hash. -/
theorem Rotated.endsSession_iff_of_refreshed {token : String} {authorization : Option String} {drawn : Drawn} {result : AuthResult}
    {b' : Backend} (hrot : st.Rotated token sid) (h : st.Sound x) (hr : Refreshed x drawn token st.backend result b') :
    b'.session sid = none ↔ EndsSession x st token authorization sid b'.now := by
  obtain ⟨hsame, -, e, he, hhash⟩ := hrot.unchanged h hr
  refine endsSession_iff_of_same (by rw [hsame]) ?_
  rintro ⟨-, hother⟩
  exact hother e he hhash

/-- A refresh whose header names a session. -/
theorem Rotated.endsSession_iff_of_named {token : String} {authorization : Option String} {drawn : Drawn} {k : Sid}
    {r : Except HttpException AuthResult} {b' : Backend} (hrot : st.Rotated token sid) (h : st.Sound x)
    (hheader : AuthController.headerSid x authorization = some k) (hr : RefreshEnds x drawn token k st.backend r b') :
    b'.session sid = none ↔ EndsSession x st token authorization sid b'.now := by
  have hnot : k ≠ sid → ¬ (AuthController.headerSid x authorization = some sid ∧
      ∀ e, st.backend.sessions sid = some e → e.value.refreshTokenHash ≠ hashRefreshToken x token) := by
    rintro hk ⟨hnamed, -⟩
    rw [hheader] at hnamed
    exact hk (Option.some.inj hnamed)
  cases hr with
  | expired hlater hgone =>
    by_cases hk : k = sid
    · subst hk
      have hlive : st.backend.sessions.live b'.now k = none := (session_eq_none_iff (by rw [hlater.sessions])).1 hgone
      exact iff_of_true hgone (.inl hlive)
    · exact endsSession_iff_of_same (by rw [hlater.sessions]) (hnot hk)
  | reused hnow haccounts hstored hother hdeleted =>
    by_cases hk : k = sid
    · subst hk
      have hgone : b'.session k = none := by
        refine Backend.session_eq_none.2 (Redis.Keyspace.live_eq_none.2 ?_)
        intro e he
        rw [hdeleted, Function.update_self] at he
        cases he
      refine iff_of_true hgone (.inr ⟨hheader, ?_⟩)
      intro e he
      rw [hstored, Option.some.injEq] at he
      exact he ▸ hother
    · exact endsSession_iff_of_same (by rw [hdeleted, Function.update_of_ne (Ne.symm hk)]) (hnot hk)
  | answered _ hrefreshed => exact hrot.endsSession_iff_of_refreshed h hrefreshed

/-- What makes the refresh with a rotated token end the session. -/
theorem Rotated.ends {token : String} (hrot : st.Rotated token sid) (h : st.Sound x) (drawn : Drawn) (scan : Scan)
    (authorization : Option String) :
    Ends (AuthController.refresh x drawn scan (some token) authorization)
      (fun _ b' => b'.session sid = none ↔ EndsSession x st token authorization sid b'.now) st.backend := by
  have hne : token ≠ "" := by
    obtain ⟨a, ha, rfl, -, -⟩ := hrot
    exact h.nonempty a ha
  have hcookie : (some token).filter (fun token => token ≠ "") = some token := by simp [hne]
  unfold AuthController.refresh
  rw [hcookie]
  dsimp only
  cases hheader : AuthController.headerSid x authorization with
  | none =>
    refine (ends_refreshByCookie x drawn scan token st.backend).mono ?_
    intro r b' hr
    cases hr with
    | expired hlater =>
      refine endsSession_iff_of_same (by rw [hlater.sessions]) ?_
      rintro ⟨hnamed, -⟩
      rw [hheader] at hnamed
      cases hnamed
    | answered hrefreshed => exact hrot.endsSession_iff_of_refreshed h hrefreshed
  | some k =>
    refine (ends_refresh x drawn token k st.backend).mono ?_
    intro r b' hr
    exact hrot.endsSession_iff_of_named h hheader hr

end Service

/-- In every run, presenting a rotated token of a session destroys the session exactly when the header names it and it has another hash by
now, or it expires before the request is over anyway. -/
theorem reuse_destroys_iff {x : Crypto} {now : Nat} {past : List Served} {st st' : Service} {token : String} {sid : Sid}
    {drawn : Drawn} {scan : Scan} {authorization : Option String} {waits : List Nat}
    (hr : (Service.start now).run x past = .ok st) (hrot : st.Rotated token sid)
    (hs : st.step x ⟨.refresh drawn scan (some token) authorization, waits⟩ = .ok st') :
    st'.Destroyed x sid ↔ Service.EndsSession x st token authorization sid st'.backend.now := by
  have hsound := Service.sound_of_run hr
  have hissued : ∃ a ∈ st'.issued, a.accessToken.sid = sid := by
    obtain ⟨a, ha, -, hsid, -⟩ := hrot
    exact ⟨a, Service.issued_of_step hs a ha, hsid⟩
  rw [Service.destroyed_iff (hsound.step hs) hissued]
  obtain ⟨-, rfl⟩ := Service.step_ok.1 hs
  have hends : Ends (Request.program x (.refresh drawn scan (some token) authorization))
      (fun _ b' => b'.session sid = none ↔ Service.EndsSession x st token authorization sid b'.now) st.backend := by
    refine (hrot.ends hsound drawn scan authorization).bind ?_ ?_
    · intro result b' h
      exact h
    · intro e b' h
      exact h
  exact runAlone_of_ends hends waits

namespace Sample

/-- The service after a login and a refresh with its token. -/
def rotated : Service :=
  ((Service.start 1700000000000).after zkCrypto signIn).after zkCrypto (refreshing "1" "2")

/-- A login and a refresh. -/
theorem rotated_run : (Service.start 1700000000000).run zkCrypto [signIn, refreshing "1" "2"] = .ok rotated := rfl

/-- The first token is rotated then. -/
theorem rotated_token : rotated.Rotated "1" "s1" := by
  refine ⟨_, List.mem_cons_of_mem _ List.mem_cons_self, rfl, rfl, ?_⟩
  decide +kernel

/-- The rotated token comes back, under an `Authorization` header. -/
def reuse (authorization : Option String) : Served where
  request := .refresh (drawn "3") (.last ["s1"]) (some "1") authorization
  waits := []

end Sample

/-- With a header that names the session. -/
theorem reuse_destroys_iff_named :
    ∃ st', Sample.rotated.step Sample.zkCrypto (Sample.reuse (some "Bearer access")) = .ok st' ∧
      (st'.Destroyed Sample.zkCrypto "s1" ↔
        Service.EndsSession Sample.zkCrypto Sample.rotated "1" (some "Bearer access") "s1" st'.backend.now) :=
  ⟨_, rfl, @reuse_destroys_iff _ _ _ _ _ _ _ (Sample.drawn "3") (.last ["s1"]) _ [] Sample.rotated_run Sample.rotated_token rfl⟩

/-- Without a header, the session stays. -/
theorem reuse_unnoticed :
    Sample.rotated.Rotated "1" "s1" ∧ ∃ st', Sample.rotated.step Sample.zkCrypto (Sample.reuse none) = .ok st' ∧
      ¬ st'.Destroyed Sample.zkCrypto "s1" :=
  ⟨Sample.rotated_token, _, rfl, fun h => absurd (congrArg Option.isNone h.gone) (by decide +kernel)⟩

end BrineVault
