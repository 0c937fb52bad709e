import BrineVault.Api.Reuse

/-!
# Requests by strangers

A refresh whose token was never issued for a session has nothing to do with it. The `Authorization` header may name the session all the same, in a
JWT that nobody has signed, and then the session is compared with the token and deleted.
-/

namespace BrineVault

open Interleaving
open SessionService JwtService

namespace Service

/-- The cookie is no token that was ever issued for the session. -/
def Foreign (st : Service) (cookie : Option String) (sid : Sid) : Prop :=
  ∀ a ∈ st.issued, a.accessToken.sid = sid → cookie ≠ some a.refreshToken

/-- SHA-256 tells the cookie from the tokens that have been issued. -/
def NoCollision (x : Crypto) (st : Service) (cookie : Option String) : Prop :=
  ∀ token, cookie = some token → ∀ a ∈ st.issued, hashRefreshToken x a.refreshToken = hashRefreshToken x token → a.refreshToken = token

/-- The header of a request with a cookie names the session, and the session is there when it is read. -/
def Names (x : Crypto) (st : Service) (cookie authorization : Option String) (sid : Sid) (waits : List Nat) : Prop :=
  (∃ token, cookie = some token ∧ token ≠ "") ∧ AuthController.headerSid x authorization = some sid ∧
    st.backend.sessions.live (st.backend.now + waits.headD 0) sid ≠ none

variable {x : Crypto} {st : Service} {sid : Sid} {token : String} {drawn : Drawn} {scan : Scan} {authorization : Option String}

/-- No session with the hash of a foreign token is the session. -/
theorem Sound.foreign_hash (h : st.Sound x) (hforeign : st.Foreign (some token) sid) (hno : st.NoCollision x (some token))
    {e : Redis.Entry SessionData} (he : st.backend.sessions sid = some e) : e.value.refreshTokenHash ≠ hashRefreshToken x token := by
  intro heq
  obtain ⟨a, ha, hsid, hstored, _⟩ := h.stored sid e he
  have htoken : a.refreshToken = token := hno token rfl a ha (hstored.symm.trans heq)
  exact hforeign a ha hsid (congrArg some htoken.symm)

/-- A refresh that is answered has renewed another session. -/
theorem Sound.refreshed_other (h : st.Sound x) (hforeign : st.Foreign (some token) sid) (hno : st.NoCollision x (some token))
    {a : AuthResult} {b' : Backend} (hr : Refreshed x drawn token st.backend a b') : b'.sessions sid = st.backend.sessions sid := by
  obtain ⟨data, hfound, hhash⟩ := hr.found
  obtain ⟨e, he, rfl⟩ := Option.map_eq_some_iff.1 hfound
  have hne : sid ≠ a.accessToken.sid := by
    rintro rfl
    exact h.foreign_hash hforeign hno (Redis.Keyspace.live_eq_some.1 he).1 hhash
  obtain ⟨hsame, _⟩ | ⟨_, _, _, _, _, hset⟩ := hr.renewed.sessions
  · rw [hsame]
  · rw [hset, Function.update_of_ne hne]

/-- A refresh without a header, or whose header names another session. -/
theorem Sound.ends_unnamed (h : st.Sound x) (hforeign : st.Foreign (some token) sid) (hno : st.NoCollision x (some token))
    (hheader : AuthController.headerSid x authorization ≠ some sid) :
    Ends (AuthController.refresh x drawn scan (some token) authorization)
      (fun _ b' => b'.sessions sid = st.backend.sessions sid) st.backend := by
  unfold AuthController.refresh
  split
  · exact rfl
  · rename_i token' hcookie
    obtain rfl : token = token' := Option.some.inj (Option.filter_eq_some_iff.1 hcookie).1
    split
    · rename_i k hk
      have hne : sid ≠ k := by
        rintro rfl
        exact hheader hk
      refine (ends_refresh x drawn token k st.backend).mono ?_
      intro r b' hr
      cases hr with
      | expired hlater _ => rw [hlater.sessions]
      | reused _ _ _ _ hdeleted => rw [hdeleted, Function.update_of_ne hne]
      | answered _ hrefreshed => exact h.refreshed_other hforeign hno hrefreshed
    · refine (ends_refreshByCookie x drawn scan token st.backend).mono ?_
      intro r b' hr
      cases hr with
      | expired hlater => rw [hlater.sessions]
      | answered hrefreshed => exact h.refreshed_other hforeign hno hrefreshed

/-- A refresh whose header names the session deletes it, when it is there. -/
theorem Sound.sessions_of_named (h : st.Sound x) (hforeign : st.Foreign (some token) sid) (hno : st.NoCollision x (some token))
    (hne : token ≠ "") (hheader : AuthController.headerSid x authorization = some sid) (drawn : Drawn) (scan : Scan) (waits : List Nat) :
    (runAlone (Request.program x (.refresh drawn scan (some token) authorization)) st.backend waits).2.sessions sid =
      if st.backend.sessions.live (st.backend.now + waits.headD 0) sid = none then st.backend.sessions sid else none := by
  have hcookie : (some token).filter (fun token => token ≠ "") = some token := by simp [hne]
  have hread : ((st.backend.elapse (waits.headD 0)).exec (.session (.get sid))).1 =
      (st.backend.sessions.live (st.backend.now + waits.headD 0) sid).map (·.value) := rfl
  unfold Request.program AuthController.refresh
  dsimp only
  rw [hcookie, hheader]
  simp only [AuthService.refresh, getSession, Prog.send_bind, Prog.call_bind]
  rw [runAlone_call, hread]
  cases hlive : st.backend.sessions.live (st.backend.now + waits.headD 0) sid with
  | none =>
    rw [if_pos rfl]
    rfl
  | some e =>
    have hother := h.foreign_hash hforeign hno (Redis.Keyspace.live_eq_some.1 hlive).1
    rw [if_neg (by simp)]
    dsimp only [Option.map_some]
    rw [if_pos hother]
    simp only [deleteSession, Prog.send_bind, Prog.call_bind]
    rw [runAlone_call]
    change Function.update st.backend.sessions sid none sid = none
    rw [Function.update_self]

end Service

/-- In every run, a refresh with a token that was never issued for a session leaves the session as it is exactly when its header does not
name it, or it has expired. -/
theorem strangers_cannot_end_iff {x : Crypto} {now : Nat} {past : List Served} {st st' : Service} {sid : Sid} {drawn : Drawn} {scan : Scan}
    {cookie authorization : Option String} {waits : List Nat} (hr : (Service.start now).run x past = .ok st)
    (hforeign : st.Foreign cookie sid) (hno : st.NoCollision x cookie)
    (hs : st.step x ⟨.refresh drawn scan cookie authorization, waits⟩ = .ok st') :
    st'.backend.sessions sid = st.backend.sessions sid ↔ ¬ Service.Names x st cookie authorization sid waits := by
  have hsound := Service.sound_of_run hr
  obtain ⟨-, rfl⟩ := Service.step_ok.1 hs
  unfold Service.Names
  by_cases hcookie : ∃ token, cookie = some token ∧ token ≠ ""
  · obtain ⟨token, rfl, hne⟩ := hcookie
    by_cases hheader : AuthController.headerSid x authorization = some sid
    · have hafter := hsound.sessions_of_named hforeign hno hne hheader drawn scan waits
      have hnames : ((∃ t, some token = some t ∧ t ≠ "") ∧ AuthController.headerSid x authorization = some sid ∧
          st.backend.sessions.live (st.backend.now + waits.headD 0) sid ≠ none) ↔
          st.backend.sessions.live (st.backend.now + waits.headD 0) sid ≠ none := by
        simp [hne, hheader]
      rw [hnames, Decidable.not_not]
      change (runAlone _ st.backend waits).2.sessions sid = _ ↔ _
      rw [hafter]
      by_cases hlive : st.backend.sessions.live (st.backend.now + waits.headD 0) sid = none
      · rw [if_pos hlive]
        exact iff_of_true rfl hlive
      · rw [if_neg hlive]
        refine iff_of_false ?_ hlive
        intro hnone
        obtain ⟨e, he⟩ := Option.ne_none_iff_exists'.1 hlive
        rw [(Redis.Keyspace.live_eq_some.1 he).1] at hnone
        cases hnone
    · have hends : Ends (Request.program x (.refresh drawn scan (some token) authorization))
          (fun _ b' => b'.sessions sid = st.backend.sessions sid) st.backend := by
        refine (hsound.ends_unnamed hforeign hno hheader).bind ?_ ?_
        · intro result b' h
          exact h
        · intro e b' h
          exact h
      refine iff_of_true (runAlone_of_ends hends waits) ?_
      rintro ⟨-, hnamed, -⟩
      exact hheader hnamed
  · have hnone : cookie.filter (fun token => token ≠ "") = none := by
      rw [Option.filter_eq_none_iff]
      intro token htoken hne
      exact hcookie ⟨token, htoken, by simpa using hne⟩
    refine iff_of_true ?_ (fun h => hcookie h.1)
    change (runAlone (Request.program x (.refresh drawn scan cookie authorization)) st.backend waits).2.sessions sid = _
    unfold Request.program AuthController.refresh
    dsimp only
    rw [hnone]
    rfl

namespace Sample

/-- The service after a login. -/
def signedIn : Service := (Service.start 1700000000000).after zkCrypto signIn

/-- The sample signs in. -/
theorem signedIn_run : (Service.start 1700000000000).run zkCrypto [signIn] = .ok signedIn := rfl

/-- A refresh with a token that was never issued, under an `Authorization` header. -/
def stranger (authorization : Option String) : Served where
  request := .refresh (drawn "4") (.last ["s1"]) (some "3") authorization
  waits := []

/-- The stranger's cookie was never issued. -/
theorem stranger_foreign : signedIn.Foreign (some "3") "s1" := by
  unfold Service.Foreign
  decide +kernel

/-- Its hash is none of the issued ones. -/
theorem stranger_noCollision : signedIn.NoCollision zkCrypto (some "3") := by
  rintro token ⟨⟩
  decide +kernel

end Sample

/-- With a header that names the session. -/
theorem strangers_cannot_end_iff_named :
    ∃ st', Sample.signedIn.step Sample.zkCrypto (Sample.stranger (some "Bearer access")) = .ok st' ∧
      (st'.backend.sessions "s1" = Sample.signedIn.backend.sessions "s1" ↔
        ¬ Service.Names Sample.zkCrypto Sample.signedIn (some "3") (some "Bearer access") "s1" []) :=
  ⟨_, rfl, @strangers_cannot_end_iff _ _ _ _ _ _ (Sample.drawn "4") (.last ["s1"]) _ _ [] Sample.signedIn_run Sample.stranger_foreign
    Sample.stranger_noCollision rfl⟩

/-- The session is there before the request, and gone after it. -/
theorem session_ended_by_stranger :
    Sample.signedIn.Foreign (some "3") "s1" ∧ (Sample.signedIn.backend.sessions "s1").isSome ∧
      ∃ st', Sample.signedIn.step Sample.zkCrypto (Sample.stranger (some "Bearer access")) = .ok st' ∧
        st'.backend.sessions "s1" ≠ Sample.signedIn.backend.sessions "s1" :=
  ⟨Sample.stranger_foreign, by decide +kernel, _, rfl, by decide +kernel⟩

end BrineVault
