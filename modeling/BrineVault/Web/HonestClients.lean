import BrineVault.Web.Overtaking

/-!
# Honest clients

A refresh that another one has overtaken presents a cookie that has been rotated: the API takes it for a reuse and deletes the session, and
the call logs the user out. The calls of a browser are all authorised exactly when no refresh is overtaken.
-/

namespace BrineVault

open Interleaving
open JwtService ApiClient

/-- All calls end with their answers, and `onUnauthorised` is never called. -/
def AllAuthorised (m : BrowserPool) : Prop := (∀ p ∈ m.threads, ∃ user, p = .ret user) ∧ m.store.unauthorised = 0

/-! ## A refresh that finds another hash -/

section Stale

variable {x : Crypto} {sign : JwtPayload → String} {sid : Sid}

/-- What gives up ends in an exception. -/
theorem refused_giveUp {q : Prop} : Keeps (listening fun _ _ => False) (fun _ r => ∃ e, r = .error e) q giveUp := by
  refine ⟨trivial, ?_⟩
  intro _
  exact ⟨_, rfl⟩

/-- A refresh that has read no session, or another hash, leaves the call without an authorisation. -/
theorem refused_refreshRead {drawn : Drawn} {cookie : String} {read : Option SessionData} {q : Prop}
    (h : ∀ data, read = some data → data.refreshTokenHash ≠ hashRefreshToken x cookie) :
    Keeps (listening fun _ _ => False) (fun _ r => ∃ e, r = .error e) q (refreshRest x sign drawn cookie sid read) := by
  unfold refreshRest
  cases read with
  | none => exact refused_giveUp
  | some data =>
    rw [refreshRead_other (h data rfl)]
    refine ⟨trivial, ?_⟩
    intro _
    exact refused_giveUp

/-- A refresh that does not find its hash leaves a call without its answer. -/
theorem not_allAuthorised_of_stale {m n : BrowserPool} {i : Nat} {rest : Schedule} {call : ClientCall} {cookie : String}
    {token : Option String} (hi : n.threads[i]? = some (refreshSent x sign call (some cookie) token)) (hcookie : cookie ≠ "")
    (hsid : AuthController.headerSid x (bearer token) = some sid)
    (hstale : ∀ data, n.store.backend.session sid = some data → data.refreshTokenHash ≠ hashRefreshToken x cookie)
    (hr : n.run (.thread i :: rest) = .ok m) : ¬ AllAuthorised m := by
  intro hall
  rw [refreshSent_eq call hcookie hsid] at hi
  obtain ⟨n', hturn, hrest⟩ := (Steps.run_cons_ok _).1 hr
  rw [step_thread hi, Except.ok.injEq] at hturn
  subst hturn
  have hlt : i < n.threads.length := (List.getElem?_eq_some_iff.1 hi).1
  obtain ⟨p, hp, hkeeps⟩ := keeps_run (List.getElem?_set_self hlt) (refused_refreshRead hstale) hrest
  obtain ⟨user, rfl⟩ := hall.1 p (List.mem_of_getElem? hp)
  obtain ⟨e, he⟩ := hkeeps
  cases he

end Stale

/-! ## The calls of a browser -/

section Runs

variable {x : Crypto} {sign : JwtPayload → String} {sid : Sid} {calls : List ClientCall} {w : Browser} {turns : Schedule}
  {m n : BrowserPool}

/-- No answer is forgotten. -/
theorem answers_exec {a : AuthResult} (h : a ∈ w.answers) (c : BrowserCommand) : a ∈ (w.exec c).2.answers := by
  cases c with
  | answered result => exact List.mem_cons_of_mem _ h
  | _ => exact h

/-- What has been answered stays answered. -/
theorem answers_of_run (hr : n.run turns = .ok m) : ∀ a ∈ n.store.answers, a ∈ m.store.answers := by
  intro a ha
  refine Steps.run_preserves _ (P := fun m => a ∈ m.store.answers) ?_ hr ha
  intro m t m' hm ht
  rcases step_cases ht with ⟨ms, -, rfl⟩ | ⟨i, c, k, -, -, rfl⟩
  · exact hm
  · exact answers_exec hm c

/-- The browser of the start is one from which nobody has been logged out. -/
theorem HoldsSession.intact (sign : JwtPayload → String) (h : HoldsSession x sid calls w) : ∃ first, Intact sign sid first w ∧
    AuthController.headerSid x (bearer (some first)) = some sid := by
  obtain ⟨cookie, data, hcookie, hne, hsession, -⟩ := h.cookie
  obtain ⟨token, payload, htoken, -, -, hsid⟩ := h.token
  obtain ⟨e, he, -⟩ := Option.map_eq_some_iff.1 hsession
  have hstored : w.backend.sessions sid = some e := (Redis.Keyspace.live_eq_some.1 he).1
  refine ⟨token, ⟨?_, ⟨cookie, hcookie, hne⟩, .inl htoken, h.unauthorised, ?_⟩, hsid⟩
  · rw [hstored]
    exact Option.some_ne_none e
  · intro a ha
    rw [h.answers] at ha
    cases ha

/-- As long as every refresh finds its hash, nobody is logged out, and every call goes on safely. -/
theorem intact_of_assumed (h : HoldsSession x sid calls w) (hr : (clients x sign w calls).run turns = .ok m)
    (hturns : Assumed Browser.exec Browser.elapse (AtTurn x sign sid) (clients x sign w calls) turns) :
    ∃ first, Intact sign sid first m.store ∧ AuthController.headerSid x (bearer (some first)) = some sid ∧
      ∀ p ∈ m.threads, Safe Browser.exec (Grows sign sid first) (AtTurn x sign sid) HasAnswer p m.store := by
  obtain ⟨first, hintact, hfirst⟩ := h.intact sign
  have hsafe : ∀ p ∈ (clients x sign w calls).threads, Safe Browser.exec (Grows sign sid first) (AtTurn x sign sid) HasAnswer p w := by
    intro p hp
    obtain ⟨call, hcall, rfl⟩ := List.mem_map.1 hp
    exact safe_fetch hintact (h.delivered call hcall) hfirst (h.drawn call hcall)
  obtain ⟨hgrows, hends⟩ := safe_run Grows.refl (grows_trans sign sid first) grows_elapse hturns hr hsafe
  exact ⟨first, hgrows.intact hintact, hfirst, hends⟩

/-- When every refresh finds its hash, all calls are authorised. -/
theorem allAuthorised_of_assumed (h : HoldsSession x sid calls w) (hr : (clients x sign w calls).run turns = .ok m)
    (hf : m.Finished) (hturns : Assumed Browser.exec Browser.elapse (AtTurn x sign sid) (clients x sign w calls) turns) :
    AllAuthorised m := by
  obtain ⟨first, hintact, -, hends⟩ := intact_of_assumed h hr hturns
  refine ⟨?_, hintact.unauthorised⟩
  intro p hp
  have hend := hends p hp
  have hresult := hf p hp
  cases p with
  | ret user => exact ⟨user, rfl⟩
  | throw e =>
    obtain ⟨user, huser⟩ := hend m.store (Grows.refl m.store)
    cases huser
  | call c k => cases hresult

/-! ## Refreshes in step -/

/-- A browser from which nobody has been logged out has a cookie at hand, and a token that names the session. -/
theorem Intact.ready {first : String} (h : Intact sign sid first w) (hfirst : AuthController.headerSid x (bearer (some first)) = some sid)
    (hsign : ∀ a ∈ w.answers, Verified x sign a.accessToken) : Ready x sid w := by
  refine ⟨?_, h.cookie⟩
  rcases h.token with htoken | ⟨a, ha, htoken⟩
  · rw [htoken]
    exact hfirst
  · have hsid : a.accessToken.sid = sid := (h.answers a ha).1
    rw [htoken, ← hsid]
    exact (hsign a ha).headerSid (hsid ▸ headerSid_ne_empty hfirst)

section InStep

variable (h : HoldsSession x sid calls w) (hr : (clients x sign w calls).run turns = .ok m)
  (hsign : ∀ a ∈ m.store.answers, Verified x sign a.accessToken)
  (htime : ∀ past rest n, turns = past ++ rest → (clients x sign w calls).run past = .ok n → Timely sid n.store)
include hr hsign htime

/-- What is assumed at the turns of the beginning of a run, when the refreshes find their hashes. -/
theorem atTurn_of_finds {past rest : Schedule} (hturns : turns = past ++ rest)
    (hfinds : Assumed Browser.exec Browser.elapse (FindsItsHash x sign sid) (clients x sign w calls) past) :
    Assumed Browser.exec Browser.elapse (AtTurn x sign sid) (clients x sign w calls) past := by
  intro past' i rest' n p hpast hn hi
  have hsplit : turns = past' ++ (.thread i :: rest' ++ rest) := by rw [hturns, hpast, List.append_assoc]
  obtain ⟨n', hn', hrest⟩ := Steps.run_prefix _ hr hsplit
  obtain rfl : n' = n := Except.ok.inj (hn'.symm.trans hn)
  refine ⟨htime past' _ n' hsplit hn, ?_, hfinds past' i rest' n' p hpast hn hi⟩
  intro a ha
  exact hsign a (answers_of_run hrest a ha)

include h

/-- Then the calls find what they need, and the session is there. -/
theorem ready_of_finds {past rest : Schedule} {n : BrowserPool} (hturns : turns = past ++ rest) (hn : (clients x sign w calls).run past = .ok n)
    (hfinds : Assumed Browser.exec Browser.elapse (FindsItsHash x sign sid) (clients x sign w calls) past) :
    Ready x sid n.store ∧ ∃ data, n.store.backend.session sid = some data := by
  obtain ⟨first, hintact, hfirst, -⟩ := intact_of_assumed h hn (atTurn_of_finds hr hsign htime hturns hfinds)
  obtain ⟨n', hn', hrest⟩ := Steps.run_prefix _ hr hturns
  obtain rfl : n' = n := Except.ok.inj (hn'.symm.trans hn)
  exact ⟨hintact.ready hfirst fun a ha => hsign a (answers_of_run hrest a ha), hintact.session_of_timely (htime past rest n' hturns hn)⟩

/-- Then the cookies and the session are in order. -/
theorem ordered_of_finds {first : String} (hcookie : w.cookie = some first) {past rest : Schedule} {n : BrowserPool}
    (hturns : turns = past ++ rest) (hn : (clients x sign w calls).run past = .ok n)
    (hfinds : Assumed Browser.exec Browser.elapse (FindsItsHash x sign sid) (clients x sign w calls) past) :
    Ordered x sign sid first calls (clients x sign w calls) past n := by
  have hsession : ∀ e, w.backend.sessions sid = some e → e.value.refreshTokenHash = hashRefreshToken x first := by
    intro e he
    obtain ⟨cookie, data, hcookie', -, hdata, hhash⟩ := h.cookie
    obtain rfl : first = cookie := Option.some.inj (hcookie.symm.trans hcookie')
    obtain ⟨e', he', rfl⟩ := Option.map_eq_some_iff.1 hdata
    obtain rfl : e = e' := Option.some.inj (he.symm.trans (Redis.Keyspace.live_eq_some.1 he').1)
    exact hhash
  refine ordered_run (ordered_start hcookie h.delivered hsession) hn ?_
  intro past' t rest' n' hpast hn'
  have hsplit : turns = past' ++ (t :: rest' ++ rest) := by rw [hturns, hpast, List.append_assoc]
  exact (ready_of_finds h hr hsign htime hsplit hn' (hpast ▸ hfinds).of_append).1

/-- When no two tokens have one hash: every refresh finds its hash exactly when every refresh is in step. -/
theorem findsItsHash_iff_inStep {first : String} (hcookie : w.cookie = some first) (hdraw : DrawApart x first calls) :
    Assumed Browser.exec Browser.elapse (FindsItsHash x sign sid) (clients x sign w calls) turns ↔
      InStep sid (clients x sign w calls) turns := by
  constructor
  · intro hfinds past mid rest i n k hturns hn hi hmid
    have hsplit : turns = (past ++ .thread i :: mid) ++ (.thread i :: rest) := by rw [hturns]; simp
    obtain ⟨n', hn', -⟩ := Steps.run_prefix _ hr hsplit
    have hbefore := (hturns ▸ hfinds).of_append
    have hlater := (hsplit ▸ hfinds).of_append
    exact lastSet_of_assumed hdraw (ordered_of_finds h hr hsign htime hcookie hturns hn hbefore)
      (ordered_of_finds h hr hsign htime hcookie hsplit hn' hlater) (ready_of_finds h hr hsign htime hturns hn hbefore).1 hn hn' hi hmid
      (hturns ▸ hfinds)
  · intro hstep
    -- Turn after turn: what has been found so far orders the cookies and the session.
    have hprefixes : ∀ past rest, turns = past ++ rest →
        Assumed Browser.exec Browser.elapse (FindsItsHash x sign sid) (clients x sign w calls) past := by
      intro past
      induction past using List.reverseRecOn with
      | nil =>
        intro rest _ past' i rest' n p hpast
        simp at hpast
      | append_singleton past t ih =>
        intro rest hturns past' i rest' n p hpast hn hi
        have hfinds := ih (t :: rest) (by rw [hturns]; simp)
        rcases Steps.snoc_eq_append_cons hpast with ⟨-, rfl, rfl⟩ | ⟨rest'', -, rfl⟩
        · have hsplit : turns = past' ++ .thread i :: rest := by rw [hturns]; simp
          obtain ⟨-, hlive⟩ := ready_of_finds h hr hsign htime hsplit hn hfinds
          exact (ordered_of_finds h hr hsign htime hcookie hsplit hn hfinds).findsItsHash hdraw hi hlive (hsplit ▸ hstep)
        · exact hfinds past' i rest'' n p rfl hn hi
    exact hprefixes turns [] (by simp)

end InStep

end Runs

/-- For every number of calls and every interleaving: all calls end with their answers, and `onUnauthorised` is never called, exactly when
every refresh that reads the session finds the hash of its cookie there. Where no two tokens have one hash, that is when every refresh is in step: the
answer that has come in last when it reads its cookie is that of the refresh that has set the session last when it has the session looked up. -/
theorem honest_clients_iff {x : Crypto} {sign : JwtPayload → String} {sid : Sid} {calls : List ClientCall} {w : Browser}
    {turns : Schedule} {m : BrowserPool} (h : HoldsSession x sid calls w) (hr : (clients x sign w calls).run turns = .ok m)
    (hf : m.Finished) (hsign : ∀ a ∈ m.store.answers, Verified x sign a.accessToken)
    (htime : ∀ past rest n, turns = past ++ rest → (clients x sign w calls).run past = .ok n → Timely sid n.store) :
    (AllAuthorised m ↔ Assumed Browser.exec Browser.elapse (FindsItsHash x sign sid) (clients x sign w calls) turns) ∧
      ∀ first, w.cookie = some first → DrawApart x first calls → (AllAuthorised m ↔ InStep sid (clients x sign w calls) turns) := by
  have hall : AllAuthorised m ↔ Assumed Browser.exec Browser.elapse (FindsItsHash x sign sid) (clients x sign w calls) turns := by
    constructor
    · intro hall past i rest n p hturns hn hi call cookie token hp hcookie hsid
      subst hp
      by_contra hnone
      have hstale : ∀ data, n.store.backend.session sid = some data → data.refreshTokenHash ≠ hashRefreshToken x cookie := by
        intro data hdata hhash
        exact hnone ⟨data, hdata, hhash⟩
      obtain ⟨n', hn', hrest⟩ := Steps.run_prefix _ hr hturns
      obtain rfl : n' = n := Except.ok.inj (hn'.symm.trans hn)
      exact not_allAuthorised_of_stale hi hcookie hsid hstale hrest hall
    · intro hfinds
      exact allAuthorised_of_assumed h hr hf (atTurn_of_finds hr hsign htime (List.append_nil turns).symm hfinds)
  refine ⟨hall, ?_⟩
  intro first hcookie hdraw
  exact hall.trans (findsItsHash_iff_inStep h hr hsign htime hcookie hdraw)

namespace Sample

/-- An access token of the session `s`. -/
def accessToken (jti : String) (iat : Nat) : JwtPayload :=
  { sub := .given 7, address := "0x7", orgId := none, orgRole := 0, sid := "s", jti, iat, exp := iat + 900 }

/-- The crypto of the sample, with the texts of three access tokens. -/
def webCrypto : Crypto :=
  { crypto with
    decodeJwt
      | "j1" | "j2" | "j3" => some { iss := some "brinevault", sub := some "7", sid := some "s" }
      | _ => none
    signedPayload
      | "j1" => some (accessToken "j1" 1699999000)
      | "j2" => some (accessToken "j2" 1700000000)
      | "j3" => some (accessToken "j3" 1700000000)
      | _ => none }

/-- A browser with the cookie `1` and an access token that has expired. -/
def browser : Browser := { backend, token := some "j1", cookie := some "1", unauthorised := 0, answers := [] }

/-- Two calls, whose refreshes draw the tokens `2` and `3`. -/
def twoCalls : List ClientCall :=
  [{ drawn := drawn "2", scan := .last ["s"], net := [] }, { drawn := drawn "3", scan := .last ["s"], net := [] }]

/-- The sample browser holds the session. -/
theorem browser_holdsSession : HoldsSession webCrypto "s" twoCalls browser where
  cookie := ⟨"1", session, rfl, by decide, by decide +kernel, by decide +kernel⟩
  token := ⟨"j1", accessToken "j1" 1699999000, rfl, rfl, by decide +kernel, by decide +kernel⟩
  unauthorised := rfl
  answers := rfl
  drawn := by decide +kernel
  delivered := by decide

/-- One call after the other: only the first is answered 401. -/
def oneByOne : Schedule := turnsOf 0 17 ++ turnsOf 1 4

/-- Both calls are answered 401 and have sent their refreshes with the same cookie, when the API serves the first of them. -/
def overtaken : Schedule := turnsOf 0 4 ++ turnsOf 1 4 ++ turnsOf 0 13 ++ turnsOf 1 3

/-- The credentials stay valid along the run. -/
def staysTimely (turns : Schedule) : Bool :=
  (List.range (turns.length + 1)).all fun n =>
    ((clients webCrypto (·.jti) browser twoCalls).run (turns.take n)).toOption.all fun m => Timely "s" m.store

/-- The credentials of the sample, at each of its turns. -/
theorem timely_of_staysTimely (turns : Schedule) (h : staysTimely turns = true) (past rest : Schedule) (n : BrowserPool)
    (hturns : turns = past ++ rest) (hn : (clients webCrypto (·.jti) browser twoCalls).run past = .ok n) : Timely "s" n.store := by
  have hlt : past.length < turns.length + 1 := by
    rw [hturns, List.length_append]
    omega
  have htake : turns.take past.length = past := by
    rw [hturns]
    exact List.take_left
  have hpast := List.all_eq_true.1 h past.length (List.mem_range.2 hlt)
  rw [htake, hn] at hpast
  exact of_decide_eq_true hpast

/-- The tokens of the sample verify. -/
theorem verified {jti : String} (h : jti = "j2" ∨ jti = "j3") : Verified webCrypto (·.jti) (accessToken jti 1700000000) := by
  rcases h with rfl | rfl
  · exact ⟨by decide, rfl, _, rfl, rfl⟩
  · exact ⟨by decide, rfl, _, rfl, rfl⟩

/-- The access tokens that have come in are those of the sample. -/
def Known (w : Browser) : Prop := ∀ a ∈ w.answers, ∃ jti ∈ ["j2", "j3"], a.accessToken = accessToken jti 1700000000

instance (w : Browser) : Decidable (Known w) := inferInstanceAs (Decidable (∀ a ∈ w.answers, ∃ jti ∈ ["j2", "j3"], _))

/-- All tokens that come in verify. -/
theorem Known.verified {w : Browser} (h : Known w) : ∀ a ∈ w.answers, Verified webCrypto (·.jti) a.accessToken := by
  intro a ha
  obtain ⟨jti, hjti, htoken⟩ := h a ha
  rw [htoken]
  exact Sample.verified (by simpa using hjti)

end Sample

/-- Two calls, of which the second finds the token that the first has been given. -/
theorem honest_clients_one_by_one :
    ∃ m, (clients Sample.webCrypto (·.jti) Sample.browser Sample.twoCalls).run Sample.oneByOne = .ok m ∧ m.Finished ∧
      (AllAuthorised m ↔ Assumed Browser.exec Browser.elapse (FindsItsHash Sample.webCrypto (·.jti) "s")
        (clients Sample.webCrypto (·.jti) Sample.browser Sample.twoCalls) Sample.oneByOne) ∧
      (AllAuthorised m ↔ InStep "s" (clients Sample.webCrypto (·.jti) Sample.browser Sample.twoCalls) Sample.oneByOne) := by
  obtain ⟨m, hrun, hfinished, hknown⟩ := Move.exists_ok_of_any
    (x := (clients Sample.webCrypto (·.jti) Sample.browser Sample.twoCalls).run Sample.oneByOne)
    (P := fun m => m.Finished ∧ Sample.Known m.store) (by decide +kernel)
  have htimely := Sample.timely_of_staysTimely Sample.oneByOne (by decide +kernel)
  obtain ⟨hfinds, hstep⟩ := honest_clients_iff Sample.browser_holdsSession hrun hfinished hknown.verified htimely
  have hdraw : DrawApart Sample.webCrypto "1" Sample.twoCalls := by
    unfold DrawApart
    decide +kernel
  exact ⟨m, hrun, hfinished, hfinds, hstep "1" rfl hdraw⟩

/-- The API takes the second refresh for a reuse, and the second call logs the user out. -/
theorem overtaken_client_logged_out :
    HoldsSession Sample.webCrypto "s" Sample.twoCalls Sample.browser ∧
      ∃ m, (clients Sample.webCrypto (·.jti) Sample.browser Sample.twoCalls).run Sample.overtaken = .ok m ∧ m.Finished ∧
        (∀ a ∈ m.store.answers, Verified Sample.webCrypto (·.jti) a.accessToken) ∧
        (∀ past rest n, Sample.overtaken = past ++ rest →
          (clients Sample.webCrypto (·.jti) Sample.browser Sample.twoCalls).run past = .ok n → Timely "s" n.store) ∧
        m.store.backend.session "s" = none ∧ ¬ AllAuthorised m := by
  obtain ⟨m, hrun, hfinished, hknown, hgone, hlogout⟩ := Move.exists_ok_of_any
    (x := (clients Sample.webCrypto (·.jti) Sample.browser Sample.twoCalls).run Sample.overtaken)
    (P := fun m => m.Finished ∧ Sample.Known m.store ∧ m.store.backend.session "s" = none ∧ m.store.unauthorised ≠ 0)
    (by decide +kernel)
  have htimely := Sample.timely_of_staysTimely Sample.overtaken (by decide +kernel)
  refine ⟨Sample.browser_holdsSession, m, hrun, hfinished, hknown.verified, htimely, hgone, ?_⟩
  intro hall
  exact hlogout hall.2

end BrineVault
