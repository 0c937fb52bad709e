import BrineVault.Api.SideBySide
import BrineVault.Lib.Move

/-!
# What a logout does to the access token

A logout puts the `jti` of its access token on the blacklist until the token expires. Whether the session comes back does not matter then:
no request that begins after the logout has been answered is let through with this token, whatever else is going on, unless the token
expires while the guard is at work.
-/

namespace BrineVault

open Interleaving
open SessionService JwtService

/-! ## How long a token stays on the blacklist -/

/-- How a request puts a token on the blacklist that expires at `exp`, in seconds: up to the token's expiry or longer, counted from the
last time it has read off the clock. The state is that time. -/
def covering (jti : String) (exp : Nat) : Protocol Command Command.Reply Nat where
  allows
    | seen, .blacklist (.set k _ ex) => k = jti → exp * 1000 ≤ seen + ex * 1000
    | _, .blacklist (.del k) => k ≠ jti
    | _, _ => True
  next
    | _, .dateNow, (now : Nat) => now
    | seen, _, _ => seen

/-- A plain command is always allowed. -/
theorem covering_allows {jti : String} {exp seen : Nat} {c : Command} (hc : c.Plain) : (covering jti exp).allows seen c := by
  cases c with
  | blacklist c =>
    cases c with
    | set => exact hc.elim
    | del => exact hc.elim
    | _ => trivial
  | _ => trivial

/-- No two access tokens that the API has signed share their `jti`, and so not their expiry. -/
def Crypto.DistinctJtis (x : Crypto) : Prop :=
  ∀ ⦃token token' payload payload'⦄, x.signedPayload token = some payload → x.signedPayload token' = some payload' →
    payload.jti = payload'.jti → payload.exp = payload'.exp

section Requests

variable {x : Crypto} {token : String} {payload : JwtPayload}

/-- A logout covers the token: under its id it stores nothing that ends before the token does. -/
theorem covering_logout (hx : x.DistinctJtis) (hsigned : x.signedPayload token = some payload) (authorization : Option String) (seen : Nat) :
    Keeps (covering payload.jti payload.exp) (fun _ _ => True) seen (Request.program x (.logout authorization)) := by
  refine ((plain_canActivate x authorization).of_allowing fun _ _ => covering_allows).bind ?_ fun _ _ _ => trivial
  intro seen user huser
  obtain ⟨token', -, hsigned'⟩ := huser user rfl
  refine ⟨trivial, ?_⟩
  intro _
  refine ⟨trivial, ?_⟩
  intro now
  change Keeps _ _ _ ((if _ then _ else pure ()) >>= _)
  split
  · refine ⟨?_, fun _ => trivial⟩
    intro hjti
    have hexp : user.exp = payload.exp := hx hsigned' hsigned hjti
    change payload.exp * 1000 ≤ now + _ * 1000
    omega
  · trivial

/-- Every request covers the token it revokes. -/
theorem covering_program (hx : x.DistinctJtis) (hsigned : x.signedPayload token = some payload) (request : Request) (seen : Nat) :
    Keeps (covering payload.jti payload.exp) (fun _ _ => True) seen (request.program x) := by
  by_cases h : ∃ authorization, request = .logout authorization
  · obtain ⟨authorization, rfl⟩ := h
    exact covering_logout hx hsigned authorization seen
  · exact (plain_program x (not_exists.1 h)).of_allowing fun _ _ => covering_allows

end Requests

/-- The token is on the blacklist up to its expiry, or it has expired. -/
def Backend.Revoked (b : Backend) (jti : String) (exp : Nat) : Prop :=
  exp * 1000 ≤ b.now ∨ ∃ e, b.blacklist jti = some e ∧ exp * 1000 ≤ e.expireAt

section Pool

variable {α : Type} {jti : String} {exp : Nat} {m n : ApiPool α} {t : Turn Nat} {turns : Schedule}

/-- A revoked token stays so as time goes by. -/
theorem Backend.Revoked.elapse {b : Backend} (h : b.Revoked jti exp) (ms : Nat) : (b.elapse ms).Revoked jti exp :=
  h.imp (fun hexp => Nat.le_trans hexp (Nat.le_add_right ..)) id

/-- A token that is revoked stays so, and the blacklisting of it revokes it. -/
theorem Backend.Revoked.exec {b : Backend} {c : Command} {seen : Nat} (hseen : seen ≤ b.now) (hc : (covering jti exp).allows seen c)
    (h : b.Revoked jti exp ∨ ∃ ex, c = .blacklist (.set jti () ex)) : (b.exec c).2.Revoked jti exp := by
  have written : ∀ ex, exp * 1000 ≤ seen + ex * 1000 → (b.exec (.blacklist (.set jti () ex))).2.Revoked jti exp := by
    intro ex hex
    refine .inr ⟨_, Function.update_self .., ?_⟩
    change exp * 1000 ≤ b.now + ex * 1000
    omega
  rcases h with h | ⟨ex, rfl⟩
  · rcases h with hexp | ⟨e, he, hle⟩
    · left
      rwa [Backend.exec_now]
    · cases c with
      | blacklist c =>
        cases c with
        | set k v ex =>
          by_cases hk : k = jti
          · subst hk
            exact written ex (hc rfl)
          · exact .inr ⟨e, (Function.update_of_ne (Ne.symm hk) ..).trans he, hle⟩
        | del k => exact .inr ⟨e, (Function.update_of_ne (Ne.symm hc) ..).trans he, hle⟩
        | _ => exact .inr ⟨e, he, hle⟩
      | _ => exact .inr ⟨e, he, hle⟩
  · exact written ex (hc rfl)

/-- Every request covers the token, and what it has read off the clock is past. -/
def Covered (jti : String) (exp : Nat) (m : ApiPool α) : Prop :=
  ∀ p ∈ m.threads, ∃ seen ≤ m.store.now, Keeps (covering jti exp) (fun _ _ => True) seen p

/-- A turn keeps the requests covered. -/
theorem Covered.step (h : Covered jti exp m) (hs : Interleaving.step Backend.exec Backend.elapse m t = .ok n) : Covered jti exp n := by
  obtain ⟨ms, -, rfl⟩ | ⟨i, c, k, -, hi, rfl⟩ := step_cases hs
  · intro p hp
    obtain ⟨seen, hseen, hk⟩ := h p hp
    exact ⟨seen, Nat.le_trans hseen (Nat.le_add_right ..), hk⟩
  · intro p hp
    change ∃ seen ≤ (m.store.exec c).2.now, _
    rw [Backend.exec_now]
    obtain hp | rfl := List.mem_or_eq_of_mem_set hp
    · exact h p hp
    · obtain ⟨seen, hseen, -, hk⟩ := h _ (List.mem_of_getElem? hi)
      refine ⟨(covering jti exp).next seen c (m.store.exec c).1, ?_, hk _⟩
      cases c with
      | dateNow => exact Nat.le_refl _
      | _ => exact hseen

theorem Covered.run (h : Covered jti exp m) (hr : m.run turns = .ok n) : Covered jti exp n :=
  Steps.run_preserves _ (fun _ _ _ => Covered.step) hr h

/-- A turn keeps a token revoked. -/
theorem revoked_step (hm : Covered jti exp m) (hs : Interleaving.step Backend.exec Backend.elapse m t = .ok n)
    (h : m.store.Revoked jti exp) : n.store.Revoked jti exp := by
  obtain ⟨ms, -, rfl⟩ | ⟨i, c, k, -, hi, rfl⟩ := step_cases hs
  · exact h.elapse ms
  · obtain ⟨seen, hseen, hc, -⟩ := hm _ (List.mem_of_getElem? hi)
    exact .exec hseen hc (.inl h)

theorem revoked_run (hm : Covered jti exp m) (hr : m.run turns = .ok n) (h : m.store.Revoked jti exp) : n.store.Revoked jti exp :=
  (Steps.run_preserves _ (P := fun n => Covered jti exp n ∧ n.store.Revoked jti exp)
    (fun _ _ _ hn hs => ⟨hn.1.step hs, revoked_step hn.1 hs hn.2⟩) hr ⟨hm, h⟩).2

/-- The clock does not go back. -/
theorem now_le_of_run (hr : m.run turns = .ok n) : m.store.now ≤ n.store.now := by
  rw [now_run hr]
  exact Nat.le_add_right ..

end Pool

/-! ## What a request learns -/

section Heard

variable {x : Crypto} {authorization : Option String} {token : String} {payload : JwtPayload}

/-- A token that has not expired by the second has not by the millisecond. -/
theorem lt_of_not_expired {exp now : Nat} (h : ¬ exp ≤ now / 1000) : now < exp * 1000 := by
  omega

/-- A guard that lets a token through has read a clock before the token's expiry, and has not found it on the blacklist. -/
theorem heard_canActivate {hit : (c : Command) → c.Reply → Prop} (hbearer : bearerToken authorization = some token)
    (hsigned : x.signedPayload token = some payload)
    (hhit : ∀ now there : Nat, now < payload.exp * 1000 → there ≠ 1 →
      hit .dateNow now ∨ hit (.blacklist (.existsKey payload.jti)) there) :
    Keeps (listening hit) (fun q r => ∀ user, r = .ok user → q) False (AuthGuard.canActivate x authorization) := by
  have refused : ∀ (q : Prop) (code message : String) (user : JwtPayload),
      (Except.error (UnauthorizedException code message) : Except HttpException JwtPayload) = .ok user → q := by
    intro _ _ _ _ h
    cases h
  unfold AuthGuard.canActivate
  split
  · exact refused _ _ _
  · rename_i token' htoken
    obtain rfl : token' = token := Option.some.inj ((Option.filter_eq_some_iff.1 htoken).1.symm.trans hbearer)
    unfold verifyAccessToken
    rw [hsigned]
    refine ⟨trivial, ?_⟩
    intro now
    change Keeps _ _ _ ((if _ then pure none else pure (some payload)) >>= _)
    split
    · exact refused _ _ _
    · rename_i hnow
      refine ⟨trivial, ?_⟩
      intro there
      change Keeps _ _ _ (if ((there : Nat) == 1) = true then _ else _)
      split
      · exact refused _ _ _
      · rename_i hthere
        refine ⟨trivial, ?_⟩
        intro session
        cases session with
        | none => exact refused _ _ _
        | some data =>
          intro _ _
          have := hhit now there (lt_of_not_expired hnow) (by simpa using hthere)
          exact .inl (this.imp .inr id)

/-- The `Authorization` header of a request on a route behind the guard. -/
def Request.header : Request → Option String
  | .access authorization | .logout authorization | .createOrg authorization .. | .generateInvite authorization ..
  | .joinOrg authorization .. => authorization
  | _ => none

/-- A request behind the guard that is answered has passed it with the token. -/
theorem heard_program {hit : (c : Command) → c.Reply → Prop} {request : Request} (hbearer : bearerToken request.header = some token)
    (hsigned : x.signedPayload token = some payload)
    (hhit : ∀ now there : Nat, now < payload.exp * 1000 → there ≠ 1 →
      hit .dateNow now ∨ hit (.blacklist (.existsKey payload.jti)) there) :
    Keeps (listening hit) (fun q r => ∀ response, r = .ok response → q) False (request.program x) := by
  have behind : ∀ {handler : JwtPayload → Api Response}, Keeps (listening hit) (fun q r => ∀ response, r = .ok response → q) False
      (AuthGuard.canActivate x request.header >>= handler) := by
    intro handler
    refine (heard_canActivate hbearer hsigned hhit).bind ?_ ?_
    · intro q user hq
      exact (keeps_listening_mono (handler user)).mono fun q' _ hq' _ _ => hq' (hq user rfl)
    · intro q e _ response h
      cases h
  cases request with
  | challenge | verify | verifyZkLogin | refresh => cases hbearer
  | _ => exact behind

/-- What a logout that succeeds has done: it has put the token on the blacklist, unless it has seen a clock past the token's expiry. -/
def revoking (jti : String) (exp : Nat) : (c : Command) → c.Reply → Prop
  | .dateNow, (now : Nat) => exp * 1000 ≤ now
  | .blacklist (.set k _ _), _ => k = jti
  | _, _ => False

/-- The clock shows a time before `time`. -/
def readsBefore (time : Nat) : (c : Command) → c.Reply → Prop
  | .dateNow, (now : Nat) => now < time
  | _, _ => False

/-- The blacklist is found without the token. -/
def findsClear (jti : String) : (c : Command) → c.Reply → Prop
  | .blacklist (.existsKey k), (there : Nat) => k = jti ∧ there ≠ 1
  | _, _ => False

/-- Only after its expiry is a revoked token not on the blacklist. -/
theorem le_now_of_clear {b : Backend} {jti : String} {exp : Nat} (h : b.Revoked jti exp) {c : Command}
    (hc : findsClear jti c (b.exec c).1) : exp * 1000 ≤ b.now := by
  obtain hexp | ⟨e, he, hle⟩ := h
  · exact hexp
  · cases c with
    | blacklist c =>
      cases c with
      | existsKey k =>
        obtain ⟨rfl, hthere⟩ := hc
        refine Nat.le_of_lt (Nat.lt_of_le_of_lt hle (Redis.Keyspace.live_eq_none.1 ?_ e he))
        by_contra hlive
        refine hthere ?_
        change (b.blacklist.live b.now k).isSome.toNat = 1
        rw [Option.isSome_iff_ne_none.2 hlive, Bool.toNat_true]
      | _ => exact hc.elim
    | _ => exact hc.elim

/-- A token without a second left has expired. -/
theorem le_of_expired {exp now : Nat} (h : ¬ (exp : Int) - (now / 1000 : Nat) > 0) : exp * 1000 ≤ now := by
  omega

/-- A logout that is answered has seen the token expired, or has revoked it. -/
theorem heard_logout (hbearer : bearerToken authorization = some token) (hsigned : x.signedPayload token = some payload) :
    Keeps (listening (revoking payload.jti payload.exp)) (fun q r => ∀ response, r = .ok response → q) False
      (Request.program x (.logout authorization)) := by
  refine ((plain_canActivate x authorization).of_allowing fun _ _ _ => trivial).bind ?_ ?_
  · intro q user huser
    obtain ⟨token', hbearer', hsigned'⟩ := huser user rfl
    obtain rfl : token = token' := Option.some.inj (hbearer.symm.trans hbearer')
    obtain rfl : payload = user := Option.some.inj (hsigned.symm.trans hsigned')
    refine ⟨trivial, ?_⟩
    intro _
    refine ⟨trivial, ?_⟩
    intro now
    change Keeps _ _ _ ((if _ then _ else pure ()) >>= _)
    split
    · exact ⟨trivial, fun _ _ _ => .inr rfl⟩
    · rename_i hexp
      exact fun _ _ => .inr (le_of_expired hexp)
  · intro q e _ response h
    cases h

end Heard

/-! ## Logout -/

section Logout

variable {x : Crypto} {b : Backend} {requests : List Request} {past rest : Schedule} {m n : ApiPool Response} {token : String}
  {payload : JwtPayload}

/-- At the start every request covers the token. -/
theorem covered_sideBySide (hx : x.DistinctJtis) (hsigned : x.signedPayload token = some payload) :
    Covered payload.jti payload.exp (sideBySide x b requests) := by
  intro p hp
  obtain ⟨request, -, rfl⟩ := List.mem_map.1 hp
  exact ⟨0, Nat.zero_le _, covering_program hx hsigned request 0⟩

/-- A logout that has been answered has revoked its token. -/
theorem revoked_of_logout (hx : x.DistinctJtis) (hm : (sideBySide x b requests).run past = .ok m)
    (hsigned : x.signedPayload token = some payload) {i : Nat} {authorization : Option String}
    (hi : requests[i]? = some (.logout authorization)) (hbearer : bearerToken authorization = some token) {response : Response}
    (hanswered : m.answer i = some (.ok response)) : m.store.Revoked payload.jti payload.exp := by
  have hcovered : Covered payload.jti payload.exp (sideBySide x b requests) := covered_sideBySide hx hsigned
  have hthread : (sideBySide x b requests).threads[i]? = some (Request.program x (.logout authorization)) := by
    simp [sideBySide, hi]
  obtain ⟨p, hp, hkept⟩ := keeps_run hthread (heard_logout hbearer hsigned) hm
  obtain rfl : Prog.ret response = p := Option.some.inj ((ApiPool.thread_of_answer hanswered).symm.trans hp)
  obtain ⟨before, after, m', rfl, hm', c, k, hnext, hhit⟩ := hkept response rfl
  obtain ⟨m'', hbefore, hafter⟩ := (Steps.run_append_ok _).1 hm
  obtain rfl : m' = m'' := Except.ok.inj (hm'.symm.trans hbefore)
  obtain ⟨m'', hturn, hafter⟩ := (Steps.run_cons_ok _).1 hafter
  have hcovered' : Covered payload.jti payload.exp m' := hcovered.run hm'
  refine revoked_run (hcovered'.step hturn) hafter ?_
  -- The turn in which the logout sets the key, or in which it reads a clock past the expiry.
  obtain rfl := Except.ok.inj ((step_thread hnext).symm.trans hturn)
  obtain ⟨seen, hseen, hc, -⟩ := hcovered' _ (List.mem_of_getElem? hnext)
  cases c with
  | dateNow => exact .inl hhit
  | blacklist c =>
    cases c with
    | set k' v ex =>
      obtain rfl : k' = payload.jti := hhit
      exact .exec hseen hc (.inr ⟨ex, rfl⟩)
    | _ => exact hhit.elim
  | _ => exact hhit.elim

/-- Once a logout has been answered, no request that begins later is served with its access token, whatever requests run side by side and
in whatever order their commands come, unless the token expires between the beginning of the request and its end. -/
theorem logout_revokes (hx : x.DistinctJtis) (hm : (sideBySide x b requests).run past = .ok m) (hn : m.run rest = .ok n)
    (hsigned : x.signedPayload token = some payload) {i : Nat} {authorization : Option String}
    (hi : requests[i]? = some (.logout authorization)) (hbearer : bearerToken authorization = some token) {answer : Response}
    (hanswered : m.answer i = some (.ok answer)) {k : Nat} {request : Request} (hk : requests[k]? = some request)
    (hheader : bearerToken request.header = some token) (hlater : .thread k ∉ past)
    (hexpiry : ¬ (m.store.now < payload.exp * 1000 ∧ payload.exp * 1000 ≤ n.store.now)) (response : Response) :
    n.answer k ≠ some (.ok response) := by
  intro hserved
  have hbegins : m.threads[k]? = some (request.program x) := by
    rw [threads_of_not_mem hm hlater]
    simp [sideBySide, hk]
  have hrevoked : m.store.Revoked payload.jti payload.exp := revoked_of_logout hx hm hsigned hi hbearer hanswered
  have hcovered : Covered payload.jti payload.exp m := (covered_sideBySide hx hsigned).run hm
  have hheard : ∀ hit : (c : Command) → c.Reply → Prop, (∀ now there : Nat, now < payload.exp * 1000 → there ≠ 1 →
      hit .dateNow now ∨ hit (.blacklist (.existsKey payload.jti)) there) → Heard Backend.exec Backend.elapse hit m rest k := by
    intro hit hhit
    obtain ⟨p, hp, hkept⟩ := keeps_run hbegins (heard_program hheader hsigned hhit) hn
    obtain rfl : Prog.ret response = p := Option.some.inj ((ApiPool.thread_of_answer hserved).symm.trans hp)
    exact hkept response rfl
  refine hexpiry ⟨?_, ?_⟩
  · obtain ⟨before, after, n', rfl, hn', c, k', -, hclock⟩ := hheard (readsBefore (payload.exp * 1000)) fun _ _ hnow _ => .inl hnow
    have hle : m.store.now ≤ n'.store.now := now_le_of_run hn'
    cases c with
    | dateNow => exact Nat.lt_of_le_of_lt hle hclock
    | _ => exact hclock.elim
  · obtain ⟨before, after, n', rfl, hn', c, k', -, hclear⟩ := hheard (findsClear payload.jti) fun _ _ _ hthere => .inr ⟨rfl, hthere⟩
    obtain ⟨n'', hbefore, hafter⟩ := (Steps.run_append_ok _).1 hn
    obtain rfl : n' = n'' := Except.ok.inj (hn'.symm.trans hbefore)
    have hle : n'.store.now ≤ n.store.now := now_le_of_run hafter
    refine Nat.le_trans (le_now_of_clear (revoked_run hcovered hn' hrevoked) hclear) hle

end Logout

namespace Sample

/-- The access token of the session `s`. -/
def accessPayload : JwtPayload :=
  { sub := .given 7, address := "0x7", orgId := none, orgRole := 0, sid := "s", jti := "j1", iat := 1700000000, exp := 1700000900 }

def signingCrypto : Crypto := { crypto with signedPayload := fun token => if token = "access" then some accessPayload else none }

/-- The token ids of the sample are distinct. -/
theorem distinctJtis_signingCrypto : signingCrypto.DistinctJtis := by
  intro token token' payload payload' h h' _
  have unique : ∀ {token : String} {payload : JwtPayload}, signingCrypto.signedPayload token = some payload → payload = accessPayload := by
    intro token payload h
    change (if token = "access" then some accessPayload else none) = some payload at h
    split at h
    · exact (Option.some.inj h).symm
    · cases h
  rw [unique h, unique h']

def afterLogout : List Request :=
  [.logout (some "Bearer access"), .refresh (drawn "2") (.last ["s"]) (some "1") none, .access (some "Bearer access")]

/-- The refresh has read the session when the logout deletes it, and sets it again. -/
def logoutPast : Schedule := turnsOf 1 4 ++ turnsOf 0 6 ++ turnsOf 1 4

end Sample

/-- The session is back after the logout, and the access token is refused all the same. -/
theorem logout_revokes_afterRefresh :
    ∃ m, (sideBySide Sample.signingCrypto Sample.backend Sample.afterLogout).run Sample.logoutPast = .ok m ∧
      (m.store.session "s").isSome ∧
        ∃ n, m.run (Sample.turnsOf 2 2) = .ok n ∧ ∀ response, n.answer 2 ≠ some (.ok response) := by
  obtain ⟨m, hm, hanswered, hsession, hnow, hrest⟩ := Move.exists_ok_of_any
    (x := (sideBySide Sample.signingCrypto Sample.backend Sample.afterLogout).run Sample.logoutPast)
    (P := fun m => m.answer 0 = some (.ok .loggedOut) ∧ (m.store.session "s").isSome ∧ m.store.now = 1700000000000 ∧
      (m.run (Sample.turnsOf 2 2)).toOption.any fun n => n.store.now = 1700000000000) (by decide +kernel)
  obtain ⟨n, hn, hlater⟩ := Move.exists_ok_of_any hrest
  refine ⟨m, hm, hsession, n, hn, ?_⟩
  have hbearer : bearerToken (some "Bearer access") = some "access" := by decide +kernel
  have hsigned : Sample.signingCrypto.signedPayload "access" = some Sample.accessPayload := by decide +kernel
  have hexpiry : ¬ (m.store.now < Sample.accessPayload.exp * 1000 ∧ Sample.accessPayload.exp * 1000 ≤ n.store.now) := by
    rw [hnow, hlater]
    decide
  exact logout_revokes Sample.distinctJtis_signingCrypto hm hn hsigned (i := 0) rfl hbearer hanswered (k := 2) rfl hbearer
    (by decide) hexpiry

end BrineVault
