import BrineVault.Api.Calls
import BrineVault.Api.Enrolment

/-!
# All requests side by side

Any number of requests of all routes over one backend, and what they have in common: only a logout writes the blacklist, and nobody takes a
user's role away.
-/

namespace BrineVault

open Interleaving
open SessionService JwtService

/-! ## The pool -/

/-- What the request with number `i` has been answered with. -/
def ApiPool.answer {α : Type} (m : ApiPool α) (i : Nat) : Option (Except HttpException α) := m.threads[i]?.bind Prog.result

/-- A request that is answered has returned. -/
theorem ApiPool.thread_of_answer {α : Type} {m : ApiPool α} {i : Nat} {a : α} (h : m.answer i = some (.ok a)) :
    m.threads[i]? = some (.ret a) := by
  obtain ⟨p, hp, hr⟩ := Option.bind_eq_some_iff.1 h
  rwa [← Prog.result_eq_ok.1 hr]

/-- The requests at the start, over a backend. -/
def sideBySide (x : Crypto) (b : Backend) (requests : List Request) : ApiPool Response := ⟨b, requests.map fun request => request.program x⟩

/-! ## What the requests send -/

/-- The command neither sets a key of the blacklist nor removes one, and it takes no user's role away. -/
def Command.Plain : Command → Prop
  | .blacklist (.set _ _ _) | .blacklist (.del _) => False
  | .sql (.usersUpdate _ _ roleInOrg) => roleInOrg ≠ 0
  | _ => True

/-- What enrols is plain. -/
theorem Command.Enrols.plain {c : Command} (h : c.Enrols) : c.Plain := by
  cases c with
  | sql c =>
    cases c with
    | usersUpdate => exact h
    | _ => trivial
  | blacklist c =>
    cases c with
    | set => exact h
    | del => exact h
    | _ => trivial
  | _ => trivial

section Plain

/-- `updateSession` sends only what is plain. -/
theorem plain_updateSession (sid : Sid) (hash : String) :
    Keeps (allowing Command.Plain) (fun _ _ => True) () (updateSession sid hash) := by
  simp only [updateSession, getSession, Prog.send_bind, keeps_call]
  refine ⟨trivial, ?_⟩
  intro session
  cases session with
  | none => trivial
  | some data =>
    refine ⟨trivial, ?_⟩
    intro ttl
    change Keeps _ _ _ (if _ then _ else _)
    split
    · trivial
    · exact ⟨trivial, fun _ => ⟨trivial, fun _ => trivial⟩⟩

/-- The steps that both refreshes end with. -/
theorem plain_renew (sid : Sid) (hash : String) (drawn : Drawn) (session : SessionData) :
    Keeps (allowing Command.Plain) (fun _ _ => True) ()
      (do updateSession sid hash; AuthService.renewedTokens drawn sid session) := by
  refine (plain_updateSession sid hash).bind ?_ fun _ _ _ => trivial
  intro _ _ _
  exact ⟨trivial, fun _ => ⟨trivial, fun _ => trivial⟩⟩

/-- A refresh with a token of the session sends only what is plain. -/
theorem plain_refresh (x : Crypto) (drawn : Drawn) (token : String) (sid : Sid) :
    Keeps (allowing Command.Plain) (fun _ _ => True) () (AuthService.refresh x drawn token sid) := by
  refine ⟨trivial, ?_⟩
  intro session
  cases session with
  | none => trivial
  | some session =>
    change Keeps _ _ _ (if _ then _ else _)
    split
    · exact ⟨trivial, fun _ => trivial⟩
    · exact plain_renew sid _ drawn session

theorem plain_scanPage (hash : String) (page : List Sid) :
    Keeps (allowing Command.Plain) (fun _ _ => True) () (scanPage hash page) := by
  refine ⟨trivial, ?_⟩
  intro keys
  change Keeps _ _ _ (if _ then _ else _)
  split
  · trivial
  · exact ⟨trivial, fun _ => trivial⟩

theorem plain_getSessionByRefreshHash (hash : String) (scan : Scan) :
    Keeps (allowing Command.Plain) (fun _ _ => True) () (getSessionByRefreshHash hash scan) := by
  induction scan with
  | last keys => exact plain_scanPage hash keys
  | more keys rest ih =>
    refine (plain_scanPage hash keys).bind ?_ fun _ _ _ => trivial
    intro _ found _
    cases found with
    | some session => trivial
    | none => exact ih

theorem plain_authRefresh (x : Crypto) (drawn : Drawn) (scan : Scan) (cookie authorization : Option String) :
    Keeps (allowing Command.Plain) (fun _ _ => True) () (AuthController.refresh x drawn scan cookie authorization) := by
  unfold AuthController.refresh
  split
  · trivial
  · rename_i token _
    split
    · rename_i sid _
      exact plain_refresh x drawn token sid
    · refine (plain_getSessionByRefreshHash _ scan).bind ?_ fun _ _ _ => trivial
      intro _ found _
      cases found with
      | none => trivial
      | some found => exact plain_renew found.1 _ drawn found.2

theorem plain_openSession (x : Crypto) (drawn : Drawn) (user : UserRow) (address ip userAgent : String) :
    Keeps (allowing Command.Plain) (fun _ _ => True) () (AuthService.openSession x drawn user address ip userAgent) :=
  ⟨trivial, fun _ => ⟨trivial, fun _ => ⟨trivial, fun _ => trivial⟩⟩⟩

theorem plain_verifyAndLogin (x : Crypto) (drawn : Drawn) (dto : VerifyDto) (ip userAgent : String) :
    Keeps (allowing Command.Plain) (fun _ _ => True) () (AuthService.verifyAndLogin x drawn dto ip userAgent) := by
  have hconsume : Keeps (allowing Command.Plain) (fun _ _ => True) () (consumeChallenge dto.nonce) :=
    ⟨trivial, fun _ => ⟨trivial, fun _ => trivial⟩⟩
  refine hconsume.bind ?_ fun _ _ _ => trivial
  intro _ value _
  cases value with
  | none => trivial
  | some challengeData =>
    dsimp only
    split
    · trivial
    · split
      · trivial
      · exact ⟨trivial, fun user => plain_openSession x drawn user dto.address ip userAgent⟩

theorem plain_verifyZkLogin (x : Crypto) (drawn : Drawn) (currentEpoch : Nat) (dto : ZkLoginDto) (ip userAgent : String) :
    Keeps (allowing Command.Plain) (fun _ _ => True) ()
      (AuthService.verifyZkLogin x drawn currentEpoch dto ip userAgent) := by
  unfold AuthService.verifyZkLogin
  split
  · trivial
  · split
    · trivial
    · dsimp only
      split
      · trivial
      · split
        · trivial
        · split
          · trivial
          · exact ⟨trivial, fun user => plain_openSession x drawn user _ ip userAgent⟩

/-- The guard sends plain commands only, and the user it lets through is the payload that is signed in the token of the header. -/
theorem plain_canActivate (x : Crypto) (authorization : Option String) :
    Keeps (allowing Command.Plain)
      (fun _ r => ∀ user, r = .ok user → ∃ token, bearerToken authorization = some token ∧ x.signedPayload token = some user) ()
      (AuthGuard.canActivate x authorization) := by
  have refused : ∀ (code message : String) (user : JwtPayload), (Except.error (UnauthorizedException code message) : Except HttpException
      JwtPayload) = .ok user → ∃ token, bearerToken authorization = some token ∧ x.signedPayload token = some user := by
    intro _ _ _ h
    cases h
  unfold AuthGuard.canActivate
  split
  · exact refused _ _
  · rename_i token htoken
    have hbearer : bearerToken authorization = some token := (Option.filter_eq_some_iff.1 htoken).1
    unfold verifyAccessToken
    split
    · exact refused _ _
    · rename_i payload hsigned
      refine ⟨trivial, ?_⟩
      intro now
      change Keeps _ _ _ ((if _ then pure none else pure (some payload)) >>= _)
      split
      · exact refused _ _
      · refine ⟨trivial, ?_⟩
        intro there
        change Keeps _ _ _ (if _ then _ else _)
        split
        · exact refused _ _
        · refine ⟨trivial, ?_⟩
          intro session
          cases session with
          | none => exact refused _ _
          | some data =>
            intro user hu
            cases hu
            exact ⟨token, hbearer, hsigned⟩

/-- A route that issues no logout. -/
theorem plain_route {α : Type} {x : Crypto} {authorization : Option String} {handler : JwtPayload → Api α} {response : α → Response}
    (hp : ∀ user, Keeps (allowing Command.Plain) (fun _ _ => True) () (handler user)) :
    Keeps (allowing Command.Plain) (fun _ _ => True) ()
      (do let user ← AuthGuard.canActivate x authorization; return response (← handler user)) := by
  refine (plain_canActivate x authorization).bind ?_ fun _ _ _ => trivial
  intro _ user _
  exact (hp user).bind (fun _ _ _ => trivial) fun _ _ _ => trivial

/-- A program that only enrols is plain. -/
theorem plain_of_enrols {α : Type} {p : Api α} (h : Keeps (allowing Command.Enrols) (fun _ _ => True) () p) :
    Keeps (allowing Command.Plain) (fun _ _ => True) () p := h.of_allowing fun _ _ hc => hc.plain

/-- Every request but a logout sends plain commands only. -/
theorem plain_program (x : Crypto) {request : Request} (h : ∀ authorization, request ≠ .logout authorization) :
    Keeps (allowing Command.Plain) (fun _ _ => True) () (request.program x) := by
  have answered : ∀ {α : Type} {p : Api α} {response : α → Response}, Keeps (allowing Command.Plain) (fun _ _ => True) () p →
      Keeps (allowing Command.Plain) (fun _ _ => True) () (do return response (← p)) :=
    fun hp => hp.bind (fun _ _ _ => trivial) fun _ _ _ => trivial
  cases request with
  | challenge nonce ip => exact ⟨trivial, fun _ => ⟨trivial, fun _ => ⟨trivial, fun _ => trivial⟩⟩⟩
  | verify drawn dto ip userAgent => exact answered (plain_verifyAndLogin x drawn dto ip userAgent)
  | verifyZkLogin drawn currentEpoch dto ip userAgent => exact answered (plain_verifyZkLogin x drawn currentEpoch dto ip userAgent)
  | refresh drawn scan cookie authorization => exact answered (plain_authRefresh x drawn scan cookie authorization)
  | access authorization => exact (plain_canActivate x authorization).bind (fun _ _ _ => trivial) fun _ _ _ => trivial
  | logout authorization => exact absurd rfl (h authorization)
  | createOrg authorization id dto => exact plain_route fun user => plain_of_enrols (enrols_createOrg id user.sub dto)
  | generateInvite authorization drawn orgId dto =>
    exact plain_route fun user => plain_of_enrols (enrols_generateInvite drawn orgId user.sub user.orgId user.orgRole dto)
  | joinOrg authorization dto => exact plain_route fun user => plain_of_enrols (enrols_joinOrg user.sub dto)

/-- The command takes no user's role away. -/
def Command.KeepsRoles : Command → Prop
  | .sql (.usersUpdate _ _ roleInOrg) => roleInOrg ≠ 0
  | _ => True

/-- What is plain keeps the users' roles. -/
theorem Command.Plain.keepsRoles {c : Command} (h : c.Plain) : c.KeepsRoles := by
  cases c with
  | sql c =>
    cases c with
    | usersUpdate => exact h
    | _ => trivial
  | _ => trivial

/-- No request takes a user's role away. -/
theorem keepsRoles_program (x : Crypto) (request : Request) :
    Keeps (allowing Command.KeepsRoles) (fun _ _ => True) () (request.program x) := by
  by_cases h : ∃ authorization, request = .logout authorization
  · obtain ⟨authorization, rfl⟩ := h
    refine ((plain_canActivate x authorization).of_allowing fun _ _ hc => hc.keepsRoles).bind ?_ fun _ _ _ => trivial
    intro _ user _
    refine ⟨trivial, fun _ => ⟨trivial, fun now => ?_⟩⟩
    change Keeps _ _ _ ((if _ then _ else pure ()) >>= _)
    split
    · exact ⟨trivial, fun _ => trivial⟩
    · trivial
  · exact (plain_program x (not_exists.1 h)).of_allowing fun _ _ hc => hc.keepsRoles

end Plain

end BrineVault
