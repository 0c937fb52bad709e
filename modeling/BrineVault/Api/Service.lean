import BrineVault.Api.Alone
import BrineVault.Api.Orgs

/-!
# The API, one request after the other

A `Service` is the backend and the token pairs that the API has issued. A run of it is a list of requests, each served to its end before
the next one is taken up. What a request draws at random is new: `randomBytes` and `randomUUID` repeat nothing that has been issued,
and no two of the tokens have one digest.
-/

namespace BrineVault

open Interleaving
open JwtService

/-- A request. The routes that `AuthGuard` protects carry the `Authorization` header; `access` is any of them, for what the guard does. -/
inductive Request where
  | challenge (nonce ip : String)
  | verify (drawn : Drawn) (dto : VerifyDto) (ip userAgent : String)
  | verifyZkLogin (drawn : Drawn) (currentEpoch : Nat) (dto : ZkLoginDto) (ip userAgent : String)
  | refresh (drawn : Drawn) (scan : Scan) (cookie authorization : Option String)
  | access (authorization : Option String)
  | logout (authorization : Option String)
  | createOrg (authorization : Option String) (id : Uuid) (dto : CreateOrgDto)
  | generateInvite (authorization : Option String) (drawn : DrawnInvite) (orgId : Uuid) (dto : GenerateInviteDto)
  | joinOrg (authorization : Option String) (dto : JoinOrgDto)
  deriving DecidableEq, Repr

/-- What a request that succeeds is answered with. -/
inductive Response where
  | challenge (challenge : AuthChallenge)
  | tokens (result : AuthResult)
  | admitted (user : JwtPayload)
  | loggedOut
  | organization (row : OrganizationRow)
  | invite (invite : GeneratedInvite)
  | joined (joined : JoinedOrg)
  deriving DecidableEq, Repr

namespace Request

def program (x : Crypto) : Request → Api Response
  | challenge nonce ip => do return .challenge (← AuthService.generateChallenge nonce ip)
  | verify drawn dto ip userAgent => do return .tokens (← AuthService.verifyAndLogin x drawn dto ip userAgent)
  | verifyZkLogin drawn currentEpoch dto ip userAgent => do
    return .tokens (← AuthService.verifyZkLogin x drawn currentEpoch dto ip userAgent)
  | refresh drawn scan cookie authorization => do return .tokens (← AuthController.refresh x drawn scan cookie authorization)
  | access authorization => do return .admitted (← AuthGuard.canActivate x authorization)
  | logout authorization => do
    let user ← AuthGuard.canActivate x authorization
    AuthController.logout (some user)
    return .loggedOut
  | createOrg authorization id dto => do
    let user ← AuthGuard.canActivate x authorization
    return .organization (← OrgsService.createOrg id user.sub dto)
  | generateInvite authorization drawn orgId dto => do
    let user ← AuthGuard.canActivate x authorization
    return .invite (← OrgsService.generateInvite drawn orgId user.sub user.orgId user.orgRole dto)
  | joinOrg authorization dto => do
    let user ← AuthGuard.canActivate x authorization
    return .joined (← OrgsService.joinOrg user.sub dto)

/-- What a request draws that may issue tokens. -/
def drawn : Request → Option Drawn
  | verify drawn .. | verifyZkLogin drawn .. | refresh drawn .. => some drawn
  | _ => none

/-- The request is a login. -/
def IsLogin : Request → Prop
  | verify .. | verifyZkLogin .. => True
  | _ => False

end Request

structure Service where
  backend : Backend
  /-- The token pairs that have been issued, the last one first. -/
  issued : List AuthResult

/-- A request, and the time that passes before its commands. -/
structure Served where
  request : Request
  waits : List Nat
  deriving DecidableEq, Repr

namespace Service

/-- Nothing has been stored, and nothing issued. -/
def start (now : Nat) : Service where
  backend :=
    { now, sessions := fun _ => none, challenges := fun _ => none, blacklist := fun _ => none,
      accounts := { users := [], organizations := [], inviteCodes := [] } }
  issued := []

/-- The request draws nothing that has been drawn before. -/
def Fresh (x : Crypto) (st : Service) (drawn : Drawn) : Prop :=
  drawn.refreshToken ≠ "" ∧ (∀ row ∈ st.backend.accounts.users, row.id ≠ drawn.userId) ∧
    ∀ a ∈ st.issued, hashRefreshToken x a.refreshToken ≠ hashRefreshToken x drawn.refreshToken ∧ a.accessToken.sid ≠ drawn.sid

instance (x : Crypto) (st : Service) (drawn : Drawn) : Decidable (st.Fresh x drawn) := inferInstanceAs (Decidable (_ ∧ _ ∧ _))

/-- The answer to a request. -/
def answer (x : Crypto) (st : Service) (t : Served) : Except HttpException Response :=
  (runAlone (t.request.program x) st.backend t.waits).1

/-- The service after a request. -/
def after (x : Crypto) (st : Service) (t : Served) : Service where
  backend := (runAlone (t.request.program x) st.backend t.waits).2
  issued :=
    match st.answer x t with
    | .ok (.tokens a) => a :: st.issued
    | _ => st.issued

/-- Serving a request. -/
def step (x : Crypto) (st : Service) (t : Served) : Except Unit Service :=
  if ∀ drawn ∈ t.request.drawn, st.Fresh x drawn then .ok (st.after x t) else .error ()

def run (x : Crypto) (st : Service) (ts : List Served) : Except Unit Service := Steps.run (step x) st ts

end Service

/-! ## A sample -/

namespace Sample

/-- A crypto that decodes one Google JWT, and the access tokens of the session `s1`. -/
def zkCrypto : Crypto :=
  { crypto with
    decodeJwt
      | "google" => some { iss := some "https://accounts.google.com", sub := some "7", sid := none }
      | "access" => some { iss := some "brinevault", sub := some "1", sid := some "s1" }
      | _ => none
    jwtToAddress := fun _ _ => "0x0000000000000000000000000000000000000000000000000000000000000007" }

/-- A login, which opens the session `s1` with the token `1`. -/
def signIn : Served where
  request := .verifyZkLogin { refreshToken := "1", sid := "s1", jti := "j1", userId := .given 1 } 5
    { jwt := "google", proofA := ["1"], proofB := [["1"]], proofC := ["1"], maxEpoch := 6, salt := "0" } "10.0.0.1" ""
  waits := []

/-- A refresh by the cookie alone, which presents one token and draws another. -/
def refreshing (token newToken : String) : Served where
  request := .refresh (drawn newToken) (.last ["s1"]) (some token) none
  waits := []

end Sample

end BrineVault
