import BrineVault.Api.Session

/-!
# `auth.service.ts`, `auth.controller.ts`, `auth.guard.ts`: logins, refreshes and logouts

What `node:crypto`, `jose` and the Sui SDK compute is the parameter `Crypto`; what a request draws at random is its argument `Drawn`. An
access token is shown as the payload that is signed.
-/

namespace BrineVault

open Interleaving (Prog)
open IsoDate (toISOString)
open SessionService

structure JwtPayload where
  sub : Uuid
  address : String
  orgId : Option Uuid
  orgRole : Nat
  sid : Sid
  jti : String
  iat : Nat
  exp : Nat
  deriving DecidableEq, Repr

/-- The claims of a JWT that nobody has verified, as far as they are looked at. -/
structure DecodedJwt where
  iss : Option String
  sub : Option String
  sid : Option Sid
  deriving DecidableEq, Repr

/-- What the packages compute. -/
structure Crypto where
  /-- The hex digest of SHA-256. -/
  sha256 : String → String
  /-- `jose.decodeJwt`, which throws on a text that is no JWT. -/
  decodeJwt : String → Option DecodedJwt
  /-- The payload of a JWT whose EdDSA signature is the API's. -/
  signedPayload : String → Option JwtPayload
  /-- The address that the signature over a message verifies for. -/
  verifyPersonalMessageSignature : (message signature : String) → Option String
  jwtToAddress : (jwt salt : String) → String

/-- What a request draws: `randomBytes` for a refresh token or a nonce, `randomUUID` for a session or a `jti`, and the id of a new row. -/
structure Drawn where
  refreshToken : String
  sid : Sid
  jti : String
  userId : Uuid
  deriving DecidableEq, Repr

/-! ## Tokens -/

namespace JwtService

def hashRefreshToken (x : Crypto) (token : String) : String := x.sha256 token

/-- The claims of `signAccessToken`, besides those it adds. -/
structure Claims where
  sub : Uuid
  address : String
  orgId : Option Uuid
  orgRole : Nat
  sid : Sid

def signAccessToken (jti : String) (c : Claims) : Api JwtPayload := do
  let now ← dateNow
  return { sub := c.sub, address := c.address, orgId := c.orgId, orgRole := c.orgRole, sid := c.sid, jti, iat := now / 1000,
           exp := now / 1000 + AuthConfig.accessTokenTtlSeconds }

/-- `none` for what makes `jwtVerify` throw: a bad signature, or a token that has expired. -/
def verifyAccessToken (x : Crypto) (token : String) : Api (Option JwtPayload) :=
  match x.signedPayload token with
  | none => return none
  | some payload => do
    let now ← dateNow
    if payload.exp ≤ now / 1000 then return none else return some payload

end JwtService

open JwtService

structure AuthUser where
  id : Uuid
  address : String
  displayName : Option String
  orgId : Option Uuid
  roleInOrg : Nat
  deriving DecidableEq, Repr

structure AuthResult where
  accessToken : JwtPayload
  refreshToken : String
  user : AuthUser
  deriving DecidableEq, Repr

structure AuthChallenge where
  nonce : String
  timestamp : Nat
  expiresAt : Nat
  deriving DecidableEq, Repr

structure VerifyDto where
  address : String
  signature : String
  nonce : String
  deriving DecidableEq, Repr

/-- The lengths of the lists of proof points are what is looked at. -/
structure ZkLoginDto where
  jwt : String
  proofA : List String
  proofB : List (List String)
  proofC : List String
  maxEpoch : Nat
  salt : String
  deriving DecidableEq, Repr

def usersFindById (id : Uuid) : Api (Option UserRow) := Prog.send (Command.sql (.usersFindById id))
def usersUpsertByWallet (id : Uuid) (address : String) : Api UserRow := Prog.send (Command.sql (.usersUpsertByWallet id address))

/-! ## The service -/

namespace AuthService

/-- `nonce` is what `randomBytes(12)` gives, in hex. -/
def generateChallenge (nonce ip : String) : Api AuthChallenge := do
  storeChallenge nonce ip
  let now ← dateNow
  return { nonce, timestamp := now / 1000, expiresAt := now / 1000 + AuthConfig.challengeTtlSeconds }

/-- The message a wallet signs, over the timestamp that the challenge is stored with. -/
def signInMessage (nonce timestamp : String) : String :=
  "Sign in to BrineVault\nNonce: " ++ nonce ++ "\nTimestamp: " ++ timestamp

/-- A session and its first tokens, for the row of a user: the steps that both logins end with. -/
def openSession (x : Crypto) (drawn : Drawn) (user : UserRow) (address ip userAgent : String) : Api AuthResult := do
  let refreshToken := drawn.refreshToken
  let refreshTokenHash := hashRefreshToken x refreshToken
  let sid ← createSession drawn.sid user.id address user.orgId refreshTokenHash ip userAgent
  let accessToken ← signAccessToken drawn.jti { sub := user.id, address, orgId := user.orgId, orgRole := user.roleInOrg, sid }
  return { accessToken, refreshToken,
           user := { id := user.id, address, displayName := none, orgId := user.orgId, roleInOrg := user.roleInOrg } }

def verifyAndLogin (x : Crypto) (drawn : Drawn) (dto : VerifyDto) (ip userAgent : String) : Api AuthResult := do
  let some challengeData ← consumeChallenge dto.nonce
    | .throw (UnauthorizedException "INVALID_NONCE" "Invalid or expired nonce")
  let message := signInMessage dto.nonce challengeData.timestamp
  match x.verifyPersonalMessageSignature message dto.signature with
  | none => .throw (UnauthorizedException "INVALID_SIGNATURE" "Signature verification failed")
  | some recoveredAddress =>
    if recoveredAddress ≠ dto.address then
      .throw (UnauthorizedException "INVALID_SIGNATURE" "Signature address mismatch")
    else
      let user ← usersUpsertByWallet drawn.userId dto.address
      openSession x drawn user dto.address ip userAgent

def maxEpochAhead : Nat := 10

/-- `currentEpoch` is what the node answers. The proof itself is not verified. -/
def verifyZkLogin (x : Crypto) (drawn : Drawn) (currentEpoch : Nat) (dto : ZkLoginDto) (ip userAgent : String) :
    Api AuthResult := do
  match x.decodeJwt dto.jwt with
  | none => .throw internalError
  | some payload =>
    if payload.iss.getD "" = "" ∨ payload.sub.getD "" = "" then
      .throw (UnauthorizedException "INVALID_JWT" "JWT missing iss or sub")
    else
      let address := x.jwtToAddress dto.jwt dto.salt
      if dto.maxEpoch < currentEpoch then
        .throw (UnauthorizedException "EXPIRED_EPOCH" "maxEpoch is in the past")
      else if dto.maxEpoch > currentEpoch + maxEpochAhead then
        .throw (UnauthorizedException "INVALID_EPOCH" "maxEpoch too far in the future")
      else if dto.proofA = [] ∨ dto.proofB = [] ∨ dto.proofC = [] then
        .throw (UnauthorizedException "INVALID_ZK_PROOF" "Malformed ZK proof structure")
      else
        let user ← usersUpsertByWallet drawn.userId address
        openSession x drawn user address ip userAgent

/-- The tokens for a session that has been refreshed: the claims are those of the session, with a constant role. -/
def renewedTokens (drawn : Drawn) (sid : Sid) (session : SessionData) : Api AuthResult := do
  let accessToken ← signAccessToken drawn.jti
    { sub := session.userId, address := session.address, orgId := session.orgId, orgRole := 0, sid }
  let user ← usersFindById session.userId
  return { accessToken, refreshToken := drawn.refreshToken,
           user := { id := session.userId, address := session.address, displayName := user.bind (·.displayName),
                     orgId := session.orgId, roleInOrg := (user.map (·.roleInOrg)).getD 0 } }

def refresh (x : Crypto) (drawn : Drawn) (refreshToken : String) (sid : Sid) : Api AuthResult := do
  let incomingHash := hashRefreshToken x refreshToken
  let some session ← getSession sid | .throw (UnauthorizedException "SESSION_EXPIRED" "Session expired or not found")
  if session.refreshTokenHash ≠ incomingHash then
    deleteSession sid
    .throw (UnauthorizedException "TOKEN_REUSE_DETECTED" "Refresh token reuse detected")
  else
    let newHash := hashRefreshToken x drawn.refreshToken
    updateSession sid newHash
    renewedTokens drawn sid session

def refreshByCookie (x : Crypto) (drawn : Drawn) (scan : Scan) (refreshToken : String) : Api AuthResult := do
  let incomingHash := hashRefreshToken x refreshToken
  let some (sid, session) ← getSessionByRefreshHash incomingHash scan
    | .throw (UnauthorizedException "SESSION_EXPIRED" "Session expired or not found")
  let newHash := hashRefreshToken x drawn.refreshToken
  updateSession sid newHash
  renewedTokens drawn sid session

def logout (sid : Sid) (jti : String) (exp : Nat) : Api Unit := do
  deleteSession sid
  let now ← dateNow
  let remaining : Int := exp - (now / 1000 : Nat)
  if remaining > 0 then blacklistToken jti remaining.toNat else return ()

end AuthService

/-! ## The controller and the guard -/

/-- The text after `Bearer ` of an `Authorization` header. -/
def bearerToken (authorization : Option String) : Option String :=
  match authorization with
  | some header => if header.startsWith "Bearer " then some (header.drop 7).copy else none
  | none => none

namespace AuthController

/-- The session that an `Authorization` header names, without any check of its signature. An empty `sid` counts as none. -/
def headerSid (x : Crypto) (authorization : Option String) : Option Sid :=
  match (bearerToken authorization).bind x.decodeJwt with
  | some payload => payload.sid.filter fun sid => sid ≠ ""
  | none => none

/-- `POST /auth/refresh`. -/
def refresh (x : Crypto) (drawn : Drawn) (scan : Scan) (cookie authorization : Option String) : Api AuthResult :=
  match cookie.filter fun token => token ≠ "" with
  | none => .throw (UnauthorizedException "MISSING_REFRESH_TOKEN" "No refresh token")
  | some refreshToken =>
    match headerSid x authorization with
    | some sid => AuthService.refresh x drawn refreshToken sid
    | none => AuthService.refreshByCookie x drawn scan refreshToken

/-- `POST /auth/logout`, for the user that the guard has put into the request. -/
def logout (user : Option JwtPayload) : Api Unit :=
  match user with
  | none => .throw (UnauthorizedException "NOT_AUTHENTICATED" "Not authenticated")
  | some user => AuthService.logout user.sid user.jti user.exp

end AuthController

/-- `AuthGuard.canActivate` on a route that is not public: the user it puts into the request. -/
def AuthGuard.canActivate (x : Crypto) (authorization : Option String) : Api JwtPayload :=
  match (bearerToken authorization).filter fun token => token ≠ "" with
  | none => .throw (UnauthorizedException "MISSING_TOKEN" "No auth token")
  | some token => do
    let some payload ← verifyAccessToken x token | .throw (UnauthorizedException "INVALID_TOKEN" "Invalid or expired token")
    if ← isTokenBlacklisted payload.jti then
      .throw (UnauthorizedException "TOKEN_REVOKED" "Token has been revoked")
    else
      let some _ ← getSession payload.sid | .throw (UnauthorizedException "SESSION_EXPIRED" "Session expired")
      return payload

end BrineVault
