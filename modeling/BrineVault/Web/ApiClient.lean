import BrineVault.Api.Calls

/-!
# `client.ts` and `auth-provider.tsx`: the calls of one browser

`ApiClient.fetch`: an answer 401 is followed by one refresh and one more attempt, and an exchange that the network loses is repeated. The
calls of a browser share its token, which `AuthProvider` keeps in a ref, and its cookie. The path of a call is a `GET` that `AuthGuard`
protects, and what it is answered is the user that the guard admits.
-/

namespace BrineVault

open Interleaving

/-- One browser, and the API behind it. -/
structure Browser where
  backend : Backend
  /-- `tokenRef.current`. -/
  token : Option String
  /-- The cookie `refresh_token`. -/
  cookie : Option String
  /-- How often `onUnauthorised` has been called. -/
  unauthorised : Nat
  /-- The answers to refreshes that have come in, the last one first. -/
  answers : List AuthResult

/-- A command of the API, or something that a call does in the browser. -/
inductive BrowserCommand where
  | api (c : Command)
  | getToken
  | getCookie
  /-- The answer to a refresh comes in, and sets the cookie. -/
  | answered (result : AuthResult)
  | onTokenRefreshed (token : String)
  | onUnauthorised
  deriving DecidableEq, Repr

abbrev BrowserCommand.Reply : BrowserCommand → Type
  | .api c => c.Reply
  | .getToken => Option String
  | .getCookie => Option String
  | .answered _ => Unit
  | .onTokenRefreshed _ => Unit
  | .onUnauthorised => Unit

namespace Browser

/-- `onUnauthorised` is the `logout` of `AuthProvider`, which forgets the token. -/
def exec (w : Browser) : (c : BrowserCommand) → c.Reply × Browser
  | .api c => ((w.backend.exec c).1, { w with backend := (w.backend.exec c).2 })
  | .getToken => (w.token, w)
  | .getCookie => (w.cookie, w)
  | .answered result => ((), { w with cookie := some result.refreshToken, answers := result :: w.answers })
  | .onTokenRefreshed token => ((), { w with token := some token })
  | .onUnauthorised => ((), { w with token := none, unauthorised := w.unauthorised + 1 })

def elapse (w : Browser) (ms : Nat) : Browser := { w with backend := w.backend.elapse ms }

end Browser

/-- What a call rejects with: an `ApiRequestError`, or the `TypeError` of an exchange that the network has lost. -/
inductive FetchError where
  | request (message code : String) (status : Nat)
  | network
  deriving DecidableEq, Repr

/-- A program of the browser. -/
abbrev Web (α : Type) := Prog BrowserCommand BrowserCommand.Reply FetchError α

/-- What the network does with an exchange. -/
inductive Delivery where
  | delivered
  | requestLost
  | answerLost
  deriving DecidableEq, Repr

/-- A call: what its refresh draws, and what the network does with its exchanges, which it delivers when the list is at its end. -/
structure ClientCall where
  drawn : Drawn
  scan : Scan
  net : List Delivery
  deriving DecidableEq, Repr

/-- The API serves a request, and answers with the result or the exception. -/
def served {α : Type} : Api α → Web (Except HttpException α)
  | .ret a => .ret (.ok a)
  | .throw e => .ret (.error e)
  | .call c k => .call (.api c) fun r => served (k r)

/-- The `fetch` of the browser: the answer, or none when the network loses it. -/
def exchange {α : Type} : Delivery → Api α → Web (Option (Except HttpException α))
  | .delivered, p => do return some (← served p)
  | .requestLost, _ => return none
  | .answerLost, p => do
    let _ ← served p
    return none

/-- The `Authorization` header, when there is a token. -/
def bearer (token : Option String) : Option String := (token.filter fun t => t ≠ "").map fun t => "Bearer " ++ t

namespace ApiClient

/-- `sign` gives the text of an access token. -/
def received (sign : JwtPayload → String) : Option (Except HttpException AuthResult) → Web Bool
  | some (.ok result) => do
    let _ : Unit ← Prog.send (BrowserCommand.answered result)
    let _ : Unit ← Prog.send (BrowserCommand.onTokenRefreshed (sign result.accessToken))
    return true
  | some (.error _) | none => return false

def attemptRefresh (x : Crypto) (sign : JwtPayload → String) (call : ClientCall) (net : List Delivery) : Web Bool := do
  let token : Option String ← Prog.send BrowserCommand.getToken
  let cookie : Option String ← Prog.send BrowserCommand.getCookie
  received sign
    (← exchange (net.headD .delivered) (AuthController.refresh x call.drawn call.scan cookie (bearer token)))

/-- The end of a call that is not authorised. -/
def giveUp : Web JwtPayload := do
  let _ : Unit ← Prog.send BrowserCommand.onUnauthorised
  .throw (.request "Unauthorised" "E_UNAUTHORISED" 401)

/-- What follows an answer. -/
def settle (on401 onLost : Web JwtPayload) : Option (Except HttpException JwtPayload) → Web JwtPayload
  | some (.ok user) => return user
  | some (.error e) => if e.status = 401 then on401 else .throw (.request e.message e.code e.status)
  | none => onLost

def maxRetries : Nat := 3

/-- The loop: the first argument of the recursion is how many attempts are left after this one. -/
def attempts (x : Crypto) (authorization : Option String) (on401 : List Delivery → Web JwtPayload) :
    Nat → List Delivery → Web JwtPayload
  | 0, net => do
    settle (on401 net.tail) (.throw .network) (← exchange (net.headD .delivered) (AuthGuard.canActivate x authorization))
  | left + 1, net => do
    settle (on401 net.tail) (attempts x authorization on401 left net.tail)
      (← exchange (net.headD .delivered) (AuthGuard.canActivate x authorization))

/-- `fetch` with `_isRetry`. -/
def fetchRetry (x : Crypto) (net : List Delivery) : Web JwtPayload := do
  let token : Option String ← Prog.send BrowserCommand.getToken
  attempts x (bearer token) (fun _ => giveUp) maxRetries net

/-- What the first attempt does with an answer 401. -/
def refreshAndRetry (x : Crypto) (sign : JwtPayload → String) (call : ClientCall) (net : List Delivery) : Web JwtPayload := do
  if ← attemptRefresh x sign call net then fetchRetry x net.tail else giveUp

def fetch (x : Crypto) (sign : JwtPayload → String) (call : ClientCall) : Web JwtPayload := do
  let token : Option String ← Prog.send BrowserCommand.getToken
  attempts x (bearer token) (refreshAndRetry x sign call) maxRetries call.net

end ApiClient

end BrineVault
