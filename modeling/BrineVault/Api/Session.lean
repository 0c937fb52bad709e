import BrineVault.Api.Backend
import BrineVault.Lib.IsoDate

/-!
# `session.service.ts`: challenges, sessions and the blacklist

The functions of `SessionService`, one command of Redis at a time. A value under a key is the record that its JSON text says.
-/

namespace BrineVault

open Interleaving (Prog)
open IsoDate (toISOString)

namespace AuthConfig

def challengeTtlSeconds : Nat := 300
def accessTokenTtlSeconds : Nat := 900
def refreshTokenTtlSeconds : Nat := 604800

end AuthConfig

/-- `Date.now()`. -/
def dateNow : Api Nat := Prog.send Command.dateNow

/-- The replies of one iteration of `SCAN` over `session:*`: the keys of each, and whether the cursor that comes with them is 0. -/
inductive Scan where
  | last (keys : List Sid)
  | more (keys : List Sid) (rest : Scan)
  deriving DecidableEq, Repr

namespace SessionService

/-! ## Challenges -/

def storeChallenge (nonce ip : String) : Api Unit := do
  let now ← dateNow
  Prog.send (Command.challenge (.set nonce { timestamp := toISOString now, ip } AuthConfig.challengeTtlSeconds))

/-- The two commands of the pipeline are sent in their order, and commands of others may come between them. -/
def consumeChallenge (nonce : String) : Api (Option ChallengeData) := do
  let value : Option ChallengeData ← Prog.send (Command.challenge (.get nonce))
  let _ : Nat ← Prog.send (Command.challenge (.del nonce))
  return value

/-! ## Sessions -/

/-- `sid` is what `randomUUID()` gives. -/
def createSession (sid : Sid) (userId : Uuid) (address : String) (orgId : Option Uuid) (refreshTokenHash ip userAgent : String) :
    Api Sid := do
  let now ← dateNow
  let data : SessionData :=
    { userId, address, orgId, refreshTokenHash, createdAt := toISOString now, lastActiveAt := toISOString now, ip, userAgent }
  let _ : Unit ← Prog.send (Command.session (.set sid data AuthConfig.refreshTokenTtlSeconds))
  return sid

def getSession (sid : Sid) : Api (Option SessionData) := Prog.send (Command.session (.get sid))

def updateSession (sid : Sid) (newRefreshHash : String) : Api Unit := do
  let some data ← getSession sid | return ()
  let ttl : Int ← Prog.send (Command.session (.ttl sid))
  if ttl ≤ 0 then return () else
    let now ← dateNow
    Prog.send (Command.session
      (.set sid { data with refreshTokenHash := newRefreshHash, lastActiveAt := toISOString now } ttl.toNat))

/-- The loop over the values of one page. -/
def findInPage (refreshTokenHash : String) : List Sid → List (Option SessionData) → Option (Sid × SessionData)
  | sid :: keys, some data :: values =>
    if data.refreshTokenHash = refreshTokenHash then some (sid, data) else findInPage refreshTokenHash keys values
  | _ :: keys, none :: values => findInPage refreshTokenHash keys values
  | _, _ => none

/-- The body of the `do` loop: a `SCAN`, and an `MGET` of the keys it answers, when there are some. -/
def scanPage (refreshTokenHash : String) (page : List Sid) : Api (Option (Sid × SessionData)) := do
  let keys : List Sid ← Prog.send (Command.session (.scan page))
  if keys = [] then return none else
    let values : List (Option SessionData) ← Prog.send (Command.session (.mget keys))
    return findInPage refreshTokenHash keys values

/-- The loop ends with the first match, or with the cursor 0. -/
def getSessionByRefreshHash (refreshTokenHash : String) : Scan → Api (Option (Sid × SessionData))
  | .last keys => scanPage refreshTokenHash keys
  | .more keys rest => do
    match ← scanPage refreshTokenHash keys with
    | some session => return some session
    | none => getSessionByRefreshHash refreshTokenHash rest

def deleteSession (sid : Sid) : Api Unit := do
  let _ : Nat ← Prog.send (Command.session (.del sid))

/-! ## Blacklist -/

def blacklistToken (jti : String) (ttlSeconds : Nat) : Api Unit := Prog.send (Command.blacklist (.set jti () ttlSeconds))

def isTokenBlacklisted (jti : String) : Api Bool := do
  let isThere : Nat ← Prog.send (Command.blacklist (.existsKey jti))
  return isThere == 1

end SessionService

end BrineVault
