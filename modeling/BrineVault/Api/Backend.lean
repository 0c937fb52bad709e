import BrineVault.Api.Exceptions
import BrineVault.Indexer.Tables
import BrineVault.Lib.Interleaving
import BrineVault.Lib.Redis

/-!
# What the API stands on

The keys of Redis that the API uses, the tables of the accounts, and the clock. The API is a program whose commands are single commands
of Redis, single statements of the database and readings of the clock; time passes between them. The clock of the API and that of Redis
are one, and no command fails for want of a connection.
-/

namespace BrineVault

open Interleaving (Prog)

/-! ## Records -/

abbrev Sid := String

structure ChallengeData where
  timestamp : String
  ip : String
  deriving DecidableEq, Repr

structure SessionData where
  userId : Uuid
  address : String
  orgId : Option Uuid
  refreshTokenHash : String
  createdAt : String
  lastActiveAt : String
  ip : String
  userAgent : String
  deriving DecidableEq, Repr

structure UserRow where
  id : Uuid
  primaryWalletAddress : String
  displayName : Option String
  orgId : Option Uuid
  roleInOrg : Nat
  deriving DecidableEq, Repr

structure OrganizationRow where
  id : Uuid
  name : String
  legalName : Option String
  createdByUserId : Option Uuid
  deriving DecidableEq, Repr

structure InviteCodeRow where
  id : Uuid
  orgId : Uuid
  code : String
  createdByUserId : Uuid
  maxUses : Nat
  currentUses : Nat
  expiresAt : Nat
  deriving DecidableEq, Repr

/-- The tables of the accounts. -/
structure Accounts where
  users : List UserRow
  organizations : List OrganizationRow
  inviteCodes : List InviteCodeRow
  deriving DecidableEq, Repr

/-! ## Statements -/

/-- The statements of `UsersRepository`, `OrganizationsRepository` and `InviteCodesRepository`. An insert carries the id that
`gen_random_uuid()` gives. -/
inductive Sql where
  | usersFindById (id : Uuid)
  | usersUpsertByWallet (id : Uuid) (primaryWalletAddress : String)
  | usersUpdate (id : Uuid) (orgId : Option Uuid) (roleInOrg : Nat)
  | organizationsCreate (row : OrganizationRow)
  | organizationsFindById (id : Uuid)
  | inviteCodesCreate (row : InviteCodeRow)
  | inviteCodesFindByCode (code : String)
  | inviteCodesIncrementUses (id : Uuid)
  deriving DecidableEq, Repr

/-- What a statement answers. The two that write `invite_codes` answer whether the constraints of the table let them. -/
abbrev Sql.Reply : Sql → Type
  | .usersFindById _ => Option UserRow
  | .usersUpsertByWallet _ _ => UserRow
  | .usersUpdate _ _ _ => Unit
  | .organizationsCreate _ => Unit
  | .organizationsFindById _ => Option OrganizationRow
  | .inviteCodesCreate _ => Bool
  | .inviteCodesFindByCode _ => Option InviteCodeRow
  | .inviteCodesIncrementUses _ => Bool

namespace Accounts

/-- A new row of `users`, with the defaults of the columns. -/
def newUser (id : Uuid) (primaryWalletAddress : String) : UserRow :=
  { id, primaryWalletAddress, displayName := none, orgId := none, roleInOrg := 1 }

def userById (db : Accounts) (id : Uuid) : Option UserRow := db.users.find? fun r => r.id = id

/-- A code is unique, and the check `chk_invite_uses` refuses the update that would count a use too many. -/
def exec (db : Accounts) : (c : Sql) → c.Reply × Accounts
  | .usersFindById id => (db.userById id, db)
  | .usersUpsertByWallet id address =>
    match db.users.find? fun r => r.primaryWalletAddress = address with
    | some row => (row, db)
    | none => (newUser id address, { db with users := db.users ++ [newUser id address] })
  | .usersUpdate id orgId roleInOrg =>
    ((), { db with users := db.users.map fun r => if r.id = id then { r with orgId, roleInOrg } else r })
  | .organizationsCreate row => ((), { db with organizations := db.organizations ++ [row] })
  | .organizationsFindById id => (db.organizations.find? fun r => r.id = id, db)
  | .inviteCodesCreate row =>
    if (∀ r ∈ db.inviteCodes, r.code ≠ row.code) ∧ row.currentUses ≤ row.maxUses ∧ 0 < row.maxUses then
      (true, { db with inviteCodes := db.inviteCodes ++ [row] })
    else (false, db)
  | .inviteCodesFindByCode code => (db.inviteCodes.find? fun r => r.code = code, db)
  | .inviteCodesIncrementUses id =>
    if ∀ r ∈ db.inviteCodes, r.id = id → r.currentUses + 1 ≤ r.maxUses then
      (true, { db with
        inviteCodes := db.inviteCodes.map fun r => if r.id = id then { r with currentUses := r.currentUses + 1 } else r })
    else (false, db)

end Accounts

/-! ## Commands -/

/-- The state that the requests of the API share. -/
structure Backend where
  now : Nat
  sessions : Redis.Keyspace Sid SessionData
  challenges : Redis.Keyspace String ChallengeData
  blacklist : Redis.Keyspace String Unit
  accounts : Accounts

/-- A command on `session:*`, on `auth:challenge:*` or on `token:blacklist:*`, a statement, or `Date.now()`. -/
inductive Command where
  | session (c : Redis.Command Sid SessionData)
  | challenge (c : Redis.Command String ChallengeData)
  | blacklist (c : Redis.Command String Unit)
  | sql (c : Sql)
  | dateNow
  deriving DecidableEq, Repr

abbrev Command.Reply : Command → Type
  | .session c => c.Reply
  | .challenge c => c.Reply
  | .blacklist c => c.Reply
  | .sql c => c.Reply
  | .dateNow => Nat

namespace Backend

def exec (b : Backend) : (c : Command) → c.Reply × Backend
  | .session c => ((b.sessions.exec b.now c).1, { b with sessions := (b.sessions.exec b.now c).2 })
  | .challenge c => ((b.challenges.exec b.now c).1, { b with challenges := (b.challenges.exec b.now c).2 })
  | .blacklist c => ((b.blacklist.exec b.now c).1, { b with blacklist := (b.blacklist.exec b.now c).2 })
  | .sql c => ((b.accounts.exec c).1, { b with accounts := (b.accounts.exec c).2 })
  | .dateNow => (b.now, b)

/-- Milliseconds pass. -/
def elapse (b : Backend) (ms : Nat) : Backend := { b with now := b.now + ms }

/-- The session under a key, when the key is there. -/
def session (b : Backend) (sid : Sid) : Option SessionData := (b.sessions.live b.now sid).map (·.value)

end Backend

/-- A program of the API. -/
abbrev Api (α : Type) := Prog Command Command.Reply HttpException α

/-- What `GlobalExceptionFilter` makes of an error that is no exception of its own. -/
def internalError : HttpException := { status := 500, code := "INTERNAL_ERROR", message := "Internal server error" }

end BrineVault
