import BrineVault.Api.Auth

/-!
# `orgs.service.ts`: organisations and invites

The requests that write the organisation and the role of a user. A row that a constraint refuses is an exception of its own, which the
caller does not catch.
-/

namespace BrineVault

open Interleaving (Prog)
open IsoDate (toISOString)

namespace Roles

def viewer : Nat := 1
def orgAdmin : Nat := 32

def hasRole (userRole requiredRole : Nat) : Bool := userRole &&& requiredRole > 0

end Roles

def ConflictException (code message : String) : HttpException := { status := 409, code, message }

structure CreateOrgDto where
  name : String
  legalName : Option String
  deriving DecidableEq, Repr

structure GenerateInviteDto where
  role : Nat
  maxUses : Nat
  expiresInHours : Nat
  deriving DecidableEq, Repr

structure JoinOrgDto where
  inviteCode : String
  deriving DecidableEq, Repr

/-- The answer of `generateInvite`, with `expiresAt` in milliseconds. -/
structure GeneratedInvite where
  inviteCode : String
  expiresAt : Nat
  maxUses : Nat
  usedCount : Nat
  role : Nat
  deriving DecidableEq, Repr

/-- The answer of `joinOrg`. -/
structure JoinedOrg where
  orgId : Uuid
  orgName : Option String
  role : Nat
  joinedAt : String
  deriving DecidableEq, Repr

/-- What an invite draws: the id of its row, and the two segments of its code, each the upper-case hex of two random bytes. -/
structure DrawnInvite where
  id : Uuid
  seg1 : String
  seg2 : String
  deriving DecidableEq, Repr

def usersUpdate (id : Uuid) (orgId : Option Uuid) (roleInOrg : Nat) : Api Unit := Prog.send (Command.sql (.usersUpdate id orgId roleInOrg))
def organizationsCreate (row : OrganizationRow) : Api Unit := Prog.send (Command.sql (.organizationsCreate row))
def organizationsFindById (id : Uuid) : Api (Option OrganizationRow) := Prog.send (Command.sql (.organizationsFindById id))
def inviteCodesCreate (row : InviteCodeRow) : Api Bool := Prog.send (Command.sql (.inviteCodesCreate row))
def inviteCodesFindByCode (code : String) : Api (Option InviteCodeRow) := Prog.send (Command.sql (.inviteCodesFindByCode code))
def inviteCodesIncrementUses (id : Uuid) : Api Bool := Prog.send (Command.sql (.inviteCodesIncrementUses id))

namespace OrgsService

/-- `orgId` is the id that the new row is given. -/
def createOrg (orgId userId : Uuid) (dto : CreateOrgDto) : Api OrganizationRow := do
  let some user ← usersFindById userId | .throw (NotFoundException "USER_NOT_FOUND" "User not found")
  if user.orgId ≠ none then
    .throw (ConflictException "ALREADY_IN_ORG" "User already belongs to an organization")
  else
    let org : OrganizationRow := { id := orgId, name := dto.name, legalName := dto.legalName, createdByUserId := some userId }
    organizationsCreate org
    usersUpdate userId (some org.id) Roles.orgAdmin
    return org

/-- The letters and digits of the name, the first five of them, filled up with `X`. -/
def buildInviteCode (orgName seg1 seg2 : String) : String :=
  let raw := (orgName.toList.filter Char.isAlphanum).map Char.toUpper
  String.ofList (raw.take 5 ++ List.replicate (5 - raw.length) 'X') ++ "-" ++ seg1 ++ "-" ++ seg2

def generateInvite (drawn : DrawnInvite) (orgId userId : Uuid) (userOrgId : Option Uuid) (userOrgRole : Nat)
    (dto : GenerateInviteDto) : Api GeneratedInvite := do
  if userOrgId ≠ some orgId then
    .throw (ForbiddenException "NOT_IN_ORG" "Not a member of this organization")
  else if ¬ Roles.hasRole userOrgRole Roles.orgAdmin then
    .throw (ForbiddenException "INSUFFICIENT_ROLE" "Requires ORG_ADMIN role")
  else
    let some org ← organizationsFindById orgId | .throw (NotFoundException "ORG_NOT_FOUND" "Organization not found")
    let code := buildInviteCode org.name drawn.seg1 drawn.seg2
    let now ← dateNow
    let expiresAt := now + dto.expiresInHours * 3600000
    if ← inviteCodesCreate
        { id := drawn.id, orgId, code, createdByUserId := userId, maxUses := dto.maxUses, currentUses := 0, expiresAt } then
      return { inviteCode := code, expiresAt, maxUses := dto.maxUses, usedCount := 0, role := dto.role }
    else .throw internalError

/-- The user is updated before the use is counted, in two statements. -/
def joinOrg (userId : Uuid) (dto : JoinOrgDto) : Api JoinedOrg := do
  let some user ← usersFindById userId | .throw (NotFoundException "USER_NOT_FOUND" "User not found")
  if user.orgId ≠ none then
    .throw (ConflictException "ALREADY_IN_ORG" "User already belongs to an organization")
  else
    let some invite ← inviteCodesFindByCode dto.inviteCode | .throw (NotFoundException "INVALID_INVITE_CODE" "Invalid invite code")
    let now ← dateNow
    if invite.expiresAt ≤ now then
      .throw (NotFoundException "INVITE_CODE_EXPIRED" "Invite code has expired")
    else if invite.currentUses ≥ invite.maxUses then
      .throw (NotFoundException "INVITE_CODE_EXPIRED" "Invite code has been fully used")
    else
      let role := Roles.viewer
      usersUpdate userId (some invite.orgId) role
      if ← inviteCodesIncrementUses invite.id then
        let org ← organizationsFindById invite.orgId
        let joined ← dateNow
        return { orgId := invite.orgId, orgName := org.map (·.name), role, joinedAt := toISOString joined }
      else .throw internalError

end OrgsService

end BrineVault
