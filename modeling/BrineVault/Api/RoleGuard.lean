import BrineVault.Api.Orgs
import BrineVault.Api.Reads

/-!
# `role.guard.ts`

The guard of the routes with a required role. It looks a member up under the id of the pool, where the rows hold the id of the room, and
does not look at `isActive`.
-/

namespace BrineVault

/-- The user of a request, as far as the guard looks at it. -/
structure RequestUser where
  address : Address
  orgRole : Nat
  deriving DecidableEq, Repr

namespace RoleGuard

/-- `requiredRole` is the metadata of the route, `poolId` its parameter. -/
def canActivate (db : Db) (requiredRole : Option Nat) (user : Option RequestUser) (poolId : Option Uuid) :
    Except HttpException Bool :=
  match requiredRole with
  | none => .ok true
  | some requiredRole =>
    match user with
    | none => .error (ForbiddenException "NO_USER" "User not authenticated")
    | some user =>
      if Roles.hasRole user.orgRole requiredRole then .ok true
      else
        let member := poolId.bind fun poolId => MembersRepository.findByDataroomAndAddress db poolId user.address
        if member.any fun member => Roles.hasRole member.role.toNat requiredRole then .ok true
        else .error (ForbiddenException "INSUFFICIENT_ROLE" "Insufficient permissions")

end RoleGuard

namespace Db

/-- The unique index on the room and the address. -/
def MembersUnique (db : Db) : Prop := (db.members.map MemberRow.key).Nodup

/-- The user has an active row in a room of the pool, with a role that meets the mask. -/
def ActiveWith (db : Db) (poolId : Uuid) (address : Address) (mask : Nat) : Prop :=
  ∃ room ∈ db.datarooms, room.poolId = poolId ∧
    ∃ m ∈ db.members, m.dataroomId = room.id ∧ m.memberAddress = address ∧ m.isActive = true ∧
      Roles.hasRole m.role.toNat mask = true

/-- The user has a row, active or revoked, in the room whose id is this one, with a role that meets the mask. -/
def RowWith (db : Db) (roomId : Uuid) (address : Address) (mask : Nat) : Prop :=
  ∃ m ∈ db.members, m.key = (roomId, address) ∧ Roles.hasRole m.role.toNat mask = true

end Db

/-- The guard lets the user pass for the role in the organisation, or for an active membership in the room of the pool, and for nothing
else. -/
def RoleGuard.DecidesByMembership (db : Db) (mask : Nat) (user : RequestUser) (poolId : Uuid) : Prop :=
  canActivate db (some mask) (some user) (some poolId) = .ok true ↔
    Roles.hasRole user.orgRole mask = true ∨ db.ActiveWith poolId user.address mask

variable {db : Db} {mask : Nat} {user : RequestUser} {poolId : Uuid}

/-- With the unique index, the lookup gives the row with the key. -/
theorem MembersRepository.findByDataroomAndAddress_eq_some (hu : db.MembersUnique) {roomId : Uuid} {address : Address} {m : MemberRow} :
    findByDataroomAndAddress db roomId address = some m ↔ m ∈ db.members ∧ m.key = (roomId, address) := by
  constructor
  · intro h
    have hkey : m.dataroomId = roomId ∧ m.memberAddress = address := by simpa using List.find?_some h
    exact ⟨List.mem_of_find?_eq_some h, Prod.ext hkey.1 hkey.2⟩
  · rintro ⟨hm, hkey⟩
    obtain ⟨r, hr⟩ : ∃ r, findByDataroomAndAddress db roomId address = some r := by
      rw [← Option.isSome_iff_exists, findByDataroomAndAddress, List.find?_isSome]
      exact ⟨m, hm, by simpa [MemberRow.key] using hkey⟩
    have hrkey : r.dataroomId = roomId ∧ r.memberAddress = address := by simpa using List.find?_some hr
    have hrm : r.key = m.key := by rw [hkey, MemberRow.key, hrkey.1, hrkey.2]
    rw [hr, List.inj_on_of_nodup_map hu (List.mem_of_find?_eq_some hr) hm hrm]

namespace RoleGuard

/-- Whom the guard lets pass: it looks at the rows of the room that has the id of the pool. -/
theorem canActivate_eq_ok_iff (hu : db.MembersUnique) :
    canActivate db (some mask) (some user) (some poolId) = .ok true ↔
      Roles.hasRole user.orgRole mask = true ∨ db.RowWith poolId user.address mask := by
  unfold canActivate
  by_cases horg : Roles.hasRole user.orgRole mask = true
  · simp [horg]
  · have hlookup : ((MembersRepository.findByDataroomAndAddress db poolId user.address).any
        fun member => Roles.hasRole member.role.toNat mask) = true ↔ db.RowWith poolId user.address mask := by
      simp only [Option.any_eq_true, MembersRepository.findByDataroomAndAddress_eq_some hu, Db.RowWith, and_assoc]
    by_cases hrow : db.RowWith poolId user.address mask
    · simp [horg, hrow, hlookup.2 hrow]
    · simp [horg, hrow, hlookup]

/-- The guard decides by membership exactly for a user whose role in the organisation meets the mask, or who has a row in the room that
has the id of the pool exactly when an active one in the room of the pool. Where no row names the pool's id as that of its room, these
are the users who do not need their membership. -/
theorem decides_by_membership_iff (hu : db.MembersUnique) :
    (DecidesByMembership db mask user poolId ↔
      Roles.hasRole user.orgRole mask = true ∨
        (db.RowWith poolId user.address mask ↔ db.ActiveWith poolId user.address mask)) ∧
    ((∀ m ∈ db.members, m.dataroomId ≠ poolId) →
      (DecidesByMembership db mask user poolId ↔
        Roles.hasRole user.orgRole mask = true ∨ ¬ db.ActiveWith poolId user.address mask)) := by
  have hiff : DecidesByMembership db mask user poolId ↔
      Roles.hasRole user.orgRole mask = true ∨
        (db.RowWith poolId user.address mask ↔ db.ActiveWith poolId user.address mask) := by
    rw [DecidesByMembership, canActivate_eq_ok_iff hu]
    tauto
  refine ⟨hiff, fun hapart => ?_⟩
  have hnone : ¬ db.RowWith poolId user.address mask := by
    intro ⟨m, hm, hkey, _⟩
    exact hapart m hm (congrArg Prod.fst hkey)
  rw [hiff]
  tauto

end RoleGuard

/-- The pool with its room, and the row of a reviewer of the room. -/
def Sample.withReviewer (isActive : Bool) (roomId : Uuid) : Db :=
  { Sample.withPool with
    datarooms := [{ id := roomId, suiObjectId := 3, poolId := .given 0, ownerAddress := 7 }]
    members := [{ dataroomId := roomId, poolId := .given 0, memberAddress := 9, role := 2, addedByAddress := 7, isActive }] }

def Sample.memberOfRoom : RequestUser := { address := 9, orgRole := 0 }

namespace RoleGuard

/-- The condition at an active reviewer whose role in the organisation is too low. -/
theorem decides_by_membership_sample :
    (DecidesByMembership (Sample.withReviewer true (.given 1)) 2 Sample.memberOfRoom (.given 0) ↔
      Roles.hasRole Sample.memberOfRoom.orgRole 2 = true ∨
        ((Sample.withReviewer true (.given 1)).RowWith (.given 0) 9 2 ↔
          (Sample.withReviewer true (.given 1)).ActiveWith (.given 0) 9 2)) ∧
    (DecidesByMembership (Sample.withReviewer true (.given 1)) 2 Sample.memberOfRoom (.given 0) ↔
      Roles.hasRole Sample.memberOfRoom.orgRole 2 = true ∨ ¬ (Sample.withReviewer true (.given 1)).ActiveWith (.given 0) 9 2) :=
  have h := @decides_by_membership_iff (Sample.withReviewer true (.given 1)) 2 Sample.memberOfRoom (.given 0) (List.nodup_singleton _)
  ⟨h.1, h.2 (by decide)⟩

/-- An active reviewer of the pool's room is refused; where the room has the id of the pool, a revoked one passes. -/
theorem active_refused_revoked_passes :
    (canActivate (Sample.withReviewer true (.given 1)) (some 2) (some Sample.memberOfRoom) (some (.given 0)) =
        .error (ForbiddenException "INSUFFICIENT_ROLE" "Insufficient permissions") ∧
      (Sample.withReviewer true (.given 1)).ActiveWith (.given 0) 9 2) ∧
    ¬ DecidesByMembership (Sample.withReviewer true (.given 1)) 2 Sample.memberOfRoom (.given 0) ∧
    canActivate (Sample.withReviewer false (.given 0)) (some 2) (some Sample.memberOfRoom) (some (.given 0)) = .ok true ∧
    ¬ DecidesByMembership (Sample.withReviewer false (.given 0)) 2 Sample.memberOfRoom (.given 0) := by
  have hactive : (Sample.withReviewer true (.given 1)).ActiveWith (.given 0) 9 2 :=
    ⟨_, List.mem_singleton_self _, rfl, _, List.mem_singleton_self _, rfl, rfl, rfl, by decide⟩
  have hrevoked : ¬ (Sample.withReviewer false (.given 0)).ActiveWith (.given 0) 9 2 := by
    rintro ⟨_, _, _, m, hm, _, _, ha, _⟩
    cases List.mem_singleton.1 hm
    cases ha
  refine ⟨⟨rfl, hactive⟩, fun h => ?_, rfl, fun h => ?_⟩
  · cases h.2 (.inr hactive)
  · obtain horg | ha := h.1 rfl
    · cases horg
    · exact hrevoked ha

end RoleGuard

end BrineVault
