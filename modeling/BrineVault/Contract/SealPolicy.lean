import BrineVault.Contract.Folders
import BrineVault.Contract.Members

/-!
# `seal_policy.move`, and the folder keys beside it

A folder is opened to a member in two ways: the policy that the key servers ask compares the member's role with the mask of the folder,
and an encrypted key stored for the member opens it without asking. Storing a key looks at the folder's existence and at the member's
activity only, so the two ways part at a custom folder whose mask leaves the member's roles out.
-/

namespace BrineVault

open Move

/-- `dataroom::get_role`. -/
def DataRoom.getRole (dr : DataRoom) (addr : Address) : Exec UInt8 := do
  assert (addr ∈ dr.members) Errors.notMember
  let m ← Table.borrow dr.members addr
  return m.role

namespace SealPolicy

/-- `seal_policy::can_access`: no abort for an address that is not a member. -/
def canAccess (pool : Pool) (caller : Address) (minRole : UInt8) : Exec Bool :=
  if pool.dataroom.isActiveMember caller = false then .ok false
  else do
    let role ← pool.dataroom.getRole caller
    return Types.hasRole role minRole

/-- `seal_policy::can_access_folder`, which has the same body. -/
def canAccessFolder (pool : Pool) (caller : Address) (folderVisibleToRoles : UInt8) : Exec Bool :=
  canAccess pool caller folderVisibleToRoles

/-- The policy never aborts; it grants what a role of an active member meets. -/
theorem canAccess_eq (pool : Pool) (caller : Address) (minRole : UInt8) :
    canAccess pool caller minRole =
      .ok ((pool.dataroom.members.lookup caller).any fun m => m.isActive && Types.hasRole m.role minRole) := by
  unfold canAccess
  cases hl : pool.dataroom.members.lookup caller with
  | none => simp [DataRoom.isActiveMember, hl]
  | some m =>
    have hmem : caller ∈ pool.dataroom.members := AList.lookup_isSome.1 (by rw [hl]; rfl)
    cases ha : m.isActive with
    | false => simp [DataRoom.isActiveMember, hl, ha]
    | true =>
      have hrole : pool.dataroom.getRole caller = .ok m.role := by
        simp only [DataRoom.getRole, bind_eq_ok, assert_eq_ok, pure_eq_ok, Table.borrow_eq_ok]
        exact ⟨(), hmem, m, hl, rfl⟩
      simp only [DataRoom.isActiveMember, hl, ha, Bool.true_eq_false, if_false, hrole, Option.any_some, Bool.true_and]
      rfl

end SealPolicy

/-- A valid role meets the mask of all roles. -/
theorem Types.hasRole_all {role : UInt8} (h : 0 < role ∧ role ≤ 63) : Types.hasRole role Types.roleAll = true := by
  have hle : role.toNat ≤ 63 := UInt8.le_iff_toNat_le.1 h.2
  have hmask : role &&& Types.roleAll = role := by
    rw [← UInt8.toNat_inj, UInt8.toNat_and]
    calc role.toNat &&& 2 ^ 6 - 1 = role.toNat % 2 ^ 6 := Nat.and_two_pow_sub_one_eq_mod _ _
      _ = role.toNat := Nat.mod_eq_of_lt (by omega)
  rw [Types.hasRole, hmask]
  exact decide_eq_true h.1

/-- A key is stored for a folder that exists and a member that is active. -/
theorem Pool.storeEncryptedFolderKey_checked {config : AdminConfig} {pool pool' : Pool} {folderId : Nat} {addr : Address}
    {key : List UInt8} {ctx : Ctx} {evs : List Event}
    (h : pool.storeEncryptedFolderKey config folderId addr key ctx = .ok (pool', evs)) :
    (∃ f, pool.dataroom.folders.lookup folderId = some f) ∧
      ∃ m, pool.dataroom.members.lookup addr = some m ∧ m.isActive = true := by
  simp only [storeEncryptedFolderKey, bind_eq_ok, assert_eq_ok, DataRoom.folderExists, decide_eq_true_eq] at h
  obtain ⟨_, _, _, _, _, hf, _, ha, _⟩ := h
  refine ⟨Option.isSome_iff_exists.1 (AList.lookup_isSome.2 hf), ?_⟩
  unfold DataRoom.isActiveMember at ha
  split at ha
  · cases ha
  · rename_i m hm
    exact ⟨m, hm, ha⟩

namespace World

/-- Where a key is stored for a member, the policy grants the member the folder exactly when the folder is a default one or one of the
member's roles is in the mask the folder was created with. -/
theorem stored_key_granted_iff {publisher : Ctx} {steps : List Step} {w w' : World} (hr : run publisher steps = .ok w) {s : Step}
    (hs : w.step s = .ok w') {poolId : ID} {folderId : Nat} {addr : Address} {key : List UInt8}
    (hc : s.call = .onPool poolId (.storeEncryptedFolderKey folderId addr key)) :
    ∃ pool f m, w.pools.lookup poolId = some pool ∧ pool.dataroom.folders.lookup folderId = some f ∧
      pool.dataroom.members.lookup addr = some m ∧
      (SealPolicy.canAccessFolder pool addr f.visibleToRoles = .ok true ↔
        folderId < DataRoom.defaultFolderNames.length ∨ Types.hasRole m.role f.visibleToRoles = true) := by
  obtain ⟨pool, _, _, hl, _, hx⟩ := step_onPool hs hc
  obtain ⟨⟨f, hf⟩, m, hm, ha⟩ := Pool.storeEncryptedFolderKey_checked hx
  refine ⟨pool, f, m, hl, hf, hm, ?_⟩
  have hgrant : SealPolicy.canAccessFolder pool addr f.visibleToRoles = .ok true ↔ Types.hasRole m.role f.visibleToRoles = true := by
    rw [SealPolicy.canAccessFolder, SealPolicy.canAccess_eq, hm, Option.any_some, ha, Bool.true_and, Except.ok.injEq]
  rw [hgrant]
  constructor
  · exact .inr
  · rintro (hdefault | hrole)
    · rw [(folderTree_run hr hl).defaults folderId f hf hdefault]
      exact Types.hasRole_all ((bookkept_run hr hl).entries addr m hm).1
    · exact hrole

/-- A key of a default folder for a reviewer. -/
theorem stored_key_granted_iff_sample :
    ∃ w w' pool f m, run Sample.owner [Sample.createPool, Sample.byOwner (.addMember 8 Types.roleReviewer [])] = .ok w ∧
      w.step (Sample.byOwner (.storeEncryptedFolderKey 3 8 [1])) = .ok w' ∧
      w.pools.lookup 2 = some pool ∧ pool.dataroom.folders.lookup 3 = some f ∧ pool.dataroom.members.lookup 8 = some m ∧
      (SealPolicy.canAccessFolder pool 8 f.visibleToRoles = .ok true ↔
        3 < DataRoom.defaultFolderNames.length ∨ Types.hasRole m.role f.visibleToRoles = true) := by
  have hr : ∃ w w', run Sample.owner [Sample.createPool, Sample.byOwner (.addMember 8 Types.roleReviewer [])] = .ok w ∧
      w.step (Sample.byOwner (.storeEncryptedFolderKey 3 8 [1])) = .ok w' := ⟨_, _, rfl, rfl⟩
  obtain ⟨w, w', hr, hs⟩ := hr
  obtain ⟨pool, f, m, h⟩ := stored_key_granted_iff hr hs rfl
  exact ⟨w, w', pool, f, m, hr, hs, h⟩

/-- The owner creates a folder for editors and stores its key for a reviewer, whom the policy refuses the folder. -/
theorem stored_key_refused :
    ∃ w w' pool f, run Sample.owner [Sample.createPool, Sample.byOwner (.addMember 8 Types.roleReviewer []),
        Sample.byOwner (.createCustomFolder [69] none Types.roleEditor)] = .ok w ∧
      w.step (Sample.byOwner (.storeEncryptedFolderKey 100 8 [1])) = .ok w' ∧
      w.pools.lookup 2 = some pool ∧ pool.dataroom.folders.lookup 100 = some f ∧
      SealPolicy.canAccessFolder pool 8 f.visibleToRoles = .ok false :=
  ⟨_, _, _, _, rfl, rfl, rfl, rfl, rfl⟩

end World

end BrineVault
