import BrineVault.Contract.Events

/-!
# `dataroom.move`: the data room of a pool, its members, its folders and their keys

The members are a table; the folders and the folder keys are the dynamic fields of key type `u64` and `FolderKeyTag`. A member
is never taken out of the table: a revoked member is an entry that is not active.
-/

namespace BrineVault

open Move

structure Membership where
  role : UInt8
  addedBy : Address
  addedAt : Nat
  isActive : Bool
  revokedAt : Option Nat
  tags : List MoveString
  deriving DecidableEq, Repr

structure FolderMeta where
  name : MoveString
  folderId : Nat
  parentId : Option Nat
  visibleToRoles : UInt8
  createdAt : Nat
  createdBy : Address
  deriving DecidableEq, Repr

structure FolderKeyTag where
  folderId : Nat
  member : Address
  deriving DecidableEq, Repr

structure DataRoom where
  id : ID
  poolId : ID
  owner : Address
  memberCount : Nat
  members : Table Address Membership
  defaultFolders : List MoveString
  customFolderCount : Nat
  sealPolicyId : Option ID
  createdAt : Nat
  lastUpdatedAt : Nat
  folders : Table Nat FolderMeta
  folderKeys : Table FolderKeyTag (List UInt8)

namespace DataRoom

def customFolderStartId : Nat := 100

/-- The bytes of an ASCII literal, `b"...".to_string()`. -/
def ascii (s : String) : MoveString := s.toList.map (fun c => c.toNat.toUInt8)

/-- The names of `create_default_folders`, in order. -/
def defaultFolderNames : List MoveString :=
  [ascii "Legal", ascii "Financials", ascii "Collateral", ascii "Compliance", ascii "Reports", ascii "Misc"]

/-- The loop of `create_default_folders`, from folder `i` on. -/
def createDefaultFolders (dr : DataRoom) (creator : Address) (now : Nat) (i : Nat) : List MoveString → Exec DataRoom
  | [] => .ok dr
  | name :: names => do
    let info : FolderMeta :=
      { name, folderId := i, parentId := none, visibleToRoles := Types.roleAll, createdAt := now, createdBy := creator }
    let folders ← Table.add dr.folders i info
    createDefaultFolders { dr with folders, defaultFolders := dr.defaultFolders ++ [name] } creator now (i + 1) names

/-- `dataroom::new`, with the id `object::new` gives it. The creator is the owner and its first member. -/
def new (id poolId : ID) (owner : Address) (ctx : Ctx) : Exec (DataRoom × List Event) := do
  let membership : Membership :=
    { role := Types.roleOwner, addedBy := owner, addedAt := ctx.now, isActive := true, revokedAt := none, tags := [] }
  let members ← Table.add ∅ owner membership
  let empty : DataRoom :=
    { id, poolId, owner, memberCount := 1, members, defaultFolders := [], customFolderCount := customFolderStartId,
      sealPolicyId := none, createdAt := ctx.now, lastUpdatedAt := ctx.now, folders := ∅, folderKeys := ∅ }
  let dr ← createDefaultFolders empty owner ctx.now 0 defaultFolderNames
  return (dr, [.dataRoomCreated poolId id owner ctx.now, .memberAdded poolId owner Types.roleOwner owner ctx.now])

/-- `dataroom::assert_member_role`: an active member whose role meets the required mask. -/
def assertMemberRole (dr : DataRoom) (caller : Address) (requiredRole : UInt8) : Exec Unit := do
  assert (caller ∈ dr.members) Errors.notMember
  let m ← Table.borrow dr.members caller
  assert m.isActive Errors.notMember
  assert (Types.hasRole m.role requiredRole) Errors.insufficientRole

def hasMember (dr : DataRoom) (addr : Address) : Bool := decide (addr ∈ dr.members)

def isActiveMember (dr : DataRoom) (addr : Address) : Bool :=
  match dr.members.lookup addr with
  | none => false
  | some m => m.isActive

/-- `dataroom::add_member`: an address that was never a member. -/
def addMember (dr : DataRoom) (addr : Address) (role : UInt8) (addedBy : Address) (tags : List MoveString) (ctx : Ctx) :
    Exec (DataRoom × List Event) := do
  assert (addr ∉ dr.members) Errors.memberAlreadyExists
  assert (role > 0 ∧ role ≤ Types.roleAll) Errors.invalidRole
  let membership : Membership := { role, addedBy, addedAt := ctx.now, isActive := true, revokedAt := none, tags }
  let members ← Table.add dr.members addr membership
  let memberCount ← addU64 dr.memberCount 1
  return ({ dr with members, memberCount, lastUpdatedAt := ctx.now }, [.memberAdded dr.poolId addr role addedBy ctx.now])

/-- `dataroom::revoke_member`: the entry stays, inactive. -/
def revokeMember (dr : DataRoom) (addr removedBy : Address) (ctx : Ctx) : Exec (DataRoom × List Event) := do
  assert (addr ∈ dr.members) Errors.notMember
  let m ← Table.borrow dr.members addr
  assert m.isActive Errors.notMember
  let members := dr.members.insert addr { m with isActive := false, revokedAt := some ctx.now }
  let memberCount ← subU64 dr.memberCount 1
  return ({ dr with members, memberCount, lastUpdatedAt := ctx.now }, [.memberRemoved dr.poolId addr removedBy ctx.now])

/-- `dataroom::reactivate_member`: a revoked member with a new role and new tags. -/
def reactivateMember (dr : DataRoom) (addr : Address) (role : UInt8) (addedBy : Address) (tags : List MoveString)
    (ctx : Ctx) : Exec (DataRoom × List Event) := do
  let m ← Table.borrow dr.members addr
  let members := dr.members.insert addr { m with isActive := true, role, addedBy, tags, revokedAt := none }
  let memberCount ← addU64 dr.memberCount 1
  return ({ dr with members, memberCount, lastUpdatedAt := ctx.now }, [.memberAdded dr.poolId addr role addedBy ctx.now])

/-- `dataroom::update_member_role`: returns the role the member had. It emits nothing itself. -/
def updateMemberRole (dr : DataRoom) (addr : Address) (newRole : UInt8) (ctx : Ctx) : Exec (DataRoom × UInt8) := do
  assert (addr ∈ dr.members) Errors.notMember
  let m ← Table.borrow dr.members addr
  assert m.isActive Errors.notMember
  return ({ dr with members := dr.members.insert addr { m with role := newRole }, lastUpdatedAt := ctx.now }, m.role)

/-- The parent of a new folder exists, when it has one. -/
def assertParentExists (dr : DataRoom) : Option Nat → Exec Unit
  | none => .ok ()
  | some pid => assert (pid ∈ dr.folders) Errors.folderNotFound

/-- `dataroom::create_custom_folder`. -/
def createCustomFolder (dr : DataRoom) (name : MoveString) (parentId : Option Nat) (visibleToRoles : UInt8)
    (creator : Address) (ctx : Ctx) : Exec (DataRoom × List Event) := do
  let folderId := dr.customFolderCount
  let customFolderCount ← addU64 folderId 1
  assertParentExists dr parentId
  let info : FolderMeta := { name, folderId, parentId, visibleToRoles, createdAt := ctx.now, createdBy := creator }
  let folders ← Table.add dr.folders folderId info
  return ({ dr with customFolderCount, folders, lastUpdatedAt := ctx.now },
    [.folderCreated dr.poolId folderId name parentId creator ctx.now])

def folderExists (dr : DataRoom) (folderId : Nat) : Bool := decide (folderId ∈ dr.folders)

/-- `dataroom::set_folder_key`: overwrites the key a member has for a folder. -/
def setFolderKey (dr : DataRoom) (folderId : Nat) (member : Address) (encryptedKey : List UInt8) : DataRoom :=
  { dr with folderKeys := dr.folderKeys.insert { folderId, member } encryptedKey }

/-! ## What each function does -/

/-- Adding the default folders touches the folders and their list of names only. -/
theorem createDefaultFolders_ok {names : List MoveString} {dr dr' : DataRoom} {creator : Address} {now i : Nat}
    (h : dr.createDefaultFolders creator now i names = .ok dr') :
    ∃ fs ds, dr' = { dr with folders := fs, defaultFolders := ds } := by
  induction names generalizing dr i with
  | nil =>
    cases h
    exact ⟨_, _, rfl⟩
  | cons name names ih =>
    simp only [createDefaultFolders, bind_eq_ok] at h
    obtain ⟨_, _, h⟩ := h
    obtain ⟨fs, ds, rfl⟩ := ih h
    exact ⟨fs, ds, rfl⟩

/-- What a new room holds. -/
theorem new_ok {id poolId : ID} {owner : Address} {ctx : Ctx} {dr : DataRoom} {evs : List Event}
    (h : new id poolId owner ctx = .ok (dr, evs)) :
    dr.id = id ∧ dr.poolId = poolId ∧ dr.owner = owner ∧ dr.memberCount = 1 ∧
      dr.members = (∅ : Table _ _).insert owner
        { role := Types.roleOwner, addedBy := owner, addedAt := ctx.now, isActive := true, revokedAt := none, tags := [] } ∧
      evs = [.dataRoomCreated poolId id owner ctx.now, .memberAdded poolId owner Types.roleOwner owner ctx.now] := by
  simp only [new, bind_eq_ok, pure_eq_ok, Table.add_eq_ok, Prod.mk.injEq] at h
  obtain ⟨members, ⟨-, rfl⟩, dr', hf, rfl, rfl⟩ := h
  obtain ⟨fs, ds, rfl⟩ := createDefaultFolders_ok hf
  exact ⟨rfl, rfl, rfl, rfl, rfl, rfl⟩

/-- When the check of a role goes through. -/
theorem assertMemberRole_ok {dr : DataRoom} {caller : Address} {requiredRole : UInt8} {u : Unit} :
    dr.assertMemberRole caller requiredRole = .ok u ↔
      ∃ m, dr.members.lookup caller = some m ∧ m.isActive = true ∧ Types.hasRole m.role requiredRole = true := by
  simp only [assertMemberRole, bind_eq_ok, assert_eq_ok, Table.borrow_eq_ok]
  constructor
  · rintro ⟨_, _, m, hm, _, ha, hr⟩
    exact ⟨m, hm, ha, hr⟩
  · rintro ⟨m, hm, ha, hr⟩
    exact ⟨(), AList.lookup_isSome.1 (by rw [hm]; rfl), m, hm, (), ha, hr⟩

theorem addMember_ok {dr dr' : DataRoom} {addr : Address} {role : UInt8} {addedBy : Address} {tags : List MoveString}
    {ctx : Ctx} {evs : List Event} (h : dr.addMember addr role addedBy tags ctx = .ok (dr', evs)) :
    dr.members.lookup addr = none ∧ role > 0 ∧ role ≤ Types.roleAll ∧ dr.memberCount + 1 < 2 ^ 64 ∧
      dr' = { dr with
        members := dr.members.insert addr
          { role, addedBy, addedAt := ctx.now, isActive := true, revokedAt := none, tags }
        memberCount := dr.memberCount + 1
        lastUpdatedAt := ctx.now } ∧
      evs = [.memberAdded dr.poolId addr role addedBy ctx.now] := by
  simp only [addMember, bind_eq_ok, assert_eq_ok, pure_eq_ok, Table.add_eq_ok, addU64_eq_ok, Prod.mk.injEq] at h
  obtain ⟨_, _, _, ⟨h1, h2⟩, _, ⟨hl, rfl⟩, _, ⟨hc, rfl⟩, rfl, rfl⟩ := h
  exact ⟨hl, h1, h2, hc, rfl, rfl⟩

theorem revokeMember_ok {dr dr' : DataRoom} {addr removedBy : Address} {ctx : Ctx} {evs : List Event}
    (h : dr.revokeMember addr removedBy ctx = .ok (dr', evs)) :
    ∃ m, dr.members.lookup addr = some m ∧ m.isActive = true ∧ 1 ≤ dr.memberCount ∧
      dr' = { dr with
        members := dr.members.insert addr { m with isActive := false, revokedAt := some ctx.now }
        memberCount := dr.memberCount - 1
        lastUpdatedAt := ctx.now } ∧
      evs = [.memberRemoved dr.poolId addr removedBy ctx.now] := by
  simp only [revokeMember, bind_eq_ok, assert_eq_ok, pure_eq_ok, Table.borrow_eq_ok, subU64_eq_ok, Prod.mk.injEq] at h
  obtain ⟨_, _, m, hm, _, ha, _, ⟨hc, rfl⟩, rfl, rfl⟩ := h
  exact ⟨m, hm, ha, hc, rfl, rfl⟩

/-- What taking a member back needs and does. -/
theorem reactivateMember_ok {dr dr' : DataRoom} {addr : Address} {role : UInt8} {addedBy : Address}
    {tags : List MoveString} {ctx : Ctx} {evs : List Event}
    (h : dr.reactivateMember addr role addedBy tags ctx = .ok (dr', evs)) :
    ∃ m, dr.members.lookup addr = some m ∧ dr.memberCount + 1 < 2 ^ 64 ∧
      dr' = { dr with
        members := dr.members.insert addr { m with isActive := true, role, addedBy, tags, revokedAt := none }
        memberCount := dr.memberCount + 1
        lastUpdatedAt := ctx.now } ∧
      evs = [.memberAdded dr.poolId addr role addedBy ctx.now] := by
  simp only [reactivateMember, bind_eq_ok, pure_eq_ok, Table.borrow_eq_ok, addU64_eq_ok, Prod.mk.injEq] at h
  obtain ⟨m, hm, _, ⟨hc, rfl⟩, rfl, rfl⟩ := h
  exact ⟨m, hm, hc, rfl, rfl⟩

theorem updateMemberRole_ok {dr dr' : DataRoom} {addr : Address} {newRole oldRole : UInt8} {ctx : Ctx}
    (h : dr.updateMemberRole addr newRole ctx = .ok (dr', oldRole)) :
    ∃ m, dr.members.lookup addr = some m ∧ m.isActive = true ∧ oldRole = m.role ∧
      dr' = { dr with members := dr.members.insert addr { m with role := newRole }, lastUpdatedAt := ctx.now } := by
  simp only [updateMemberRole, bind_eq_ok, assert_eq_ok, pure_eq_ok, Table.borrow_eq_ok, Prod.mk.injEq] at h
  obtain ⟨_, _, m, hm, _, ha, rfl, rfl⟩ := h
  exact ⟨m, hm, ha, rfl, rfl⟩

theorem createCustomFolder_ok {dr dr' : DataRoom} {name : MoveString} {parentId : Option Nat} {visibleToRoles : UInt8}
    {creator : Address} {ctx : Ctx} {evs : List Event}
    (h : dr.createCustomFolder name parentId visibleToRoles creator ctx = .ok (dr', evs)) :
    dr.customFolderCount + 1 < 2 ^ 64 ∧ (∀ pid, parentId = some pid → pid ∈ dr.folders) ∧
      dr.folders.lookup dr.customFolderCount = none ∧
      dr' = { dr with
        folders := dr.folders.insert dr.customFolderCount
          { name, folderId := dr.customFolderCount, parentId, visibleToRoles, createdAt := ctx.now, createdBy := creator }
        customFolderCount := dr.customFolderCount + 1
        lastUpdatedAt := ctx.now } ∧
      evs = [.folderCreated dr.poolId dr.customFolderCount name parentId creator ctx.now] := by
  simp only [createCustomFolder, bind_eq_ok, pure_eq_ok, Table.add_eq_ok, addU64_eq_ok, Prod.mk.injEq] at h
  obtain ⟨_, ⟨hc, rfl⟩, _, hp, _, ⟨hl, rfl⟩, rfl, rfl⟩ := h
  refine ⟨hc, ?_, hl, rfl, rfl⟩
  rintro pid rfl
  exact assert_eq_ok.1 hp

end DataRoom

end BrineVault
