import BrineVault.Contract.World

/-!
# The folders of a data room

A room starts with its default folders, numbered from 0, all of them roots. A custom folder gets the next number from 100 on, and its
parent, when it has one, is there before it. So the numbers of the folders are known from the counter, and following parents from any
folder comes to a root.
-/

namespace BrineVault

open Move

namespace DataRoom

/-- The folders of a room, with the counter of the custom ones. -/
structure FolderTree (dr : DataRoom) : Prop where
  counter : customFolderStartId ≤ dr.customFolderCount
  keys : ∀ k, k ∈ dr.folders ↔ k < defaultFolderNames.length ∨ (customFolderStartId ≤ k ∧ k < dr.customFolderCount)
  named : ∀ k f, dr.folders.lookup k = some f → f.folderId = k
  rooted : Table.Rooted FolderMeta.parentId dr.folders
  defaults : ∀ k f, dr.folders.lookup k = some f → k < defaultFolderNames.length → f.visibleToRoles = Types.roleAll

/-- The loop over the default folders adds roots that are visible to all, one under each number. -/
theorem createDefaultFolders_folders {names : List MoveString} {dr dr' : DataRoom} {creator : Address} {now i : Nat}
    (h : dr.createDefaultFolders creator now i names = .ok dr') (hn : Table.Numbered FolderMeta.folderId 0 i dr.folders)
    (hr : ∀ k f, dr.folders.lookup k = some f → f.parentId = none ∧ f.visibleToRoles = Types.roleAll) :
    Table.Numbered FolderMeta.folderId 0 (i + names.length) dr'.folders ∧
      ∀ k f, dr'.folders.lookup k = some f → f.parentId = none ∧ f.visibleToRoles = Types.roleAll := by
  induction names generalizing dr i with
  | nil =>
    cases h
    exact ⟨hn, hr⟩
  | cons name names ih =>
    simp only [createDefaultFolders, bind_eq_ok, Table.add_eq_ok] at h
    obtain ⟨_, ⟨_, rfl⟩, h⟩ := h
    rw [List.length_cons, Nat.add_comm names.length 1, ← Nat.add_assoc]
    refine ih h (hn.insert (Nat.zero_le i) rfl) ?_
    intro k f hl
    rw [Table.lookup_insert] at hl
    split at hl
    · cases hl
      exact ⟨rfl, rfl⟩
    · exact hr k f hl

/-- The folders of a new room are a tree. -/
theorem FolderTree.new {id poolId : ID} {owner : Address} {ctx : Ctx} {dr : DataRoom} {evs : List Event}
    (h : DataRoom.new id poolId owner ctx = .ok (dr, evs)) : dr.FolderTree := by
  simp only [DataRoom.new, bind_eq_ok, pure_eq_ok, Prod.mk.injEq] at h
  obtain ⟨_, _, dr', hf, rfl, _⟩ := h
  obtain ⟨hn, hr⟩ := createDefaultFolders_folders hf (Table.numbered_empty _ 0) (fun k f hl => by cases hl)
  obtain ⟨fs, ds, rfl⟩ := createDefaultFolders_ok hf
  refine ⟨Nat.le_refl _, ?_, fun k f => hn.values, ?_, fun k f hl _ => (hr k f hl).2⟩
  · intro k
    rw [hn.keys k]
    grind
  · intro k f p hl hp
    rw [(hr k f hl).1] at hp
    cases hp

/-- A custom folder: its number is new, and above that of every folder there is. -/
theorem FolderTree.createCustomFolder {dr dr' : DataRoom} {name : MoveString} {parentId : Option Nat} {visibleToRoles : UInt8}
    {creator : Address} {ctx : Ctx} {evs : List Event} (ht : dr.FolderTree)
    (h : dr.createCustomFolder name parentId visibleToRoles creator ctx = .ok (dr', evs)) : dr'.FolderTree := by
  obtain ⟨_, hparent, _, rfl, _⟩ := createCustomFolder_ok h
  have hcounter := ht.counter
  have hdefault : defaultFolderNames.length ≤ customFolderStartId := by decide
  constructor
  · exact Nat.le_succ_of_le hcounter
  · intro k
    rw [AList.mem_insert, ht.keys k]
    grind
  · intro k f hl
    rw [Table.lookup_insert] at hl
    split at hl
    · rename_i hk
      cases hl
      exact hk.symm
    · exact ht.named k f hl
  · refine ht.rooted.insert fun p hp => ?_
    have hmem := hparent p hp
    have hlt := (ht.keys p).1 hmem
    exact ⟨hmem, by omega⟩
  · intro k f hl hk
    rw [Table.lookup_insert, if_neg (by omega)] at hl
    exact ht.defaults k f hl hk

end DataRoom

/-- What a call does to the folders of its room: nothing, or it creates a custom one. -/
theorem PoolCall.exec_folders {config : AdminConfig} {freshId : ID} {ctx : Ctx} {call : PoolCall} {pool pool' : Pool}
    {evs : List Event} (h : call.exec config freshId ctx pool = .ok (pool', evs)) :
    (pool'.dataroom.folders = pool.dataroom.folders ∧ pool'.dataroom.customFolderCount = pool.dataroom.customFolderCount) ∨
      ∃ name parentId visibleToRoles devs,
        pool.dataroom.createCustomFolder name parentId visibleToRoles ctx.sender ctx = .ok (pool'.dataroom, devs) := by
  cases call with
  | createCustomFolder name parentId visibleToRoles =>
    simp only [exec, Pool.createCustomFolder, bind_eq_ok, pure_eq_ok, Prod.mk.injEq, Prod.exists] at h
    obtain ⟨_, _, _, _, _, _, dr, devs, hd, rfl, _⟩ := h
    exact .inr ⟨name, parentId, visibleToRoles, devs, hd⟩
  | progressToDd | progressToIcReview | progressToReadyToIssue | reopenRejectedPool =>
    obtain ⟨_, _, rfl, _⟩ := Pool.progress_ok h
    exact .inl ⟨rfl, rfl⟩
  | cancelPool =>
    obtain ⟨rfl, _⟩ := Pool.cancelPool_ok h
    exact .inl ⟨rfl, rfl⟩
  | recordIcApproval | recordIcRejection | recordIcRequestChanges =>
    obtain ⟨_, _, _, hroom, _⟩ := Pool.recordIcDecision_ok h
    exact .inl ⟨by rw [hroom], by rw [hroom]⟩
  | addMember =>
    obtain ⟨_, ⟨dr, hd, rfl⟩, _⟩ := Pool.addMember_ok h
    obtain ⟨_, ⟨_, _, _, _, rfl⟩, _⟩ := Pool.addOrReactivate_ok hd
    exact .inl ⟨rfl, rfl⟩
  | removeMember =>
    obtain ⟨_, ⟨dr, hd, rfl⟩, _⟩ := Pool.removeMember_ok h
    obtain ⟨_, _, _, _, rfl, _⟩ := DataRoom.revokeMember_ok hd
    exact .inl ⟨rfl, rfl⟩
  | updateMemberRole =>
    obtain ⟨_, _, _, _, _, rfl, _⟩ := Pool.updateMemberRole_ok h
    exact .inl ⟨rfl, rfl⟩
  | storeEncryptedFolderKey =>
    obtain ⟨rfl, _⟩ := Pool.storeEncryptedFolderKey_ok h
    exact .inl ⟨rfl, rfl⟩
  | createDocument =>
    obtain ⟨⟨_, _, _, rfl⟩, _⟩ := Pool.createDocument_ok h
    exact .inl ⟨rfl, rfl⟩
  | addVersion =>
    obtain ⟨_, _, _, _, _, rfl, _⟩ := Pool.addVersion_ok h
    exact .inl ⟨rfl, rfl⟩
  | submitReview =>
    obtain ⟨_, _, _, _, _, rfl, _⟩ := Pool.submitReview_ok h
    exact .inl ⟨rfl, rfl⟩
  | markAsRequired =>
    obtain ⟨_, _, rfl, _⟩ := Pool.markAsRequired_ok h
    exact .inl ⟨rfl, rfl⟩
  | archiveDocument =>
    obtain ⟨_, _, rfl, _⟩ := Pool.archiveDocument_ok h
    exact .inl ⟨rfl, rfl⟩

namespace DataRoom

/-- Every call keeps the tree. -/
theorem FolderTree.exec {config : AdminConfig} {freshId : ID} {ctx : Ctx} {call : PoolCall} {pool pool' : Pool}
    {evs : List Event} (ht : pool.dataroom.FolderTree) (h : call.exec config freshId ctx pool = .ok (pool', evs)) :
    pool'.dataroom.FolderTree := by
  obtain ⟨hfolders, hcount⟩ | ⟨_, _, _, _, hnew⟩ := PoolCall.exec_folders h
  · constructor
    · rw [hcount]
      exact ht.counter
    · rw [hfolders, hcount]
      exact ht.keys
    · rw [hfolders]
      exact ht.named
    · rw [hfolders]
      exact ht.rooted
    · rw [hfolders]
      exact ht.defaults
  · exact ht.createCustomFolder hnew

/-- The folders of a new pool are a tree. -/
theorem FolderTree.createPool {config : AdminConfig} {id dataroomId : ID} {p : Pool.Params} {ctx : Ctx} {pool : Pool}
    {evs : List Event} (h : Pool.createPool config id dataroomId p ctx = .ok (pool, evs)) : pool.dataroom.FolderTree := by
  simp only [Pool.createPool, bind_eq_ok, pure_eq_ok, Prod.mk.injEq, Prod.exists] at h
  obtain ⟨_, _, _, _, _, _, _, _, dr, _, hnew, rfl, _⟩ := h
  exact .new hnew

end DataRoom

namespace World

/-- In every run the folders of a pool are a tree. -/
theorem folderTree_run {publisher : Ctx} {steps : List Step} {w : World} (hr : run publisher steps = .ok w) {poolId : ID}
    {pool : Pool} (hl : w.pools.lookup poolId = some pool) : pool.dataroom.FolderTree :=
  pools_run (P := fun pool => pool.dataroom.FolderTree) (fun _ _ _ _ _ _ _ => .createPool) (fun _ _ _ _ _ _ _ => .exec) hr hl

/-- The folders of a room in any state of a run: their numbers are those of the default folders and of the custom ones, each is stored
under its own number, each parent is there under a smaller number, and going from a folder to its parent, again and again, comes to a
folder without a parent. -/
theorem folder_tree {publisher : Ctx} {steps : List Step} {w : World} (hr : run publisher steps = .ok w) {poolId : ID}
    {pool : Pool} (hl : w.pools.lookup poolId = some pool) :
    (∀ k, k ∈ pool.dataroom.folders ↔ k ≤ 5 ∨ (100 ≤ k ∧ k < pool.dataroom.customFolderCount)) ∧
      (∀ k f, pool.dataroom.folders.lookup k = some f →
        f.folderId = k ∧ ∀ p, f.parentId = some p → p ∈ pool.dataroom.folders ∧ p < f.folderId) ∧
      ∀ k ∈ pool.dataroom.folders, ∃ n root, Table.ancestor FolderMeta.parentId pool.dataroom.folders k n = some root ∧
        root ∈ pool.dataroom.folders ∧ Table.parentOf FolderMeta.parentId pool.dataroom.folders root = none := by
  have ht := folderTree_run hr hl
  refine ⟨?_, ?_, ?_⟩
  · intro k
    rw [ht.keys k]
    exact or_congr_left Nat.lt_succ_iff
  · intro k f hk
    have hid := ht.named k f hk
    exact ⟨hid, fun p hp => hid.symm ▸ ht.rooted k f p hk hp⟩
  · intro k hk
    obtain ⟨n, root, _, hroot, hin, hnone⟩ := ht.rooted.exists_root hk
    exact ⟨n, root, hroot, hin, hnone⟩

/-- A room with a folder in a default folder, and one in that. -/
theorem folder_tree_sample :
    ∃ w pool, run Sample.owner [Sample.createPool, Sample.byOwner (.createCustomFolder [65] (some 3) 63),
        Sample.byOwner (.createCustomFolder [66] (some 100) 12)] = .ok w ∧ w.pools.lookup 2 = some pool ∧
      (∀ k, k ∈ pool.dataroom.folders ↔ k ≤ 5 ∨ (100 ≤ k ∧ k < pool.dataroom.customFolderCount)) ∧
      (∀ k f, pool.dataroom.folders.lookup k = some f →
        f.folderId = k ∧ ∀ p, f.parentId = some p → p ∈ pool.dataroom.folders ∧ p < f.folderId) ∧
      ∀ k ∈ pool.dataroom.folders, ∃ n root, Table.ancestor FolderMeta.parentId pool.dataroom.folders k n = some root ∧
        root ∈ pool.dataroom.folders ∧ Table.parentOf FolderMeta.parentId pool.dataroom.folders root = none := by
  refine ⟨_, _, rfl, rfl, ?_⟩
  exact @folder_tree Sample.owner [Sample.createPool, Sample.byOwner (.createCustomFolder [65] (some 3) 63),
    Sample.byOwner (.createCustomFolder [66] (some 100) 12)] _ rfl 2 _ rfl

end World

end BrineVault
