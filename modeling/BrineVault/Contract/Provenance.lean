import BrineVault.Contract.Access
import BrineVault.Contract.Folders

/-!
# Where the records of a pool come from

A pool keeps what it was created with, memberships, folders, folder keys, versions, reviews and decisions. A record that a pool keeps
after a call it kept before, or the call writes it; the call was authorised, so whoever a record names as its author was an active member
with the role that records of its kind need when the record was written. A membership is written by several calls: who added the member,
when the member was added first and when it was revoked come from different ones, and are records of their own.
-/

namespace BrineVault

open Move

/-- What a pool was created with. -/
def Pool.params (pool : Pool) : Pool.Params :=
  { orgIdHash := pool.orgIdHash, name := pool.name, borrowerNameHash := pool.borrowerNameHash, currency := pool.currency,
    targetNotional := pool.targetNotional, expectedMaturityDate := pool.expectedMaturityDate, encryptionScheme := pool.encryptionScheme,
    tags := pool.tags }

/-- A record of a pool, with the place it is kept at. Of a membership there is the entry as a whole, and what it names of its history. -/
inductive Record where
  | creation (p : Pool.Params) (createdBy : Address) (createdAt : Nat)
  | addedBy (addr adder : Address)
  | addedAt (addr : Address) (time : Nat)
  | revokedAt (addr : Address) (time : Nat)
  | member (addr : Address) (m : Membership)
  | folder (folderId : Nat) (f : FolderMeta)
  | folderKey (tag : FolderKeyTag) (key : List UInt8)
  | version (docId : ID) (number : Nat) (v : DocVersion)
  | review (docId : ID) (reviewer : Address) (r : ReviewRecord)
  | decision (index : Nat) (d : IcDecision)

/-- The pool keeps the record. -/
def Pool.Keeps (pool : Pool) : Record → Prop
  | .creation p createdBy createdAt => pool.params = p ∧ pool.createdBy = createdBy ∧ pool.createdAt = createdAt
  | .addedBy addr adder => ∃ m, pool.dataroom.members.lookup addr = some m ∧ m.addedBy = adder
  | .addedAt addr time => ∃ m, pool.dataroom.members.lookup addr = some m ∧ m.addedAt = time
  | .revokedAt addr time => ∃ m, pool.dataroom.members.lookup addr = some m ∧ m.revokedAt = some time
  | .member addr m => pool.dataroom.members.lookup addr = some m
  | .folder folderId f => pool.dataroom.folders.lookup folderId = some f
  | .folderKey tag key => pool.dataroom.folderKeys.lookup tag = some key
  | .version docId number v => ∃ doc, pool.documents.lookup docId = some doc ∧ doc.versions.lookup number = some v
  | .review docId reviewer r => ∃ doc, pool.documents.lookup docId = some doc ∧ doc.reviews.lookup reviewer = some r
  | .decision index d => pool.icDecisions.lookup index = some d

namespace Record

/-- The mask of the functions that write records of the kind. Who creates a pool needs no role. -/
def mask : Record → UInt8
  | .creation .. => 0
  | .folder .. | .version .. => Types.roleEditorUp
  | .review .. => Types.roleReviewerUp
  | .addedBy .. | .addedAt .. | .revokedAt .. | .member .. | .folderKey .. | .decision .. => Types.roleOwnerUp

/-- Whom a record names as its author. A key names nobody, and a membership names who added the member. -/
def author : Record → Option Address
  | .creation _ createdBy _ => some createdBy
  | .addedBy _ adder => some adder
  | .folder _ f => some f.createdBy
  | .version _ _ v => some v.uploadedBy
  | .review _ _ r => some r.reviewer
  | .decision _ d => some d.createdBy
  | .addedAt .. | .revokedAt .. | .member .. | .folderKey .. => none

/-- The time a record names. -/
def time : Record → Option Nat
  | .creation _ _ createdAt => some createdAt
  | .addedAt _ time => some time
  | .revokedAt _ time => some time
  | .folder _ f => some f.createdAt
  | .version _ _ v => some v.uploadedAt
  | .review _ _ r => some r.reviewedAt
  | .decision _ d => some d.createdAt
  | .addedBy .. | .member .. | .folderKey .. => none

/-- The author of the record, when it names one, is the sender, and the time, when it names one, is that of the call. -/
structure SignedBy (r : Record) (ctx : Ctx) : Prop where
  author : ∀ a, r.author = some a → ctx.sender = a
  time : ∀ t, r.time = some t → ctx.now = t

end Record

/-- The call writes the record into its pool. -/
inductive PoolCall.Writes (freshId : ID) (ctx : Ctx) (pool : Pool) : PoolCall → Record → Prop where
  | adder (addr : Address) (role : UInt8) (tags : List MoveString) :
      Writes freshId ctx pool (.addMember addr role tags) (.addedBy addr ctx.sender)
  | added {addr : Address} {role : UInt8} {tags : List MoveString} (hn : pool.dataroom.members.lookup addr = none) :
      Writes freshId ctx pool (.addMember addr role tags) (.addedAt addr ctx.now)
  | revoked (addr : Address) : Writes freshId ctx pool (.removeMember addr) (.revokedAt addr ctx.now)
  | addMember {addr : Address} {role : UInt8} {tags : List MoveString} (hn : pool.dataroom.members.lookup addr = none) :
      Writes freshId ctx pool (.addMember addr role tags) (.member addr
        { role, addedBy := ctx.sender, addedAt := ctx.now, isActive := true, revokedAt := none, tags })
  | reactivateMember {addr : Address} {role : UInt8} {tags : List MoveString} {m : Membership}
      (hl : pool.dataroom.members.lookup addr = some m) (ha : m.isActive = false) :
      Writes freshId ctx pool (.addMember addr role tags) (.member addr
        { m with isActive := true, role, addedBy := ctx.sender, tags, revokedAt := none })
  | removeMember {addr : Address} {m : Membership} (hl : pool.dataroom.members.lookup addr = some m) (ha : m.isActive = true) :
      Writes freshId ctx pool (.removeMember addr) (.member addr { m with isActive := false, revokedAt := some ctx.now })
  | updateMemberRole {addr : Address} {newRole : UInt8} {m : Membership} (hl : pool.dataroom.members.lookup addr = some m)
      (ha : m.isActive = true) :
      Writes freshId ctx pool (.updateMemberRole addr newRole) (.member addr { m with role := newRole })
  | createCustomFolder (name : MoveString) (parentId : Option Nat) (visibleToRoles : UInt8) :
      Writes freshId ctx pool (.createCustomFolder name parentId visibleToRoles) (.folder pool.dataroom.customFolderCount
        { name, folderId := pool.dataroom.customFolderCount, parentId, visibleToRoles, createdAt := ctx.now,
          createdBy := ctx.sender })
  | storeEncryptedFolderKey (folderId : Nat) (member : Address) (key : List UInt8) :
      Writes freshId ctx pool (.storeEncryptedFolderKey folderId member key) (.folderKey { folderId, member } key)
  | createDocument (p : Pool.DocParams) (up : Document.Upload) :
      Writes freshId ctx pool (.createDocument p up) (.version freshId 1 (up.toVersion 1 ctx))
  | addVersion {docId : ID} {up : Document.Upload} {doc : Document} (hl : pool.documents.lookup docId = some doc) :
      Writes freshId ctx pool (.addVersion docId up)
        (.version docId (doc.versionCount + 1) (up.toVersion (doc.versionCount + 1) ctx))
  | submitReview (docId : ID) (status : UInt8) (commentHash : Option (List UInt8)) :
      Writes freshId ctx pool (.submitReview docId status commentHash)
        (.review docId ctx.sender { reviewer := ctx.sender, status, commentHash, reviewedAt := ctx.now })
  | recordIcDecision {call : PoolCall} {decisionType toState : UInt8} {record : IcRecord} {d : IcDecision}
      (hc : call.decision = some (decisionType, toState, record))
      (hd : IcDecision.new pool.icDecisionCount decisionType record ctx = .ok d) :
      Writes freshId ctx pool call (.decision pool.icDecisionCount d)

namespace PoolCall

section Writes

variable {config : AdminConfig} {freshId : ID} {ctx : Ctx} {call : PoolCall} {pool pool' : Pool} {evs : List Event} {r : Record}

/-- The role that a record asks for is the one its call asks for. -/
theorem Writes.requiredRole (h : call.Writes freshId ctx pool r) : call.requiredRole = r.mask := by
  cases h with
  | recordIcDecision hc =>
    cases call with
    | recordIcApproval | recordIcRejection | recordIcRequestChanges => rfl
    | _ => cases hc
  | _ => rfl

/-- Whoever sends the call signs the record. -/
theorem Writes.signedBy (h : call.Writes freshId ctx pool r) : r.SignedBy ctx := by
  cases h with
  | recordIcDecision _ hd =>
    obtain ⟨_, _, _, rfl⟩ := IcDecision.new_ok hd
    exact ⟨fun _ h => Option.some.inj h, fun _ h => Option.some.inj h⟩
  | addMember | reactivateMember | removeMember | updateMemberRole | storeEncryptedFolderKey =>
    constructor <;> intro _ h <;> cases h
  | adder =>
    refine ⟨fun _ h => Option.some.inj h, ?_⟩
    intro _ h
    cases h
  | added | revoked =>
    refine ⟨?_, fun _ h => Option.some.inj h⟩
    intro _ h
    cases h
  | createCustomFolder | createDocument | addVersion | submitReview =>
    exact ⟨fun _ h => Option.some.inj h, fun _ h => Option.some.inj h⟩

/-- The calls on the data room. -/
def onRoom : PoolCall → Bool
  | .addMember .. | .removeMember .. | .updateMemberRole .. | .createCustomFolder .. | .storeEncryptedFolderKey .. => true
  | _ => false

/-- A call that is not on the room leaves it. -/
theorem exec_onRoom (h : call.exec config freshId ctx pool = .ok (pool', evs)) (hc : call.onRoom = false) :
    pool'.dataroom = pool.dataroom := by
  cases call with
  | progressToDd | progressToIcReview | progressToReadyToIssue | reopenRejectedPool =>
    obtain ⟨_, _, rfl, _⟩ := Pool.progress_ok h
    rfl
  | cancelPool =>
    obtain ⟨rfl, _⟩ := Pool.cancelPool_ok h
    rfl
  | recordIcApproval | recordIcRejection | recordIcRequestChanges =>
    obtain ⟨_, _, _, hroom, _⟩ := Pool.recordIcDecision_ok h
    exact hroom
  | createDocument =>
    obtain ⟨⟨_, _, _, rfl⟩, _⟩ := Pool.createDocument_ok h
    rfl
  | addVersion =>
    obtain ⟨_, _, _, _, _, rfl, _⟩ := Pool.addVersion_ok h
    rfl
  | submitReview =>
    obtain ⟨_, _, _, _, _, rfl, _⟩ := Pool.submitReview_ok h
    rfl
  | markAsRequired =>
    obtain ⟨_, _, rfl, _⟩ := Pool.markAsRequired_ok h
    rfl
  | archiveDocument =>
    obtain ⟨_, _, rfl, _⟩ := Pool.archiveDocument_ok h
    rfl
  | addMember | removeMember | updateMemberRole | createCustomFolder | storeEncryptedFolderKey => cases hc

/-- A call of `add_member` writes the entry of the address, which it did not have or which was not active. -/
theorem addMember_writes {addr : Address} {role : UInt8} {tags : List MoveString}
    (h : pool.addMember config addr role tags ctx = .ok (pool', evs)) :
    ∃ m, pool'.dataroom.members = pool.dataroom.members.insert addr m ∧
      pool'.dataroom.folders = pool.dataroom.folders ∧ pool'.dataroom.folderKeys = pool.dataroom.folderKeys ∧
      Writes freshId ctx pool (.addMember addr role tags) (.member addr m) := by
  obtain ⟨_, ⟨dr, hd, rfl⟩, _⟩ := Pool.addMember_ok h
  obtain ⟨hinactive, -⟩ := Pool.addOrReactivate_ok hd
  unfold Pool.addOrReactivate at hd
  split at hd
  · obtain ⟨_, _, hd⟩ := bind_eq_ok.1 hd
    obtain ⟨old, hl, _, rfl, _⟩ := DataRoom.reactivateMember_ok hd
    rw [DataRoom.isActiveMember, hl] at hinactive
    exact ⟨_, rfl, rfl, rfl, .reactivateMember hl hinactive⟩
  · obtain ⟨_, _, hd⟩ := bind_eq_ok.1 hd
    obtain ⟨hl, _, _, _, rfl, _⟩ := DataRoom.addMember_ok hd
    exact ⟨_, rfl, rfl, rfl, .addMember hl⟩

/-- What a call on the data room does: it writes one entry of a member, one folder or one key. -/
theorem exec_room (h : call.exec config freshId ctx pool = .ok (pool', evs)) (hc : call.onRoom = true) :
    (∃ addr m, pool'.dataroom.members = pool.dataroom.members.insert addr m ∧
        pool'.dataroom.folders = pool.dataroom.folders ∧ pool'.dataroom.folderKeys = pool.dataroom.folderKeys ∧
        call.Writes freshId ctx pool (.member addr m)) ∨
      (∃ folderId f, pool'.dataroom.folders = pool.dataroom.folders.insert folderId f ∧
        pool'.dataroom.members = pool.dataroom.members ∧ pool'.dataroom.folderKeys = pool.dataroom.folderKeys ∧
        call.Writes freshId ctx pool (.folder folderId f)) ∨
      ∃ folderId addr key, call = .storeEncryptedFolderKey folderId addr key ∧
        pool'.dataroom = pool.dataroom.setFolderKey folderId addr key := by
  cases call with
  | addMember addr role tags =>
    obtain ⟨m, hm, hf, hk, hw⟩ := addMember_writes h
    exact .inl ⟨addr, m, hm, hf, hk, hw⟩
  | removeMember addr =>
    obtain ⟨_, ⟨dr, hd, rfl⟩, _⟩ := Pool.removeMember_ok h
    obtain ⟨m, hl, hactive, _, rfl, _⟩ := DataRoom.revokeMember_ok hd
    exact .inl ⟨addr, _, rfl, rfl, rfl, .removeMember hl hactive⟩
  | updateMemberRole addr newRole =>
    obtain ⟨_, _, m, hl, hactive, rfl, _⟩ := Pool.updateMemberRole_ok h
    exact .inl ⟨addr, _, rfl, rfl, rfl, .updateMemberRole hl hactive⟩
  | createCustomFolder name parentId visibleToRoles =>
    simp only [exec, Pool.createCustomFolder, bind_eq_ok, pure_eq_ok, Prod.mk.injEq, Prod.exists] at h
    obtain ⟨_, _, _, _, _, _, dr, devs, hd, rfl, _⟩ := h
    obtain ⟨_, _, _, rfl, _⟩ := DataRoom.createCustomFolder_ok hd
    exact .inr (.inl ⟨_, _, rfl, rfl, rfl, .createCustomFolder name parentId visibleToRoles⟩)
  | storeEncryptedFolderKey folderId addr key =>
    obtain ⟨rfl, _⟩ := Pool.storeEncryptedFolderKey_ok h
    exact .inr (.inr ⟨folderId, addr, key, rfl, rfl⟩)
  | _ => cases hc

/-- A record of the room that is kept after a call was kept before, or the call writes it. -/
theorem exec_keeps_room (h : call.exec config freshId ctx pool = .ok (pool', evs)) :
    (∀ addr m, pool'.Keeps (.member addr m) → pool.Keeps (.member addr m) ∨ call.Writes freshId ctx pool (.member addr m)) ∧
      (∀ k f, pool'.Keeps (.folder k f) → pool.Keeps (.folder k f) ∨ call.Writes freshId ctx pool (.folder k f)) ∧
      ∀ tag key, pool'.Keeps (.folderKey tag key) →
        pool.Keeps (.folderKey tag key) ∨ call.Writes freshId ctx pool (.folderKey tag key) := by
  simp only [Pool.Keeps]
  by_cases hc : call.onRoom = false
  · rw [exec_onRoom h hc]
    exact ⟨fun _ _ => .inl, fun _ _ => .inl, fun _ _ => .inl⟩
  rw [Bool.not_eq_false] at hc
  obtain ⟨addr, m, hm, hf, hkeys, hw⟩ | ⟨folderId, f, hf, hm, hkeys, hw⟩ | ⟨folderId, addr, key, rfl, hroom⟩ := exec_room h hc
  · rw [hm, hf, hkeys]
    refine ⟨?_, fun _ _ => .inl, fun _ _ => .inl⟩
    intro addr' m' hk
    obtain ⟨rfl, rfl⟩ | hk := Table.lookup_insert_cases hk
    · exact .inr hw
    · exact .inl hk
  · rw [hm, hf, hkeys]
    refine ⟨fun _ _ => .inl, ?_, fun _ _ => .inl⟩
    intro folderId' f' hk
    obtain ⟨rfl, rfl⟩ | hk := Table.lookup_insert_cases hk
    · exact .inr hw
    · exact .inl hk
  · rw [hroom]
    refine ⟨fun _ _ => .inl, fun _ _ => .inl, ?_⟩
    intro tag key' hk
    obtain ⟨rfl, rfl⟩ | hk := Table.lookup_insert_cases hk
    · exact .inr (.storeEncryptedFolderKey folderId addr key')
    · exact .inl hk

/-- A record of a document that is kept after a call was kept before, or the call writes it. -/
theorem exec_keeps_document (h : call.exec config freshId ctx pool = .ok (pool', evs)) :
    (∀ docId k v, pool'.Keeps (.version docId k v) →
        pool.Keeps (.version docId k v) ∨ call.Writes freshId ctx pool (.version docId k v)) ∧
      ∀ docId a r, pool'.Keeps (.review docId a r) →
        pool.Keeps (.review docId a r) ∨ call.Writes freshId ctx pool (.review docId a r) := by
  simp only [Pool.Keeps]
  obtain ⟨_, he⟩ | ⟨doc, ha, _, he⟩ | ⟨docId, old, doc, hch, hl, he⟩ := exec_documents h
  · rw [he]
    exact ⟨fun _ _ _ => .inl, fun _ _ _ => .inl⟩
  · rw [he]
    cases ha with
    | createDocument hnew =>
      obtain ⟨_, _, rfl⟩ := Document.new_ok hnew
      constructor
      · rintro docId k v ⟨doc, hd, hv⟩
        obtain ⟨rfl, rfl⟩ | hd := Table.lookup_insert_cases hd
        · obtain ⟨rfl, rfl⟩ | hv := Table.lookup_insert_cases hv
          · exact .inr (.createDocument _ _)
          · cases hv
        · exact .inl ⟨doc, hd, hv⟩
      · rintro docId a r ⟨doc, hd, hr⟩
        obtain ⟨rfl, rfl⟩ | hd := Table.lookup_insert_cases hd
        · cases hr
        · exact .inl ⟨doc, hd, hr⟩
  · rw [he]
    constructor
    · rintro docId' k v ⟨doc', hd, hv⟩
      obtain ⟨rfl, rfl⟩ | hd := Table.lookup_insert_cases hd
      swap
      · exact .inl ⟨doc', hd, hv⟩
      cases hch with
      | addVersion hadd =>
        obtain ⟨_, _, _, _, rfl, _⟩ := Document.addVersion_ok hadd
        obtain ⟨rfl, rfl⟩ | hv := Table.lookup_insert_cases hv
        · exact .inr (.addVersion hl)
        · exact .inl ⟨old, hl, hv⟩
      | submitReview hsub =>
        obtain ⟨_, _, ⟨_, rfl, _⟩, _⟩ := Document.submitReview_ok hsub
        exact .inl ⟨old, hl, hv⟩
      | markAsRequired => exact .inl ⟨old, hl, hv⟩
      | archiveDocument => exact .inl ⟨old, hl, hv⟩
    · rintro docId' a r ⟨doc', hd, hr⟩
      obtain ⟨rfl, rfl⟩ | hd := Table.lookup_insert_cases hd
      swap
      · exact .inl ⟨doc', hd, hr⟩
      cases hch with
      | addVersion hadd =>
        obtain ⟨_, _, _, _, rfl, _⟩ := Document.addVersion_ok hadd
        exact .inl ⟨old, hl, hr⟩
      | submitReview hsub =>
        obtain ⟨_, _, ⟨_, rfl, _⟩, _⟩ := Document.submitReview_ok hsub
        obtain ⟨rfl, rfl⟩ | hr := Table.lookup_insert_cases hr
        · exact .inr (.submitReview _ _ _)
        · exact .inl ⟨old, hl, hr⟩
      | markAsRequired => exact .inl ⟨old, hl, hr⟩
      | archiveDocument => exact .inl ⟨old, hl, hr⟩

/-- A decision is kept from before, or the call has written it. -/
theorem exec_keeps_decision (h : call.exec config freshId ctx pool = .ok (pool', evs)) {index : Nat} {d : IcDecision}
    (hk : pool'.Keeps (.decision index d)) :
    pool.Keeps (.decision index d) ∨ call.Writes freshId ctx pool (.decision index d) := by
  obtain ⟨decisionType, toState, record, hc, hrec⟩ | ⟨⟨he, _⟩, _⟩ := exec_decisions h
  · obtain ⟨_, ⟨decision, hnew, _, rfl⟩, _⟩ := Pool.recordIcDecision_eq hrec
    obtain ⟨rfl, rfl⟩ | hk := Table.lookup_insert_cases hk
    · exact .inr (.recordIcDecision hc hnew)
    · exact .inl hk
  · left
    rw [Pool.Keeps, he] at hk
    exact hk

/-- What a membership names of its history was there before, or the call writes it. -/
theorem exec_keeps_history (h : call.exec config freshId ctx pool = .ok (pool', evs)) {addr : Address} {m : Membership}
    (hm : pool'.dataroom.members.lookup addr = some m) :
    (pool.Keeps (.addedBy addr m.addedBy) ∨ call.Writes freshId ctx pool (.addedBy addr m.addedBy)) ∧
      (pool.Keeps (.addedAt addr m.addedAt) ∨ call.Writes freshId ctx pool (.addedAt addr m.addedAt)) ∧
      ∀ time, m.revokedAt = some time →
        pool.Keeps (.revokedAt addr time) ∨ call.Writes freshId ctx pool (.revokedAt addr time) := by
  obtain hk | hw := (exec_keeps_room h).1 addr m hm
  · exact ⟨.inl ⟨m, hk, rfl⟩, .inl ⟨m, hk, rfl⟩, fun time ht => .inl ⟨m, hk, ht⟩⟩
  cases hw with
  | addMember hn => exact ⟨.inr (.adder ..), .inr (.added hn), fun _ ht => by cases ht⟩
  | reactivateMember hl => exact ⟨.inr (.adder ..), .inl ⟨_, hl, rfl⟩, fun _ ht => by cases ht⟩
  | removeMember hl =>
    refine ⟨.inl ⟨_, hl, rfl⟩, .inl ⟨_, hl, rfl⟩, ?_⟩
    intro time ht
    cases ht
    exact .inr (.revoked addr)
  | updateMemberRole hl => exact ⟨.inl ⟨_, hl, rfl⟩, .inl ⟨_, hl, rfl⟩, fun _ ht => .inl ⟨_, hl, ht⟩⟩

/-- No call changes what the pool was created with. -/
theorem exec_params (h : call.exec config freshId ctx pool = .ok (pool', evs)) :
    pool'.params = pool.params ∧ pool'.createdBy = pool.createdBy ∧ pool'.createdAt = pool.createdAt := by
  cases exec_effect h with
  | decided _ recorded =>
    obtain ⟨_, ⟨_, _, _, rfl⟩, _⟩ := Pool.recordIcDecision_eq recorded
    exact ⟨rfl, rfl, rfl⟩
  | _ => exact ⟨rfl, rfl, rfl⟩

/-- A record that is kept after a call was kept before, or the call writes it. -/
theorem exec_keeps (h : call.exec config freshId ctx pool = .ok (pool', evs)) (hk : pool'.Keeps r) :
    pool.Keeps r ∨ call.Writes freshId ctx pool r := by
  cases r with
  | creation p createdBy createdAt =>
    obtain ⟨hp, hby, hat⟩ := exec_params h
    rw [Pool.Keeps, hp, hby, hat] at hk
    exact .inl hk
  | addedBy addr =>
    obtain ⟨m, hm, rfl⟩ := hk
    exact (exec_keeps_history h hm).1
  | addedAt addr =>
    obtain ⟨m, hm, rfl⟩ := hk
    exact (exec_keeps_history h hm).2.1
  | revokedAt addr time =>
    obtain ⟨m, hm, ht⟩ := hk
    exact (exec_keeps_history h hm).2.2 time ht
  | member addr m => exact (exec_keeps_room h).1 addr m hk
  | folder k f => exact (exec_keeps_room h).2.1 k f hk
  | folderKey tag key => exact (exec_keeps_room h).2.2 tag key hk
  | version docId k v => exact (exec_keeps_document h).1 docId k v hk
  | review docId a r => exact (exec_keeps_document h).2 docId a r hk
  | decision index d => exact exec_keeps_decision h hk

/-- A call that succeeds was authorised, and the package was not paused. -/
theorem exec_authorised (h : call.exec config freshId ctx pool = .ok (pool', evs)) :
    config.paused = false ∧ ∃ m, pool.dataroom.members.lookup ctx.sender = some m ∧ m.isActive = true ∧
      Types.hasRole m.role call.requiredRole = true :=
  (authorise_of_exec h).imp_right DataRoom.assertMemberRole_ok.1

end Writes

end PoolCall

/-! ## The records of a new pool -/

/-- The loop over the default folders names the creator and the time in each. -/
theorem DataRoom.createDefaultFolders_signed {names : List MoveString} {dr dr' : DataRoom} {creator : Address} {now i : Nat}
    (h : dr.createDefaultFolders creator now i names = .ok dr')
    (hs : ∀ k f, dr.folders.lookup k = some f → f.createdBy = creator ∧ f.createdAt = now) :
    ∀ k f, dr'.folders.lookup k = some f → f.createdBy = creator ∧ f.createdAt = now := by
  induction names generalizing dr i with
  | nil =>
    cases h
    exact hs
  | cons name names ih =>
    simp only [createDefaultFolders, bind_eq_ok, Table.add_eq_ok] at h
    obtain ⟨_, ⟨_, rfl⟩, h⟩ := h
    refine ih h fun k f hl => ?_
    obtain ⟨rfl, rfl⟩ | hl := Table.lookup_insert_cases hl
    · exact ⟨rfl, rfl⟩
    · exact hs k f hl

/-- A new pool has the arguments of the call that creates it. -/
theorem Pool.createPool_params {config : AdminConfig} {id dataroomId : ID} {p : Params} {ctx : Ctx} {pool : Pool}
    {evs : List Event} (h : createPool config id dataroomId p ctx = .ok (pool, evs)) : pool.params = p := by
  simp only [createPool, bind_eq_ok, pure_eq_ok, Prod.mk.injEq, Prod.exists] at h
  obtain ⟨_, _, _, _, _, _, _, _, dr, devs, -, rfl, _⟩ := h
  rfl

/-- The records of a new pool name its creator and the time of its creation. -/
theorem Pool.createPool_signed {config : AdminConfig} {id dataroomId : ID} {p : Params} {ctx : Ctx} {pool : Pool}
    {evs : List Event} (h : createPool config id dataroomId p ctx = .ok (pool, evs)) {r : Record} (hk : pool.Keeps r) :
    r.SignedBy ctx := by
  simp only [createPool, bind_eq_ok, pure_eq_ok, Prod.mk.injEq, Prod.exists] at h
  obtain ⟨_, _, _, _, _, _, _, _, dr, devs, hnew, rfl, _⟩ := h
  simp only [DataRoom.new, bind_eq_ok, pure_eq_ok, Prod.mk.injEq, Table.add_eq_ok] at hnew
  obtain ⟨_, ⟨_, rfl⟩, dr', hf, rfl, _⟩ := hnew
  obtain ⟨fs, ds, hdr⟩ := DataRoom.createDefaultFolders_ok hf
  -- The creator is the only member.
  have howner : ∀ addr m, dr'.members.lookup addr = some m →
      m.addedBy = ctx.sender ∧ m.addedAt = ctx.now ∧ m.revokedAt = none := by
    intro addr m hm
    rw [hdr] at hm
    obtain ⟨rfl, rfl⟩ | hm := Table.lookup_insert_cases hm
    · exact ⟨rfl, rfl, rfl⟩
    · cases hm
  cases r with
  | creation =>
    obtain ⟨_, rfl, rfl⟩ := hk
    exact ⟨fun _ h => Option.some.inj h, fun _ h => Option.some.inj h⟩
  | addedBy addr =>
    obtain ⟨m, hm, rfl⟩ := hk
    refine ⟨fun a ha => (howner addr m hm).1.symm.trans (Option.some.inj ha), ?_⟩
    intro _ ht
    cases ht
  | addedAt addr =>
    obtain ⟨m, hm, rfl⟩ := hk
    refine ⟨?_, fun t ht => (howner addr m hm).2.1.symm.trans (Option.some.inj ht)⟩
    intro _ ha
    cases ha
  | revokedAt addr =>
    obtain ⟨m, hm, ht⟩ := hk
    rw [(howner addr m hm).2.2] at ht
    cases ht
  | member | folderKey => constructor <;> intro _ h <;> cases h
  | folder k f =>
    obtain ⟨hby, hat⟩ := DataRoom.createDefaultFolders_signed hf (fun k f hl => by cases hl) k f hk
    exact ⟨fun a ha => hby.symm.trans (Option.some.inj ha), fun t ht => hat.symm.trans (Option.some.inj ht)⟩
  | version =>
    obtain ⟨_, hl, _⟩ := hk
    cases hl
  | review =>
    obtain ⟨_, hl, _⟩ := hk
    cases hl
  | decision => cases hk

namespace World

/-- In a state of the package, a pool keeps the record. -/
def Keeps (w : World) (poolId : ID) (r : Record) : Prop := ∃ pool, w.pools.lookup poolId = some pool ∧ pool.Keeps r

/-- The step creates the pool with its arguments, and with it the record. -/
def Founds (w : World) (s : Step) (poolId : ID) (r : Record) : Prop :=
  ∃ p pool evs, s.call = .createPool p ∧ poolId = w.idsCreated ∧
    Pool.createPool w.adminConfig poolId (poolId + 1) p (w.ctxOf s) = .ok (pool, evs) ∧ pool.params = p ∧ pool.Keeps r

/-- The step is a call on the pool that writes the record, and its sender is an active member with the role for it. -/
def Puts (w : World) (s : Step) (poolId : ID) (r : Record) : Prop :=
  ∃ call pool, s.call = .onPool poolId call ∧ w.pools.lookup poolId = some pool ∧
    (∃ m, pool.dataroom.members.lookup (w.ctxOf s).sender = some m ∧ m.isActive = true ∧ Types.hasRole m.role r.mask = true) ∧
    call.Writes w.idsCreated (w.ctxOf s) pool r

/-- A step after which a pool keeps a record that it did not keep before creates the pool, or puts the record there. -/
theorem step_keeps {w w' : World} {s : Step} (h : w.step s = .ok w') {poolId : ID} {r : Record} (hn : ¬ w.Keeps poolId r)
    (hk : w'.Keeps poolId r) :
    w.adminConfig.paused = false ∧ r.SignedBy (w.ctxOf s) ∧ (w.Founds s poolId r ∨ w.Puts s poolId r) := by
  obtain ⟨pool', hl', hr⟩ := hk
  obtain ⟨evs, hd, _⟩ := step_does h
  cases hd with
  | admin _ _ hp =>
    rw [hp] at hl'
    exact absurd ⟨pool', hl', hr⟩ hn
  | createPool hc hnew hp =>
    rw [hp] at hl'
    obtain ⟨rfl, rfl⟩ | hl' := Table.lookup_insert_cases hl'
    · exact ⟨(Pool.createPool_ok hnew).1, Pool.createPool_signed hnew hr, .inl ⟨_, _, _, hc, rfl, hnew, Pool.createPool_params hnew, hr⟩⟩
    · exact absurd ⟨pool', hl', hr⟩ hn
  | onPool hc hl hx hp =>
    rw [hp] at hl'
    obtain ⟨rfl, rfl⟩ | hl' := Table.lookup_insert_cases hl'
    · obtain hkept | hw := PoolCall.exec_keeps hx hr
      · exact absurd ⟨_, hl, hkept⟩ hn
      · obtain ⟨hpaused, hmember⟩ := PoolCall.exec_authorised hx
        rw [hw.requiredRole] at hmember
        exact ⟨hpaused, hw.signedBy, .inr ⟨_, _, hc, hl, hmember, hw⟩⟩
    · exact absurd ⟨pool', hl', hr⟩ hn

/-- Every record that a pool keeps in a state of a run was put there by a step of the run: the one that created the pool, or a call on
the pool that writes the record, made by an active member with the role for it while the package was not paused. The author that the
record names is who made the call, and the time it names is when. -/
theorem record_provenance {publisher : Ctx} {steps : List Step} {w : World} (hr : run publisher steps = .ok w) {poolId : ID}
    {pool : Pool} (hl : w.pools.lookup poolId = some pool) {r : Record} (hk : pool.Keeps r) :
    Steps.SomeStep step (fun m s => m.adminConfig.paused = false ∧ r.SignedBy (m.ctxOf s) ∧
      (m.Founds s poolId r ∨ m.Puts s poolId r)) (genesis publisher) steps := by
  have hstart : ¬ (genesis publisher).Keeps poolId r := by
    rintro ⟨pool, hl, -⟩
    cases hl
  obtain ⟨past, s, rest, m, he, hm, hn, n, hs, hkn⟩ := Steps.someStep_of_change step (P := fun m => m.Keeps poolId r) hr hstart ⟨pool, hl, hk⟩
  exact ⟨past, s, rest, m, he, hm, step_keeps hs hn hkn⟩

/-- The first version of a document, which the owner uploaded. -/
theorem record_provenance_sample :
    ∃ w pool, run Sample.owner [Sample.createPool, Sample.createDocument] = .ok w ∧ w.pools.lookup 2 = some pool ∧
      pool.Keeps (.version 5 1 (Sample.upload.toVersion 1 Sample.owner)) ∧
      Steps.SomeStep step (fun m s => m.adminConfig.paused = false ∧
        Record.SignedBy (.version 5 1 (Sample.upload.toVersion 1 Sample.owner)) (m.ctxOf s) ∧
        (m.Founds s 2 (.version 5 1 (Sample.upload.toVersion 1 Sample.owner)) ∨
          m.Puts s 2 (.version 5 1 (Sample.upload.toVersion 1 Sample.owner))))
        (genesis Sample.owner) [Sample.createPool, Sample.createDocument] := by
  refine ⟨_, _, rfl, rfl, ⟨_, rfl, rfl⟩, ?_⟩
  exact @record_provenance Sample.owner [Sample.createPool, Sample.createDocument] _ rfl 2 _ rfl _ ⟨_, rfl, rfl⟩

end World

end BrineVault
