import BrineVault.Indexer.Consistency
import BrineVault.Lib.CacheAside

/-!
# The keys of the cache

The last step of a handler deletes a key of the cache, if it deletes any. The key names the pool by the id of its object on chain where
the pool is created or changes its state, and by the id of its row for documents, decisions and members.
-/

namespace BrineVault

open Statements (act actAll)
open CacheAside (Steady Fresh Serves State)

/-! ## Keys -/

/-- How a key names a pool: by the text of its object id, or of its row's id. The one begins with `0x` and the other has no `x`. -/
inductive PoolName where
  | object (suiObjectId : ID)
  | row (id : Uuid)
  deriving DecidableEq, Repr

/-- `cache:pool:${poolId}` and `cache:members:${poolId}`. -/
inductive CacheKey where
  | pool (poolId : PoolName)
  | members (poolId : PoolName)
  deriving DecidableEq, Repr

def CacheKey.poolId : CacheKey → PoolName
  | pool poolId => poolId
  | members poolId => poolId

namespace CacheInvalidator

/-- The keys that are deleted, with Redis there. -/
def invalidatePool (poolId : PoolName) : List CacheKey := [.pool poolId]

def invalidateMembers (poolId : PoolName) : List CacheKey := [.members poolId]

end CacheInvalidator

open CacheInvalidator (invalidatePool invalidateMembers)

/-- The keys that the handler of an event deletes when it gets to its end, from the rows that it has looked up. -/
def deletedBy (db : Db) : Event → List CacheKey
  | .poolCreated poolId .. => invalidatePool (.object poolId)
  | .poolStateChanged poolId .. => invalidatePool (.object poolId)
  | .memberAdded dataroomId .. | .memberRemoved dataroomId .. | .memberRoleUpdated dataroomId .. =>
    match db.roomOf dataroomId with
    | none => []
    | some dataroom => invalidateMembers (.row dataroom.poolId)
  | .documentCreated poolId .. =>
    match db.poolOf poolId with
    | none => []
    | some pool =>
      match db.roomOfPool pool.id with
      | none => []
      | some _ => invalidatePool (.row pool.id)
  | .documentVersionAdded _ docId .. =>
    match db.docOf docId with
    | none => []
    | some doc => invalidatePool (.row doc.poolId)
  | .icDecisionCreated poolId .. =>
    match db.poolOf poolId with
    | none => []
    | some pool => invalidatePool (.row pool.id)
  | _ => []

/-- The processing of one event, with the cache: a handler that throws does not get to its end. -/
def handled (db : Db) (e : SuiEvent) : CacheAside.Job Stmt CacheKey :=
  { writes := (processEvent e db).1
    deletes :=
      match handlerOf e.id e.event with
      | none => []
      | some handler =>
        match (handler db).2 with
        | .ok () => deletedBy db e.event
        | .error _ => [] }

/-! ## What is cached -/

/-- The rows of a pool: its own, and those of its documents and its decisions. -/
structure PoolData where
  row : PoolRow
  documents : List DocumentRow
  icDecisions : List IcDecisionRow
  deriving DecidableEq, Repr

inductive CacheEntry where
  | pool (data : PoolData)
  | members (rows : List MemberRow)
  deriving DecidableEq, Repr

namespace Db

/-- The row of a pool, by a name. -/
def named (db : Db) : PoolName → Option PoolRow
  | .object k => db.poolOf k
  | .row id => db.pools.find? fun r => r.id = id

def documentsOf (db : Db) (poolId : Uuid) : List DocumentRow := db.documents.filter fun r => r.poolId = poolId

def icDecisionsOf (db : Db) (poolId : Uuid) : List IcDecisionRow := db.icDecisions.filter fun r => r.poolId = poolId

def membersOf (db : Db) (poolId : Uuid) : List MemberRow := db.members.filter fun r => r.poolId = poolId

/-- What a reader finds in the tables for a key. Whatever it keeps of the rows, it has from them. -/
def cached (db : Db) : CacheKey → Option CacheEntry
  | .pool name => (db.named name).map fun row => .pool ⟨row, db.documentsOf row.id, db.icDecisionsOf row.id⟩
  | .members name => (db.named name).map fun row => .members (db.membersOf row.id)

end Db

/-! ## What an event changes -/

/-- The event brings the pool its row, or sets columns of it to what they are not. -/
def MovesPool (k : ID) (db : Db) (e : SuiEvent) : Prop :=
  match e.event with
  | .poolCreated poolId .. => poolId = k ∧ db.poolOf k = none
  | .poolStateChanged poolId _ toState .. =>
    poolId = k ∧ ∃ row, db.poolOf k = some row ∧ Stmt.setState toState e.id.txDigest row ≠ row
  | _ => False

/-- The event brings a document or a decision with this id of a pool's row, or a version of such a document. -/
def WritesPoolData (id : Uuid) (db : Db) : Event → Prop
  | .documentCreated poolId docId .. =>
    ∃ pool, db.poolOf poolId = some pool ∧ pool.id = id ∧ db.roomOfPool id ≠ none ∧ db.docOf docId = none
  | .documentVersionAdded _ docId .. => ∃ doc, db.docOf docId = some doc ∧ doc.poolId = id
  | .icDecisionCreated poolId decisionIndex .. =>
    ∃ pool, db.poolOf poolId = some pool ∧ pool.id = id ∧ Rows.has IcDecisionRow.key (id, decisionIndex) db.icDecisions = false
  | _ => False

/-- The row of a member, by its key. -/
def Db.memberOf (db : Db) (dataroomId : Uuid) (memberAddress : Address) : Option MemberRow :=
  Rows.find MemberRow.key (dataroomId, memberAddress) db.members

/-- The event brings a member with this id of a pool's row, or sets columns of it to what they are not. -/
def WritesMembers (id : Uuid) (db : Db) : Event → Prop
  | .memberAdded dataroomId member role addedBy _ =>
    ∃ dataroom, db.roomOf dataroomId = some dataroom ∧ dataroom.poolId = id ∧
      ∀ row, db.memberOf dataroom.id member = some row → Stmt.setMember role addedBy row ≠ row
  | .memberRemoved dataroomId member .. =>
    ∃ dataroom, db.roomOf dataroomId = some dataroom ∧ dataroom.poolId = id ∧
      ∃ row, db.memberOf dataroom.id member = some row ∧ row.isActive = true
  | .memberRoleUpdated dataroomId member _ newRole .. =>
    ∃ dataroom, db.roomOf dataroomId = some dataroom ∧ dataroom.poolId = id ∧
      ∃ row, db.memberOf dataroom.id member = some row ∧ row.role ≠ newRole
  | _ => False

/-- The event changes documents, decisions or members of the pool. -/
def WritesToPool (k : ID) (db : Db) (e : SuiEvent) : Prop :=
  ∃ row, db.poolOf k = some row ∧ (WritesPoolData row.id db e.event ∨ WritesMembers row.id db e.event)

section Deletes

variable {db : Db} {e : SuiEvent}

/-- What handling an accepted event writes and deletes. -/
theorem handled_of_accepts (h : Accepts e.id db e.event) :
    handled db e = { writes := stmtsOf e.id db e.event, deletes := deletedBy db e.event } := by
  have hwrites := (processEvent_follows e db).ok h
  cases he : handlerOf e.id e.event with
  | none =>
    have hnone : deletedBy db e.event = [] := by
      cases hev : e.event <;> rw [hev] at he <;> first | rfl | cases he
    simp [handled, hwrites, he, hnone]
  | some handler =>
    have hret : (handler db).2 = .ok () := (handlerOf_follows he).returns_iff.2 h
    simp [handled, hwrites, he, hret]

/-- An event that moves a pool deletes the entry under the pool's object. -/
theorem deletedBy_of_moves {k : ID} (h : MovesPool k db e) : deletedBy db e.event = [.pool (.object k)] := by
  obtain ⟨ctx, e⟩ := e
  cases e with
  | poolCreated =>
    obtain ⟨rfl, _⟩ := h
    rfl
  | poolStateChanged =>
    obtain ⟨rfl, _⟩ := h
    rfl
  | _ => cases h

/-- An event that writes a pool's data deletes the entry under the row's id. -/
theorem deletedBy_of_writesPoolData {id : Uuid} {e : Event} (h : WritesPoolData id db e) :
    deletedBy db e = [.pool (.row id)] := by
  cases e with
  | documentCreated =>
    obtain ⟨pool, hp, rfl, hroom, _⟩ := h
    obtain ⟨room, hroom⟩ := Option.ne_none_iff_exists'.1 hroom
    simp only [deletedBy, hp, hroom, invalidatePool]
  | documentVersionAdded =>
    obtain ⟨doc, hd, rfl⟩ := h
    simp only [deletedBy, hd, invalidatePool]
  | icDecisionCreated =>
    obtain ⟨pool, hp, rfl, _⟩ := h
    simp only [deletedBy, hp, invalidatePool]
  | _ => cases h

/-- An event that writes a pool's members deletes the list under the row's id. -/
theorem deletedBy_of_writesMembers {id : Uuid} {e : Event} (h : WritesMembers id db e) :
    deletedBy db e = [.members (.row id)] := by
  cases e with
  | memberAdded | memberRemoved | memberRoleUpdated =>
    obtain ⟨room, hr, rfl, _⟩ := h
    simp only [deletedBy, hr, invalidateMembers]
  | _ => cases h

end Deletes

/-! ## What a statement leaves alone -/

section Statement

variable {db : Db} {name : PoolName} {id : Uuid}

/-- The rows that are cached under the key are not of the table. -/
def Stmt.quiet : Stmt → CacheKey → Bool
  | insertPool _, _ | updatePoolState .., _ => false
  | upsertMember _, .pool _ | deactivateMember .., .pool _ | updateMemberRole .., .pool _ => true
  | upsertMember _, .members _ | deactivateMember .., .members _ | updateMemberRole .., .members _ => false
  | insertDocument _, .pool _ | updateVersionInfo .., .pool _ | insertIcDecision _, .pool _ => false
  | insertDocument _, .members _ | updateVersionInfo .., .members _ | insertIcDecision _, .members _ => true
  | insertDataroom _, _ | insertVersion _, _ | upsertReview _, _ | insertAudit _, _ => true

/-- A quiet statement leaves what the entry would be. -/
theorem cached_of_quiet {stmt : Stmt} {key : CacheKey} (h : stmt.quiet key = true) (db : Db) :
    (act db stmt).cached key = db.cached key := by
  cases stmt <;> cases key <;> first | rfl | cases h

theorem steady_of_quiet {stmts : List Stmt} {key : CacheKey} (h : ∀ stmt ∈ stmts, stmt.quiet key = true) (db : Db) :
    Steady Db.cached key db stmts := by
  induction stmts generalizing db with
  | nil => trivial
  | cons stmt stmts ih =>
    refine ⟨fun v hv => ?_, ih (fun s hs => h s (List.mem_cons_of_mem _ hs)) _⟩
    rwa [cached_of_quiet (h stmt (List.mem_cons_self ..))]

/-- What the pool's entry holds. -/
theorem cached_pool_eq_some {entry : CacheEntry} : db.cached (.pool name) = some entry ↔
    ∃ row, db.named name = some row ∧ entry = .pool ⟨row, db.documentsOf row.id, db.icDecisionsOf row.id⟩ := by
  simp only [Db.cached, Option.map_eq_some_iff, eq_comm (b := entry)]

/-- What the list of members holds. -/
theorem cached_members_eq_some {entry : CacheEntry} : db.cached (.members name) = some entry ↔
    ∃ row, db.named name = some row ∧ entry = .members (db.membersOf row.id) := by
  simp only [Db.cached, Option.map_eq_some_iff, eq_comm (b := entry)]

/-! ### Pools -/

/-- A pool that is named keeps its row when another is inserted. -/
theorem named_insertPool {row r : PoolRow} (h : db.named name = some r) : (act db (Stmt.insertPool row)).named name = some r := by
  cases name with
  | object k => exact Rows.find_insertNew_of_some h
  | row id =>
    change List.find? _ (Rows.insertNew PoolRow.suiObjectId row db.pools) = some r
    unfold Rows.insertNew
    split
    · exact h
    · rw [List.find?_append, show db.pools.find? _ = some r from h, Option.some_or]

/-- A change of state reaches the row of its own object only. -/
theorem named_updatePoolState (k : ID) (state : UInt8) (digest : Nat) :
    (act db (Stmt.updatePoolState k state digest)).named name =
      (db.named name).map fun r => if r.suiObjectId = k then Stmt.setState state digest r else r := by
  cases name with
  | object k' =>
    change Rows.find PoolRow.suiObjectId k' (Rows.updateAt PoolRow.suiObjectId k (Stmt.setState state digest) db.pools) = _
    rw [Rows.find_updateAt (f := Stmt.setState state digest) fun _ => rfl]
    refine Option.map_congr fun r hr => ?_
    rw [(Rows.find_some hr).2]
  | row id =>
    change List.find? _ (Rows.updateAt PoolRow.suiObjectId k (Stmt.setState state digest) db.pools) = _
    rw [Rows.updateAt, List.find?_map]
    congr 2
    funext r
    simp only [Function.comp_apply]
    split <;> rfl

/-! ### Documents, decisions and members -/

/-- A document joins those of its pool, unless it is there. -/
theorem documentsOf_insertDocument (row : DocumentRow) :
    (act db (Stmt.insertDocument row)).documentsOf id =
      if db.docOf row.suiObjectId = none ∧ row.poolId = id then db.documentsOf id ++ [row] else db.documentsOf id := by
  change (Rows.insertNew DocumentRow.suiObjectId row db.documents).filter _ = _
  rw [Rows.filter_insertNew]
  refine if_congr (and_congr ?_ decide_eq_true_iff) rfl rfl
  rw [Rows.has_eq_isSome_find, Option.isSome_eq_false_iff, Option.isNone_iff_eq_none, Db.docOf]

/-- A new version changes a document where it stands. -/
theorem documentsOf_updateVersionInfo (k : ID) (version : Nat) :
    (act db (Stmt.updateVersionInfo k version)).documentsOf id =
      Rows.updateAt DocumentRow.suiObjectId k (Stmt.setVersionInfo version) (db.documentsOf id) :=
  Rows.filter_updateAt (f := Stmt.setVersionInfo version) (p := fun r => r.poolId = id) (fun _ => rfl) k db.documents

/-- A decision joins those of its pool, unless it is there. -/
theorem icDecisionsOf_insertIcDecision (row : IcDecisionRow) :
    (act db (Stmt.insertIcDecision row)).icDecisionsOf id =
      if Rows.has IcDecisionRow.key row.key db.icDecisions = false ∧ row.poolId = id then db.icDecisionsOf id ++ [row]
      else db.icDecisionsOf id := by
  change (Rows.insertNew IcDecisionRow.key row db.icDecisions).filter _ = _
  rw [Rows.filter_insertNew]
  exact if_congr (and_congr_right' decide_eq_true_iff) rfl rfl

/-- Updating the members and taking those of a pool can be done in either order. -/
theorem filter_members_updateAt {f : MemberRow → MemberRow} (hpool : ∀ r, (f r).poolId = r.poolId) (k : Uuid × Address) :
    (Rows.updateAt MemberRow.key k f db.members).filter (fun r => r.poolId = id) =
      Rows.updateAt MemberRow.key k f (db.membersOf id) :=
  Rows.filter_updateAt (fun r => by rw [hpool]) k db.members

/-- A removal reaches the member where it stands. -/
theorem membersOf_deactivateMember (room : Uuid) (a : Address) :
    (act db (Stmt.deactivateMember room a)).membersOf id =
      Rows.updateAt MemberRow.key (room, a) (fun r => { r with isActive := false }) (db.membersOf id) := by
  have hpool : ∀ r : MemberRow, { r with isActive := false }.poolId = r.poolId := fun _ => rfl
  exact filter_members_updateAt hpool (room, a)

theorem membersOf_updateMemberRole (room : Uuid) (a : Address) (role : UInt8) :
    (act db (Stmt.updateMemberRole room a role)).membersOf id =
      Rows.updateAt MemberRow.key (room, a) (fun r => { r with role }) (db.membersOf id) := by
  have hpool : ∀ r : MemberRow, { r with role }.poolId = r.poolId := fun _ => rfl
  exact filter_members_updateAt hpool (room, a)

/-- An upsert updates the member, or adds it to those of its pool. -/
theorem membersOf_upsertMember (row : MemberRow) :
    (act db (Stmt.upsertMember row)).membersOf id =
      if Rows.has MemberRow.key row.key db.members = true then
        Rows.updateAt MemberRow.key row.key (Stmt.setMember row.role row.addedByAddress) (db.membersOf id)
      else if row.poolId = id then db.membersOf id ++ [row] else db.membersOf id := by
  change (Rows.upsert MemberRow.key row (Stmt.setMember row.role row.addedByAddress) db.members).filter _ = _
  unfold Rows.upsert
  split
  · exact filter_members_updateAt (f := Stmt.setMember row.role row.addedByAddress) (fun _ => rfl) row.key
  · rw [List.filter_append, List.filter_singleton]
    by_cases hid : row.poolId = id
    · simp [hid, Db.membersOf]
    · simp [hid, Db.membersOf]

end Statement

/-! ## What an event leaves alone -/

section Event

variable {db : Db} {name : PoolName} {e : SuiEvent}

/-- A pool that is named is found by its object too. -/
theorem Db.Consistent.poolOf_of_named (h : db.Consistent) {row : PoolRow} (hrow : db.named name = some row) :
    db.poolOf row.suiObjectId = some row := by
  refine Rows.find_of_mem h.pools ?_
  cases name with
  | object k => exact (Rows.find_some hrow).1
  | row id => exact List.mem_of_find?_eq_some hrow

/-- A pool that is found by its object is named by its row. -/
theorem Db.Consistent.named_of_poolOf (h : db.Consistent) {k : ID} {row : PoolRow} (hrow : db.poolOf k = some row) :
    db.named (.row row.id) = some row :=
  @Rows.find_of_mem _ _ _ PoolRow.id _ _ h.poolIds (Rows.find_some hrow).1

/-- The entry stays if the first statement keeps it and the others are quiet. -/
theorem steady_of_first {key : CacheKey} {stmt : Stmt} {stmts : List Stmt}
    (h : ∀ entry, db.cached key = some entry → (act db stmt).cached key = some entry)
    (hquiet : ∀ s ∈ stmts, s.quiet key = true) : Steady Db.cached key db (stmt :: stmts) :=
  ⟨h, steady_of_quiet hquiet _⟩

/-- The pool's entry stays if the row, the documents and the decisions do. -/
theorem cached_pool_stays {db' : Db}
    (h : ∀ row, db.named name = some row → db'.named name = some row ∧ db'.documentsOf row.id = db.documentsOf row.id ∧
      db'.icDecisionsOf row.id = db.icDecisionsOf row.id) {entry : CacheEntry} (he : db.cached (.pool name) = some entry) :
    db'.cached (.pool name) = some entry := by
  obtain ⟨row, hrow, rfl⟩ := cached_pool_eq_some.1 he
  obtain ⟨hrow', hdocs, hdecisions⟩ := h row hrow
  exact cached_pool_eq_some.2 ⟨row, hrow', by rw [hdocs, hdecisions]⟩

/-- The list of members stays if the pool keeps its id and its members. -/
theorem cached_members_stays {db' : Db}
    (h : ∀ row, db.named name = some row →
      ∃ row', db'.named name = some row' ∧ row'.id = row.id ∧ db'.membersOf row.id = db.membersOf row.id)
    {entry : CacheEntry} (he : db.cached (.members name) = some entry) : db'.cached (.members name) = some entry := by
  obtain ⟨row, hrow, rfl⟩ := cached_members_eq_some.1 he
  obtain ⟨row', hrow', hid, hmembers⟩ := h row hrow
  exact cached_members_eq_some.2 ⟨row', hrow', by rw [hid, hmembers]⟩

/-- The update of a document changes the documents of a pool exactly when it is one of them, and becomes another row. -/
theorem Db.Consistent.updateAt_documentsOf_iff (h : db.Consistent) {docId : ID} {id : Uuid} {f : DocumentRow → DocumentRow} :
    Rows.updateAt DocumentRow.suiObjectId docId f (db.documentsOf id) = db.documentsOf id ↔
      ∀ doc, db.docOf docId = some doc → doc.poolId = id → f doc = doc := by
  rw [Rows.updateAt_eq_self_iff]
  constructor
  · intro hself doc hd hid
    obtain ⟨hmem, hk⟩ := Rows.find_some hd
    exact hself doc (List.mem_filter.2 ⟨hmem, decide_eq_true hid⟩) hk
  · rintro hself doc hdoc rfl
    obtain ⟨hmem, hid⟩ := List.mem_filter.1 hdoc
    exact hself doc (Rows.find_of_mem h.documents hmem) (of_decide_eq_true hid)

/-- A member under the key of a room is of the pool of the room. -/
theorem Db.Consistent.poolId_of_key (h : db.Consistent) {k : ID} {room : DataroomRow} (hroom : db.roomOf k = some room)
    {m : MemberRow} (hm : m ∈ db.members) {a : Address} (hkey : m.key = (room.id, a)) : m.poolId = room.poolId := by
  obtain ⟨r, hr, hid, hpool⟩ := h.memberRooms m hm
  have hsame : r = room :=
    List.inj_on_of_nodup_map h.roomIds hr (Rows.find_some hroom).1 (hid.trans (congrArg Prod.fst hkey))
  rw [← hpool, hsame]

/-- An update of a room's member leaves a pool's members only if it is none of them, or changes nothing. -/
theorem Db.Consistent.updateAt_membersOf_iff (h : db.Consistent) {k : ID} {room : DataroomRow} (hroom : db.roomOf k = some room)
    {a : Address} {id : Uuid} {f : MemberRow → MemberRow} :
    Rows.updateAt MemberRow.key (room.id, a) f (db.membersOf id) = db.membersOf id ↔
      (room.poolId = id → ∀ m, db.memberOf room.id a = some m → f m = m) := by
  rw [Rows.updateAt_eq_self_iff]
  constructor
  · intro hself hid m hm
    obtain ⟨hmem, hkey⟩ := Rows.find_some hm
    have hpool : m.poolId = id := (h.poolId_of_key hroom hmem hkey).trans hid
    exact hself m (List.mem_filter.2 ⟨hmem, decide_eq_true hpool⟩) hkey
  · intro hself m hm hkey
    obtain ⟨hmem, hid⟩ := List.mem_filter.1 hm
    refine hself ((h.poolId_of_key hroom hmem hkey).symm.trans (of_decide_eq_true hid)) m ?_
    rw [Db.memberOf, ← hkey]
    exact Rows.find_of_mem h.members hmem

/-- The rows of a pool that an event does not touch stay as they are under each of its statements. -/
theorem steady_pool (hdb : db.Consistent)
    (h : ∀ row, db.named name = some row → ¬ MovesPool row.suiObjectId db e ∧ ¬ WritesPoolData row.id db e.event) :
    Steady Db.cached (.pool name) db (stmtsOf e.id db e.event) := by
  obtain ⟨ctx, e⟩ := e
  cases e with
  | poolCreated =>
    refine steady_of_first (fun _ => cached_pool_stays fun row hrow => ?_) (by simp [Stmt.quiet])
    exact ⟨named_insertPool hrow, rfl, rfl⟩
  | poolStateChanged poolId _ toState =>
    refine steady_of_first (fun _ => cached_pool_stays ?_) (by simp [Stmt.quiet])
    intro row hrow
    refine ⟨?_, rfl, rfl⟩
    rw [named_updatePoolState, hrow, Option.map_some]
    split
    · rename_i hk
      by_contra hne
      exact (h row hrow).1 ⟨hk.symm, row, hdb.poolOf_of_named hrow, fun he => hne (congrArg some he)⟩
    · rfl
  | documentCreated poolId docId =>
    simp only [stmtsOf]
    split
    · trivial
    · rename_i pool hp
      split
      · trivial
      · rename_i room hroom
        refine steady_of_first (fun _ => cached_pool_stays ?_) ?_
        · intro row hrow
          refine ⟨hrow, ?_, rfl⟩
          rw [documentsOf_insertDocument, if_neg]
          rintro ⟨hdoc, hid⟩
          have hid : pool.id = row.id := hid
          refine (h row hrow).2 ⟨pool, hp, hid, ?_, hdoc⟩
          rw [← hid, hroom]
          exact Option.some_ne_none room
        · intro s hs
          rw [List.mem_append] at hs
          obtain hs | hs := hs
          · split at hs
            · rw [List.mem_singleton.1 hs]
              rfl
            · cases hs
          · rw [List.mem_singleton.1 hs]
            rfl
  | documentVersionAdded _ docId version =>
    simp only [stmtsOf]
    split
    · trivial
    · rename_i doc hd
      refine ⟨fun _ => id, steady_of_first (fun _ => cached_pool_stays ?_) (by simp [Stmt.quiet])⟩
      intro row hrow
      refine ⟨hrow, ?_, rfl⟩
      rw [documentsOf_updateVersionInfo]
      exact hdb.updateAt_documentsOf_iff.2 fun doc hd hid => absurd ⟨doc, hd, hid⟩ (h row hrow).2
  | icDecisionCreated poolId decisionIndex =>
    simp only [stmtsOf]
    split
    · trivial
    · rename_i pool hp
      refine steady_of_first (fun _ => cached_pool_stays ?_) (by simp [Stmt.quiet])
      intro row hrow
      refine ⟨hrow, rfl, ?_⟩
      rw [icDecisionsOf_insertIcDecision, if_neg]
      rintro ⟨hnew, hid⟩
      have hid : pool.id = row.id := hid
      exact (h row hrow).2 ⟨pool, hp, hid, by rw [← hid]; exact hnew⟩
  | _ =>
    refine steady_of_quiet (fun s hs => ?_) db
    simp only [stmtsOf] at hs
    repeat' split at hs
    all_goals
      simp only [List.mem_cons, List.not_mem_nil, or_false] at hs
      try obtain rfl | rfl := hs
      all_goals rfl

/-- An event that writes none of the pool's members leaves their list, all along. -/
theorem steady_members (hdb : db.Consistent) (h : ∀ row, db.named name = some row → ¬ WritesMembers row.id db e.event) :
    Steady Db.cached (.members name) db (stmtsOf e.id db e.event) := by
  obtain ⟨ctx, e⟩ := e
  cases e with
  | poolCreated =>
    refine steady_of_first (fun _ => cached_members_stays ?_) (by simp [Stmt.quiet])
    intro row hrow
    exact ⟨row, named_insertPool hrow, rfl, rfl⟩
  | poolStateChanged =>
    refine steady_of_first (fun _ => cached_members_stays ?_) (by simp [Stmt.quiet])
    intro row hrow
    refine ⟨_, by rw [named_updatePoolState, hrow, Option.map_some], ?_, rfl⟩
    split <;> rfl
  | memberAdded dataroomId member role addedBy =>
    simp only [stmtsOf]
    split
    · trivial
    · rename_i room hroom
      refine steady_of_first (fun _ => cached_members_stays ?_) (by simp [Stmt.quiet])
      intro row hrow
      refine ⟨row, hrow, rfl, ?_⟩
      have hquiet := h row hrow
      rw [membersOf_upsertMember]
      split
      · refine (hdb.updateAt_membersOf_iff hroom).2 fun hid m hm => ?_
        by_contra hne
        refine hquiet ⟨room, hroom, hid, fun m' hm' => ?_⟩
        rw [hm, Option.some.injEq] at hm'
        rwa [← hm']
      · rename_i hnew
        refine if_neg fun hid => hquiet ⟨room, hroom, hid, fun m' hm' => ?_⟩
        rw [Rows.has_eq_isSome_find] at hnew
        exact absurd (Option.isSome_of_eq_some hm') hnew
  | memberRemoved dataroomId member =>
    simp only [stmtsOf]
    split
    · trivial
    · rename_i room hroom
      refine steady_of_first (fun _ => cached_members_stays ?_) (by simp [Stmt.quiet])
      intro row hrow
      refine ⟨row, hrow, rfl, ?_⟩
      rw [membersOf_deactivateMember]
      refine (hdb.updateAt_membersOf_iff hroom).2 fun hid m hm => ?_
      have hinactive : m.isActive = false := Bool.eq_false_iff.2 fun ha => h row hrow ⟨room, hroom, hid, m, hm, ha⟩
      rw [← hinactive]
  | memberRoleUpdated dataroomId member _ newRole =>
    simp only [stmtsOf]
    split
    · trivial
    · rename_i room hroom
      refine steady_of_first (fun _ => cached_members_stays ?_) (by simp [Stmt.quiet])
      intro row hrow
      refine ⟨row, hrow, rfl, ?_⟩
      rw [membersOf_updateMemberRole]
      refine (hdb.updateAt_membersOf_iff hroom).2 fun hid m hm => ?_
      have hrole : m.role = newRole := by
        by_contra hne
        exact h row hrow ⟨room, hroom, hid, m, hm, hne⟩
      rw [← hrole]
  | _ =>
    refine steady_of_quiet (fun s hs => ?_) db
    simp only [stmtsOf] at hs
    repeat' split at hs
    all_goals
      simp only [List.mem_cons, List.mem_append, List.not_mem_nil, or_false, false_or] at hs
      try obtain rfl | rfl | rfl := hs
      all_goals rfl

end Event

/-! ## What an event does change -/

section Change

variable {db : Db} {e : SuiEvent} {k : ID} {row : PoolRow}

/-- The rows that are cached for the pool, or for its members, are other rows. -/
def ChangesPool (k : ID) (db db' : Db) : Prop := ∃ key : CacheKey, key.poolId = .object k ∧ db'.cached key ≠ db.cached key

/-- Quiet statements leave what the entry would be. -/
theorem cached_actAll_of_quiet {stmts : List Stmt} {key : CacheKey} (h : ∀ stmt ∈ stmts, stmt.quiet key = true) (db : Db) :
    (actAll db stmts).cached key = db.cached key := by
  induction stmts generalizing db with
  | nil => rfl
  | cons stmt stmts ih =>
    rw [Statements.actAll_cons, ih fun s hs => h s (List.mem_cons_of_mem _ hs)]
    exact cached_of_quiet (h stmt (List.mem_cons_self ..)) db

/-- Other documents or other decisions. -/
theorem cached_pool_ne {db' : Db} {name : PoolName} (row : PoolRow) (hrow : db.named name = some row) (hrow' : db'.named name = some row)
    (h : db'.documentsOf row.id ≠ db.documentsOf row.id ∨ db'.icDecisionsOf row.id ≠ db.icDecisionsOf row.id) :
    db'.cached (.pool name) ≠ db.cached (.pool name) := by
  intro he
  simp only [Db.cached, hrow, hrow', Option.map_some, Option.some.injEq, CacheEntry.pool.injEq, PoolData.mk.injEq, true_and] at he
  obtain h | h := h
  · exact h he.1
  · exact h he.2

/-- Other members make another list. -/
theorem cached_members_ne {db' : Db} {name : PoolName} (row : PoolRow) (hrow : db.named name = some row) (hrow' : db'.named name = some row)
    (h : db'.membersOf row.id ≠ db.membersOf row.id) : db'.cached (.members name) ≠ db.cached (.members name) := by
  intro he
  simp only [Db.cached, hrow, hrow', Option.map_some, Option.some.injEq, CacheEntry.members.injEq] at he
  exact h he

/-- An entry that stays is made from the same row. -/
theorem named_of_cached {db' : Db} {name : PoolName} (h : db'.cached (.pool name) = db.cached (.pool name)) :
    db'.named name = db.named name := by
  cases hrow : db.named name with
  | none =>
    simp only [Db.cached, hrow, Option.map_none, Option.map_eq_none_iff] at h
    exact h
  | some row =>
    obtain ⟨row', hrow', he⟩ := cached_pool_eq_some.1 (h.trans (cached_pool_eq_some.2 ⟨row, hrow, rfl⟩))
    rw [hrow', (PoolData.mk.inj (CacheEntry.pool.inj he)).1]

/-- An event that moves a pool changes what is to be read of it. -/
theorem changesPool_of_moves (h : MovesPool k db e) : ChangesPool k db (afterEvent db e) := by
  refine ⟨.pool (.object k), rfl, fun hcached => ?_⟩
  obtain ⟨ctx, e⟩ := e
  cases e with
  | poolCreated poolId =>
    obtain ⟨rfl, hnone⟩ := h
    rw [afterEvent, stmtsOf, Statements.actAll_cons, cached_actAll_of_quiet (by simp [Stmt.quiet])] at hcached
    have hnamed : Rows.find PoolRow.suiObjectId poolId (Rows.insertNew PoolRow.suiObjectId _ db.pools) = db.poolOf poolId :=
      named_of_cached hcached
    rw [Rows.find_insertNew, ← Db.poolOf, hnone, Option.none_or, if_pos rfl] at hnamed
    cases hnamed
  | poolStateChanged poolId =>
    obtain ⟨rfl, row, hrow, hne⟩ := h
    rw [afterEvent, stmtsOf, Statements.actAll_cons, cached_actAll_of_quiet (by simp [Stmt.quiet])] at hcached
    have hnamed := named_of_cached hcached
    rw [named_updatePoolState, Db.named, hrow, Option.map_some, if_pos (Rows.find_some hrow).2, Option.some.injEq] at hnamed
    exact hne hnamed
  | _ => cases h

/-- So does one that writes the pool's data. -/
theorem changesPool_of_writesPoolData (hdb : db.Consistent) (hrow : db.poolOf k = some row) (h : WritesPoolData row.id db e.event) :
    ChangesPool k db (afterEvent db e) := by
  refine ⟨.pool (.object k), rfl, ?_⟩
  obtain ⟨ctx, e⟩ := e
  cases e with
  | documentCreated poolId docId =>
    obtain ⟨pool, hp, hid, hroom, hnew⟩ := h
    obtain ⟨room, hroom⟩ := Option.ne_none_iff_exists'.1 hroom
    rw [← hid] at hroom
    simp only [afterEvent, stmtsOf, hp, hroom, hnew, if_true, List.singleton_append, Statements.actAll_cons]
    rw [cached_actAll_of_quiet (by simp), cached_of_quiet rfl, cached_of_quiet rfl]
    refine cached_pool_ne row hrow hrow (.inl ?_)
    rw [documentsOf_insertDocument, if_pos ⟨hnew, hid⟩]
    simp
  | documentVersionAdded _ docId version =>
    obtain ⟨doc, hd, hid⟩ := h
    simp only [afterEvent, stmtsOf, hd, Statements.actAll_cons]
    rw [cached_actAll_of_quiet (by simp), cached_of_quiet rfl]
    refine cached_pool_ne row hrow hrow (.inl ?_)
    rw [documentsOf_updateVersionInfo]
    intro he
    -- The counter of the document is incremented.
    have hsame := hdb.updateAt_documentsOf_iff.1 he doc hd hid
    have hcount : doc.versionCount + 1 = doc.versionCount := congrArg DocumentRow.versionCount hsame
    omega
  | icDecisionCreated poolId decisionIndex =>
    obtain ⟨pool, hp, hid, hnew⟩ := h
    simp only [afterEvent, stmtsOf, hp, Statements.actAll_cons]
    rw [cached_actAll_of_quiet (by simp), cached_of_quiet rfl]
    refine cached_pool_ne row hrow hrow (.inr ?_)
    rw [icDecisionsOf_insertIcDecision, if_pos ⟨by rw [IcDecisionRow.key, hid]; exact hnew, hid⟩]
    simp
  | _ => cases h

/-- So does one that writes the pool's members. -/
theorem changesPool_of_writesMembers (hdb : db.Consistent) (hrow : db.poolOf k = some row)
    (h : WritesMembers row.id db e.event) : ChangesPool k db (afterEvent db e) := by
  refine ⟨.members (.object k), rfl, ?_⟩
  obtain ⟨ctx, e⟩ := e
  cases e with
  | memberAdded dataroomId member role addedBy =>
    obtain ⟨room, hroom, hid, hnew⟩ := h
    simp only [afterEvent, stmtsOf, hroom, Statements.actAll_cons]
    rw [cached_actAll_of_quiet (by simp), cached_of_quiet rfl]
    refine cached_members_ne row hrow hrow ?_
    rw [membersOf_upsertMember]
    split
    · rename_i hhas
      intro he
      rw [Rows.has_eq_isSome_find] at hhas
      obtain ⟨m, hm⟩ := Option.isSome_iff_exists.1 hhas
      exact hnew m hm ((hdb.updateAt_membersOf_iff hroom).1 he hid m hm)
    · simp [hid]
  | memberRemoved dataroomId member =>
    obtain ⟨room, hroom, hid, m, hm, hactive⟩ := h
    simp only [afterEvent, stmtsOf, hroom, Statements.actAll_cons]
    rw [cached_actAll_of_quiet (by simp), cached_of_quiet rfl]
    refine cached_members_ne row hrow hrow ?_
    rw [membersOf_deactivateMember]
    intro he
    have hsame := congrArg MemberRow.isActive ((hdb.updateAt_membersOf_iff hroom).1 he hid m hm)
    rw [hactive] at hsame
    cases hsame
  | memberRoleUpdated dataroomId member _ newRole =>
    obtain ⟨room, hroom, hid, m, hm, hrole⟩ := h
    simp only [afterEvent, stmtsOf, hroom, Statements.actAll_cons]
    rw [cached_actAll_of_quiet (by simp), cached_of_quiet rfl]
    refine cached_members_ne row hrow hrow ?_
    rw [membersOf_updateMemberRole]
    intro he
    exact hrole (congrArg MemberRow.role ((hdb.updateAt_membersOf_iff hroom).1 he hid m hm)).symm
  | _ => cases h

/-- A pool has a row after an event, when it had one before, or the event moves it. -/
theorem exists_poolOf_afterEvent (h : db.poolOf k ≠ none ∨ MovesPool k db e) : ∃ row, (afterEvent db e).poolOf k = some row := by
  rw [← Option.isSome_iff_exists, Db.poolOf, ← Rows.has_eq_isSome_find, has_pools_afterEvent, Rows.has_eq_isSome_find,
    Bool.or_eq_true, ← Db.poolOf, Option.isSome_iff_ne_none]
  obtain h | h := h
  · exact .inl h
  · obtain ⟨ctx, e⟩ := e
    cases e with
    | poolCreated => exact .inr (decide_eq_true h.1)
    | poolStateChanged =>
      obtain ⟨_, row, hrow, _⟩ := h
      exact .inl (by simp [hrow])
    | _ => cases h

/-- The row of a pool that is not moved stays as it is. -/
theorem poolOf_afterEvent_of_not_moves (h : ¬ MovesPool k db e) : (afterEvent db e).poolOf k = db.poolOf k := by
  obtain ⟨ctx, e⟩ := e
  cases e with
  | poolCreated poolId =>
    change Rows.find PoolRow.suiObjectId k (Rows.insertNew PoolRow.suiObjectId _ db.pools) = _
    rw [Rows.find_insertNew, ← Db.poolOf]
    cases hrow : db.poolOf k with
    | some row => rw [Option.some_or]
    | none =>
      rw [Option.none_or]
      exact if_neg fun hk => h ⟨hk, hrow⟩
  | poolStateChanged poolId _ toState =>
    change (act db (Stmt.updatePoolState poolId toState ctx.txDigest)).named (.object k) = _
    rw [named_updatePoolState, Db.named]
    cases hrow : db.poolOf k with
    | none => rfl
    | some row =>
      rw [Option.map_some]
      split
      · rename_i hk
        by_contra hne
        exact h ⟨hk.symm.trans (Rows.find_some hrow).2, row, hrow, fun he => hne (congrArg some he)⟩
      · rfl
  | _ =>
    simp only [afterEvent, stmtsOf]
    repeat' split
    all_goals rfl

/-- A key with the object id of a pool, and an event that leaves its documents, decisions and members alone. -/
theorem invalidated_object (hdb : db.Consistent) (h : ¬ WritesToPool k db e) {key : CacheKey} (hkey : key.poolId = .object k) :
    (MovesPool k db e ∧ key ∈ deletedBy db e.event) ∨ Steady Db.cached key db (stmtsOf e.id db e.event) := by
  cases key with
  | pool name =>
    obtain rfl : name = .object k := hkey
    by_cases hm : MovesPool k db e
    · refine .inl ⟨hm, ?_⟩
      rw [deletedBy_of_moves hm]
      exact List.mem_singleton_self _
    · refine .inr (steady_pool hdb fun row hrow => ⟨?_, fun hw => h ⟨row, hrow, .inl hw⟩⟩)
      rwa [(Rows.find_some hrow).2]
  | members name =>
    obtain rfl : name = .object k := hkey
    exact .inr (steady_members hdb fun row hrow hw => h ⟨row, hrow, .inr hw⟩)

/-- A key with the id of the row of a pool, and an event that leaves the row alone. -/
theorem invalidated_row (hdb : db.Consistent) (h : ¬ MovesPool k db e) (hrow : db.poolOf k = some row) {key : CacheKey}
    (hkey : key.poolId = .row row.id) : key ∈ deletedBy db e.event ∨ Steady Db.cached key db (stmtsOf e.id db e.event) := by
  have hnamed : ∀ r, db.named (.row row.id) = some r → r = row := fun r hr =>
    Option.some.inj (hr.symm.trans (hdb.named_of_poolOf hrow))
  cases key with
  | pool name =>
    obtain rfl : name = .row row.id := hkey
    by_cases hw : WritesPoolData row.id db e.event
    · left
      rw [deletedBy_of_writesPoolData hw]
      exact List.mem_singleton_self _
    · refine .inr (steady_pool hdb fun r hr => ?_)
      rw [hnamed r hr, (Rows.find_some hrow).2]
      exact ⟨h, hw⟩
  | members name =>
    obtain rfl : name = .row row.id := hkey
    by_cases hw : WritesMembers row.id db e.event
    · left
      rw [deletedBy_of_writesMembers hw]
      exact List.mem_singleton_self _
    · refine .inr (steady_members hdb fun r hr => ?_)
      rwa [hnamed r hr]

/-- There is nothing to cache exactly for a pool that is not there. -/
theorem cached_eq_none {key : CacheKey} : db.cached key = none ↔ db.named key.poolId = none := by
  cases key <;> simp [Db.cached, CacheKey.poolId]

/-- Only the events above change the rows of a pool and its members. -/
theorem moves_or_writes_of_changesPool (hdb : db.Consistent) (h : ChangesPool k db (afterEvent db e)) :
    MovesPool k db e ∨ WritesToPool k db e := by
  by_contra hn
  obtain ⟨hmoves, hwrites⟩ := not_or.1 hn
  obtain ⟨key, hkey, hne⟩ := h
  refine hne ?_
  have hsteady := (invalidated_object hdb hwrites hkey).resolve_left fun h => hmoves h.1
  cases hcached : db.cached key with
  | none =>
    rw [cached_eq_none, hkey, Db.named] at hcached ⊢
    rw [poolOf_afterEvent_of_not_moves hmoves, hcached]
  | some entry => exact hsteady.actAll hcached

/-- Every event that writes to the pool changes what is to be read of it. -/
theorem changesPool_of_writes (hdb : db.Consistent) (h : WritesToPool k db e) : ChangesPool k db (afterEvent db e) := by
  obtain ⟨row, hrow, h | h⟩ := h
  · exact changesPool_of_writesPoolData hdb hrow h
  · exact changesPool_of_writesMembers hdb hrow h

/-- The key that is deleted names the row. -/
theorem deletedBy_of_writes (h : WritesToPool k db e) :
    ∃ row key, db.poolOf k = some row ∧ deletedBy db e.event = [key] ∧ key.poolId = .row row.id := by
  obtain ⟨row, hrow, h | h⟩ := h
  · exact ⟨row, _, hrow, deletedBy_of_writesPoolData h, rfl⟩
  · exact ⟨row, _, hrow, deletedBy_of_writesMembers h, rfl⟩

end Change

/-! ## One identifier -/

/-- The ways to name a pool in a key. -/
inductive Naming where
  | byObject
  | byRow
  deriving DecidableEq, Repr

def Naming.of : Naming → PoolRow → PoolName
  | byObject, row => .object row.suiObjectId
  | byRow, row => .row row.id

/-- One identifier of a pool does, while a stream is processed: every handler that changes the rows of the pool or its members deletes
keys with this identifier, and after every event what a reader has cached under the identifier is as the tables are. Readers come and
go at any time, also while a handler is at work. -/
structure OneKey (k : ID) (db : Db) (es : List SuiEvent) (naming : Naming) : Prop where
  uniform : ∀ past e rest, es = past ++ e :: rest →
    ChangesPool k (CacheAside.after handled db past) (CacheAside.after handled db (past ++ [e])) →
      ∀ row, (CacheAside.after handled db (past ++ [e])).poolOf k = some row →
        ∀ key ∈ (handled (CacheAside.after handled db past) e).deletes, key.poolId = naming.of row
  fresh : ∀ past rest, es = past ++ rest → ∀ st, Serves Db.cached handled (State.cold db) past st →
    ∀ row, st.store.poolOf k = some row → ∀ key : CacheKey, key.poolId = naming.of row → Fresh Db.cached key st

section OneKey

variable {db : Db} {es : List SuiEvent} {k : ID}

/-- Handling accepted events leaves the tables after them. -/
theorem after_handled (h : AcceptsAll db es) : CacheAside.after handled db es = afterEvents db es := by
  induction es generalizing db with
  | nil => rfl
  | cons e es ih =>
    rw [CacheAside.after, List.foldl_cons, handled_of_accepts h.1]
    exact ih h.2

/-- One event of a stream that is accepted. -/
theorem handled_split (h : AcceptsAll db es) {past rest : List SuiEvent} {e : SuiEvent} (he : es = past ++ e :: rest) :
    CacheAside.after handled db past = afterEvents db past ∧
      CacheAside.after handled db (past ++ [e]) = afterEvent (afterEvents db past) e ∧
      handled (afterEvents db past) e =
        { writes := stmtsOf e.id (afterEvents db past) e.event, deletes := deletedBy (afterEvents db past) e.event } := by
  rw [he, acceptsAll_append] at h
  obtain ⟨hpast, haccept, _⟩ := h
  refine ⟨after_handled hpast, ?_, handled_of_accepts haccept⟩
  have hone : AcceptsAll (afterEvents db past) [e] := ⟨haccept, trivial⟩
  rw [after_handled (acceptsAll_append.2 ⟨hpast, hone⟩), afterEvents_append]
  rfl

/-- A key that every event of the stream deletes or leaves alone. -/
theorem fresh_of_invalidated (hall : AcceptsAll db es) {past rest : List SuiEvent} (he : es = past ++ rest) {key : CacheKey}
    {st : State Db CacheKey CacheEntry} (hs : Serves Db.cached handled (State.cold db) past st)
    (h : ∀ before e after, es = before ++ e :: after →
      key ∈ deletedBy (afterEvents db before) e.event ∨
        Steady Db.cached key (afterEvents db before) (stmtsOf e.id (afterEvents db before) e.event)) : Fresh Db.cached key st := by
  refine hs.fresh (fun before e after hsplit => ?_) (CacheAside.fresh_cold db)
  have hes : es = before ++ e :: (after ++ rest) := by rw [he, hsplit, List.append_assoc, List.cons_append]
  obtain ⟨hbefore, _, hjob⟩ := handled_split hall hes
  rw [State.cold, hbefore, hjob]
  exact h before e _ hes

/-- Where the handlers leave the documents, decisions and members of a pool alone, its object id does. -/
theorem oneKey_byObject (hdb : db.Consistent) (hall : AcceptsAll db es)
    (h : ∀ past e rest, es = past ++ e :: rest → ¬ WritesToPool k (afterEvents db past) e) : OneKey k db es .byObject where
  uniform := by
    intro past e rest he hchange row hrow key hkey
    obtain ⟨hpast, hnext, hjob⟩ := handled_split hall he
    rw [hpast, hnext] at hchange
    rw [hnext] at hrow
    have hmoves := (moves_or_writes_of_changesPool (hdb.afterEvents past) hchange).resolve_right (h past e rest he)
    rw [hpast, hjob, deletedBy_of_moves hmoves, List.mem_singleton] at hkey
    rw [hkey, Naming.of, (Rows.find_some hrow).2]
    rfl
  fresh := by
    intro past rest he st hs row hrow key hkey
    rw [Naming.of, (Rows.find_some hrow).2] at hkey
    refine fresh_of_invalidated hall he hs fun before e after hes => ?_
    exact (invalidated_object (hdb.afterEvents before) (h before e after hes) hkey).imp And.right id

/-- Where the handlers leave the row of a pool alone, its id does. -/
theorem oneKey_byRow (hdb : db.Consistent) (hall : AcceptsAll db es)
    (h : ∀ past e rest, es = past ++ e :: rest → ¬ MovesPool k (afterEvents db past) e) : OneKey k db es .byRow := by
  have hsame : ∀ past rest, es = past ++ rest → (afterEvents db past).poolOf k = db.poolOf k := by
    intro past
    induction past using List.reverseRecOn with
    | nil => exact fun _ _ => rfl
    | append_singleton past e ih =>
      intro rest he
      rw [List.append_assoc, List.singleton_append] at he
      rw [afterEvents_append, afterEvents_cons, afterEvents_nil, poolOf_afterEvent_of_not_moves (h past e rest he)]
      exact ih _ he
  constructor
  · intro past e rest he hchange row hrow key hkey
    obtain ⟨hpast, hnext, hjob⟩ := handled_split hall he
    rw [hpast, hnext] at hchange
    rw [hnext, poolOf_afterEvent_of_not_moves (h past e rest he)] at hrow
    have hwrites := (moves_or_writes_of_changesPool (hdb.afterEvents past) hchange).resolve_left (h past e rest he)
    obtain ⟨row', key', hrow', hdeleted, hname⟩ := deletedBy_of_writes hwrites
    rw [hpast, hjob, hdeleted, List.mem_singleton] at hkey
    rw [hkey, hname, Option.some.inj (hrow'.symm.trans hrow), Naming.of]
  · intro past rest he st hs row hrow key hkey
    have hstore : st.store = afterEvents db past := by
      rw [he, acceptsAll_append] at hall
      exact hs.store.trans (after_handled hall.1)
    rw [hstore, hsame past rest he] at hrow
    refine fresh_of_invalidated hall he hs fun before e after hes => ?_
    exact invalidated_row (hdb.afterEvents before) (h before e after hes) ((hsame before _ hes).trans hrow) hkey

/-- The one key that the handler of a change deletes has the identifier. -/
theorem OneKey.name_of_deleted {naming : Naming} (h : OneKey k db es naming) (hall : AcceptsAll db es) {past rest : List SuiEvent}
    {e : SuiEvent} (he : es = past ++ e :: rest) (hchange : ChangesPool k (afterEvents db past) (afterEvent (afterEvents db past) e))
    (hknown : (afterEvents db past).poolOf k ≠ none ∨ MovesPool k (afterEvents db past) e) {key : CacheKey}
    (hkey : deletedBy (afterEvents db past) e.event = [key]) : ∃ row, key.poolId = naming.of row := by
  obtain ⟨row, hrow⟩ := exists_poolOf_afterEvent hknown
  obtain ⟨hpast, hnext, hjob⟩ := handled_split hall he
  refine ⟨row, h.uniform past e rest he ?_ row ?_ key ?_⟩
  · rwa [hpast, hnext]
  · rwa [hnext]
  · rw [hpast, hjob, hkey]
    exact List.mem_singleton_self key

/-- One identifier of a pool does exactly for the streams in which no handler brings or changes its row, or none brings or changes its
documents, its decisions and its members: the former delete the object id, and the latter the id of the row. -/
theorem one_key_iff (hdb : db.Consistent) (hok : (processBatch es db).2 = .ok ()) (k : ID) :
    (∃ naming, OneKey k db es naming) ↔
      (∀ past e rest, es = past ++ e :: rest → ¬ MovesPool k (afterEvents db past) e) ∨
        ∀ past e rest, es = past ++ e :: rest → ¬ WritesToPool k (afterEvents db past) e := by
  have hall : AcceptsAll db es := (processBatch_follows es db).returns_iff.1 hok
  constructor
  · rintro ⟨naming, h⟩
    cases naming with
    | byObject =>
      right
      intro past e rest he hwrites
      obtain ⟨row, key, hrow, hdeleted, hname⟩ := deletedBy_of_writes hwrites
      have hknown : (afterEvents db past).poolOf k ≠ none := by simp [hrow]
      obtain ⟨row', hobject⟩ :=
        h.name_of_deleted hall he (changesPool_of_writes (hdb.afterEvents past) hwrites) (.inl hknown) hdeleted
      rw [hname] at hobject
      cases hobject
    | byRow =>
      left
      intro past e rest he hmoves
      obtain ⟨row, hrow⟩ :=
        h.name_of_deleted hall he (changesPool_of_moves hmoves) (.inr hmoves) (deletedBy_of_moves hmoves)
      cases hrow
  · rintro (h | h)
    · exact ⟨.byRow, oneKey_byRow hdb hall h⟩
    · exact ⟨.byObject, oneKey_byObject hdb hall h⟩

/-- A pool that is created and closed. -/
def Sample.closedStream : List SuiEvent :=
  [⟨⟨1, 0⟩, .poolCreated 2 [80] [] 7 0 1000⟩, ⟨⟨2, 0⟩, .poolStateChanged 2 0 8 7 2000⟩]

/-- In this stream the pool is moved and written to, and no naming of the readers has one key. -/
theorem one_key_iff_closedStream :
    (∃ naming, OneKey 2 (Db.empty [.zero]) Sample.closedStream naming) ↔
      (∀ past e rest, Sample.closedStream = past ++ e :: rest → ¬ MovesPool 2 (afterEvents (Db.empty [.zero]) past) e) ∨
        ∀ past e rest, Sample.closedStream = past ++ e :: rest → ¬ WritesToPool 2 (afterEvents (Db.empty [.zero]) past) e :=
  one_key_iff (Db.consistent_empty [.zero]) (by decide +kernel) 2

end OneKey

/-- A pool that is moved on to the review of the committee, and gets a decision. -/
def Sample.decisionStream : List SuiEvent :=
  [⟨⟨1, 0⟩, .poolStateChanged 2 0 1 7 1000⟩, ⟨⟨2, 0⟩, .poolStateChanged 2 1 2 7 2000⟩,
    ⟨⟨3, 0⟩, .icDecisionCreated 2 0 0 7 3000⟩]

/-- The change of the state deletes the key with the object id, and the decision the one with the id of the row. No identifier does, and
under each of the two some event leaves an entry that is not as the tables are. -/
theorem pool_has_two_keys :
    (processBatch Sample.decisionStream Sample.withPool).2 = .ok () ∧
      (∀ naming, ¬ OneKey 2 Sample.withPool Sample.decisionStream naming) ∧
      ∀ name ∈ [PoolName.object 2, .row (.given 0)], ∃ e ∈ Sample.decisionStream, ∃ st,
        Serves Db.cached handled (State.cold Sample.withPool) [e] st ∧ ¬ Fresh Db.cached (.pool name) st := by
  refine ⟨by decide +kernel, fun naming h => ?_, ?_⟩
  · cases naming with
    | byObject =>
      have huniform := h.uniform (Sample.decisionStream.take 2) ⟨⟨3, 0⟩, .icDecisionCreated 2 0 0 7 3000⟩ [] rfl
        ⟨.pool (.object 2), rfl, by decide +kernel⟩ _ rfl (.pool (.row (.given 0))) (by decide +kernel)
      cases huniform
    | byRow =>
      have huniform := h.uniform [] ⟨⟨1, 0⟩, .poolStateChanged 2 0 1 7 1000⟩ _ rfl
        ⟨.pool (.object 2), rfl, by decide +kernel⟩ _ rfl (.pool (.object 2)) (by decide +kernel)
      cases huniform
  · intro name hname
    rw [List.mem_cons, List.mem_singleton] at hname
    obtain rfl | rfl := hname
    · exact ⟨⟨⟨3, 0⟩, .icDecisionCreated 2 0 0 7 3000⟩, by simp [Sample.decisionStream],
        CacheAside.exists_not_fresh rfl (by decide +kernel) (by decide +kernel)⟩
    · exact ⟨⟨⟨1, 0⟩, .poolStateChanged 2 0 1 7 1000⟩, by simp [Sample.decisionStream],
        CacheAside.exists_not_fresh rfl (by decide +kernel) (by decide +kernel)⟩

end BrineVault
