import BrineVault.Api.Audit
import BrineVault.Api.Backend
import BrineVault.Lib.Serial

/-!
# `checklist.service.ts`: the checklist of a pool

Each request looks the pool up, then the items, and then writes, in statements of its own; other requests and the indexer write in between. What
it has looked up stays good enough: whatever the schedule is, every request does what it does alone, at the place of its last statement
(`checklist_serial`), but that an item which has gone in the meantime is deleted once more.
-/

namespace BrineVault

open Interleaving

/-! ## Rows and statements -/

inductive ChecklistItemStatus where
  | missing
  | uploaded
  | reviewed
  | needsRevision
  deriving DecidableEq, Repr

/-- The ids of the items are numbered in the order in which `gen_random_uuid()` gives them; it does not give an id twice. -/
structure ChecklistItemRow where
  id : Nat
  poolId : Uuid
  folder : String
  itemName : String
  isRequired : Bool
  linkedDocumentId : Option Uuid
  status : ChecklistItemStatus
  deriving DecidableEq, Repr

structure CreateChecklistItemDto where
  folder : String
  itemName : String
  isRequired : Bool
  deriving DecidableEq, Repr

/-- A field that is not in the body is `none`; a link that is taken away is `some none`. -/
structure UpdateChecklistItemDto where
  isRequired : Option Bool := none
  linkedDocumentId : Option (Option Uuid) := none
  status : Option ChecklistItemStatus := none
  deriving DecidableEq, Repr

/-- The columns that an update sets. -/
def UpdateChecklistItemDto.set (dto : UpdateChecklistItemDto) (r : ChecklistItemRow) : ChecklistItemRow :=
  { r with
    isRequired := dto.isRequired.getD r.isRequired
    linkedDocumentId := dto.linkedDocumentId.getD r.linkedDocumentId
    status := dto.status.getD r.status }

/-- The tables of the indexer, the items, and how many ids have been given to items. -/
structure ChecklistDb where
  db : Db
  items : List ChecklistItemRow
  drawn : Nat

inductive ChecklistCommand where
  | poolsFindById (id : Uuid)
  | findItemsByPoolId (poolId : Uuid)
  | createItem (poolId : Uuid) (dto : CreateChecklistItemDto)
  | updateItem (id : Nat) (data : UpdateChecklistItemDto)
  | deleteItem (id : Nat)

/-- A write that a constraint refuses answers `none`. -/
abbrev ChecklistCommand.Reply : ChecklistCommand → Type
  | .poolsFindById _ => Option PoolRow
  | .findItemsByPoolId _ => List ChecklistItemRow
  | .createItem _ _ => Option ChecklistItemRow
  | .updateItem _ _ => Option (List ChecklistItemRow)
  | .deleteItem _ => Unit

namespace ChecklistDb

def findItemsByPoolId (s : ChecklistDb) (poolId : Uuid) : List ChecklistItemRow := s.items.filter fun r => r.poolId = poolId

/-- The new row of an insert. -/
def newItem (s : ChecklistDb) (poolId : Uuid) (dto : CreateChecklistItemDto) : ChecklistItemRow :=
  { id := s.drawn, poolId, folder := dto.folder, itemName := dto.itemName, isRequired := dto.isRequired, linkedDocumentId := none,
    status := .missing }

/-- `pool_id` names a pool, the pool, the folder and the name of an item are unique, and a text has no null byte. -/
def insertable (s : ChecklistDb) (poolId : Uuid) (dto : CreateChecklistItemDto) : Bool :=
  s.db.hasPoolId poolId && !(s.items.any fun r => r.poolId = poolId ∧ r.folder = dto.folder ∧ r.itemName = dto.itemName) &&
    !(dto.folder.toList ++ dto.itemName.toList).contains (Char.ofNat 0)

/-- `linked_document_id` names a document where it is set. -/
def linkable (s : ChecklistDb) (data : UpdateChecklistItemDto) : Bool :=
  match data.linkedDocumentId with
  | some (some docId) => s.db.hasDocumentId docId
  | _ => true

/-- An update that finds no row has nothing to check. -/
def exec (s : ChecklistDb) : (c : ChecklistCommand) → c.Reply × ChecklistDb
  | .poolsFindById id => (PoolsRepository.findById s.db id, s)
  | .findItemsByPoolId poolId => (s.findItemsByPoolId poolId, s)
  | .createItem poolId dto =>
    if s.insertable poolId dto then
      (some (s.newItem poolId dto), { s with items := s.items ++ [s.newItem poolId dto], drawn := s.drawn + 1 })
    else (none, s)
  | .updateItem id data =>
    match s.items.filter fun r => r.id = id with
    | [] => (some [], s)
    | rows =>
      if s.linkable data then
        (some (rows.map data.set), { s with items := Rows.updateAt ChecklistItemRow.id id data.set s.items })
      else (none, s)
  | .deleteItem id => ((), { s with items := s.items.filter fun r => r.id ≠ id })

/-- A statement of the indexer. -/
def happen (s : ChecklistDb) (stmt : Stmt) : ChecklistDb := { s with db := Statements.act s.db stmt }

end ChecklistDb

/-! ## The service -/

inductive ChecklistAnswer where
  | items (rows : List ChecklistItemRow)
  | item (row : ChecklistItemRow)
  | deleted
  deriving DecidableEq, Repr

abbrev ChecklistProg (α : Type) := Prog ChecklistCommand ChecklistCommand.Reply HttpException α

namespace ChecklistService

def itemNotFound : HttpException := NotFoundException "CHECKLIST_ITEM_NOT_FOUND" "Checklist item not found"

def assertPoolAccess (poolId : Uuid) (userOrgId : Option Uuid) : ChecklistProg PoolRow := do
  match ← Prog.send (ChecklistCommand.poolsFindById poolId) with
  | none => .throw (NotFoundException "POOL_NOT_FOUND" "Pool not found")
  | some pool =>
    if userOrgId ≠ some pool.orgId then .throw (ForbiddenException "NOT_IN_ORG" "Not a member of this organization")
    else return pool

/-- The end of `getChecklist`. -/
def readItems (poolId : Uuid) : ChecklistProg ChecklistAnswer := do
  let items ← Prog.send (ChecklistCommand.findItemsByPoolId poolId)
  return .items items

def getChecklist (poolId : Uuid) (userOrgId : Option Uuid) : ChecklistProg ChecklistAnswer := do
  let _ ← assertPoolAccess poolId userOrgId
  readItems poolId

/-- What is made of the answer to an insert: `rows[0]!`. -/
def created : Option ChecklistItemRow → ChecklistProg ChecklistAnswer
  | none => .throw internalError
  | some row => return .item row

/-- The end of `addItem`. -/
def insertItem (poolId : Uuid) (dto : CreateChecklistItemDto) : ChecklistProg ChecklistAnswer := do
  created (← Prog.send (ChecklistCommand.createItem poolId dto))

def addItem (poolId : Uuid) (userOrgId : Option Uuid) (dto : CreateChecklistItemDto) : ChecklistProg ChecklistAnswer := do
  let _ ← assertPoolAccess poolId userOrgId
  insertItem poolId dto

/-- What `updateItem` and `deleteItem` go on with once the caller is admitted: the item has to be one of the pool. -/
def withItem (poolId : Uuid) (itemId : Nat) (write : ChecklistProg ChecklistAnswer) : ChecklistProg ChecklistAnswer := do
  let items ← Prog.send (ChecklistCommand.findItemsByPoolId poolId)
  if (items.find? fun i => i.id = itemId).isNone then .throw itemNotFound else write

/-- What is made of the answer to an update. -/
def updated : Option (List ChecklistItemRow) → ChecklistProg ChecklistAnswer
  | none => .throw internalError
  | some [] => .throw itemNotFound
  | some (row :: _) => return .item row

/-- The end of `updateItem`. -/
def writeItem (itemId : Nat) (dto : UpdateChecklistItemDto) : ChecklistProg ChecklistAnswer := do
  updated (← Prog.send (ChecklistCommand.updateItem itemId dto))

def updateItem (poolId : Uuid) (itemId : Nat) (userOrgId : Option Uuid) (dto : UpdateChecklistItemDto) : ChecklistProg ChecklistAnswer := do
  let _ ← assertPoolAccess poolId userOrgId
  withItem poolId itemId (writeItem itemId dto)

/-- The end of `deleteItem`. -/
def removeItem (itemId : Nat) : ChecklistProg ChecklistAnswer := do
  Prog.send (ChecklistCommand.deleteItem itemId)
  return .deleted

def deleteItem (poolId : Uuid) (itemId : Nat) (userOrgId : Option Uuid) : ChecklistProg ChecklistAnswer := do
  let _ ← assertPoolAccess poolId userOrgId
  withItem poolId itemId (removeItem itemId)

end ChecklistService

/-- The reply shows the item in the checklist of a pool. -/
def ChecklistCommand.finds (itemId : Nat) : (c : ChecklistCommand) → c.Reply → Prop
  | .findItemsByPoolId _, rows => ∃ r ∈ (rows : List ChecklistItemRow), r.id = itemId
  | _, _ => False

/-! ## Requests -/

inductive ChecklistRequest where
  | getChecklist
  | addItem (dto : CreateChecklistItemDto)
  | updateItem (itemId : Nat) (dto : UpdateChecklistItemDto)
  | deleteItem (itemId : Nat)
  deriving DecidableEq, Repr

/-- A request, with the pool of its path and the organisation of its token. -/
structure ChecklistCall where
  poolId : Uuid
  userOrgId : Option Uuid
  request : ChecklistRequest
  deriving DecidableEq, Repr

namespace ChecklistCall

open ChecklistService

def program (c : ChecklistCall) : ChecklistProg ChecklistAnswer :=
  match c.request with
  | .getChecklist => getChecklist c.poolId c.userOrgId
  | .addItem dto => addItem c.poolId c.userOrgId dto
  | .updateItem itemId dto => updateItem c.poolId itemId c.userOrgId dto
  | .deleteItem itemId => deleteItem c.poolId itemId c.userOrgId

/-- What the request answers and leaves when it has the database to itself. -/
def alone (c : ChecklistCall) (s : ChecklistDb) : Except HttpException ChecklistAnswer × ChecklistDb :=
  Interleaving.alone ChecklistDb.exec ChecklistDb.happen c.program s []

/-- The pool exists and is of the organisation of the caller. -/
def Admitted (c : ChecklistCall) (db : Db) : Prop := ∃ pool, PoolsRepository.findById db c.poolId = some pool ∧ c.userOrgId = some pool.orgId

/-- A deletion of an item that was there and is not any more: it is answered like one that finds the item. -/
def DeletesAgain (c : ChecklistCall) (a : Except HttpException ChecklistAnswer) (s s' : ChecklistDb) : Prop :=
  ∃ itemId, c.request = .deleteItem itemId ∧ itemId < s.drawn ∧ (∀ r ∈ s.items, r.id ≠ itemId) ∧ c.Admitted s.db ∧
    a = .ok .deleted ∧ s' = s

/-- The request is served at one moment. -/
def Served (c : ChecklistCall) (a : Except HttpException ChecklistAnswer) (s s' : ChecklistDb) : Prop :=
  c.alone s = (a, s') ∨ c.DeletesAgain a s s'

end ChecklistCall

/-! ## Statements keep what a request has found -/

namespace ChecklistDb

/-- No two items have one id, and no item has an id that is still to be given. -/
structure Sound (s : ChecklistDb) : Prop where
  nodup : (s.items.map ChecklistItemRow.id).Nodup
  drawn : ∀ r ∈ s.items, r.id < s.drawn

/-- The id has been given to an item of the pool. -/
structure Owned (poolId : Uuid) (itemId : Nat) (s : ChecklistDb) : Prop where
  drawn : itemId < s.drawn
  pool : ∀ r ∈ s.items, r.id = itemId → r.poolId = poolId

variable {s : ChecklistDb}

/-- The rows that a statement leaves are the new one and rows that were there, with their ids and pools. -/
theorem mem_items_exec {c : ChecklistCommand} {r : ChecklistItemRow} (h : r ∈ (s.exec c).2.items) :
    (r.id = s.drawn ∧ (s.exec c).2.drawn = s.drawn + 1) ∨ ∃ r' ∈ s.items, r'.id = r.id ∧ r'.poolId = r.poolId := by
  cases c with
  | createItem poolId dto =>
    simp only [exec] at h ⊢
    split at h
    · rename_i hok
      rw [if_pos hok]
      obtain hmem | rfl := (List.mem_append.1 h).imp_right List.mem_singleton.1
      · exact .inr ⟨r, hmem, rfl, rfl⟩
      · exact .inl ⟨rfl, rfl⟩
    · exact .inr ⟨r, h, rfl, rfl⟩
  | updateItem id data =>
    right
    simp only [exec] at h
    split at h
    · exact ⟨r, h, rfl, rfl⟩
    · split at h
      · obtain ⟨r', hmem, rfl⟩ := List.mem_map.1 h
        refine ⟨r', hmem, ?_⟩
        split <;> exact ⟨rfl, rfl⟩
      · exact ⟨r, h, rfl, rfl⟩
  | deleteItem id => exact .inr ⟨r, List.mem_of_mem_filter h, rfl, rfl⟩
  | _ => exact .inr ⟨r, h, rfl, rfl⟩

/-- Ids are only drawn further. -/
theorem drawn_le_exec (c : ChecklistCommand) : s.drawn ≤ (s.exec c).2.drawn := by
  cases c with
  | createItem poolId dto =>
    simp only [exec]
    split
    · exact Nat.le_succ _
    · exact Nat.le_refl _
  | updateItem id data =>
    simp only [exec]
    split
    · exact Nat.le_refl _
    · split <;> exact Nat.le_refl _
  | _ => exact Nat.le_refl _

/-- No command of the checklist touches the indexer's tables. -/
theorem db_exec (c : ChecklistCommand) : (s.exec c).2.db = s.db := by
  cases c with
  | createItem poolId dto =>
    simp only [exec]
    split <;> rfl
  | updateItem id data =>
    simp only [exec]
    split
    · rfl
    · split <;> rfl
  | _ => rfl

/-- An item of the pool stays the pool's, or goes. -/
theorem Owned.exec {poolId : Uuid} {itemId : Nat} (h : s.Owned poolId itemId) (c : ChecklistCommand) : (s.exec c).2.Owned poolId itemId := by
  refine ⟨h.drawn.trans_le (drawn_le_exec c), fun r hr hid => ?_⟩
  obtain ⟨hnew, -⟩ | ⟨r', hmem, hid', hpool⟩ := mem_items_exec hr
  · exact absurd (hid.symm.trans hnew) h.drawn.ne
  · rw [← hpool]
    exact h.pool r' hmem (hid'.trans hid)

/-- Every command keeps the ids sound. -/
theorem Sound.exec (h : s.Sound) (c : ChecklistCommand) : (s.exec c).2.Sound := by
  refine ⟨?_, fun r hr => ?_⟩
  · cases c with
    | createItem poolId dto =>
      simp only [ChecklistDb.exec]
      split
      · rw [List.map_append, List.nodup_append]
        refine ⟨h.nodup, List.nodup_singleton _, fun id hid id' hid' => ?_⟩
        obtain ⟨r, hr, rfl⟩ := List.mem_map.1 hid
        rw [List.mem_singleton.1 hid']
        exact (h.drawn r hr).ne
      · exact h.nodup
    | updateItem id data =>
      simp only [ChecklistDb.exec]
      split
      · exact h.nodup
      · split
        · have hset : ∀ r, (data.set r).id = r.id := fun _ => rfl
          rw [Rows.map_updateAt hset]
          exact h.nodup
        · exact h.nodup
    | deleteItem id => exact h.nodup.sublist (List.filter_sublist.map _)
    | _ => exact h.nodup
  · obtain ⟨hnew, hdrawn⟩ | ⟨r', hmem, hid, -⟩ := mem_items_exec hr
    · rw [hnew, hdrawn]
      exact Nat.lt_succ_self _
    · rw [← hid]
      exact (h.drawn r' hmem).trans_le (drawn_le_exec c)

/-- The item is not among those of the pool. -/
def lacks (s : ChecklistDb) (poolId : Uuid) (itemId : Nat) : Bool :=
  ((s.findItemsByPoolId poolId).find? fun i => i.id = itemId).isNone

/-- The item is there exactly when a row has its pool and its id. -/
theorem lacks_eq_false {poolId : Uuid} {itemId : Nat} :
    s.lacks poolId itemId = false ↔ ∃ r ∈ s.items, r.poolId = poolId ∧ r.id = itemId := by
  rw [lacks, Option.isNone_eq_false_iff, List.find?_isSome]
  simp [findItemsByPoolId, and_assoc]

/-- An item that is found is the only one with its id. -/
theorem Sound.owned (h : s.Sound) {poolId : Uuid} {itemId : Nat}
    (hfound : s.lacks poolId itemId = false) : s.Owned poolId itemId := by
  obtain ⟨r, hr, hpool, rfl⟩ := lacks_eq_false.1 hfound
  refine ⟨h.drawn r hr, fun r' hr' hid => ?_⟩
  rw [List.inj_on_of_nodup_map h.nodup hr' hr hid]
  exact hpool

/-- An item that the pool has had and lacks has gone. -/
theorem Owned.lacks_iff {poolId : Uuid} {itemId : Nat} (h : s.Owned poolId itemId) :
    s.lacks poolId itemId = true ↔ ∀ r ∈ s.items, r.id ≠ itemId := by
  rw [← not_iff_not, Bool.not_eq_true, lacks_eq_false]
  simp only [not_forall, not_not, exists_prop]
  constructor
  · intro hfound
    obtain ⟨r, hr, -, hid⟩ := hfound
    exact ⟨r, hr, hid⟩
  · intro hfound
    obtain ⟨r, hr, hid⟩ := hfound
    exact ⟨r, hr, h.pool r hr hid, hid⟩

end ChecklistDb

/-- A statement of the indexer keeps a pool, with its organisation. -/
theorem PoolsRepository.findById_act {db : Db} {id : Uuid} {pool : PoolRow} (h : PoolsRepository.findById db id = some pool) (stmt : Stmt) :
    ∃ pool', PoolsRepository.findById (Statements.act db stmt) id = some pool' ∧ pool'.orgId = pool.orgId := by
  unfold PoolsRepository.findById at h
  cases stmt with
  | insertPool row =>
    refine ⟨pool, ?_, rfl⟩
    change (Rows.insertNew PoolRow.suiObjectId row db.pools).find? _ = _
    unfold Rows.insertNew
    split
    · exact h
    · rw [List.find?_append, h]
      rfl
  | updatePoolState k state digest =>
    refine ⟨if pool.suiObjectId = k then Stmt.setState state digest pool else pool, ?_, ?_⟩
    · change (Rows.updateAt PoolRow.suiObjectId k (Stmt.setState state digest) db.pools).find? _ = _
      have hid : ((fun r : PoolRow => decide (r.id = id)) ∘ fun r => if r.suiObjectId = k then Stmt.setState state digest r else r) =
          fun r => decide (r.id = id) := by
        funext r
        simp only [Function.comp_apply]
        split <;> rfl
      rw [Rows.updateAt, List.find?_map, hid, h]
      rfl
    · split <;> rfl
  | _ => exact ⟨pool, h, rfl⟩

/-! ## What is left of a request -/

namespace ChecklistCall

open ChecklistService

variable {c : ChecklistCall} {s s' : ChecklistDb} {p : ChecklistProg ChecklistAnswer} {a : Except HttpException ChecklistAnswer}

/-- Once the caller is admitted. -/
def admitted (c : ChecklistCall) : ChecklistProg ChecklistAnswer :=
  match c.request with
  | .getChecklist => readItems c.poolId
  | .addItem dto => insertItem c.poolId dto
  | .updateItem itemId dto => withItem c.poolId itemId (writeItem itemId dto)
  | .deleteItem itemId => withItem c.poolId itemId (removeItem itemId)

/-- Once the pool has been looked up. -/
def lookedUp (c : ChecklistCall) : Option PoolRow → ChecklistProg ChecklistAnswer
  | none => .throw (NotFoundException "POOL_NOT_FOUND" "Pool not found")
  | some pool =>
    if c.userOrgId ≠ some pool.orgId then .throw (ForbiddenException "NOT_IN_ORG" "Not a member of this organization") else c.admitted

/-- Every call looks up the pool first. -/
theorem program_eq (c : ChecklistCall) : c.program = .call (.poolsFindById c.poolId) c.lookedUp := by
  have haccess : c.program = assertPoolAccess c.poolId c.userOrgId >>= fun _ => c.admitted := by
    obtain ⟨poolId, userOrgId, request⟩ := c
    cases request <;> rfl
  rw [haccess, assertPoolAccess, Prog.send_bind, Prog.call_bind]
  congr 1
  funext found
  cases found with
  | none => rfl
  | some pool =>
    simp only [lookedUp]
    split <;> rfl

/-- With the pool found and the caller allowed, it goes on as admitted. -/
theorem lookedUp_of_admitted (h : c.Admitted s.db) : c.lookedUp (PoolsRepository.findById s.db c.poolId) = c.admitted := by
  obtain ⟨pool, hpool, horg⟩ := h
  rw [hpool, lookedUp, if_neg (not_not.2 horg)]

/-- Otherwise it has ended. -/
theorem lookedUp_of_not_admitted (h : ¬ c.Admitted s.db) :
    ∃ a, (c.lookedUp (PoolsRepository.findById s.db c.poolId)).result = some a := by
  cases hpool : PoolsRepository.findById s.db c.poolId with
  | none => exact ⟨_, rfl⟩
  | some pool =>
    rw [lookedUp, if_pos fun horg => h ⟨pool, hpool, horg⟩]
    exact ⟨_, rfl⟩

/-- Alone, the look-up of the pool changes nothing. -/
theorem alone_eq (c : ChecklistCall) (s : ChecklistDb) :
    c.alone s = Interleaving.alone ChecklistDb.exec ChecklistDb.happen (c.lookedUp (PoolsRepository.findById s.db c.poolId)) s [] := by
  rw [alone, program_eq]
  rfl

/-- Alone, an admitted call does what it does as admitted. -/
theorem alone_of_admitted (h : c.Admitted s.db) :
    c.alone s = Interleaving.alone ChecklistDb.exec ChecklistDb.happen c.admitted s [] := by
  rw [alone_eq, lookedUp_of_admitted h]

/-- Alone, a call for an item throws where there is none, and writes otherwise. -/
theorem alone_withItem {poolId : Uuid} {itemId : Nat} {write : ChecklistProg ChecklistAnswer} :
    Interleaving.alone ChecklistDb.exec ChecklistDb.happen (withItem poolId itemId write) s [] =
      if s.lacks poolId itemId then (.error itemNotFound, s) else Interleaving.alone ChecklistDb.exec ChecklistDb.happen write s [] :=
  apply_ite (fun p => Interleaving.alone ChecklistDb.exec ChecklistDb.happen p s []) _ _ _

/-- What is left of a request before its last statement, with what it has found out. -/
inductive Before (c : ChecklistCall) (s : ChecklistDb) : ChecklistProg ChecklistAnswer → Prop
  | start : Before c s c.program
  | admitted (h : c.Admitted s.db) : Before c s c.admitted
  | toWrite {itemId : Nat} {dto : UpdateChecklistItemDto} (hq : c.request = .updateItem itemId dto) (h : c.Admitted s.db)
      (ho : s.Owned c.poolId itemId) : Before c s (writeItem itemId dto)
  | toRemove {itemId : Nat} (hq : c.request = .deleteItem itemId) (h : c.Admitted s.db) (ho : s.Owned c.poolId itemId) :
      Before c s (removeItem itemId)

/-- The next statement of the request reads, or it is the last one and serves the request. -/
def Turns (c : ChecklistCall) (s : ChecklistDb) : ChecklistProg ChecklistAnswer → Prop
  | .call stmt k => ((s.exec stmt).2 = s ∧ c.Before s (k (s.exec stmt).1)) ∨
      ∃ a, (k (s.exec stmt).1).result = some a ∧ c.Served a s (s.exec stmt).2
  | _ => False

/-- Any statement that is the last one of a request whose caller is admitted, where nothing else is to be found out. -/
theorem turns_last (hadm : c.Admitted s.db) {stmt : ChecklistCommand} {k : stmt.Reply → ChecklistProg ChecklistAnswer}
    (hprog : c.admitted = .call stmt k) (ha : (k (s.exec stmt).1).result = some a) : c.Turns s c.admitted := by
  have hserved : c.Served a s (s.exec stmt).2 := by
    left
    rw [alone_of_admitted hadm, hprog]
    exact alone_of_result ha
  rw [hprog]
  exact .inr ⟨a, ha, hserved⟩

/-- A creation has ended with the insert. -/
theorem ends_created (row : Option ChecklistItemRow) : ∃ a, (created row).result = some a := by
  cases row <;> exact ⟨_, rfl⟩

/-- An update has ended with the statement. -/
theorem ends_updated (rows : Option (List ChecklistItemRow)) : ∃ a, (updated rows).result = some a := by
  obtain _ | _ | _ := rows <;> exact ⟨_, rfl⟩

/-- A call for an item that is admitted is at its look-up, or before its write. -/
theorem turns_withItem {itemId : Nat} {write : ChecklistProg ChecklistAnswer} (hadm : c.Admitted s.db)
    (hprog : c.admitted = withItem c.poolId itemId write) (hfound : s.lacks c.poolId itemId = false → c.Before s write) :
    c.Turns s c.admitted := by
  cases hlacks : s.lacks c.poolId itemId with
  | true =>
    have hend : (if s.lacks c.poolId itemId then .throw itemNotFound else write : ChecklistProg ChecklistAnswer).result =
        some (.error itemNotFound) := by
      rw [hlacks]
      rfl
    exact turns_last hadm hprog hend
  | false =>
    have hnext : c.Before s (if s.lacks c.poolId itemId then .throw itemNotFound else write) := by
      rw [hlacks]
      exact hfound hlacks
    rw [hprog]
    exact .inl ⟨rfl, hnext⟩

/-- An update of an item of the pool is before its write. -/
theorem turns_toWrite {itemId : Nat} {dto : UpdateChecklistItemDto} (hq : c.request = .updateItem itemId dto) (hadm : c.Admitted s.db)
    (ho : s.Owned c.poolId itemId) : c.Turns s (writeItem itemId dto) := by
  obtain ⟨a, ha⟩ := ends_updated (s.exec (.updateItem itemId dto)).1
  refine .inr ⟨a, ha, .inl ?_⟩
  have hwrite : Interleaving.alone ChecklistDb.exec ChecklistDb.happen (writeItem itemId dto) s [] =
      (a, (s.exec (.updateItem itemId dto)).2) := alone_of_result ha
  rw [alone_of_admitted hadm, admitted, hq]
  refine alone_withItem.trans ?_
  cases hlacks : s.lacks c.poolId itemId with
  | true =>
    -- Alone, it does not find the item; here the update finds no row.
    have hgone : s.items.filter (fun r => r.id = itemId) = [] := by
      simpa [List.filter_eq_nil_iff] using ho.lacks_iff.1 hlacks
    have hexec : s.exec (.updateItem itemId dto) = (some [], s) := by
      simp only [ChecklistDb.exec, hgone]
    rw [hexec] at ha ⊢
    cases ha
    rfl
  | false => exact hwrite

/-- So is a removal of an item of the pool. -/
theorem turns_toRemove {itemId : Nat} (hq : c.request = .deleteItem itemId) (hadm : c.Admitted s.db) (ho : s.Owned c.poolId itemId) :
    c.Turns s (removeItem itemId) := by
  refine .inr ⟨.ok .deleted, rfl, ?_⟩
  cases hlacks : s.lacks c.poolId itemId with
  | true =>
    have hgone := ho.lacks_iff.1 hlacks
    have hitems : s.items.filter (fun r => r.id ≠ itemId) = s.items := by
      simpa [List.filter_eq_self] using hgone
    have hstore : (s.exec (.deleteItem itemId)).2 = s := by
      simp only [ChecklistDb.exec, hitems]
    exact .inr ⟨itemId, hq, ho.drawn, hgone, hadm, rfl, hstore⟩
  | false =>
    left
    rw [alone_of_admitted hadm, admitted, hq]
    refine alone_withItem.trans ?_
    rw [hlacks]
    rfl

/-- One turn of a request, while nothing else happens. -/
theorem Before.turns (hs : s.Sound) (h : c.Before s p) : c.Turns s p := by
  cases h with
  | start =>
    rw [program_eq]
    by_cases hadm : c.Admitted s.db
    · have hnext : c.Before s (c.lookedUp (PoolsRepository.findById s.db c.poolId)) := by
        rw [lookedUp_of_admitted hadm]
        exact .admitted hadm
      exact .inl ⟨rfl, hnext⟩
    · obtain ⟨a, ha⟩ := lookedUp_of_not_admitted hadm
      exact .inr ⟨a, ha, .inl ((alone_eq c s).trans (alone_of_result ha))⟩
  | admitted hadm =>
    obtain ⟨poolId, userOrgId, request⟩ := c
    cases request with
    | getChecklist => exact turns_last hadm rfl rfl
    | addItem dto =>
      obtain ⟨a, ha⟩ := ends_created (s.exec (.createItem poolId dto)).1
      exact turns_last hadm rfl ha
    | updateItem itemId dto => exact turns_withItem hadm rfl fun hfound => .toWrite rfl hadm (hs.owned hfound)
    | deleteItem itemId => exact turns_withItem hadm rfl fun hfound => .toRemove rfl hadm (hs.owned hfound)
  | toWrite hq hadm ho => exact turns_toWrite hq hadm ho
  | toRemove hq hadm ho => exact turns_toRemove hq hadm ho

/-! ## What the others do -/

/-- What every statement of the service keeps is kept by a request that is served. -/
theorem Served.preserves {P : ChecklistDb → Prop} (hP : ∀ s stmt, P s → P (s.exec stmt).2) (h : c.Served a s s') (hs : P s) : P s' := by
  rcases h with h | ⟨_, _, _, _, _, _, rfl⟩
  · have hkept : P (c.alone s).2 := alone_preserves hP hs
    rw [h] at hkept
    exact hkept
  · exact hs

/-- What has been found out stays good as long as the access and the ids of the pool do. -/
theorem Before.mono (h : c.Before s p) (hadm : c.Admitted s.db → c.Admitted s'.db)
    (howned : ∀ itemId, s.Owned c.poolId itemId → s'.Owned c.poolId itemId) : c.Before s' p := by
  cases h with
  | start => exact .start
  | admitted h => exact .admitted (hadm h)
  | toWrite hq h ho => exact .toWrite hq (hadm h) (howned _ ho)
  | toRemove hq h ho => exact .toRemove hq (hadm h) (howned _ ho)

/-- A call before its write stays there while another is served. -/
theorem Before.served {c' : ChecklistCall} (h : c.Before s p) (hserved : c'.Served a s s') : c.Before s' p := by
  have hdb : s'.db = s.db :=
    hserved.preserves (P := fun t => t.db = s.db) (fun t stmt ht => (ChecklistDb.db_exec stmt).trans ht) rfl
  refine h.mono (fun hadm => ?_) fun itemId ho => hserved.preserves (fun t stmt ht => ht.exec stmt) ho
  rw [hdb]
  exact hadm

/-- A statement of the indexer leaves whom the call admits. -/
theorem Admitted.act {db : Db} (h : c.Admitted db) (stmt : Stmt) : c.Admitted (Statements.act db stmt) := by
  obtain ⟨pool, hpool, horg⟩ := h
  obtain ⟨pool', hpool', horg'⟩ := PoolsRepository.findById_act hpool stmt
  exact ⟨pool', hpool', horg.trans (by rw [horg'])⟩

/-- Before its write a call has no result. -/
theorem Before.result_eq_none (h : c.Before s p) : p.result = none := by
  cases h with
  | start =>
    rw [program_eq]
    rfl
  | admitted _ =>
    obtain ⟨poolId, userOrgId, request⟩ := c
    cases request <;> rfl
  | toWrite _ _ _ => rfl
  | toRemove _ _ _ => rfl

/-- Requests write with their last statement, and what they have found out before stays good. -/
theorem late : Late ChecklistDb.exec ChecklistDb.happen ChecklistDb.Sound program Served Before where
  start _ _ := .start
  running _ _ _ h := h.result_eq_none
  turn _ _ _ _ hs h := h.turns hs
  serves_inv _ _ _ _ hs h := h.preserves (fun _ stmt ht => ht.exec stmt) hs
  happen_inv _ _ hs := ⟨hs.nodup, hs.drawn⟩
  others _ _ _ _ _ _ _ h hserved := h.served hserved
  events _ _ stmt _ _ h := h.mono (fun hadm => hadm.act stmt) fun _ ho => ⟨ho.drawn, ho.pool⟩

/-- A deletion that is answered as done has been shown the item. -/
theorem keeps_deletion {itemId : Nat} (hq : c.request = .deleteItem itemId) :
    Keeps (listening (ChecklistCommand.finds itemId)) (fun q r => r = .ok .deleted → q) False c.program := by
  rw [program_eq]
  refine ⟨trivial, fun found => ?_⟩
  cases found with
  | none =>
    intro hdeleted
    cases hdeleted
  | some pool =>
    rw [lookedUp]
    split
    · intro hdeleted
      cases hdeleted
    · rw [admitted, hq]
      refine ⟨trivial, fun rows => ?_⟩
      change Keeps _ _ _ (if ((rows : List ChecklistItemRow).find? _).isNone then _ else _)
      split
      · intro hdeleted
        cases hdeleted
      · rename_i hfound
        rw [Option.isNone_iff_eq_none] at hfound
        obtain ⟨r, hr⟩ := Option.ne_none_iff_exists'.1 hfound
        have hid : r.id = itemId := by simpa using List.find?_some hr
        exact ⟨trivial, fun _ _ => .inl (.inr ⟨r, List.mem_of_find?_eq_some hr, hid⟩)⟩

end ChecklistCall

/-- Whatever turns the requests and the indexer take, each request is served as a whole, at the place of its last statement: it does what
it does alone, or it deletes an item that has gone already. A deletion that is answered as done has found the item in any case. -/
theorem checklist_serial {requests : List ChecklistCall} {s : ChecklistDb} {ts : List (Turn Stmt)}
    {n : Interleaving.Pool ChecklistCommand ChecklistCommand.Reply ChecklistDb HttpException ChecklistAnswer} (hs : s.Sound)
    (hr : Steps.run (step ChecklistDb.exec ChecklistDb.happen) ⟨s, requests.map ChecklistCall.program⟩ ts = .ok n) (hf : n.Finished) :
    Serial ChecklistDb.happen ChecklistCall.Served (fun i => requests[i]?) (fun i => n.threads[i]?.bind Prog.result) s (lastTurns ts)
        n.store ∧
      ∀ (i itemId : Nat) (c : ChecklistCall), requests[i]? = some c → c.request = .deleteItem itemId → n.threads[i]? = some (.ret .deleted) →
        Heard ChecklistDb.exec ChecklistDb.happen (ChecklistCommand.finds itemId) ⟨s, requests.map ChecklistCall.program⟩ ts i := by
  refine ⟨ChecklistCall.late.serial hs hr hf, ?_⟩
  intro i itemId c hc hq hdeleted
  have hi : (requests.map ChecklistCall.program)[i]? = some c.program := by rw [List.getElem?_map, hc, Option.map_some]
  obtain ⟨p, hp, hkeeps⟩ := keeps_run hi (ChecklistCall.keeps_deletion hq) hr
  rw [hdeleted, Option.some.injEq] at hp
  subst hp
  exact hkeeps rfl

/-! Two deletions of one item: the second is answered when the item has gone. -/

namespace Sample

def checkedPool : PoolRow :=
  { id := .given 1, suiObjectId := 7, orgId := .given 2, name := "Bridge".toUTF8.toList, currentState := 0, encryptionScheme := 0,
    createdByAddress := 5, suiTxDigest := none }

def checklistItem : ChecklistItemRow :=
  { id := 0, poolId := .given 1, folder := "Legal", itemName := "Term sheet", isRequired := true, linkedDocumentId := none,
    status := .missing }

def checklist : ChecklistDb := { db := { Db.empty [.given 2] with pools := [checkedPool] }, items := [checklistItem], drawn := 1 }

def removal : ChecklistCall := { poolId := .given 1, userOrgId := some (.given 2), request := .deleteItem 0 }

def removals : List (Turn Stmt) := [.thread 0, .thread 1, .thread 1, .thread 0, .thread 0, .thread 1]

end Sample

/-- Two removals of one item: the second does nothing after the first. -/
theorem checklist_serial_sample :
    ∃ n, Steps.run (step ChecklistDb.exec ChecklistDb.happen) ⟨Sample.checklist, [Sample.removal, Sample.removal].map ChecklistCall.program⟩
        Sample.removals = .ok n ∧ n.Finished ∧
      Serial ChecklistDb.happen ChecklistCall.Served (fun i => [Sample.removal, Sample.removal][i]?)
        (fun i => n.threads[i]?.bind Prog.result) Sample.checklist (lastTurns Sample.removals) n.store := by
  have hsound : Sample.checklist.Sound := ⟨by decide, by decide⟩
  exact ⟨_, rfl, by decide, (checklist_serial hsound rfl (by decide)).1⟩

end BrineVault
