import BrineVault.Contract.DocumentEvents
import BrineVault.Indexer.Poison
import BrineVault.Indexer.Redo

/-!
# The cached documents

A row of a document is written when the document's creation is processed, where the pool has a row that a room refers to; and the
versions that are told after that are added to it. A pool that has no row when its room is announced never gets a room, so its
documents are skipped. No handler writes `required_flag`.
-/

namespace BrineVault

open Statements (act actAll)

/-- The rows of the versions of a document, by their numbers. -/
def Db.versionsOf (db : Db) (documentId : Uuid) : List Nat :=
  (db.documentVersions.filter fun r => r.documentId = documentId).map (·.version)

/-- Every document of a pool that has a row has a row with its current version, its number of versions, its flag and its folder, and there
is one row for each of its versions. -/
def DocumentCacheMatches (db : Db) (w : World) : Prop :=
  ∀ poolId pool k doc, w.pools.lookup poolId = some pool → pool.documents.lookup k = some doc → db.poolOf poolId ≠ none →
    ∃ row, db.docOf k = some row ∧ row.currentVersion = doc.currentVersion ∧ row.versionCount = doc.versionCount ∧
      row.requiredFlag = doc.requiredFlag ∧ row.folderId = doc.folderId ∧ (db.versionsOf row.id).Perm doc.versions.keys

/-! ## The rows of documents -/

/-- The rows of documents as the handlers write them: under the id that is drawn for the object, and not required. -/
def Db.PlainDocuments (db : Db) : Prop :=
  ∀ r ∈ db.documents, r.id = .document r.suiObjectId ∧ r.requiredFlag = false

/-- The row of a document with versions 1 to `n`, and the rows of the versions. -/
structure Db.Holds (db : Db) (k : ID) (folderId n : Nat) : Prop where
  row : ∃ row, db.docOf k = some row ∧ row.folderId = folderId ∧ row.currentVersion = n ∧ row.versionCount = n
  versions : db.versionsOf (.document k) = List.range' 1 n

/-- The document has no row, and none of its versions has one. -/
def Db.Lacks (db : Db) (k : ID) : Prop := db.docOf k = none ∧ db.versionsOf (.document k) = []

/-- An insert adds the row of its document, unless there is one. -/
theorem docOf_insertDocument (k : ID) (db : Db) (row : DocumentRow) :
    (act db (Stmt.insertDocument row)).docOf k = (db.docOf k).or (if row.suiObjectId = k then some row else none) :=
  Rows.find_insertNew k row db.documents

/-- A new version changes the row of its own document only. -/
theorem docOf_updateVersionInfo (k k' : ID) (db : Db) (version : Nat) :
    (act db (Stmt.updateVersionInfo k' version)).docOf k =
      (db.docOf k).map fun r => if k = k' then Stmt.setVersionInfo version r else r :=
  Rows.find_updateAt (f := Stmt.setVersionInfo version) (fun _ => rfl) k k' db.documents

/-- The versions of a document are those stored under its key. -/
theorem mem_versionsOf {db : Db} {documentId : Uuid} {v : Nat} :
    v ∈ db.versionsOf documentId ↔ Rows.has VersionRow.key (documentId, v) db.documentVersions = true := by
  simp only [Db.versionsOf, List.mem_map, List.mem_filter, decide_eq_true_eq, Rows.has_iff, VersionRow.key, Prod.mk.injEq, and_assoc]

/-- A version that has no row gets one. -/
theorem versionsOf_insertVersion_self {db : Db} {row : VersionRow} (h : row.version ∉ db.versionsOf row.documentId) :
    (act db (Stmt.insertVersion row)).versionsOf row.documentId = db.versionsOf row.documentId ++ [row.version] := by
  have h : ¬ Rows.has VersionRow.key row.key db.documentVersions = true := fun hhas => h (mem_versionsOf.2 hhas)
  change (List.filter _ (Rows.insertNew VersionRow.key row db.documentVersions)).map _ = _
  rw [Rows.insertNew, if_neg h, List.filter_append, List.map_append]
  simp [Db.versionsOf]

/-- A version of another document is none of this one's. -/
theorem versionsOf_insertVersion_other {db : Db} {row : VersionRow} {documentId : Uuid} (h : row.documentId ≠ documentId) :
    (act db (Stmt.insertVersion row)).versionsOf documentId = db.versionsOf documentId := by
  change (List.filter _ (Rows.insertNew VersionRow.key row db.documentVersions)).map _ = _
  unfold Rows.insertNew
  split
  · rfl
  · rw [List.filter_append, List.map_append]
    simp [Db.versionsOf, h]

/-! ## One event -/

/-- An event keeps every document under the id its object gives. -/
theorem Db.PlainDocuments.afterEvent {db : Db} (h : db.PlainDocuments) (e : SuiEvent) : (afterEvent db e).PlainDocuments := by
  have hinsert : ∀ pool room docId folderId docType title version,
      ∀ r ∈ Rows.insertNew DocumentRow.suiObjectId (documentRow pool room docId folderId docType title version) db.documents,
        r.id = .document r.suiObjectId ∧ r.requiredFlag = false := by
    intro pool room docId folderId docType title version r hr
    obtain hr | rfl := Rows.mem_insertNew hr
    · exact h r hr
    · exact ⟨rfl, rfl⟩
  obtain ⟨ctx, e⟩ := e
  unfold BrineVault.afterEvent
  cases e with
  | documentCreated =>
    simp only [stmtsOf]
    split
    · exact h
    · split
      · exact h
      · split
        · exact hinsert _ _ _ _ _ _ _
        · exact hinsert _ _ _ _ _ _ _
  | documentVersionAdded =>
    simp only [stmtsOf]
    split
    · exact h
    · intro r hr
      obtain ⟨r₀, hr₀, rfl⟩ := List.mem_map.1 hr
      split
      · exact h r₀ hr₀
      · exact h r₀ hr₀
  | _ =>
    simp only [stmtsOf]
    repeat' split
    all_goals exact h

theorem Db.PlainDocuments.afterEvents {db : Db} (h : db.PlainDocuments) (es : List SuiEvent) : (afterEvents db es).PlainDocuments := by
  induction es generalizing db with
  | nil => exact h
  | cons e es ih => exact ih (h.afterEvent e)

/-- The id of a document's row is the one its object gives. -/
theorem Db.PlainDocuments.id_of_docOf {db : Db} (h : db.PlainDocuments) {k : ID} {row : DocumentRow} (hd : db.docOf k = some row) :
    row.id = .document k := by
  obtain ⟨hm, hk⟩ := Rows.find_some hd
  rw [(h row hm).1, hk]

/-- An event that tells of no version of the document leaves its rows alone. -/
theorem afterEvent_of_not_told {db : Db} (h : db.PlainDocuments) {k : ID} {e : SuiEvent} (he : e.event.tellsVersion k = none) :
    (afterEvent db e).docOf k = db.docOf k ∧ (afterEvent db e).versionsOf (.document k) = db.versionsOf (.document k) := by
  obtain ⟨ctx, e⟩ := e
  unfold afterEvent
  cases e with
  | documentCreated poolId docId =>
    have hne : docId ≠ k := by
      rintro rfl
      simp [Event.tellsVersion] at he
    have hid : Uuid.document docId ≠ Uuid.document k := fun hk => hne (Uuid.document.inj hk)
    simp only [stmtsOf]
    split
    · exact ⟨rfl, rfl⟩
    · split
      · exact ⟨rfl, rfl⟩
      · rename_i pool _ room _
        have hdoc : ∀ row : DocumentRow, row.suiObjectId = docId →
            (act db (Stmt.insertDocument row)).docOf k = db.docOf k := by
          intro row hrow
          rw [docOf_insertDocument, hrow, if_neg hne, Option.or_none]
        split
        · exact ⟨hdoc _ rfl, versionsOf_insertVersion_other hid⟩
        · exact ⟨hdoc _ rfl, rfl⟩
  | documentVersionAdded poolId docId version =>
    have hne : docId ≠ k := by
      rintro rfl
      simp [Event.tellsVersion] at he
    simp only [stmtsOf]
    split
    · exact ⟨rfl, rfl⟩
    · rename_i doc hd
      have hid : doc.id ≠ Uuid.document k := by
        rw [h.id_of_docOf hd]
        exact fun hk => hne (Uuid.document.inj hk)
      refine ⟨?_, versionsOf_insertVersion_other hid⟩
      refine (docOf_updateVersionInfo k docId _ version).trans ?_
      simp only [if_neg (Ne.symm hne), Option.map_id']
      rfl
  | _ =>
    simp only [stmtsOf]
    repeat' split
    all_goals exact ⟨rfl, rfl⟩

/-- The next version of a document that has its rows. -/
theorem Db.Holds.afterEvent {db : Db} (h : db.PlainDocuments) {k : ID} {folderId n : Nat} (hd : db.Holds k folderId n) {e : SuiEvent}
    (he : e.event.tellsVersion k = some (n + 1)) (hnew : e.event.createsDocument k = none) :
    (afterEvent db e).Holds k folderId (n + 1) := by
  obtain ⟨⟨row, hrow, hfolder, hcurrent, hcount⟩, hversions⟩ := hd
  have hid := h.id_of_docOf hrow
  obtain ⟨ctx, e⟩ := e
  cases e with
  | documentCreated _ docId =>
    simp only [Event.createsDocument] at hnew
    split at hnew
    · cases hnew
    · rename_i hk
      simp [Event.tellsVersion, hk] at he
  | documentVersionAdded poolId docId version blobId hash uploader t =>
    simp only [Event.tellsVersion] at he
    split at he
    · rename_i hk
      cases he
      subst hk
      unfold BrineVault.afterEvent
      simp only [stmtsOf, hrow]
      constructor
      · refine ⟨Stmt.setVersionInfo (n + 1) row, ?_, hfolder, rfl, ?_⟩
        · refine (docOf_updateVersionInfo docId docId _ (n + 1)).trans ?_
          change (db.docOf docId).map _ = _
          rw [hrow, Option.map_some, if_pos rfl]
        · rw [← hcount]
          rfl
      · have hfresh : n + 1 ∉ db.versionsOf row.id := by
          rw [hid, hversions, List.mem_range'_1]
          omega
        have hadded := @versionsOf_insertVersion_self db
          { documentId := row.id, version := n + 1, walrusBlobId := blobId, contentHash := hash, uploadedByAddress := uploader } hfresh
        simp only [hid, hversions] at hadded
        rw [List.range'_1_concat, Nat.add_comm 1 n, ← hadded, hid]
        rfl
    · cases he
  | _ => simp [Event.tellsVersion] at he

/-- The room that is found for the documents of a pool. -/
def Db.roomFor (db : Db) (poolId : ID) : Option DataroomRow := (db.poolOf poolId).bind fun pool => db.roomOfPool pool.id

/-- The creation of a document whose pool has a room. -/
theorem Db.Lacks.afterEvent_created {db : Db} {k poolId : ID} (hn : db.Lacks k) (hroom : db.roomFor poolId ≠ none) {ctx : EventId}
    {folderId : Nat} {docType : UInt8} {title blobId : MoveString} {hash : List UInt8} {uploader : Address} {t : Nat} :
    (afterEvent db ⟨ctx, .documentCreated poolId k folderId docType title 1 blobId hash uploader t⟩).Holds k folderId 1 := by
  obtain ⟨room, hr⟩ := Option.ne_none_iff_exists'.1 hroom
  obtain ⟨pool, hp, hr⟩ := Option.bind_eq_some_iff.1 hr
  obtain ⟨hdoc, hversions⟩ := hn
  unfold afterEvent
  simp only [stmtsOf, hp, hr, hdoc, if_true]
  constructor
  · refine ⟨documentRow pool room k folderId docType title 1, ?_, rfl, rfl, rfl⟩
    refine (docOf_insertDocument k db _).trans ?_
    rw [hdoc, Option.none_or, documentRow, if_pos rfl]
  · have hadded := @versionsOf_insertVersion_self db
      { documentId := .document k, version := 1, walrusBlobId := blobId, contentHash := hash, uploadedByAddress := uploader }
      (by rw [hversions]; exact List.not_mem_nil)
    rw [hversions, List.nil_append] at hadded
    exact hadded

/-- An event about a document whose pool has no room, if it is the creation, leaves no row. -/
theorem docOf_afterEvent_of_noRoom {db : Db} {k : ID} (hn : db.docOf k = none) {e : SuiEvent}
    (hroom : ∀ poolId, e.event.createsDocument k = some poolId → db.roomFor poolId = none) : (afterEvent db e).docOf k = none := by
  obtain ⟨ctx, e⟩ := e
  unfold afterEvent
  cases e with
  | documentCreated poolId docId folderId docType title version blobId hash uploader t =>
    simp only [stmtsOf]
    split
    · exact hn
    · rename_i pool hp
      split
      · exact hn
      · rename_i room hr
        have hne : docId ≠ k := by
          rintro rfl
          have hnone : db.roomFor poolId = none := hroom poolId (if_pos rfl)
          rw [Db.roomFor, hp, Option.bind_some, hr] at hnone
          cases hnone
        have hdoc : ∀ row : DocumentRow, row.suiObjectId = docId → (act db (Stmt.insertDocument row)).docOf k = none := by
          intro row hrow
          rw [docOf_insertDocument, hrow, if_neg hne, Option.or_none, hn]
        split
        · exact hdoc _ rfl
        · exact hdoc _ rfl
  | documentVersionAdded poolId docId version =>
    simp only [stmtsOf]
    split
    · exact hn
    · refine (docOf_updateVersionInfo k docId _ version).trans ?_
      exact Option.map_eq_none_iff.2 hn
  | _ =>
    simp only [stmtsOf]
    repeat' split
    all_goals exact hn

/-! ## Many events -/

/-- Without an event about its versions a document that is not there stays away. -/
theorem Db.Lacks.afterEvents {db : Db} (h : db.PlainDocuments) {k : ID} (hn : db.Lacks k) {es : List SuiEvent}
    (hquiet : versionsTold k (es.map (·.event)) = []) : (afterEvents db es).Lacks k := by
  induction es generalizing db with
  | nil => exact hn
  | cons e es ih =>
    obtain ⟨he, hes⟩ : e.event.tellsVersion k = none ∧ versionsTold k (es.map (·.event)) = [] := by
      simpa [versionsTold] using hquiet
    obtain ⟨hdoc, hversions⟩ := afterEvent_of_not_told h he
    exact ih (h.afterEvent e) ⟨hdoc.trans hn.1, hversions.trans hn.2⟩ hes

/-- The versions that come after those that have their rows. -/
theorem Db.Holds.afterEvents {db : Db} (h : db.PlainDocuments) {k : ID} {folderId n m : Nat} (hd : db.Holds k folderId n)
    {es : List SuiEvent} (htold : versionsTold k (es.map (·.event)) = List.range' (n + 1) m)
    (hnew : ∀ e ∈ es, e.event.createsDocument k = none) : (afterEvents db es).Holds k folderId (n + m) := by
  induction es generalizing db n m with
  | nil =>
    have hm : m = 0 := by simpa [versionsTold] using (congrArg List.length htold).symm
    rw [hm]
    exact hd
  | cons e es ih =>
    have hrest := fun f hf => hnew f (List.mem_cons_of_mem e hf)
    rw [List.map_cons, versionsTold, List.filterMap_cons] at htold
    cases he : e.event.tellsVersion k with
    | none =>
      rw [he] at htold
      obtain ⟨hdoc, hversions⟩ := afterEvent_of_not_told h he
      refine ih (h.afterEvent e) ⟨?_, hversions.trans hd.versions⟩ htold hrest
      rw [hdoc]
      exact hd.row
    | some version =>
      rw [he] at htold
      cases m with
      | zero => cases htold
      | succ m =>
        rw [List.range'_succ, List.cons.injEq] at htold
        obtain ⟨rfl, htold⟩ := htold
        have hnext := ih (h.afterEvent e) (hd.afterEvent h he (hnew e (List.mem_cons_self ..))) htold hrest
        rwa [Nat.add_assoc, Nat.add_comm 1 m] at hnext

/-! ## Rooms and pools -/

/-- Every row of a pool has the id that is drawn for the object, or was there at the start. -/
def Db.PlainPools (start db : Db) : Prop :=
  ∀ r ∈ db.pools, r.id = .pool r.suiObjectId ∨ ∃ r₀ ∈ start.pools, r₀.id = r.id ∧ r₀.suiObjectId = r.suiObjectId

/-- The pools of the start keep their ids, and the others get those of their objects. -/
theorem Db.PlainPools.afterEvents {start : Db} (es : List SuiEvent) : start.PlainPools (afterEvents start es) := by
  induction es using List.reverseRecOn with
  | nil => exact fun r hr => .inr ⟨r, hr, rfl, rfl⟩
  | append_singleton es e ih =>
    rw [afterEvents_append, afterEvents_cons, afterEvents_nil]
    obtain ⟨ctx, e⟩ := e
    unfold afterEvent
    cases e with
    | poolCreated =>
      intro r hr
      obtain hr | rfl := Rows.mem_insertNew hr
      · exact ih r hr
      · exact .inl rfl
    | poolStateChanged =>
      intro r hr
      obtain ⟨r₀, hr₀, rfl⟩ := List.mem_map.1 hr
      split
      · exact ih r₀ hr₀
      · exact ih r₀ hr₀
    | _ =>
      simp only [stmtsOf]
      repeat' split
      all_goals exact ih

/-- A room after an event: it was there, or it is announced for the pool that is found. -/
theorem room_afterEvent {db : Db} {e : SuiEvent} {room : DataroomRow} (h : room ∈ (afterEvent db e).datarooms) :
    room ∈ db.datarooms ∨ ∃ poolId roomId owner t, e.event = .dataRoomCreated poolId roomId owner t ∧
      room.poolId = ((db.poolOf poolId).map (·.id)).getD .zero := by
  obtain ⟨ctx, e⟩ := e
  unfold afterEvent at h
  cases e with
  | dataRoomCreated poolId roomId owner t =>
    obtain h | rfl := Rows.mem_insertNew h
    · exact .inl h
    · exact .inr ⟨poolId, roomId, owner, t, rfl, rfl⟩
  | _ =>
    simp only [stmtsOf] at h
    repeat' split at h
    all_goals exact .inl h

/-- The ids drawn for pools name the objects of their rows. -/
def Db.PoolsNamed (db : Db) : Prop := ∀ r ∈ db.pools, ∀ k, r.id = .pool k → r.suiObjectId = k

/-- Where the pools of the start are named, all of them are. -/
theorem Db.PlainPools.named {start db : Db} (h : start.PlainPools db) (hn : start.PoolsNamed) : db.PoolsNamed := by
  intro r hr k hk
  obtain hid | ⟨r₀, hr₀, hid, hobject⟩ := h r hr
  · rw [hid] at hk
    exact Uuid.pool.inj hk
  · rw [← hobject]
    exact hn r₀ hr₀ k (hid.trans hk)

section Rooms

variable {start : Db} {poolId : ID} {es : List SuiEvent}

/-- A pool that is not known at the start gets no room: its room is announced before it. -/
theorem rooms_of_unknown (hrooms : start.datarooms = []) (hnamed : start.PoolsNamed) (hunknown : start.poolOf poolId = none)
    (ho : (es.map (·.event)).Pairwise Event.Before) :
    ∀ room ∈ (afterEvents start es).datarooms, room.poolId ≠ .pool poolId := by
  induction es using List.reverseRecOn with
  | nil =>
    intro room hroom
    rw [afterEvents_nil, hrooms] at hroom
    cases hroom
  | append_singleton es e ih =>
    rw [List.map_append, List.pairwise_append] at ho
    rw [afterEvents_append, afterEvents_cons, afterEvents_nil]
    intro room hroom
    obtain hroom | ⟨q, roomId, owner, t, he, hid⟩ := room_afterEvent hroom
    · exact ih ho.1 room hroom
    · rw [hid]
      cases hq : (afterEvents start es).poolOf q with
      | none => simp
      | some pool =>
        rw [Option.map_some, Option.getD_some]
        intro hpool
        -- The row is the one of the pool itself, which has not announced itself yet.
        obtain ⟨hm, hobject⟩ := Rows.find_some hq
        have hqq : q = poolId := hobject.symm.trans ((Db.PlainPools.afterEvents es).named hnamed pool hm poolId hpool)
        subst hqq
        have hknown : Rows.has PoolRow.suiObjectId q (afterEvents start es).pools = true := Rows.has_iff.2 ⟨pool, hm, hobject⟩
        rw [has_pools_afterEvents, Rows.has_eq_isSome_find, ← Db.poolOf, hunknown, Option.isSome_none, Bool.false_or,
          List.any_eq_true] at hknown
        obtain ⟨f, hf, hann⟩ := hknown
        have hbefore := ho.2.2 f.event (List.mem_map_of_mem hf) e.event (by simp)
        rw [he] at hbefore
        rw [hbefore.not_announces.1] at hann
        cases hann

/-- A pool that is unknown at the start has no room when nothing has announced it. -/
theorem roomFor_of_unknown (hrooms : start.datarooms = []) (hnamed : start.PoolsNamed) (hunknown : start.poolOf poolId = none)
    (ho : (es.map (·.event)).Pairwise Event.Before) : (afterEvents start es).roomFor poolId = none := by
  rw [Db.roomFor, Option.bind_eq_none_iff]
  intro pool hp
  obtain ⟨hm, hobject⟩ := Rows.find_some hp
  have hid : pool.id = .pool poolId := by
    obtain hid | ⟨r₀, hr₀, _, hobject₀⟩ := Db.PlainPools.afterEvents es pool hm
    · rw [hid, hobject]
    · exact absurd (hobject₀.trans hobject) (Rows.find_eq_none_iff.1 hunknown r₀ hr₀)
  refine List.find?_eq_none.2 fun room hroom => ?_
  rw [hid, decide_eq_true_eq]
  exact rooms_of_unknown hrooms hnamed hunknown ho room hroom

/-- The tables after some of the events grow into those after all. -/
theorem grows_afterEvents_of_append (start : Db) (past rest : List SuiEvent) :
    (afterEvents start past).Grows (afterEvents start (past ++ rest)) := by
  rw [afterEvents_append, ← actAll_stmtsOfAll _ rest]
  exact Stmt.grows_actAll _ _

/-- A pool that is known at the start has a room once the room is announced. -/
theorem roomFor_of_known (hrooms : start.datarooms = []) (hknown : start.poolOf poolId ≠ none)
    (ho : (es.map (·.event)).Pairwise Event.Before) {roomId : ID} {owner : Address} {t : Nat}
    (hann : .dataRoomCreated poolId roomId owner t ∈ es.map (·.event)) : (afterEvents start es).roomFor poolId ≠ none := by
  obtain ⟨⟨id, scheme⟩, hkey⟩ := Option.ne_none_iff_exists'.1 fun h => hknown (Db.poolKey_eq_none.1 h)
  have hid : ∀ past rest, es = past ++ rest → ∃ pool, (afterEvents start past).poolOf poolId = some pool ∧ pool.id = id := by
    intro past rest _
    have hkey' := (grows_afterEvents_of_append start [] past).pools hkey
    obtain ⟨pool, hp, heq⟩ := Option.map_eq_some_iff.1 hkey'
    exact ⟨pool, hp, (Prod.mk.inj heq).1⟩
  obtain ⟨e, he, hevent⟩ := List.mem_map.1 hann
  obtain ⟨past, rest, hes⟩ := List.append_of_mem he
  -- Nothing announced the room before, so it is inserted, for the row of the pool.
  have hnew : Rows.has DataroomRow.suiObjectId roomId (afterEvents start past).datarooms = false := by
    rw [has_datarooms_afterEvents, hrooms, List.any_eq_false.2, Bool.or_false]
    · rfl
    · intro f hf
      rw [hes, List.map_append, List.pairwise_append] at ho
      have hbefore := ho.2.2 f.event (List.mem_map_of_mem hf) e.event (by simp)
      rw [hevent] at hbefore
      rw [hbefore.not_announces.2]
      exact Bool.false_ne_true
  obtain ⟨pool, hp, hpool⟩ := hid past (e :: rest) hes
  have hinserted : (afterEvents start (past ++ [e])).roomOfPool id ≠ none := by
    obtain ⟨ctx, event⟩ := e
    cases hevent
    rw [afterEvents_append, afterEvents_cons, afterEvents_nil, Db.roomOfPool, ne_eq, List.find?_eq_none]
    intro hnone
    refine absurd (hnone { id := .dataroom roomId, suiObjectId := roomId, poolId := pool.id, ownerAddress := owner } ?_) (by simp [hpool])
    unfold afterEvent
    simp only [stmtsOf, hp, Option.map_some, Option.getD_some]
    change _ ∈ Rows.insertNew DataroomRow.suiObjectId _ (afterEvents start past).datarooms
    simp [Rows.insertNew, hnew]
  obtain ⟨room, hroom⟩ := Option.ne_none_iff_exists'.1 hinserted
  obtain ⟨pool', hp', hpool'⟩ := hid es [] (List.append_nil es).symm
  have hlater := (grows_afterEvents_of_append start (past ++ [e]) rest).roomsOfPool hroom
  rw [List.append_assoc, List.singleton_append, ← hes] at hlater
  rw [Db.roomFor, hp', Option.bind_some, hpool', hlater]
  exact Option.some_ne_none room

end Rooms

/-! ## The log of a run -/

namespace World

section Log

variable {publisher : Ctx} {steps : List Step} {w : World} {start : Db} {poolId k : ID} {pool : Pool} {doc : Document}

/-- The creation of a document in the log: nothing is told of the document before, the announcements of the pool are, and after it come
the other versions. -/
theorem exists_creation (hr : run publisher steps = .ok w) (hl : w.pools.lookup poolId = some pool)
    (hd : pool.documents.lookup k = some doc) :
    ∃ past ctx docType title blobId hash uploader t rest m,
      w.log = past ++ ⟨ctx, .documentCreated poolId k doc.folderId docType title 1 blobId hash uploader t⟩ :: rest ∧
        versionsTold k (past.map (·.event)) = [] ∧
        (∃ room owner t, .dataRoomCreated poolId room owner t ∈ past.map (·.event)) ∧
        versionsTold k (rest.map (·.event)) = List.range' 2 m ∧ doc.versionCount = 1 + m ∧
        ∀ e ∈ rest, e.event.createsDocument k = none := by
  have ht := documentsTold_run hr
  obtain ⟨docType, title, blobId, hash, uploader, t, hm⟩ := ht.created poolId pool k doc hl hd
  obtain ⟨⟨ctx, event⟩, he, hevent⟩ := List.mem_map.1 hm
  cases hevent
  obtain ⟨past, rest, hlog⟩ := List.append_of_mem he
  have hevents := congrArg (List.map (·.event)) hlog
  rw [List.map_append, List.map_cons] at hevents
  obtain ⟨hpast, hroom, _⟩ := ht.first _ _ _ k poolId hevents (if_pos rfl)
  have htold := ht.versions poolId pool k doc hl hd
  rw [events, hevents, versionsTold_append, hpast, List.nil_append, versionsTold, List.filterMap_cons, Event.tellsVersion,
    if_pos rfl] at htold
  cases hcount : doc.versionCount with
  | zero =>
    rw [hcount] at htold
    cases htold
  | succ m =>
    rw [hcount, List.range'_succ, List.cons.injEq] at htold
    refine ⟨past, ctx, docType, title, blobId, hash, uploader, t, rest, m, hlog, hpast, hroom, htold.2, Nat.add_comm m 1, ?_⟩
    intro f hf
    by_contra hne
    obtain ⟨q, hq⟩ := Option.ne_none_iff_exists'.1 hne
    obtain ⟨mid, tail, rfl⟩ := List.append_of_mem hf
    rw [List.map_append, List.map_cons, ← List.cons_append, ← List.append_assoc] at hevents
    have hbefore := (ht.first _ f.event _ k q hevents hq).1
    exact absurd hbefore (versionsTold_ne_nil (List.mem_append_right _ (List.mem_cons_self ..)) (if_pos rfl))

/-- A document of a pool that was known at the start has its rows. -/
theorem holds_of_known (hr : run publisher steps = .ok w) (hrooms : start.datarooms = []) (hdocs : start.documents = [])
    (hversions : start.documentVersions = []) (hl : w.pools.lookup poolId = some pool)
    (hd : pool.documents.lookup k = some doc) (hknown : start.poolOf poolId ≠ none) :
    (afterEvents start w.log).Holds k doc.folderId doc.versionCount := by
  obtain ⟨past, ctx, docType, title, blobId, hash, uploader, t, rest, m, hlog, hpast, ⟨room, owner, t₀, hroom⟩, htold, hcount, hnew⟩ :=
    exists_creation hr hl hd
  have hplain : start.PlainDocuments := by
    intro r hr
    rw [hdocs] at hr
    cases hr
  have hlacks : start.Lacks k := by
    constructor
    · rw [Db.docOf, hdocs]
      rfl
    · rw [Db.versionsOf, hversions]
      rfl
  have ho := (events_ordered hr).1
  rw [events, hlog, List.map_append, List.pairwise_append] at ho
  have hcreated : (afterEvent (afterEvents start past)
      ⟨ctx, .documentCreated poolId k doc.folderId docType title 1 blobId hash uploader t⟩).Holds k doc.folderId 1 :=
    (hlacks.afterEvents hplain hpast).afterEvent_created (roomFor_of_known hrooms hknown ho.1 hroom)
  rw [hlog, afterEvents_append, afterEvents_cons, hcount]
  exact hcreated.afterEvents ((hplain.afterEvents past).afterEvent _) htold hnew

/-- A document of a pool that was not known at the start has no row. -/
theorem docOf_of_unknown (hr : run publisher steps = .ok w) (hrooms : start.datarooms = []) (hdocs : start.documents = [])
    (hnamed : start.PoolsNamed) (hl : w.pools.lookup poolId = some pool) (hd : pool.documents.lookup k = some doc)
    (hunknown : start.poolOf poolId = none) : (afterEvents start w.log).docOf k = none := by
  have ht := documentsTold_run hr
  have hprefix : ∀ es rest, w.log = es ++ rest → (afterEvents start es).docOf k = none := by
    intro es
    induction es using List.reverseRecOn with
    | nil =>
      intro rest _
      rw [afterEvents_nil, Db.docOf, hdocs]
      rfl
    | append_singleton es e ih =>
      intro rest hlog
      rw [List.append_assoc, List.singleton_append] at hlog
      rw [afterEvents_append, afterEvents_cons, afterEvents_nil]
      refine docOf_afterEvent_of_noRoom (ih (e :: rest) hlog) fun q hq => ?_
      -- The event creates the document in its own pool, which has no room.
      obtain ⟨_, _, _, _, _, _, hcreated⟩ := ht.created poolId pool k doc hl hd
      have hm : e.event ∈ w.events := List.mem_map_of_mem (by rw [hlog]; simp)
      rw [ht.pool_unique hm hcreated hq (if_pos rfl)]
      have ho := (events_ordered hr).1
      rw [events, hlog, List.map_append, List.pairwise_append] at ho
      exact roomFor_of_unknown hrooms hnamed hunknown ho.1
  exact hprefix w.log [] (List.append_nil _).symm

end Log

/-- The version numbers of a document are those from 1 to its count. -/
theorem perm_versions {doc : Document} (hh : doc.History) : (List.range' 1 doc.versionCount).Perm doc.versions.keys := by
  refine (List.perm_ext_iff_of_nodup List.nodup_range' doc.versions.nodupKeys).2 fun v => ?_
  change _ ↔ v ∈ doc.versions
  rw [List.mem_range'_1, hh.numbered.keys v, Nat.add_comm 1]

/-- The documents that are cached as they are on chain: from tables without rooms and documents, in which the ids of pool rows name
their objects, when the log has been processed without an exception, the cache matches the chain exactly when every document is
one of a pool that had its row at the start, and is not required. -/
theorem document_cache_matches_iff {publisher : Ctx} {steps : List Step} {w : World} (hr : run publisher steps = .ok w) {start : Db}
    (hrooms : start.datarooms = []) (hdocs : start.documents = []) (hversions : start.documentVersions = [])
    (hnamed : start.PoolsNamed) (hok : (processBatch w.log start).2 = .ok ()) :
    DocumentCacheMatches (actAll start (processBatch w.log start).1) w ↔
      ∀ poolId pool k doc, w.pools.lookup poolId = some pool → pool.documents.lookup k = some doc →
        start.poolOf poolId ≠ none ∧ doc.requiredFlag = false := by
  have hend : actAll start (processBatch w.log start).1 = afterEvents start w.log := by
    have hfollows := processBatch_follows w.log start
    rw [hfollows.ok (hfollows.returns_iff.1 hok), actAll_stmtsOfAll]
  rw [hend]
  have hplain : (afterEvents start w.log).PlainDocuments := by
    refine Db.PlainDocuments.afterEvents (fun r hr => ?_) w.log
    rw [hdocs] at hr
    cases hr
  constructor
  · intro h poolId pool k doc hl hd
    obtain ⟨name, org, createdBy, scheme, t, hann⟩ := poolCreated_of_lookup hr poolId pool hl
    obtain ⟨e, he, hevent⟩ := List.mem_map.1 hann
    have hrow : (afterEvents start w.log).poolOf poolId ≠ none := by
      rw [Db.poolOf, ← Option.isSome_iff_ne_none, ← Rows.has_eq_isSome_find, has_pools_afterEvents, Bool.or_eq_true, List.any_eq_true]
      exact .inr ⟨e, he, by rw [hevent]; exact decide_eq_true rfl⟩
    obtain ⟨row, hdoc, _, _, hrequired, _⟩ := h poolId pool k doc hl hd hrow
    refine ⟨fun hunknown => ?_, ?_⟩
    · rw [docOf_of_unknown hr hrooms hdocs hnamed hl hd hunknown] at hdoc
      cases hdoc
    · rw [← hrequired]
      exact (hplain row (Rows.find_some hdoc).1).2
  · intro h poolId pool k doc hl hd _
    obtain ⟨hknown, hrequired⟩ := h poolId pool k doc hl hd
    have hh : doc.History :=
      documents_run (fun _ _ _ _ _ => Document.History.new) (fun _ _ _ _ _ _ => Document.History.changes) hr hl hd
    obtain ⟨⟨row, hdoc, hfolder, hcurrent, hcount⟩, hrows⟩ := holds_of_known hr hrooms hdocs hversions hl hd hknown
    refine ⟨row, hdoc, hcurrent.trans hh.current.symm, hcount, ?_, hfolder, ?_⟩
    · rw [hrequired]
      exact (hplain row (Rows.find_some hdoc).1).2
    · rw [hplain.id_of_docOf hdoc, hrows]
      exact perm_versions hh

/-- A room whose pool was known at the start has its documents in the cache as they are on chain. -/
theorem document_cache_matches_iff_withPool :
    ∃ w, run Sample.owner [Sample.createPool, Sample.createDocument, Sample.byOwner (.addVersion 5 Sample.upload)] = .ok w ∧
      (DocumentCacheMatches (actAll Sample.withPool (processBatch w.log Sample.withPool).1) w ↔
        ∀ poolId pool k doc, w.pools.lookup poolId = some pool → pool.documents.lookup k = some doc →
          Sample.withPool.poolOf poolId ≠ none ∧ doc.requiredFlag = false) := by
  refine ⟨_, rfl, @document_cache_matches_iff Sample.owner
    [Sample.createPool, Sample.createDocument, Sample.byOwner (.addVersion 5 Sample.upload)] _ rfl Sample.withPool rfl rfl rfl ?_
    (by decide +kernel)⟩
  intro r hr k hk
  rw [List.mem_singleton.1 hr] at hk
  cases hk

/-- A document that is required from the start: its log is processed, and its row says that it is not required. -/
theorem required_never_cached :
    ∃ w, run Sample.owner [Sample.createPool, Sample.createDocument] = .ok w ∧ (processBatch w.log Sample.withPool).2 = .ok () ∧
      ¬ DocumentCacheMatches (actAll Sample.withPool (processBatch w.log Sample.withPool).1) w := by
  have hrun : ∃ w, run Sample.owner [Sample.createPool, Sample.createDocument] = .ok w ∧
      (processBatch w.log Sample.withPool).2 = .ok () ∧
      ((w.pools.lookup 2).bind fun pool => pool.documents.lookup 5).map (·.requiredFlag) = some true ∧
      (actAll Sample.withPool (processBatch w.log Sample.withPool).1).poolOf 2 ≠ none ∧
      ((actAll Sample.withPool (processBatch w.log Sample.withPool).1).docOf 5).map (·.requiredFlag) = some false :=
    ⟨_, rfl, by decide +kernel, by decide +kernel, by decide +kernel, by decide +kernel⟩
  obtain ⟨w, hr, hok, hrequired, hpool, hcached⟩ := hrun
  obtain ⟨doc, hdoc, hflag⟩ := Option.map_eq_some_iff.1 hrequired
  obtain ⟨pool, hl, hd⟩ := Option.bind_eq_some_iff.1 hdoc
  refine ⟨w, hr, hok, fun h => ?_⟩
  obtain ⟨row, hrow, _, _, hsame, _⟩ := h 2 pool 5 doc hl hd hpool
  rw [hrow, Option.map_some, hsame, hflag] at hcached
  cases hcached

end World

end BrineVault
