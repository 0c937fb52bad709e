import BrineVault.Indexer.Handlers

/-!
# What the handlers issue

For each repository method and for the processing of one event: the exact condition under which it returns, and the statements it has
issued when it does. `stmtsOf` is the list of statements of an event, and `Accepts` the condition; both look at the tables once, before
the first statement.
-/

namespace BrineVault

open Script (read issue fail require recover Follows follows_pure follows_issue follows_require)

/-! ## Repositories -/

section Repositories

variable {db : Db}

/-- An insert that does nothing on a conflict needs its foreign keys only without one. -/
theorem insertOrNothing_follows {α : Type} {conflict : Db → Bool} {foreignKeys : Db → DbM Unit} {F : Prop} {stmt : Stmt}
    {row : α} (hF : Follows (foreignKeys db) db F [] ()) :
    Follows (insertOrNothing conflict foreignKeys stmt row) db (conflict db = false → F) [stmt]
      (if conflict db then none else some row) := by
  unfold insertOrNothing
  refine Follows.read ?_
  have issued : ∀ o : Option α, Follows (do issue stmt; return o : DbM (Option α)) db True [stmt] o := fun o =>
    ((follows_issue stmt db).bind fun _ => follows_pure o _).congr (and_self_iff)
  cases hc : conflict db
  · exact (hF.bind fun _ => issued (some row)).congr (by simp)
  · exact (issued none).congr (by simp)

/-- When the insert of a pool goes through, and what it returns. -/
theorem PoolsRepository.insertFromEvent_follows (row : PoolRow) :
    Follows (PoolsRepository.insertFromEvent row) db
      (0 ∉ row.name ∧ row.currentState ≤ 8 ∧ row.encryptionScheme ≤ 1 ∧
        (Rows.has PoolRow.suiObjectId row.suiObjectId db.pools = false → row.orgId ∈ db.organizations)) [.insertPool row]
      (if Rows.has PoolRow.suiObjectId row.suiObjectId db.pools then none else some row) :=
  .require (.require (.require (insertOrNothing_follows follows_require)))

/-- When a change of state goes through. -/
theorem PoolsRepository.updateStateFromEvent_follows (k : ID) (newState : UInt8) (digest : Nat) :
    Follows (PoolsRepository.updateStateFromEvent k newState digest) db
      ((Rows.has PoolRow.suiObjectId k db.pools = true → newState ≤ 8) ∧ True) [.updatePoolState k newState digest] () :=
  .read (.require (follows_issue _ _))

/-- When the insert of a room goes through, and what it returns. -/
theorem DataroomsRepository.insertFromEvent_follows (row : DataroomRow) :
    Follows (DataroomsRepository.insertFromEvent row) db
      (Rows.has DataroomRow.suiObjectId row.suiObjectId db.datarooms = false → db.hasPoolId row.poolId = true)
      [.insertDataroom row] (if Rows.has DataroomRow.suiObjectId row.suiObjectId db.datarooms then none else some row) :=
  insertOrNothing_follows follows_require

/-- When the upsert of a member goes through: the keys are checked for a new row only. -/
theorem MembersRepository.upsertFromEvent_follows (row : MemberRow) :
    Follows (MembersRepository.upsertFromEvent row) db
      ((0 < row.role ∧ row.role ≤ 63) ∧
        (Rows.has MemberRow.key row.key db.members = true ∨ db.hasDataroomId row.dataroomId = true) ∧
        (Rows.has MemberRow.key row.key db.members = true ∨ db.hasPoolId row.poolId = true) ∧ True)
      [.upsertMember row] () :=
  .require (.read (.require (.require (follows_issue _ _))))

/-- When the change of a role goes through. -/
theorem MembersRepository.updateRole_follows (room : Uuid) (a : Address) (role : UInt8) :
    Follows (MembersRepository.updateRole room a role) db
      ((Rows.has MemberRow.key (room, a) db.members = true → 0 < role ∧ role ≤ 63) ∧ True)
      [.updateMemberRole room a role] () :=
  .read (.require (follows_issue _ _))

/-- When the insert of a document goes through, and what it returns. -/
theorem DocumentsRepository.insertFromEvent_follows (row : DocumentRow) :
    Follows (DocumentsRepository.insertFromEvent row) db
      (inBigint row.folderId ∧ 0 ∉ row.title ∧ inInteger row.currentVersion ∧ row.encryptionScheme ≤ 1 ∧
        (Rows.has DocumentRow.suiObjectId row.suiObjectId db.documents = false →
          db.hasPoolId row.poolId = true ∧ db.hasDataroomId row.dataroomId = true))
      [.insertDocument row] (if Rows.has DocumentRow.suiObjectId row.suiObjectId db.documents then none else some row) :=
  .require (.require (.require (.require (insertOrNothing_follows (.require follows_require)))))

/-- When the count of versions goes through. -/
theorem DocumentsRepository.updateVersionInfo_follows (k : ID) (version : Nat) :
    Follows (DocumentsRepository.updateVersionInfo k version) db
      (inInteger version ∧ (∀ r ∈ db.documents, r.suiObjectId = k → inInteger (r.versionCount + 1)) ∧ True)
      [.updateVersionInfo k version] () :=
  .require (.read (.require (follows_issue _ _)))

/-- When the insert of a version goes through: a new blob id has to fit the index. -/
theorem DocumentVersionsRepository.insertFromEvent_follows (row : VersionRow) :
    Follows (DocumentVersionsRepository.insertFromEvent row) db
      (inInteger row.version ∧ 0 ∉ row.walrusBlobId ∧ 0 < row.version ∧
        (Rows.has VersionRow.key row.key db.documentVersions = false →
          db.blobEntrySize row.walrusBlobId ≤ Db.maxEntrySize ∧ db.hasDocumentId row.documentId = true))
      [.insertVersion row] (if Rows.has VersionRow.key row.key db.documentVersions then none else some row) :=
  .require (.require (.require (insertOrNothing_follows (.require follows_require))))

/-- When the upsert of a review goes through. -/
theorem DocumentReviewsRepository.upsertFromEvent_follows (row : ReviewRow) :
    Follows (DocumentReviewsRepository.upsertFromEvent row) db
      (row.status ≤ 2 ∧
        (Rows.has ReviewRow.key row.key db.documentReviews = true ∨ db.hasDocumentId row.documentId = true) ∧ True)
      [.upsertReview row] () :=
  .require (.read (.require (follows_issue _ _)))

/-- When the insert of a decision goes through, and what it returns. -/
theorem IcDecisionsRepository.insertFromEvent_follows (row : IcDecisionRow) :
    Follows (IcDecisionsRepository.insertFromEvent row) db
      (inInteger row.decisionIndex ∧
        (Rows.has IcDecisionRow.key row.key db.icDecisions = false → db.hasPoolId row.poolId = true))
      [.insertIcDecision row] (if Rows.has IcDecisionRow.key row.key db.icDecisions then none else some row) :=
  .require (insertOrNothing_follows follows_require)

/-- The audit row of an event can be written: its event is recorded already, or its pool exists. -/
def AuditOk (ctx : EventId) (db : Db) (poolId : Option Uuid) : Prop :=
  Rows.has AuditRow.eventId ctx db.auditEvents = false → ∀ id ∈ poolId, db.hasPoolId id = true

/-- When an audit row is written. -/
theorem writeAudit_follows (ctx : EventId) (poolId : Option Uuid) (eventType : AuditType) (actor : Address)
    (target : Option Nat) (metadata : Metadata) :
    Follows (writeAudit ctx poolId eventType actor target metadata) db (AuditOk ctx db poolId)
      [.insertAudit (auditRow ctx poolId eventType actor target metadata)] () :=
  ((insertOrNothing_follows follows_require).bind fun _ => follows_pure () _).congr (and_iff_left trivial)

end Repositories

/-! ## One event -/

namespace Db

/-- The row of a pool, by its object id. -/
def poolOf (db : Db) (k : ID) : Option PoolRow := Rows.find PoolRow.suiObjectId k db.pools

/-- The row of a data room, by its object id. -/
def roomOf (db : Db) (k : ID) : Option DataroomRow := Rows.find DataroomRow.suiObjectId k db.datarooms

/-- The row of the data room of a pool, by the id of the pool's row. -/
def roomOfPool (db : Db) (id : Uuid) : Option DataroomRow := db.datarooms.find? fun r => r.poolId = id

/-- The row of a document, by its object id. -/
def docOf (db : Db) (k : ID) : Option DocumentRow := Rows.find DocumentRow.suiObjectId k db.documents

/-- A pool that is found is there for a foreign key. -/
theorem hasPoolId_of_poolOf {db : Db} {k : ID} {r : PoolRow} (h : db.poolOf k = some r) : db.hasPoolId r.id = true := by
  rw [hasPoolId, List.any_eq_true]
  exact ⟨r, (Rows.find_some h).1, decide_eq_true rfl⟩

/-- A room that is found is there for a foreign key. -/
theorem hasDataroomId_of_roomOf {db : Db} {k : ID} {r : DataroomRow} (h : db.roomOf k = some r) :
    db.hasDataroomId r.id = true := by
  rw [hasDataroomId, List.any_eq_true]
  exact ⟨r, (Rows.find_some h).1, decide_eq_true rfl⟩

/-- So is a room that is found by its pool. -/
theorem hasDataroomId_of_roomOfPool {db : Db} {id : Uuid} {r : DataroomRow} (h : db.roomOfPool id = some r) :
    db.hasDataroomId r.id = true := by
  rw [hasDataroomId, List.any_eq_true]
  exact ⟨r, List.mem_of_find?_eq_some h, decide_eq_true rfl⟩

/-- A document that is found is there for a foreign key. -/
theorem hasDocumentId_of_docOf {db : Db} {k : ID} {r : DocumentRow} (h : db.docOf k = some r) :
    db.hasDocumentId r.id = true := by
  rw [hasDocumentId, List.any_eq_true]
  exact ⟨r, (Rows.find_some h).1, decide_eq_true rfl⟩

end Db

/-- The document row of a `DocumentCreated` event. -/
def documentRow (pool : PoolRow) (dataroom : DataroomRow) (docId : ID) (folderId : Nat) (docType : UInt8)
    (title : MoveString) (version : Nat) : DocumentRow :=
  { id := .document docId, suiObjectId := docId, poolId := pool.id, dataroomId := dataroom.id, folderId, docType, title,
    currentVersion := version, versionCount := 1, encryptionScheme := pool.encryptionScheme }

/-- The blob id of a version can be indexed, where the version is not there yet. -/
def BlobFits (db : Db) (documentId : Uuid) (version : Nat) (blobId : MoveString) : Prop :=
  Rows.has VersionRow.key (documentId, version) db.documentVersions = false → db.blobEntrySize blobId ≤ Db.maxEntrySize

/-- The condition under which the handler of an event returns. -/
def Accepts (ctx : EventId) (db : Db) : Event → Prop
  | .poolCreated poolId name _ _ scheme _ =>
    0 ∉ name ∧ scheme ≤ 1 ∧ (Rows.has PoolRow.suiObjectId poolId db.pools = false → .zero ∈ db.organizations)
  | .poolStateChanged poolId _ toState _ _ => Rows.has PoolRow.suiObjectId poolId db.pools = true → toState ≤ 8
  | .dataRoomCreated poolId dataroomId _ _ =>
    Rows.has DataroomRow.suiObjectId dataroomId db.datarooms = false →
      db.hasPoolId (((db.poolOf poolId).map (·.id)).getD .zero) = true
  | .memberAdded dataroomId member role _ _ => ∀ r ∈ db.roomOf dataroomId,
    (0 < role ∧ role ≤ 63) ∧ (Rows.has MemberRow.key (r.id, member) db.members = true ∨ db.hasPoolId r.poolId = true) ∧
      AuditOk ctx db (some r.poolId)
  | .memberRemoved dataroomId _ _ _ => ∀ r ∈ db.roomOf dataroomId, AuditOk ctx db (some r.poolId)
  | .memberRoleUpdated dataroomId member _ newRole _ _ => ∀ r ∈ db.roomOf dataroomId,
    (Rows.has MemberRow.key (r.id, member) db.members = true → 0 < newRole ∧ newRole ≤ 63) ∧
      AuditOk ctx db (some r.poolId)
  | .documentCreated poolId docId folderId _ title version blobId _ _ _ =>
    ∀ pool ∈ db.poolOf poolId, ∀ _r ∈ db.roomOfPool pool.id,
      inBigint folderId ∧ 0 ∉ title ∧ inInteger version ∧ pool.encryptionScheme ≤ 1 ∧
        (db.docOf docId = none → 0 ∉ blobId ∧ 0 < version ∧ BlobFits db (.document docId) version blobId)
  | .documentVersionAdded _ docId version blobId _ _ _ => ∀ doc ∈ db.docOf docId,
    inInteger version ∧ 0 ∉ blobId ∧ 0 < version ∧ BlobFits db doc.id version blobId ∧
      (∀ r ∈ db.documents, r.suiObjectId = docId → inInteger (r.versionCount + 1)) ∧ AuditOk ctx db (some doc.poolId)
  | .documentReviewed _ docId _ status _ => ∀ doc ∈ db.docOf docId, status ≤ 2 ∧ AuditOk ctx db (some doc.poolId)
  | .icDecisionCreated poolId index _ _ _ => ∀ _pool ∈ db.poolOf poolId, inInteger index
  | _ => True

/-- The statements that the handler of an event issues when it returns. -/
def stmtsOf (ctx : EventId) (db : Db) : Event → List Stmt
  | .poolCreated poolId name _ createdBy scheme _ =>
    [.insertPool
      { id := .pool poolId, suiObjectId := poolId, orgId := .zero, name, currentState := 0, encryptionScheme := scheme,
        createdByAddress := createdBy, suiTxDigest := some ctx.txDigest },
     .insertAudit (auditRow ctx none .poolCreated createdBy (some poolId) (.pool name scheme))]
  | .poolStateChanged poolId fromState toState actor _ =>
    [.updatePoolState poolId toState ctx.txDigest,
     .insertAudit (auditRow ctx none .poolStateChanged actor (some poolId) (.transition fromState toState))]
  | .dataRoomCreated poolId dataroomId owner _ =>
    [.insertDataroom
      { id := .dataroom dataroomId, suiObjectId := dataroomId, poolId := ((db.poolOf poolId).map (·.id)).getD .zero,
        ownerAddress := owner },
     .insertAudit (auditRow ctx ((db.poolOf poolId).map (·.id)) .dataRoomCreated owner (some dataroomId) .empty)]
  | .memberAdded dataroomId member role addedBy _ =>
    match db.roomOf dataroomId with
    | none => []
    | some r =>
      [.upsertMember
        { dataroomId := r.id, poolId := r.poolId, memberAddress := member, role, addedByAddress := addedBy,
          isActive := true },
       .insertAudit (auditRow ctx (some r.poolId) .memberAdded addedBy (some member) (.memberAdded role dataroomId))]
  | .memberRemoved dataroomId member removedBy _ =>
    match db.roomOf dataroomId with
    | none => []
    | some r =>
      [.deactivateMember r.id member,
       .insertAudit (auditRow ctx (some r.poolId) .memberRemoved removedBy (some member) (.memberRemoved dataroomId))]
  | .memberRoleUpdated dataroomId member oldRole newRole actor _ =>
    match db.roomOf dataroomId with
    | none => []
    | some r =>
      [.updateMemberRole r.id member newRole,
       .insertAudit (auditRow ctx (some r.poolId) .memberRoleUpdated actor (some member) (.roles oldRole newRole))]
  | .documentCreated poolId docId folderId docType title version blobId contentHash uploader _ =>
    match db.poolOf poolId with
    | none => []
    | some pool =>
      match db.roomOfPool pool.id with
      | none => []
      | some dataroom =>
        .insertDocument (documentRow pool dataroom docId folderId docType title version) ::
          ((if db.docOf docId = none then
              [.insertVersion { documentId := .document docId, version, walrusBlobId := blobId, contentHash,
                                uploadedByAddress := uploader }]
            else []) ++
            [.insertAudit (auditRow ctx (some pool.id) .documentCreated uploader (some docId) (.document title folderId))])
  | .documentVersionAdded _ docId version blobId contentHash uploader _ =>
    match db.docOf docId with
    | none => []
    | some doc =>
      [.insertVersion { documentId := doc.id, version, walrusBlobId := blobId, contentHash, uploadedByAddress := uploader },
       .updateVersionInfo docId version,
       .insertAudit (auditRow ctx (some doc.poolId) .documentVersionAdded uploader (some docId) (.version version))]
  | .documentReviewed _ docId reviewer status _ =>
    match db.docOf docId with
    | none => []
    | some doc =>
      [.upsertReview { documentId := doc.id, reviewerAddress := reviewer, status },
       .insertAudit (auditRow ctx (some doc.poolId) .documentReviewed reviewer (some docId) (.review status))]
  | .icDecisionCreated poolId index decisionType createdBy _ =>
    match db.poolOf poolId with
    | none => []
    | some pool =>
      [.insertIcDecision { poolId := pool.id, decisionIndex := index, decisionType, createdByAddress := createdBy },
       .insertAudit (auditRow ctx (some pool.id) .icDecisionCreated createdBy none (.decision index decisionType))]
  | .auditEvent poolId actor actionType targetId _ metadataHash =>
    [.insertAudit (auditRow ctx ((db.poolOf poolId).map (·.id)) (.auditEvent actionType) actor targetId
      (.metadataHash metadataHash))]
  | _ => []

/-! ### The handlers -/

section Handlers

variable {ctx : EventId} {db : Db}

/-- An audit row without a pool always fits. -/
theorem auditOk_none : AuditOk ctx db none := by
  intro _ _ h
  cases h

/-- An audit row fits where its pool is there. -/
theorem auditOk_of_hasPoolId {id : Uuid} (h : db.hasPoolId id = true) : AuditOk ctx db (some id) := by
  rintro - _ ⟨⟩
  exact h

/-- The pool a handler has found, if any, fits. -/
theorem auditOk_poolOf (k : ID) : AuditOk ctx db ((db.poolOf k).map (·.id)) := by
  cases h : db.poolOf k with
  | none => exact auditOk_none
  | some r => exact auditOk_of_hasPoolId (Db.hasPoolId_of_poolOf h)

/-- One statement, then the audit row: the shape of most handlers. -/
theorem bind_writeAudit_follows {α : Type} {p : DbM α} {F G : Prop} {stmt : Stmt} {a : α} {poolId : Option Uuid}
    {eventType : AuditType} {actor : Address} {target : Option Nat} {metadata : Metadata}
    (hp : Follows p db F [stmt] a) (hs : F ∧ AuditOk ctx (Stmt.act db stmt) poolId ↔ G) :
    Follows (p >>= fun _ => writeAudit ctx poolId eventType actor target metadata) db G
      [stmt, .insertAudit (auditRow ctx poolId eventType actor target metadata)] () :=
  (hp.bind fun _ => writeAudit_follows ctx poolId eventType actor target metadata).congr hs

theorem handlePoolCreated_follows (poolId : ID) (name : MoveString) (org : List UInt8) (createdBy : Address)
    (scheme : UInt8) (t : Nat) :
    Follows (handlePoolCreated ctx poolId name createdBy scheme) db
      (Accepts ctx db (.poolCreated poolId name org createdBy scheme t))
      (stmtsOf ctx db (.poolCreated poolId name org createdBy scheme t)) () :=
  bind_writeAudit_follows (PoolsRepository.insertFromEvent_follows _) (by simp [Accepts, auditOk_none])

theorem handlePoolStateChanged_follows (poolId : ID) (fromState toState : UInt8) (actor : Address) (t : Nat) :
    Follows (handlePoolStateChanged ctx poolId fromState toState actor) db
      (Accepts ctx db (.poolStateChanged poolId fromState toState actor t))
      (stmtsOf ctx db (.poolStateChanged poolId fromState toState actor t)) () :=
  bind_writeAudit_follows (PoolsRepository.updateStateFromEvent_follows _ _ _) (by simp [Accepts, auditOk_none])

theorem handleDataRoomCreated_follows (poolId dataroomId : ID) (owner : Address) (t : Nat) :
    Follows (handleDataRoomCreated ctx poolId dataroomId owner) db
      (Accepts ctx db (.dataRoomCreated poolId dataroomId owner t))
      (stmtsOf ctx db (.dataRoomCreated poolId dataroomId owner t)) () :=
  Follows.read (bind_writeAudit_follows (DataroomsRepository.insertFromEvent_follows _)
    (and_iff_left (auditOk_poolOf poolId)))

/-- A room that is not known: nothing is issued. -/
theorem withDataroom_follows {dataroomId : ID} {body : DataroomRow → DbM Unit} {F : Prop} {ws : List Stmt}
    (hn : db.roomOf dataroomId = none → F ∧ ws = [])
    (hs : ∀ r, db.roomOf dataroomId = some r → Follows (body r) db F ws ()) :
    Follows (withDataroom dataroomId body) db F ws () := by
  refine .read ?_
  change Follows (match db.roomOf dataroomId with | none => (pure () : DbM Unit) | some r => body r) db F ws ()
  cases hr : db.roomOf dataroomId with
  | none =>
    obtain ⟨hF, rfl⟩ := hn hr
    exact (follows_pure () db).congr (iff_of_true trivial hF)
  | some r => exact hs r hr

/-- A handler that needs the pool does nothing where there is none. -/
theorem withPool_follows {poolId : ID} {body : PoolRow → DbM Unit} {F : Prop} {ws : List Stmt}
    (hn : db.poolOf poolId = none → F ∧ ws = []) (hs : ∀ r, db.poolOf poolId = some r → Follows (body r) db F ws ()) :
    Follows (withPool poolId body) db F ws () := by
  refine .read ?_
  change Follows (match db.poolOf poolId with | none => (pure () : DbM Unit) | some r => body r) db F ws ()
  cases hr : db.poolOf poolId with
  | none =>
    obtain ⟨hF, rfl⟩ := hn hr
    exact (follows_pure () db).congr (iff_of_true trivial hF)
  | some r => exact hs r hr

/-- A handler that needs the document does nothing where there is none. -/
theorem withDocument_follows {docId : ID} {body : DocumentRow → DbM Unit} {F : Prop} {ws : List Stmt}
    (hn : db.docOf docId = none → F ∧ ws = []) (hs : ∀ r, db.docOf docId = some r → Follows (body r) db F ws ()) :
    Follows (withDocument docId body) db F ws () := by
  refine .read ?_
  change Follows (match db.docOf docId with | none => (pure () : DbM Unit) | some r => body r) db F ws ()
  cases hr : db.docOf docId with
  | none =>
    obtain ⟨hF, rfl⟩ := hn hr
    exact (follows_pure () db).congr (iff_of_true trivial hF)
  | some r => exact hs r hr

theorem handleMemberAdded_follows (dataroomId : ID) (member : Address) (role : UInt8) (addedBy : Address) (t : Nat) :
    Follows (handleMemberAdded ctx dataroomId member role addedBy) db
      (Accepts ctx db (.memberAdded dataroomId member role addedBy t))
      (stmtsOf ctx db (.memberAdded dataroomId member role addedBy t)) () := by
  refine withDataroom_follows (fun hn => by simp [Accepts, stmtsOf, hn]) fun r hr => ?_
  simp only [Accepts, stmtsOf, hr, Option.mem_def, Option.some.injEq, forall_eq']
  refine bind_writeAudit_follows (MembersRepository.upsertFromEvent_follows _) ?_
  simp only [Db.hasDataroomId_of_roomOf hr, MemberRow.key, or_true, true_and, and_true, and_assoc]
  rfl

theorem handleMemberRemoved_follows (dataroomId : ID) (member removedBy : Address) (t : Nat) :
    Follows (handleMemberRemoved ctx dataroomId member removedBy) db
      (Accepts ctx db (.memberRemoved dataroomId member removedBy t))
      (stmtsOf ctx db (.memberRemoved dataroomId member removedBy t)) () := by
  refine withDataroom_follows (fun hn => by simp [Accepts, stmtsOf, hn]) fun r hr => ?_
  simp only [Accepts, stmtsOf, hr, Option.mem_def, Option.some.injEq, forall_eq']
  exact bind_writeAudit_follows (follows_issue _ _) (and_iff_right trivial)

theorem handleMemberRoleUpdated_follows (dataroomId : ID) (member : Address) (oldRole newRole : UInt8) (actor : Address)
    (t : Nat) :
    Follows (handleMemberRoleUpdated ctx dataroomId member oldRole newRole actor) db
      (Accepts ctx db (.memberRoleUpdated dataroomId member oldRole newRole actor t))
      (stmtsOf ctx db (.memberRoleUpdated dataroomId member oldRole newRole actor t)) () := by
  refine withDataroom_follows (fun hn => by simp [Accepts, stmtsOf, hn]) fun r hr => ?_
  simp only [Accepts, stmtsOf, hr, Option.mem_def, Option.some.injEq, forall_eq']
  refine bind_writeAudit_follows (MembersRepository.updateRole_follows _ _ _) ?_
  rw [and_true]
  rfl

/-- A document is not found exactly when no row has its object id. -/
theorem docOf_eq_none {docId : ID} :
    db.docOf docId = none ↔ Rows.has DocumentRow.suiObjectId docId db.documents = false := by
  rw [Rows.has_eq_isSome_find, Db.docOf, Option.isSome_eq_false_iff, Option.isNone_iff_eq_none]

/-- The first version goes with a document row that was just inserted. -/
theorem insertFirstVersion_follows {doc : DocumentRow} (version : Nat) (blobId : MoveString) (hash : List UInt8)
    (uploader : Address) (hd : db.hasDocumentId doc.id = true) :
    Follows (insertFirstVersion (some doc) version blobId hash uploader) db
      (inInteger version ∧ 0 ∉ blobId ∧ 0 < version ∧ BlobFits db doc.id version blobId)
      [.insertVersion { documentId := doc.id, version, walrusBlobId := blobId, contentHash := hash,
                        uploadedByAddress := uploader }] () :=
  ((DocumentVersionsRepository.insertFromEvent_follows _).bind fun _ => follows_pure () _).congr
    (by simp [hd, BlobFits, VersionRow.key])

theorem handleDocumentCreated_follows (poolId docId : ID) (folderId : Nat) (docType : UInt8) (title : MoveString)
    (version : Nat) (blobId : MoveString) (hash : List UInt8) (uploader : Address) (t : Nat) :
    Follows (handleDocumentCreated ctx poolId docId folderId docType title version blobId hash uploader) db
      (Accepts ctx db (.documentCreated poolId docId folderId docType title version blobId hash uploader t))
      (stmtsOf ctx db (.documentCreated poolId docId folderId docType title version blobId hash uploader t)) () := by
  refine withPool_follows (fun hn => by simp [Accepts, stmtsOf, hn]) fun pool hp => .read ?_
  simp only [Accepts, stmtsOf, hp, Option.mem_def, Option.some.injEq, forall_eq']
  change Follows (match db.roomOfPool pool.id with | none => (pure () : DbM Unit) | some r => _) db _ _ _
  cases hr : db.roomOfPool pool.id with
  | none => exact (follows_pure () db).congr (by simp)
  | some room =>
    simp only [Option.some.injEq, forall_eq', docOf_eq_none]
    have hpool := Db.hasPoolId_of_poolOf hp
    have hroom := Db.hasDataroomId_of_roomOfPool hr
    have hdoc := @DocumentsRepository.insertFromEvent_follows db
      (documentRow pool room docId folderId docType title version)
    have haudit : AuditOk ctx db (some pool.id) := auditOk_of_hasPoolId hpool
    cases hd : Rows.has DocumentRow.suiObjectId docId db.documents with
    | true =>
      -- The row is there already: no first version.
      simp only [documentRow, hd, if_true] at hdoc
      refine (hdoc.bind fun _ => (follows_pure () _).bind fun _ => writeAudit_follows ..).congr ?_
      constructor
      · rintro ⟨⟨h1, h2, h3, h4, _⟩, _⟩
        exact ⟨h1, h2, h3, h4, by simp⟩
      · rintro ⟨h1, h2, h3, h4, _⟩
        exact ⟨⟨h1, h2, h3, h4, by simp⟩, trivial, haudit⟩
    | false =>
      -- The new document row is there when its first version is inserted.
      have hnew : (Stmt.act db (.insertDocument (documentRow pool room docId folderId docType title version))).hasDocumentId
          (.document docId) = true := by
        simp [Stmt.act, Rows.insertNew, documentRow, hd, Db.hasDocumentId]
      simp only [documentRow, hd, Bool.false_eq_true, if_false] at hdoc
      refine (hdoc.bind fun _ => (insertFirstVersion_follows version blobId hash uploader hnew).bind fun _ =>
        writeAudit_follows ..).congr ?_
      simp only [hpool, hroom, forall_const, and_true]
      constructor
      · rintro ⟨⟨h1, h2, h3, h4⟩, ⟨h5, h6, h7, h8⟩, _⟩
        exact ⟨h1, h2, h3, h4, h6, h7, h8⟩
      · rintro ⟨h1, h2, h3, h4, h6, h7, h8⟩
        exact ⟨⟨h1, h2, h3, h4⟩, ⟨h3, h6, h7, h8⟩, haudit⟩

theorem handleDocumentVersionAdded_follows (poolId docId : ID) (version : Nat) (blobId : MoveString) (hash : List UInt8)
    (uploader : Address) (t : Nat) :
    Follows (handleDocumentVersionAdded ctx docId version blobId hash uploader) db
      (Accepts ctx db (.documentVersionAdded poolId docId version blobId hash uploader t))
      (stmtsOf ctx db (.documentVersionAdded poolId docId version blobId hash uploader t)) () := by
  refine withDocument_follows (fun hn => by simp [Accepts, stmtsOf, hn]) fun doc hd => ?_
  simp only [Accepts, stmtsOf, hd, Option.mem_def, Option.some.injEq, forall_eq']
  refine ((DocumentVersionsRepository.insertFromEvent_follows _).bind fun _ =>
    bind_writeAudit_follows (DocumentsRepository.updateVersionInfo_follows _ _) Iff.rfl).congr ?_
  simp only [Db.hasDocumentId_of_docOf hd, and_true]
  constructor
  · rintro ⟨⟨h1, h2, h3, h4⟩, ⟨_, h5⟩, h6⟩
    exact ⟨h1, h2, h3, h4, h5, h6⟩
  · rintro ⟨h1, h2, h3, h4, h5, h6⟩
    exact ⟨⟨h1, h2, h3, h4⟩, ⟨h1, h5⟩, h6⟩

theorem handleDocumentReviewed_follows (poolId docId : ID) (reviewer : Address) (status : UInt8) (t : Nat) :
    Follows (handleDocumentReviewed ctx docId reviewer status) db
      (Accepts ctx db (.documentReviewed poolId docId reviewer status t))
      (stmtsOf ctx db (.documentReviewed poolId docId reviewer status t)) () := by
  refine withDocument_follows (fun hn => by simp [Accepts, stmtsOf, hn]) fun doc hd => ?_
  simp only [Accepts, stmtsOf, hd, Option.mem_def, Option.some.injEq, forall_eq']
  refine bind_writeAudit_follows (DocumentReviewsRepository.upsertFromEvent_follows _) ?_
  simp only [Db.hasDocumentId_of_docOf hd, or_true, and_true]
  rfl

theorem handleIcDecisionCreated_follows (poolId : ID) (index : Nat) (decisionType : UInt8) (createdBy : Address) (t : Nat) :
    Follows (handleIcDecisionCreated ctx poolId index decisionType createdBy) db
      (Accepts ctx db (.icDecisionCreated poolId index decisionType createdBy t))
      (stmtsOf ctx db (.icDecisionCreated poolId index decisionType createdBy t)) () := by
  refine withPool_follows (fun hn => by simp [Accepts, stmtsOf, hn]) fun pool hp => ?_
  simp only [Accepts, stmtsOf, hp, Option.mem_def, Option.some.injEq, forall_eq']
  have hpool := Db.hasPoolId_of_poolOf hp
  refine bind_writeAudit_follows (IcDecisionsRepository.insertFromEvent_follows _) ?_
  simp only [hpool, implies_true, and_true]
  exact and_iff_left (auditOk_of_hasPoolId hpool)

theorem handleAuditEvent_follows (poolId : ID) (actor : Address) (actionType : UInt8) (targetId : Option ID)
    (metadataHash : Option (List UInt8)) (t : Nat) :
    Follows (handleAuditEvent ctx poolId actor actionType targetId metadataHash) db
      (Accepts ctx db (.auditEvent poolId actor actionType targetId t metadataHash))
      (stmtsOf ctx db (.auditEvent poolId actor actionType targetId t metadataHash)) () :=
  .read ((writeAudit_follows ..).congr (iff_of_true (auditOk_poolOf poolId) trivial))

/-- The handler of an event returns exactly where the event is accepted, and issues the statements of the event. -/
theorem handlerOf_follows {e : Event} {h : DbM Unit} (he : handlerOf ctx e = some h) :
    Follows h db (Accepts ctx db e) (stmtsOf ctx db e) () := by
  cases e <;> simp only [handlerOf, Option.some.injEq, reduceCtorEq] at he <;> subst he
  case poolCreated => exact handlePoolCreated_follows ..
  case poolStateChanged => exact handlePoolStateChanged_follows ..
  case dataRoomCreated => exact handleDataRoomCreated_follows ..
  case memberAdded => exact handleMemberAdded_follows ..
  case memberRemoved => exact handleMemberRemoved_follows ..
  case memberRoleUpdated => exact handleMemberRoleUpdated_follows ..
  case documentCreated => exact handleDocumentCreated_follows ..
  case documentVersionAdded => exact handleDocumentVersionAdded_follows ..
  case documentReviewed => exact handleDocumentReviewed_follows ..
  case icDecisionCreated => exact handleIcDecisionCreated_follows ..
  case auditEvent => exact handleAuditEvent_follows ..

/-- An event of another type is accepted and issues nothing. -/
theorem handlerOf_none {e : Event} (he : handlerOf ctx e = none) : Accepts ctx db e ∧ stmtsOf ctx db e = [] := by
  cases e <;> simp only [handlerOf, reduceCtorEq] at he <;> exact ⟨trivial, rfl⟩

end Handlers

/-! ### Events and batches -/

/-- Whether a text looks like a duplicate is decided on its characters. -/
theorem DbError.not_isDuplicate_of_chars {e : DbError} {l : List Char} (hm : e.message = String.ofList l)
    (hunique : ¬ ['u', 'n', 'i', 'q', 'u', 'e'] <:+: l) (hduplicate : ¬ ['d', 'u', 'p', 'l', 'i', 'c', 'a', 't', 'e'] <:+: l) :
    e.isDuplicate = false := by
  have hu : "unique".toList = ['u', 'n', 'i', 'q', 'u', 'e'] := String.toList_ofList
  have hd : "duplicate".toList = ['d', 'u', 'p', 'l', 'i', 'c', 'a', 't', 'e'] := String.toList_ofList
  unfold isDuplicate includes
  simp [hm, hu, hd, hunique, hduplicate]

/-- No letter is in the digits of a number. -/
theorem not_mem_toString {n : Nat} {c : Char} (hc : c.isDigit = false) : c ∉ (toString n).toList := by
  intro h
  rw [Nat.toString_eq_repr, Nat.toList_repr] at h
  rw [Nat.isDigit_of_mem_toDigits (by decide) (by decide) h] at hc
  cases hc

/-- The message has a number in it, and lacks a letter of each of the two words. -/
theorem DbError.not_isDuplicate_of_lacks {e : DbError} {a b : List Char} {n : Nat}
    (hm : e.message = String.ofList a ++ toString n ++ String.ofList b) (hunique : 'q' ∉ a ++ b) {c : Char}
    (hc : c ∈ ['d', 'u', 'p', 'l', 'i', 'c', 'a', 't', 'e']) (hduplicate : c ∉ a ++ b) : e.isDuplicate = false := by
  have hlacks : ∀ d : Char, d.isDigit = false → d ∉ a ++ b → d ∉ e.message.toList := by
    intro d hdigit hd
    rw [hm, String.toList_append, String.toList_append, String.toList_ofList, String.toList_ofList]
    simp only [List.mem_append, not_or] at hd ⊢
    exact ⟨⟨hd.1, not_mem_toString hdigit⟩, hd.2⟩
  have hdigit : c.isDigit = false := by
    revert hc
    simp only [List.mem_cons, List.not_mem_nil, or_false]
    rintro (rfl | rfl | rfl | rfl | rfl | rfl | rfl | rfl | rfl) <;> rfl
  refine not_isDuplicate_of_chars String.ofList_toList.symm (fun h => ?_) fun h => ?_
  · exact hlacks 'q' rfl hunique (h.subset (by decide))
  · exact hlacks c hdigit hduplicate (h.subset hc)

/-- The message of a constraint names it and its table between three fixed texts. -/
theorem DbError.not_isDuplicate_of_parts {e : DbError} {a b c d f : List Char}
    (hm : e.message = String.ofList a ++ String.ofList b ++ String.ofList c ++ String.ofList d ++ String.ofList f)
    (hunique : ¬ ['u', 'n', 'i', 'q', 'u', 'e'] <:+: a ++ b ++ c ++ d ++ f)
    (hduplicate : ¬ ['d', 'u', 'p', 'l', 'i', 'c', 'a', 't', 'e'] <:+: a ++ b ++ c ++ d ++ f) : e.isDuplicate = false := by
  refine not_isDuplicate_of_chars ?_ hunique hduplicate
  rw [hm]
  simp only [String.ofList_append]

/-- No error of the database has a text that `processBatch` takes for a duplicate. -/
theorem DbError.not_isDuplicate (e : DbError) : e.isDuplicate = false := by
  cases e with
  | foreignKey fk => cases fk <;> exact not_isDuplicate_of_parts rfl (by decide +kernel) (by decide +kernel)
  | check c => cases c <;> exact not_isDuplicate_of_parts rfl (by decide +kernel) (by decide +kernel)
  | nullByte => exact not_isDuplicate_of_chars rfl (by decide +kernel) (by decide +kernel)
  | integerSum => exact not_isDuplicate_of_chars rfl (by decide +kernel) (by decide +kernel)
  | integerValue n =>
    exact @not_isDuplicate_of_lacks _ _ _ n rfl (by decide +kernel) 'd' (by decide) (by decide +kernel)
  | bigintValue n =>
    exact @not_isDuplicate_of_lacks _ _ _ n rfl (by decide +kernel) 'd' (by decide) (by decide +kernel)
  | indexRowSize size =>
    exact @not_isDuplicate_of_lacks _ _ _ size rfl (by decide +kernel) 'p' (by decide) (by decide +kernel)

/-- Every event is accepted or refused as a whole by its conditions, and its statements are those of `stmtsOf`. -/
theorem processEvent_follows (e : SuiEvent) (db : Db) :
    Follows (processEvent e) db (Accepts e.id db e.event) (stmtsOf e.id db e.event) () := by
  unfold processEvent
  cases he : handlerOf e.id e.event with
  | none =>
    obtain ⟨ha, hs⟩ : Accepts e.id db e.event ∧ stmtsOf e.id db e.event = [] := handlerOf_none he
    rw [hs]
    exact (follows_pure () db).congr (iff_of_true trivial ha)
  | some h =>
    have hf : Follows h db (Accepts e.id db e.event) (stmtsOf e.id db e.event) () := handlerOf_follows he
    refine ⟨fun ha => ?_, fun hn => ?_⟩
    · simp only [recover, hf.ok ha]
    · -- The error is not swallowed, so the event fails as its handler does.
      obtain ⟨ws, err, hh, hp⟩ := hf.error hn
      refine ⟨ws, err, ?_, hp⟩
      simp [recover, hh, DbError.not_isDuplicate]

/-- The tables after an event that is accepted. -/
def afterEvent (db : Db) (e : SuiEvent) : Db := Statements.actAll db (stmtsOf e.id db e.event)

/-- The tables after events that are accepted in turn. -/
def afterEvents (db : Db) (es : List SuiEvent) : Db := es.foldl afterEvent db

/-- The statements of events that are accepted in turn. -/
def stmtsOfAll (db : Db) : List SuiEvent → List Stmt
  | [] => []
  | e :: es => stmtsOf e.id db e.event ++ stmtsOfAll (afterEvent db e) es

/-- Every event is accepted by the tables it meets. -/
def AcceptsAll (db : Db) : List SuiEvent → Prop
  | [] => True
  | e :: es => Accepts e.id db e.event ∧ AcceptsAll (afterEvent db e) es

@[simp] theorem afterEvents_nil (db : Db) : afterEvents db [] = db := rfl

@[simp] theorem afterEvents_cons (db : Db) (e : SuiEvent) (es : List SuiEvent) :
    afterEvents db (e :: es) = afterEvents (afterEvent db e) es := rfl

theorem afterEvents_append (db : Db) (es fs : List SuiEvent) :
    afterEvents db (es ++ fs) = afterEvents (afterEvents db es) fs := List.foldl_append

theorem acceptsAll_append {db : Db} {es fs : List SuiEvent} :
    AcceptsAll db (es ++ fs) ↔ AcceptsAll db es ∧ AcceptsAll (afterEvents db es) fs := by
  induction es generalizing db with
  | nil => simp [AcceptsAll]
  | cons e es ih => rw [List.cons_append, AcceptsAll, AcceptsAll, ih, afterEvents_cons, and_assoc]

theorem stmtsOfAll_append (db : Db) (es fs : List SuiEvent) :
    stmtsOfAll db (es ++ fs) = stmtsOfAll db es ++ stmtsOfAll (afterEvents db es) fs := by
  induction es generalizing db with
  | nil => rfl
  | cons e es ih => rw [List.cons_append, stmtsOfAll, stmtsOfAll, ih, afterEvents_cons, List.append_assoc]

/-- The statements of a list lead to the tables after its events. -/
theorem actAll_stmtsOfAll (db : Db) (es : List SuiEvent) : Statements.actAll db (stmtsOfAll db es) = afterEvents db es := by
  induction es generalizing db with
  | nil => rfl
  | cons e es ih => rw [stmtsOfAll, Statements.actAll_append, afterEvents_cons, ← ih]; rfl

/-- A batch returns exactly where its events are accepted in turn, and issues their statements. -/
theorem processBatch_follows (es : List SuiEvent) (db : Db) :
    Follows (processBatch es) db (AcceptsAll db es) (stmtsOfAll db es) () := by
  induction es generalizing db with
  | nil => exact follows_pure () db
  | cons e es ih => exact (processEvent_follows e db).bind fun _ => ih (afterEvent db e)

end BrineVault
