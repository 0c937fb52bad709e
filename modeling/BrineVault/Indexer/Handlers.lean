import Mathlib.Data.List.Infix
import BrineVault.Indexer.Tables

/-!
# The repositories and the event handlers

A repository method checks what the database checks before it issues its statement: the texts, the widths of the integer columns, the
check constraints, and the index entry and the foreign keys of a row that is really inserted. A handler is the sequence of its lookups and its writes; no
transaction is around them. The invalidation of the cache, which touches no table, is modelled apart from them.
-/

namespace BrineVault

open Script (read issue fail require recover)

/-! ## Repositories -/

/-- `int4`. -/
def inInteger (n : Nat) : Prop := n < 2 ^ 31

/-- `int8`. -/
def inBigint (n : Nat) : Prop := n < 2 ^ 63

instance (n : Nat) : Decidable (inInteger n) := inferInstanceAs (Decidable (_ < _))
instance (n : Nat) : Decidable (inBigint n) := inferInstanceAs (Decidable (_ < _))

/-- A text column takes any string without the character U+0000. -/
def assertText (text : MoveString) : DbM Unit := require (0 ∉ text) .nullByte

/-- `INSERT … ON CONFLICT DO NOTHING … RETURNING`: the foreign keys, and the size of an index entry, are checked for a row that is
inserted, and no row is returned on a conflict. -/
def insertOrNothing {α : Type} (conflict : Db → Bool) (foreignKeys : Db → DbM Unit) (stmt : Stmt) (row : α) :
    DbM (Option α) := do
  let db ← read
  if conflict db then do
    issue stmt
    return none
  else do
    foreignKeys db
    issue stmt
    return some row

namespace PoolsRepository

def findBySuiObjectId (suiObjectId : ID) : DbM (Option PoolRow) := do
  let db ← read
  return Rows.find PoolRow.suiObjectId suiObjectId db.pools

def insertFromEvent (row : PoolRow) : DbM (Option PoolRow) := do
  assertText row.name
  require (row.currentState ≤ 8) (.check .poolState)
  require (row.encryptionScheme ≤ 1) (.check .encryptionScheme)
  insertOrNothing (fun db => Rows.has PoolRow.suiObjectId row.suiObjectId db.pools)
    (fun db => require (row.orgId ∈ db.organizations) (.foreignKey .poolsOrg)) (.insertPool row) row

def updateStateFromEvent (suiObjectId : ID) (newState : UInt8) (txDigest : Nat) : DbM Unit := do
  let db ← read
  require (Rows.has PoolRow.suiObjectId suiObjectId db.pools → newState ≤ 8) (.check .poolState)
  issue (.updatePoolState suiObjectId newState txDigest)

end PoolsRepository

namespace DataroomsRepository

def findBySuiObjectId (suiObjectId : ID) : DbM (Option DataroomRow) := do
  let db ← read
  return Rows.find DataroomRow.suiObjectId suiObjectId db.datarooms

/-- The rows of a pool are not ordered; of several, the one inserted first is returned. -/
def findByPoolId (poolId : Uuid) : DbM (Option DataroomRow) := do
  let db ← read
  return db.datarooms.find? fun r => r.poolId = poolId

def insertFromEvent (row : DataroomRow) : DbM (Option DataroomRow) :=
  insertOrNothing (fun db => Rows.has DataroomRow.suiObjectId row.suiObjectId db.datarooms)
    (fun db => require (db.hasPoolId row.poolId) (.foreignKey .dataroomsPool)) (.insertDataroom row) row

end DataroomsRepository

namespace MembersRepository

def upsertFromEvent (row : MemberRow) : DbM Unit := do
  require (0 < row.role ∧ row.role ≤ 63) (.check .memberRole)
  let db ← read
  require (Rows.has MemberRow.key row.key db.members ∨ db.hasDataroomId row.dataroomId) (.foreignKey .membersDataroom)
  require (Rows.has MemberRow.key row.key db.members ∨ db.hasPoolId row.poolId) (.foreignKey .membersPool)
  issue (.upsertMember row)

def deactivate (dataroomId : Uuid) (memberAddress : Address) : DbM Unit :=
  issue (.deactivateMember dataroomId memberAddress)

def updateRole (dataroomId : Uuid) (memberAddress : Address) (newRole : UInt8) : DbM Unit := do
  let db ← read
  require (Rows.has MemberRow.key (dataroomId, memberAddress) db.members → 0 < newRole ∧ newRole ≤ 63) (.check .memberRole)
  issue (.updateMemberRole dataroomId memberAddress newRole)

end MembersRepository

namespace DocumentsRepository

def findBySuiObjectId (suiObjectId : ID) : DbM (Option DocumentRow) := do
  let db ← read
  return Rows.find DocumentRow.suiObjectId suiObjectId db.documents

def insertFromEvent (row : DocumentRow) : DbM (Option DocumentRow) := do
  require (inBigint row.folderId) (.bigintValue row.folderId)
  assertText row.title
  require (inInteger row.currentVersion) (.integerValue row.currentVersion)
  require (row.encryptionScheme ≤ 1) (.check .docEncryption)
  insertOrNothing (fun db => Rows.has DocumentRow.suiObjectId row.suiObjectId db.documents)
    (fun db => do
      require (db.hasPoolId row.poolId) (.foreignKey .documentsPool)
      require (db.hasDataroomId row.dataroomId) (.foreignKey .documentsDataroom))
    (.insertDocument row) row

def updateVersionInfo (suiObjectId : ID) (version : Nat) : DbM Unit := do
  require (inInteger version) (.integerValue version)
  let db ← read
  require (∀ r ∈ db.documents, r.suiObjectId = suiObjectId → inInteger (r.versionCount + 1)) .integerSum
  issue (.updateVersionInfo suiObjectId version)

end DocumentsRepository

def DocumentVersionsRepository.insertFromEvent (row : VersionRow) : DbM (Option VersionRow) := do
  require (inInteger row.version) (.integerValue row.version)
  assertText row.walrusBlobId
  require (0 < row.version) (.check .versionPositive)
  insertOrNothing (fun db => Rows.has VersionRow.key row.key db.documentVersions)
    (fun db => do
      require (db.blobEntrySize row.walrusBlobId ≤ Db.maxEntrySize) (.indexRowSize (db.blobEntrySize row.walrusBlobId))
      require (db.hasDocumentId row.documentId) (.foreignKey .versionsDocument))
    (.insertVersion row) row

def DocumentReviewsRepository.upsertFromEvent (row : ReviewRow) : DbM Unit := do
  require (row.status ≤ 2) (.check .reviewStatus)
  let db ← read
  require (Rows.has ReviewRow.key row.key db.documentReviews ∨ db.hasDocumentId row.documentId)
    (.foreignKey .reviewsDocument)
  issue (.upsertReview row)

def IcDecisionsRepository.insertFromEvent (row : IcDecisionRow) : DbM (Option IcDecisionRow) := do
  require (inInteger row.decisionIndex) (.integerValue row.decisionIndex)
  insertOrNothing (fun db => Rows.has IcDecisionRow.key row.key db.icDecisions)
    (fun db => require (db.hasPoolId row.poolId) (.foreignKey .icDecisionsPool)) (.insertIcDecision row) row

def AuditEventsRepository.insertFromEvent (row : AuditRow) : DbM (Option AuditRow) :=
  insertOrNothing (fun db => Rows.has AuditRow.eventId row.eventId db.auditEvents)
    (fun db => require (∀ id ∈ row.poolId, db.hasPoolId id) (.foreignKey .auditPool)) (.insertAudit row) row

/-! ## Handlers -/

/-- The audit row of an event. -/
def auditRow (ctx : EventId) (poolId : Option Uuid) (eventType : AuditType) (actorAddress : Address)
    (targetId : Option Nat) (metadata : Metadata) : AuditRow :=
  { poolId, eventType, actorAddress, targetId, metadata, suiTxDigest := ctx.txDigest, suiEventSeq := ctx.eventSeq }

/-- The last write of every handler. -/
def writeAudit (ctx : EventId) (poolId : Option Uuid) (eventType : AuditType) (actorAddress : Address)
    (targetId : Option Nat) (metadata : Metadata) : DbM Unit := do
  let _ ← AuditEventsRepository.insertFromEvent (auditRow ctx poolId eventType actorAddress targetId metadata)

/-- The pool is inserted under the sentinel organisation, the all-zero id. Its audit row names no pool. -/
def handlePoolCreated (ctx : EventId) (poolId : ID) (name : MoveString) (createdBy : Address) (encryptionScheme : UInt8) :
    DbM Unit := do
  let _ ← PoolsRepository.insertFromEvent
    { id := .pool poolId, suiObjectId := poolId, orgId := .zero, name, currentState := 0, encryptionScheme,
      createdByAddress := createdBy, suiTxDigest := some ctx.txDigest }
  writeAudit ctx none .poolCreated createdBy (some poolId) (.pool name encryptionScheme)

/-- The audit row names no pool. -/
def handlePoolStateChanged (ctx : EventId) (poolId : ID) (fromState toState : UInt8) (actor : Address) : DbM Unit := do
  PoolsRepository.updateStateFromEvent poolId toState ctx.txDigest
  writeAudit ctx none .poolStateChanged actor (some poolId) (.transition fromState toState)

/-- Where the pool is not known, the room refers to the all-zero id. -/
def handleDataRoomCreated (ctx : EventId) (poolId dataroomId : ID) (owner : Address) : DbM Unit := do
  let pool ← PoolsRepository.findBySuiObjectId poolId
  let _ ← DataroomsRepository.insertFromEvent
    { id := .dataroom dataroomId, suiObjectId := dataroomId, poolId := (pool.map (·.id)).getD .zero, ownerAddress := owner }
  writeAudit ctx (pool.map (·.id)) .dataRoomCreated owner (some dataroomId) .empty

/-- What the three member handlers share: the room must be known, else nothing is written, not even the audit row. -/
def withDataroom (dataroomId : ID) (body : DataroomRow → DbM Unit) : DbM Unit := do
  let dataroom ← DataroomsRepository.findBySuiObjectId dataroomId
  match dataroom with
  | none => return ()
  | some dataroom => body dataroom

def handleMemberAdded (ctx : EventId) (dataroomId : ID) (member : Address) (role : UInt8) (addedBy : Address) : DbM Unit :=
  withDataroom dataroomId fun dataroom => do
    MembersRepository.upsertFromEvent
      { dataroomId := dataroom.id, poolId := dataroom.poolId, memberAddress := member, role, addedByAddress := addedBy,
        isActive := true }
    writeAudit ctx (some dataroom.poolId) .memberAdded addedBy (some member) (.memberAdded role dataroomId)

def handleMemberRemoved (ctx : EventId) (dataroomId : ID) (member removedBy : Address) : DbM Unit :=
  withDataroom dataroomId fun dataroom => do
    MembersRepository.deactivate dataroom.id member
    writeAudit ctx (some dataroom.poolId) .memberRemoved removedBy (some member) (.memberRemoved dataroomId)

def handleMemberRoleUpdated (ctx : EventId) (dataroomId : ID) (member : Address) (oldRole newRole : UInt8)
    (actor : Address) : DbM Unit :=
  withDataroom dataroomId fun dataroom => do
    MembersRepository.updateRole dataroom.id member newRole
    writeAudit ctx (some dataroom.poolId) .memberRoleUpdated actor (some member) (.roles oldRole newRole)

/-- What the handlers that need the pool share. -/
def withPool (poolId : ID) (body : PoolRow → DbM Unit) : DbM Unit := do
  let pool ← PoolsRepository.findBySuiObjectId poolId
  match pool with
  | none => return ()
  | some pool => body pool

/-- The first version is inserted only for a document row that was inserted just before. -/
def insertFirstVersion (doc : Option DocumentRow) (version : Nat) (blobId : MoveString) (contentHash : List UInt8)
    (uploader : Address) : DbM Unit :=
  match doc with
  | none => return ()
  | some doc => do
    let _ ← DocumentVersionsRepository.insertFromEvent
      { documentId := doc.id, version, walrusBlobId := blobId, contentHash, uploadedByAddress := uploader }

def handleDocumentCreated (ctx : EventId) (poolId docId : ID) (folderId : Nat) (docType : UInt8) (title : MoveString)
    (version : Nat) (blobId : MoveString) (contentHash : List UInt8) (uploader : Address) : DbM Unit :=
  withPool poolId fun pool => do
    let dataroom ← DataroomsRepository.findByPoolId pool.id
    match dataroom with
    | none => return ()
    | some dataroom => do
      let doc ← DocumentsRepository.insertFromEvent
        { id := .document docId, suiObjectId := docId, poolId := pool.id, dataroomId := dataroom.id, folderId, docType, title,
          currentVersion := version, versionCount := 1, encryptionScheme := pool.encryptionScheme }
      insertFirstVersion doc version blobId contentHash uploader
      writeAudit ctx (some pool.id) .documentCreated uploader (some docId) (.document title folderId)

/-- What the handlers that need the document share. -/
def withDocument (docId : ID) (body : DocumentRow → DbM Unit) : DbM Unit := do
  let doc ← DocumentsRepository.findBySuiObjectId docId
  match doc with
  | none => return ()
  | some doc => body doc

def handleDocumentVersionAdded (ctx : EventId) (docId : ID) (version : Nat) (blobId : MoveString)
    (contentHash : List UInt8) (uploader : Address) : DbM Unit :=
  withDocument docId fun doc => do
    let _ ← DocumentVersionsRepository.insertFromEvent
      { documentId := doc.id, version, walrusBlobId := blobId, contentHash, uploadedByAddress := uploader }
    DocumentsRepository.updateVersionInfo docId version
    writeAudit ctx (some doc.poolId) .documentVersionAdded uploader (some docId) (.version version)

def handleDocumentReviewed (ctx : EventId) (docId : ID) (reviewer : Address) (status : UInt8) : DbM Unit :=
  withDocument docId fun doc => do
    DocumentReviewsRepository.upsertFromEvent { documentId := doc.id, reviewerAddress := reviewer, status }
    writeAudit ctx (some doc.poolId) .documentReviewed reviewer (some docId) (.review status)

def handleIcDecisionCreated (ctx : EventId) (poolId : ID) (decisionIndex : Nat) (decisionType : UInt8)
    (createdBy : Address) : DbM Unit :=
  withPool poolId fun pool => do
    let _ ← IcDecisionsRepository.insertFromEvent
      { poolId := pool.id, decisionIndex, decisionType, createdByAddress := createdBy }
    writeAudit ctx (some pool.id) .icDecisionCreated createdBy none (.decision decisionIndex decisionType)

/-- The generic event: written with or without its pool. -/
def handleAuditEvent (ctx : EventId) (poolId : ID) (actor : Address) (actionType : UInt8) (targetId : Option ID)
    (metadataHash : Option (List UInt8)) : DbM Unit := do
  let pool ← PoolsRepository.findBySuiObjectId poolId
  writeAudit ctx (pool.map (·.id)) (.auditEvent actionType) actor targetId (.metadataHash metadataHash)

/-- `buildEventHandlerMap`: the eleven handled types. -/
def handlerOf (ctx : EventId) : Event → Option (DbM Unit)
  | .poolCreated poolId name _ createdBy scheme _ => some (handlePoolCreated ctx poolId name createdBy scheme)
  | .poolStateChanged poolId fromState toState actor _ => some (handlePoolStateChanged ctx poolId fromState toState actor)
  | .dataRoomCreated poolId dataroomId owner _ => some (handleDataRoomCreated ctx poolId dataroomId owner)
  | .memberAdded dataroomId member role addedBy _ => some (handleMemberAdded ctx dataroomId member role addedBy)
  | .memberRemoved dataroomId member removedBy _ => some (handleMemberRemoved ctx dataroomId member removedBy)
  | .memberRoleUpdated dataroomId member oldRole newRole actor _ =>
    some (handleMemberRoleUpdated ctx dataroomId member oldRole newRole actor)
  | .documentCreated poolId docId folderId docType title version blobId contentHash uploader _ =>
    some (handleDocumentCreated ctx poolId docId folderId docType title version blobId contentHash uploader)
  | .documentVersionAdded _ docId version blobId contentHash uploader _ =>
    some (handleDocumentVersionAdded ctx docId version blobId contentHash uploader)
  | .documentReviewed _ docId reviewer status _ => some (handleDocumentReviewed ctx docId reviewer status)
  | .icDecisionCreated poolId index decisionType createdBy _ =>
    some (handleIcDecisionCreated ctx poolId index decisionType createdBy)
  | .auditEvent poolId actor actionType targetId _ metadataHash =>
    some (handleAuditEvent ctx poolId actor actionType targetId metadataHash)
  | _ => none

/-! ## Batches -/

/-- `s.includes(part)`. -/
def includes (s part : String) : Bool := decide (part.toList <:+: s.toList)

/-- How `processBatch` recognises an event it has seen. -/
def DbError.isDuplicate (e : DbError) : Bool := includes e.message "unique" || includes e.message "duplicate"

/-- One event of a batch: an unknown type is skipped, an error that looks like a duplicate is swallowed, any other is thrown. -/
def processEvent (e : SuiEvent) : DbM Unit :=
  match handlerOf e.id e.event with
  | none => return ()
  | some handler => recover handler fun err => if err.isDuplicate then return () else fail err

def processBatch : List SuiEvent → DbM Unit
  | [] => return ()
  | e :: es => do
    processEvent e
    processBatch es

/-- The state of the indexer: the tables, and how many events of the stream the persisted cursor is past. -/
structure IndexerState where
  db : Db
  cursor : Nat

/-- One turn of `Indexer.start`: a page of the events after the cursor is polled and processed. The cursor moves past the page when
the batch is processed, and stays where it is when the batch throws; what the batch has written stays written. -/
def turn (stream : List SuiEvent) (st : IndexerState) (pageSize : Nat) : IndexerState :=
  let page := (stream.drop st.cursor).take pageSize
  match processBatch page st.db with
  | (ws, .ok ()) => { db := Statements.actAll st.db ws, cursor := st.cursor + page.length }
  | (ws, .error _) => { db := Statements.actAll st.db ws, cursor := st.cursor }

end BrineVault
