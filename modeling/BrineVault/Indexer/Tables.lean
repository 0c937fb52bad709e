import BrineVault.Contract.Events
import BrineVault.Lib.Rows
import BrineVault.Lib.Script

/-!
# The tables the indexer writes

The tables of the schema with the columns that the handlers and their readers use, and the SQL statements the repositories issue. Columns
that hold the time of writing and the surrogate ids that nothing refers to are left out. An object id or an address is stored as its text;
the text determines it, so that the column holds the id itself.
-/

namespace BrineVault

/-- A `uuid`. `gen_random_uuid()` does not give an id twice: the id of a row that is inserted from an event is named by the table
and the object; `given` are the ids of rows that come from elsewhere. -/
inductive Uuid where
  | zero
  | given (n : Nat)
  | pool (suiObjectId : ID)
  | dataroom (suiObjectId : ID)
  | document (suiObjectId : ID)
  deriving DecidableEq, Repr

/-! ## Rows -/

structure PoolRow where
  id : Uuid
  suiObjectId : ID
  orgId : Uuid
  name : MoveString
  currentState : UInt8
  encryptionScheme : UInt8
  createdByAddress : Address
  suiTxDigest : Option Nat
  deriving DecidableEq, Repr

structure DataroomRow where
  id : Uuid
  suiObjectId : ID
  poolId : Uuid
  ownerAddress : Address
  deriving DecidableEq, Repr

structure MemberRow where
  dataroomId : Uuid
  poolId : Uuid
  memberAddress : Address
  role : UInt8
  addedByAddress : Address
  isActive : Bool
  deriving DecidableEq, Repr

structure DocumentRow where
  id : Uuid
  suiObjectId : ID
  poolId : Uuid
  dataroomId : Uuid
  folderId : Nat
  docType : UInt8
  title : MoveString
  currentVersion : Nat
  versionCount : Nat
  requiredFlag : Bool := false
  encryptionScheme : UInt8
  deriving DecidableEq, Repr

structure VersionRow where
  documentId : Uuid
  version : Nat
  walrusBlobId : MoveString
  contentHash : List UInt8
  uploadedByAddress : Address
  deriving DecidableEq, Repr

structure ReviewRow where
  documentId : Uuid
  reviewerAddress : Address
  status : UInt8
  deriving DecidableEq, Repr

structure IcDecisionRow where
  poolId : Uuid
  decisionIndex : Nat
  decisionType : UInt8
  createdByAddress : Address
  deriving DecidableEq, Repr

/-- `event_type`: the name of the event, with the action for the generic one. -/
inductive AuditType where
  | poolCreated
  | poolStateChanged
  | dataRoomCreated
  | memberAdded
  | memberRemoved
  | memberRoleUpdated
  | documentCreated
  | documentVersionAdded
  | documentReviewed
  | icDecisionCreated
  | auditEvent (actionType : UInt8)
  deriving DecidableEq, Repr

/-- `metadata`, a JSON object of one shape for each handler. -/
inductive Metadata where
  | empty
  | pool (name : MoveString) (encryptionScheme : UInt8)
  | transition (fromState toState : UInt8)
  | memberAdded (role : UInt8) (dataroomId : ID)
  | memberRemoved (dataroomId : ID)
  | roles (oldRole newRole : UInt8)
  | document (title : MoveString) (folderId : Nat)
  | version (version : Nat)
  | review (status : UInt8)
  | decision (decisionIndex : Nat) (decisionType : UInt8)
  | metadataHash (hash : Option (List UInt8))
  deriving DecidableEq, Repr

structure AuditRow where
  poolId : Option Uuid
  eventType : AuditType
  actorAddress : Address
  targetId : Option Nat
  metadata : Metadata
  suiTxDigest : Nat
  suiEventSeq : Nat
  deriving DecidableEq, Repr

/-- The key of `idx_audit_tx_seq`. -/
def AuditRow.eventId (r : AuditRow) : EventId := ⟨r.suiTxDigest, r.suiEventSeq⟩

/-- The key of `idx_members_dataroom_address`. -/
def MemberRow.key (r : MemberRow) : Uuid × Address := (r.dataroomId, r.memberAddress)

/-- The key of `idx_docversions_doc_version`. -/
def VersionRow.key (r : VersionRow) : Uuid × Nat := (r.documentId, r.version)

/-- The key of `idx_reviews_doc_reviewer`. -/
def ReviewRow.key (r : ReviewRow) : Uuid × Address := (r.documentId, r.reviewerAddress)

/-- The key of `idx_ic_pool_index`. -/
def IcDecisionRow.key (r : IcDecisionRow) : Uuid × Nat := (r.poolId, r.decisionIndex)

/-- The tables. How long an entry for a text is in an index is up to PostgreSQL, which compresses long ones. -/
structure Db where
  organizations : List Uuid
  pools : List PoolRow
  datarooms : List DataroomRow
  members : List MemberRow
  documents : List DocumentRow
  documentVersions : List VersionRow
  documentReviews : List ReviewRow
  icDecisions : List IcDecisionRow
  auditEvents : List AuditRow
  /-- The bytes of the entry for a blob id in `idx_docversions_blob`. -/
  blobEntrySize : MoveString → Nat

namespace Db

/-- The entry of a text that is not compressed: a header of eight bytes, a length of four and the text, in units of eight bytes. -/
def plainEntrySize (text : MoveString) : Nat := (12 + text.length + 7) / 8 * 8

/-- An entry of a b-tree has to leave room for three on a page. -/
def maxEntrySize : Nat := 2704

/-- Tables that hold nothing but organisations, where no text is compressed. -/
def empty (organizations : List Uuid) : Db :=
  { organizations, pools := [], datarooms := [], members := [], documents := [], documentVersions := [],
    documentReviews := [], icDecisions := [], auditEvents := [], blobEntrySize := plainEntrySize }

def hasPoolId (db : Db) (id : Uuid) : Bool := db.pools.any fun r => r.id = id
def hasDataroomId (db : Db) (id : Uuid) : Bool := db.datarooms.any fun r => r.id = id
def hasDocumentId (db : Db) (id : Uuid) : Bool := db.documents.any fun r => r.id = id

end Db

/-! ## Errors -/

/-- The foreign keys of the tables. -/
inductive ForeignKey where
  | poolsOrg
  | dataroomsPool
  | membersDataroom
  | membersPool
  | documentsPool
  | documentsDataroom
  | versionsDocument
  | reviewsDocument
  | icDecisionsPool
  | auditPool
  deriving DecidableEq, Repr

/-- The table a foreign key is on, and its name. -/
def ForeignKey.names : ForeignKey → String × String
  | .poolsOrg => ("pools", "pools_org_id_organizations_id_fk")
  | .dataroomsPool => ("datarooms", "datarooms_pool_id_pools_id_fk")
  | .membersDataroom => ("members", "members_dataroom_id_datarooms_id_fk")
  | .membersPool => ("members", "members_pool_id_pools_id_fk")
  | .documentsPool => ("documents", "documents_pool_id_pools_id_fk")
  | .documentsDataroom => ("documents", "documents_dataroom_id_datarooms_id_fk")
  | .versionsDocument => ("document_versions", "document_versions_document_id_documents_id_fk")
  | .reviewsDocument => ("document_reviews", "document_reviews_document_id_documents_id_fk")
  | .icDecisionsPool => ("ic_decisions", "ic_decisions_pool_id_pools_id_fk")
  | .auditPool => ("audit_events", "audit_events_pool_id_pools_id_fk")

/-- The check constraints of the tables. -/
inductive CheckConstraint where
  | poolState
  | encryptionScheme
  | memberRole
  | docEncryption
  | versionPositive
  | reviewStatus
  deriving DecidableEq, Repr

def CheckConstraint.names : CheckConstraint → String × String
  | .poolState => ("pools", "chk_pool_state")
  | .encryptionScheme => ("pools", "chk_encryption_scheme")
  | .memberRole => ("members", "chk_member_role")
  | .docEncryption => ("documents", "chk_doc_encryption")
  | .versionPositive => ("document_versions", "chk_version_positive")
  | .reviewStatus => ("document_reviews", "chk_review_status")

/-- The errors the statements below can end in. A unique violation is not among them: every insert says what to do on a conflict. A number
that is sent for a column, and one that an increment comes to, are refused with texts of their own. -/
inductive DbError where
  | foreignKey (fk : ForeignKey)
  | check (c : CheckConstraint)
  | nullByte
  | integerValue (n : Nat)
  | bigintValue (n : Nat)
  | integerSum
  | indexRowSize (size : Nat)
  deriving DecidableEq, Repr

/-- The text of the error. -/
def DbError.message : DbError → String
  | .foreignKey fk =>
    "insert or update on table \"" ++ fk.names.1 ++ "\" violates foreign key constraint \"" ++ fk.names.2 ++ "\""
  | .check c => "new row for relation \"" ++ c.names.1 ++ "\" violates check constraint \"" ++ c.names.2 ++ "\""
  | .nullByte => "invalid byte sequence for encoding \"UTF8\": 0x00"
  | .integerValue n => "value \"" ++ toString n ++ "\" is out of range for type integer"
  | .bigintValue n => "value \"" ++ toString n ++ "\" is out of range for type bigint"
  | .integerSum => "integer out of range"
  | .indexRowSize size =>
    "index row size " ++ toString size ++ " exceeds btree version 4 maximum 2704 for index \"idx_docversions_blob\""

/-! ## Statements -/

/-- The statements that write. Each names its table and the row or the columns it sets. -/
inductive Stmt where
  | insertPool (row : PoolRow)
  | updatePoolState (suiObjectId : ID) (currentState : UInt8) (suiTxDigest : Nat)
  | insertDataroom (row : DataroomRow)
  | upsertMember (row : MemberRow)
  | deactivateMember (dataroomId : Uuid) (memberAddress : Address)
  | updateMemberRole (dataroomId : Uuid) (memberAddress : Address) (role : UInt8)
  | insertDocument (row : DocumentRow)
  | updateVersionInfo (suiObjectId : ID) (currentVersion : Nat)
  | insertVersion (row : VersionRow)
  | upsertReview (row : ReviewRow)
  | insertIcDecision (row : IcDecisionRow)
  | insertAudit (row : AuditRow)
  deriving DecidableEq, Repr

namespace Stmt

/-- The columns `updateStateFromEvent` sets. -/
def setState (currentState : UInt8) (suiTxDigest : Nat) (r : PoolRow) : PoolRow :=
  { r with currentState, suiTxDigest := some suiTxDigest }

/-- The columns `upsertFromEvent` of the members sets on a conflict. -/
def setMember (role : UInt8) (addedByAddress : Address) (r : MemberRow) : MemberRow :=
  { r with role, isActive := true, addedByAddress }

/-- The columns `updateVersionInfo` sets: the counter by an increment. -/
def setVersionInfo (currentVersion : Nat) (r : DocumentRow) : DocumentRow :=
  { r with currentVersion, versionCount := r.versionCount + 1 }

/-- The effect of a statement that passes the checks of its table. -/
def act (db : Db) : Stmt → Db
  | insertPool row => { db with pools := Rows.insertNew PoolRow.suiObjectId row db.pools }
  | updatePoolState k state digest =>
    { db with pools := Rows.updateAt PoolRow.suiObjectId k (setState state digest) db.pools }
  | insertDataroom row => { db with datarooms := Rows.insertNew DataroomRow.suiObjectId row db.datarooms }
  | upsertMember row =>
    { db with members := Rows.upsert MemberRow.key row (setMember row.role row.addedByAddress) db.members }
  | deactivateMember room a =>
    { db with members := Rows.updateAt MemberRow.key (room, a) (fun r => { r with isActive := false }) db.members }
  | updateMemberRole room a role =>
    { db with members := Rows.updateAt MemberRow.key (room, a) (fun r => { r with role }) db.members }
  | insertDocument row => { db with documents := Rows.insertNew DocumentRow.suiObjectId row db.documents }
  | updateVersionInfo k version =>
    { db with documents := Rows.updateAt DocumentRow.suiObjectId k (setVersionInfo version) db.documents }
  | insertVersion row => { db with documentVersions := Rows.insertNew VersionRow.key row db.documentVersions }
  | upsertReview row =>
    { db with
      documentReviews := Rows.upsert ReviewRow.key row (fun r => { r with status := row.status }) db.documentReviews }
  | insertIcDecision row => { db with icDecisions := Rows.insertNew IcDecisionRow.key row db.icDecisions }
  | insertAudit row => { db with auditEvents := Rows.insertNew AuditRow.eventId row db.auditEvents }

end Stmt

instance : Statements Stmt Db := ⟨Stmt.act⟩

/-- A program of the indexer against the database. -/
abbrev DbM (α : Type) := Script Stmt Db DbError α

end BrineVault
