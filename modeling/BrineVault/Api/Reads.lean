import BrineVault.Api.Audit
import BrineVault.Indexer.MemberCache

/-!
# Reading a pool

The services that read a pool, its room, its documents and its audit trail. Each looks at the organisation of the caller; only `getPool` looks at the
caller's membership in the room of the pool.
-/

namespace BrineVault

/-! ## The repositories -/

def MembersRepository.findByDataroomAndAddress (db : Db) (dataroomId : Uuid) (memberAddress : Address) : Option MemberRow :=
  db.members.find? fun r => r.dataroomId = dataroomId ∧ r.memberAddress = memberAddress

def DocumentsRepository.findById (db : Db) (id : Uuid) : Option DocumentRow := db.documents.find? fun r => r.id = id

/-- The rows of a pool, newest first; `order` is the order the database gives them. -/
def DocumentsRepository.findByPoolId (order : List DocumentRow → List DocumentRow) (db : Db) (poolId : Uuid) (limit offset : Nat) :
    List DocumentRow :=
  ((order (db.documents.filter fun r => r.poolId = poolId)).drop offset).take limit

def DocumentsRepository.countByPoolId (db : Db) (poolId : Uuid) : Nat := db.documents.countP fun r => r.poolId = poolId

/-- The versions of a document, by number. -/
def DocumentVersionsRepository.findByDocumentId (db : Db) (documentId : Uuid) : List VersionRow :=
  (db.documentVersions.filter fun r => r.documentId = documentId).mergeSort fun a b => a.version ≤ b.version

def DocumentVersionsRepository.findByDocumentAndVersion (db : Db) (documentId : Uuid) (version : Nat) : Option VersionRow :=
  db.documentVersions.find? fun r => r.documentId = documentId ∧ r.version = version

def DocumentReviewsRepository.findByDocumentId (db : Db) (documentId : Uuid) : List ReviewRow :=
  db.documentReviews.filter fun r => r.documentId = documentId

/-! ## The services -/

/-- Who calls: the address and the organisation of the token. -/
structure Caller where
  address : Address
  orgId : Option Uuid
  deriving DecidableEq, Repr

/-- A page of rows. The audit trail is paged without a total. -/
structure Paged (α : Type) where
  data : List α
  total : Option Nat
  page : Nat
  limit : Nat
  deriving DecidableEq, Repr

structure ReviewSummary where
  total : Nat
  approved : Nat
  needsRevision : Nat
  rejected : Nat
  deriving DecidableEq, Repr

/-- The lines every service begins with: the pool exists, and the caller is of its organisation. -/
def poolInOrg (db : Db) (poolId : Uuid) (userOrgId : Option Uuid) : Except HttpException PoolRow :=
  match PoolsRepository.findById db poolId with
  | none => .error (NotFoundException "POOL_NOT_FOUND" "Pool not found")
  | some pool =>
    if userOrgId ≠ some pool.orgId then .error (ForbiddenException "NOT_IN_ORG" "Not a member of this organization")
    else .ok pool

/-- The lines the services on a document go on with: the document exists, in this pool. -/
def documentInPool (db : Db) (poolId docId : Uuid) : Except HttpException DocumentRow :=
  match DocumentsRepository.findById db docId with
  | none => .error (NotFoundException "DOCUMENT_NOT_FOUND" "Document not found")
  | some doc =>
    if doc.poolId ≠ poolId then .error (NotFoundException "DOCUMENT_NOT_FOUND" "Document not found") else .ok doc

def PoolsService.getPool (db : Db) (poolId : Uuid) (userAddress : Address) (userOrgId : Option Uuid) :
    Except HttpException PoolRow := do
  let pool ← poolInOrg db poolId userOrgId
  match db.roomOfPool poolId with
  | none => return pool
  | some dataroom =>
    match MembersRepository.findByDataroomAndAddress db dataroom.id userAddress with
    | none => .error (ForbiddenException "NOT_DATAROOM_MEMBER" "Not a member of this dataroom")
    | some membership =>
      if membership.isActive = false then .error (ForbiddenException "NOT_DATAROOM_MEMBER" "Not a member of this dataroom")
      else return pool

/-- The caller's address is an argument that the service does not look at. -/
def DataroomsService.getDataroom (db : Db) (poolId : Uuid) (_userAddress : Address) (userOrgId : Option Uuid) :
    Except HttpException (DataroomRow × List MemberRow) := do
  let _ ← poolInOrg db poolId userOrgId
  match db.roomOfPool poolId with
  | none => .error (NotFoundException "DATAROOM_NOT_FOUND" "Dataroom not found")
  | some dataroom => return (dataroom, MembersRepository.findActiveByPoolId db poolId)

def DocumentsService.listDocuments (order : List DocumentRow → List DocumentRow) (db : Db) (poolId : Uuid)
    (userOrgId : Option Uuid) (page limit : Nat) : Except HttpException (Paged DocumentRow) := do
  let _ ← poolInOrg db poolId userOrgId
  let offset := (page - 1) * limit
  return { data := DocumentsRepository.findByPoolId order db poolId limit offset,
           total := some (DocumentsRepository.countByPoolId db poolId), page, limit }

def DocumentsService.getDocument (db : Db) (poolId docId : Uuid) (userOrgId : Option Uuid) : Except HttpException DocumentRow := do
  let _ ← poolInOrg db poolId userOrgId
  documentInPool db poolId docId

def DocumentsService.getDocumentVersions (db : Db) (poolId docId : Uuid) (userOrgId : Option Uuid) :
    Except HttpException (List VersionRow) := do
  let _ ← poolInOrg db poolId userOrgId
  let _ ← documentInPool db poolId docId
  return DocumentVersionsRepository.findByDocumentId db docId

def DocumentsService.getDocumentVersion (db : Db) (poolId docId : Uuid) (version : Nat) (userOrgId : Option Uuid) :
    Except HttpException VersionRow := do
  let _ ← poolInOrg db poolId userOrgId
  let _ ← documentInPool db poolId docId
  match DocumentVersionsRepository.findByDocumentAndVersion db docId version with
  | none => .error (NotFoundException "VERSION_NOT_FOUND" "Document version not found")
  | some docVersion => return docVersion

def ReviewsService.listReviews (db : Db) (poolId docId : Uuid) (userOrgId : Option Uuid) :
    Except HttpException (List ReviewRow) := do
  let _ ← poolInOrg db poolId userOrgId
  let _ ← documentInPool db poolId docId
  return DocumentReviewsRepository.findByDocumentId db docId

/-- The summary counts the statuses from 0 on, while a stored status is that of the package. -/
def ReviewsService.getReviewSummary (db : Db) (poolId docId : Uuid) (userOrgId : Option Uuid) :
    Except HttpException ReviewSummary := do
  let _ ← poolInOrg db poolId userOrgId
  let _ ← documentInPool db poolId docId
  let reviews := DocumentReviewsRepository.findByDocumentId db docId
  return { total := reviews.length, approved := reviews.countP fun r => r.status = 0,
           needsRevision := reviews.countP fun r => r.status = 1, rejected := reviews.countP fun r => r.status = 2 }

def AuditService.getPoolAudit (order : List AuditRow → List AuditRow) (db : Db) (poolId : Uuid) (userOrgId : Option Uuid)
    (page limit : Nat) : Except HttpException (Paged AuditRow) := do
  let _ ← poolInOrg db poolId userOrgId
  let offset := (page - 1) * limit
  return { data := AuditEventsRepository.findByPoolId order db poolId limit offset, total := none, page, limit }

/-! ## Requests -/

/-- A request of one of the services, with its arguments besides the pool and the caller. -/
inductive Read where
  | getPool
  | getDataroom
  | listDocuments (page limit : Nat)
  | getDocument (docId : Uuid)
  | getDocumentVersions (docId : Uuid)
  | getDocumentVersion (docId : Uuid) (version : Nat)
  | listReviews (docId : Uuid)
  | getReviewSummary (docId : Uuid)
  | getPoolAudit (page limit : Nat)
  deriving DecidableEq, Repr

/-- What a service returns. -/
inductive Shown where
  | pool (row : PoolRow)
  | dataroom (row : DataroomRow) (members : List MemberRow)
  | documents (page : Paged DocumentRow)
  | document (row : DocumentRow)
  | versions (rows : List VersionRow)
  | version (row : VersionRow)
  | reviews (rows : List ReviewRow)
  | summary (s : ReviewSummary)
  | auditEvents (page : Paged AuditRow)
  deriving DecidableEq, Repr

/-- The orders the database gives the rows of the two listings with a page. -/
structure Orders where
  documents : List DocumentRow → List DocumentRow
  auditEvents : List AuditRow → List AuditRow

def Read.answer (orders : Orders) (db : Db) (poolId : Uuid) (user : Caller) : Read → Except HttpException Shown
  | .getPool => (PoolsService.getPool db poolId user.address user.orgId).map .pool
  | .getDataroom => (DataroomsService.getDataroom db poolId user.address user.orgId).map fun r => .dataroom r.1 r.2
  | .listDocuments page limit =>
    (DocumentsService.listDocuments orders.documents db poolId user.orgId page limit).map .documents
  | .getDocument docId => (DocumentsService.getDocument db poolId docId user.orgId).map .document
  | .getDocumentVersions docId => (DocumentsService.getDocumentVersions db poolId docId user.orgId).map .versions
  | .getDocumentVersion docId version =>
    (DocumentsService.getDocumentVersion db poolId docId version user.orgId).map .version
  | .listReviews docId => (ReviewsService.listReviews db poolId docId user.orgId).map .reviews
  | .getReviewSummary docId => (ReviewsService.getReviewSummary db poolId docId user.orgId).map .summary
  | .getPoolAudit page limit => (AuditService.getPoolAudit orders.auditEvents db poolId user.orgId page limit).map .auditEvents

/-- The document a request names. -/
def Read.docId : Read → Option Uuid
  | .getDocument docId | .getDocumentVersions docId | .getDocumentVersion docId _ | .listReviews docId
  | .getReviewSummary docId => some docId
  | _ => none

/-- The version a request names. -/
def Read.version : Read → Option (Uuid × Nat)
  | .getDocumentVersion docId version => some (docId, version)
  | _ => none

/-- The address has an active row in the members of the pool's room. -/
def ActiveMember (db : Db) (poolId : Uuid) (address : Address) : Prop :=
  ∃ room ∈ db.datarooms, room.poolId = poolId ∧
    ∃ m ∈ db.members, m.dataroomId = room.id ∧ m.memberAddress = address ∧ m.isActive = true

/-- The caller is of the organisation of the pool. -/
def OfPoolsOrg (db : Db) (poolId : Uuid) (user : Caller) : Prop :=
  ∃ pool, PoolsRepository.findById db poolId = some pool ∧ user.orgId = some pool.orgId

/-- What the request asks for is there: the document it names is in the pool, and so is the version. -/
def Read.Present (db : Db) (poolId : Uuid) (r : Read) : Prop :=
  (∀ docId, r.docId = some docId → ∃ doc, DocumentsRepository.findById db docId = some doc ∧ doc.poolId = poolId) ∧
    ∀ docId version, r.version = some (docId, version) →
      ∃ row, DocumentVersionsRepository.findByDocumentAndVersion db docId version = some row

/-! ## Who is answered -/

/-- A mapped result comes from a result. -/
theorem map_eq_ok {ε α β : Type} {x : Except ε α} {f : α → β} {b : β} : x.map f = .ok b ↔ ∃ a, x = .ok a ∧ f a = b := by
  cases x <;> simp [Except.map]

variable {orders : Orders} {db db' : Db} {poolId : Uuid} {user : Caller}

/-- The pool of an organisation is found by its id and belongs to it. -/
theorem poolInOrg_eq_ok {userOrgId : Option Uuid} {pool : PoolRow} :
    poolInOrg db poolId userOrgId = .ok pool ↔
      PoolsRepository.findById db poolId = some pool ∧ userOrgId = some pool.orgId := by
  unfold poolInOrg
  split
  · rename_i hnone
    simp [hnone]
  · rename_i row hrow
    by_cases horg : userOrgId = some row.orgId
    · simp only [horg, ne_eq, not_true_eq_false, if_false, hrow, Except.ok.injEq, Option.some.injEq]
      constructor
      · rintro rfl
        exact ⟨rfl, rfl⟩
      · exact And.left
    · simp only [horg, ne_eq, not_false_eq_true, if_true, hrow, reduceCtorEq, Option.some.injEq, false_iff, not_and]
      rintro rfl
      exact horg

/-- The document of a pool is found by its id and belongs to it. -/
theorem documentInPool_eq_ok {docId : Uuid} {doc : DocumentRow} :
    documentInPool db poolId docId = .ok doc ↔ DocumentsRepository.findById db docId = some doc ∧ doc.poolId = poolId := by
  unfold documentInPool
  split
  · rename_i hnone
    simp [hnone]
  · rename_i row hrow
    by_cases hpool : row.poolId = poolId
    · simp only [hpool, ne_eq, not_true_eq_false, if_false, hrow, Except.ok.injEq, Option.some.injEq]
      constructor
      · rintro rfl
        exact ⟨rfl, hpool⟩
      · exact And.left
    · simp only [hpool, ne_eq, not_false_eq_true, if_true, hrow, reduceCtorEq, Option.some.injEq, false_iff, not_and]
      rintro rfl
      exact hpool

/-- `getPool` answers an active member of the room only. -/
theorem activeMember_of_getPool (hroom : ∃ room ∈ db.datarooms, room.poolId = poolId) {address : Address}
    {userOrgId : Option Uuid} {pool : PoolRow} (h : PoolsService.getPool db poolId address userOrgId = .ok pool) :
    ActiveMember db poolId address := by
  simp only [PoolsService.getPool, Move.bind_eq_ok] at h
  obtain ⟨_, _, h⟩ := h
  split at h
  · rename_i hnone
    obtain ⟨room, hmem, hpool⟩ := hroom
    have := List.find?_eq_none.1 hnone room hmem
    simp [hpool] at this
  · rename_i room hfind
    have hmem := List.mem_of_find?_eq_some hfind
    have hpool : room.poolId = poolId := by simpa using List.find?_some hfind
    split at h
    · cases h
    · rename_i m hm
      have hmm := List.mem_of_find?_eq_some hm
      have hkey : m.dataroomId = room.id ∧ m.memberAddress = address := by simpa using List.find?_some hm
      split at h
      · cases h
      · rename_i hactive
        exact ⟨room, hmem, hpool, m, hmm, hkey.1, hkey.2, by simpa using hactive⟩

/-- Every other service answers whoever is of the pool's organisation, where what is asked for is there. -/
theorem answer_of_present (hroom : ∃ room ∈ db.datarooms, room.poolId = poolId) {r : Read} (hr : r ≠ .getPool)
    (horg : OfPoolsOrg db poolId user) (hp : r.Present db poolId) : ∃ shown, r.answer orders db poolId user = .ok shown := by
  obtain ⟨pool, hpool⟩ := horg
  have hin : poolInOrg db poolId user.orgId = .ok pool := poolInOrg_eq_ok.2 hpool
  have hdoc : ∀ docId, r.docId = some docId → ∃ doc, documentInPool db poolId docId = .ok doc := by
    intro docId hd
    obtain ⟨doc, hfind, hof⟩ := hp.1 docId hd
    exact ⟨doc, documentInPool_eq_ok.2 ⟨hfind, hof⟩⟩
  cases r with
  | getPool => exact absurd rfl hr
  | getDataroom =>
    have hsome : (db.roomOfPool poolId).isSome = true := by
      obtain ⟨room, hmem, hof⟩ := hroom
      rw [Db.roomOfPool, List.find?_isSome]
      exact ⟨room, hmem, by simpa using hof⟩
    obtain ⟨room, hfind⟩ := Option.isSome_iff_exists.1 hsome
    refine ⟨.dataroom room (MembersRepository.findActiveByPoolId db poolId), ?_⟩
    simp only [Read.answer, DataroomsService.getDataroom, hin, hfind]
    rfl
  | listDocuments page limit =>
    simp only [Read.answer, DocumentsService.listDocuments, hin]
    exact ⟨_, rfl⟩
  | getDocument docId =>
    obtain ⟨doc, hd⟩ := hdoc docId rfl
    refine ⟨.document doc, ?_⟩
    simp only [Read.answer, DocumentsService.getDocument, hin]
    rw [show (do let _ ← Except.ok pool; documentInPool db poolId docId) = documentInPool db poolId docId from rfl, hd]
    rfl
  | getDocumentVersions docId =>
    obtain ⟨doc, hd⟩ := hdoc docId rfl
    simp only [Read.answer, DocumentsService.getDocumentVersions, hin, hd]
    exact ⟨_, rfl⟩
  | getDocumentVersion docId version =>
    obtain ⟨doc, hd⟩ := hdoc docId rfl
    obtain ⟨row, hrow⟩ := hp.2 docId version rfl
    refine ⟨.version row, ?_⟩
    simp only [Read.answer, DocumentsService.getDocumentVersion, hin, hd, hrow]
    rfl
  | listReviews docId =>
    obtain ⟨doc, hd⟩ := hdoc docId rfl
    simp only [Read.answer, ReviewsService.listReviews, hin, hd]
    exact ⟨_, rfl⟩
  | getReviewSummary docId =>
    obtain ⟨doc, hd⟩ := hdoc docId rfl
    simp only [Read.answer, ReviewsService.getReviewSummary, hin, hd]
    exact ⟨_, rfl⟩
  | getPoolAudit page limit =>
    simp only [Read.answer, AuditService.getPoolAudit, hin]
    exact ⟨_, rfl⟩

/-- What is done after the first check is done for users of the pool's organisation only. -/
theorem ofPoolsOrg_of_bind {α : Type} {k : PoolRow → Except HttpException α} {a : α}
    (h : (poolInOrg db poolId user.orgId >>= k) = .ok a) : OfPoolsOrg db poolId user ∧ ∃ pool, k pool = .ok a := by
  obtain ⟨pool, hin, hk⟩ := Move.bind_eq_ok.1 h
  exact ⟨⟨pool, poolInOrg_eq_ok.1 hin⟩, pool, hk⟩

/-- What goes on after the look-up of a document has found it. -/
theorem document_of_bind {α : Type} {docId : Uuid} {k : DocumentRow → Except HttpException α} {a : α}
    (h : (documentInPool db poolId docId >>= k) = .ok a) :
    (∃ doc, DocumentsRepository.findById db docId = some doc ∧ doc.poolId = poolId) ∧ ∃ doc, k doc = .ok a := by
  obtain ⟨doc, hin, hk⟩ := Move.bind_eq_ok.1 h
  exact ⟨⟨doc, documentInPool_eq_ok.1 hin⟩, doc, hk⟩

/-- A read that names nothing else needs the pool only. -/
theorem present_of_names_nothing {r : Read} (hd : r.docId = none) (hv : r.version = none) : r.Present db poolId := by
  refine ⟨fun docId he => ?_, fun docId version he => ?_⟩
  · rw [hd] at he
    cases he
  · rw [hv] at he
    cases he

/-- A read that names a document needs that document in the pool. -/
theorem present_of_names_document {r : Read} {docId : Uuid} (hd : r.docId = some docId) (hv : r.version = none)
    (hdoc : ∃ doc, DocumentsRepository.findById db docId = some doc ∧ doc.poolId = poolId) : r.Present db poolId := by
  refine ⟨fun d he => ?_, fun d version he => ?_⟩
  · rw [hd, Option.some.injEq] at he
    exact he ▸ hdoc
  · rw [hv] at he
    cases he

/-- Whoever is answered is of the pool's organisation, and what is asked for is there. -/
theorem present_of_answer {r : Read} {shown : Shown} (h : r.answer orders db poolId user = .ok shown) :
    OfPoolsOrg db poolId user ∧ r.Present db poolId := by
  -- Only the requests that name a document, and among them the one that names a version, look for anything.
  cases r with
  | getPool =>
    obtain ⟨_, hk, _⟩ := map_eq_ok.1 h
    exact ⟨(ofPoolsOrg_of_bind hk).1, present_of_names_nothing rfl rfl⟩
  | getDataroom =>
    obtain ⟨_, hk, _⟩ := map_eq_ok.1 h
    exact ⟨(ofPoolsOrg_of_bind hk).1, present_of_names_nothing rfl rfl⟩
  | listDocuments page limit =>
    obtain ⟨_, hk, _⟩ := map_eq_ok.1 h
    exact ⟨(ofPoolsOrg_of_bind hk).1, present_of_names_nothing rfl rfl⟩
  | getDocument docId =>
    obtain ⟨_, hk, _⟩ := map_eq_ok.1 h
    obtain ⟨ho, _, hk⟩ := ofPoolsOrg_of_bind hk
    exact ⟨ho, present_of_names_document rfl rfl ⟨_, documentInPool_eq_ok.1 hk⟩⟩
  | getDocumentVersions docId =>
    obtain ⟨_, hk, _⟩ := map_eq_ok.1 h
    obtain ⟨ho, _, hk⟩ := ofPoolsOrg_of_bind hk
    exact ⟨ho, present_of_names_document rfl rfl (document_of_bind hk).1⟩
  | getDocumentVersion docId version =>
    obtain ⟨_, hk, _⟩ := map_eq_ok.1 h
    obtain ⟨ho, _, hk⟩ := ofPoolsOrg_of_bind hk
    obtain ⟨hd, _, hk⟩ := document_of_bind hk
    split at hk
    · cases hk
    · rename_i row hrow
      refine ⟨ho, fun d he => ?_, fun d v he => ?_⟩
      · rw [Read.docId, Option.some.injEq] at he
        exact he ▸ hd
      · rw [Read.version, Option.some.injEq, Prod.mk.injEq] at he
        exact ⟨row, by rw [← he.1, ← he.2, hrow]⟩
  | listReviews docId =>
    obtain ⟨_, hk, _⟩ := map_eq_ok.1 h
    obtain ⟨ho, _, hk⟩ := ofPoolsOrg_of_bind hk
    exact ⟨ho, present_of_names_document rfl rfl (document_of_bind hk).1⟩
  | getReviewSummary docId =>
    obtain ⟨_, hk, _⟩ := map_eq_ok.1 h
    obtain ⟨ho, _, hk⟩ := ofPoolsOrg_of_bind hk
    exact ⟨ho, present_of_names_document rfl rfl (document_of_bind hk).1⟩
  | getPoolAudit page limit =>
    obtain ⟨_, hk, _⟩ := map_eq_ok.1 h
    exact ⟨(ofPoolsOrg_of_bind hk).1, present_of_names_nothing rfl rfl⟩

/-! ## Two states -/

/-- What the first check refuses, every service refuses. -/
theorem answer_of_error {r : Read} {e : HttpException} (h : poolInOrg db poolId user.orgId = .error e) :
    r.answer orders db poolId user = .error e := by
  cases r <;>
    simp only [Read.answer, PoolsService.getPool, DataroomsService.getDataroom, DocumentsService.listDocuments,
      DocumentsService.getDocument, DocumentsService.getDocumentVersions, DocumentsService.getDocumentVersion,
      ReviewsService.listReviews, ReviewsService.getReviewSummary, AuditService.getPoolAudit, h] <;> rfl

/-- `getPool` tells somebody who is not a member nothing but that. -/
theorem getPool_of_not_member (hroom : ∃ room ∈ db.datarooms, room.poolId = poolId) (hm : ¬ ActiveMember db poolId user.address)
    (horg : OfPoolsOrg db poolId user) :
    Read.getPool.answer orders db poolId user =
      .error (ForbiddenException "NOT_DATAROOM_MEMBER" "Not a member of this dataroom") := by
  obtain ⟨pool, hpool⟩ := horg
  have hin : poolInOrg db poolId user.orgId = .ok pool := poolInOrg_eq_ok.2 hpool
  cases hg : PoolsService.getPool db poolId user.address user.orgId with
  | ok row => exact absurd (activeMember_of_getPool hroom hg) hm
  | error e =>
    simp only [Read.answer, hg]
    simp only [PoolsService.getPool, hin, Move.bind_eq_error, reduceCtorEq, false_or] at hg
    obtain ⟨_, _, hg⟩ := hg
    split at hg
    · cases hg
    · split at hg
      · cases hg
        rfl
      · split at hg
        · cases hg
          rfl
        · cases hg

/-- The first check looks at the organisation of the pool only. -/
theorem poolInOrg_congr (hp : (PoolsRepository.findById db poolId).map PoolRow.orgId =
      (PoolsRepository.findById db' poolId).map PoolRow.orgId) (userOrgId : Option Uuid) :
    (∃ e, poolInOrg db poolId userOrgId = .error e ∧ poolInOrg db' poolId userOrgId = .error e) ∨
      ∃ pool pool', poolInOrg db poolId userOrgId = .ok pool ∧ poolInOrg db' poolId userOrgId = .ok pool' := by
  unfold poolInOrg
  cases h : PoolsRepository.findById db poolId with
  | none =>
    cases h' : PoolsRepository.findById db' poolId with
    | none => exact .inl ⟨_, rfl, rfl⟩
    | some pool' =>
      rw [h, h'] at hp
      cases hp
  | some pool =>
    cases h' : PoolsRepository.findById db' poolId with
    | none =>
      rw [h, h'] at hp
      cases hp
    | some pool' =>
      rw [h, h', Option.map_some, Option.map_some, Option.some.injEq] at hp
      by_cases horg : userOrgId = some pool'.orgId
      · exact .inr ⟨pool, pool', by simp [horg, hp], by simp [horg]⟩
      · exact .inl ⟨ForbiddenException "NOT_IN_ORG" "Not a member of this organization", by simp [horg, hp], by simp [horg]⟩

/-- Somebody who is not a member is told the same of two states of a pool by `getPool`, and, outside its organisation, by every
service. -/
theorem answer_eq_of_not_member (hp : (PoolsRepository.findById db poolId).map PoolRow.orgId =
      (PoolsRepository.findById db' poolId).map PoolRow.orgId) (hroom : ∃ room ∈ db.datarooms, room.poolId = poolId)
    (hroom' : ∃ room ∈ db'.datarooms, room.poolId = poolId) (hm : ¬ ActiveMember db poolId user.address)
    (hm' : ¬ ActiveMember db' poolId user.address) {r : Read} (hr : r = .getPool ∨ ¬ OfPoolsOrg db poolId user) :
    r.answer orders db poolId user = r.answer orders db' poolId user := by
  rcases poolInOrg_congr hp user.orgId with ⟨e, he, he'⟩ | ⟨pool, pool', hok, hok'⟩
  · rw [answer_of_error he, answer_of_error he']
  · have horg : OfPoolsOrg db poolId user := ⟨pool, poolInOrg_eq_ok.1 hok⟩
    have horg' : OfPoolsOrg db' poolId user := ⟨pool', poolInOrg_eq_ok.1 hok'⟩
    rcases hr with rfl | hr
    · rw [getPool_of_not_member hroom hm horg, getPool_of_not_member hroom' hm' horg']
    · exact absurd horg hr

/-! ## Membership -/

/-- A request about a pool with a room is answered to active members of the room only, if and only if the caller is one, or the request is `getPool`,
or the caller is not of the pool's organisation, or what is asked for is not there. Nor does `getPool`, or a service asked from
outside the organisation, tell two states of a pool apart to somebody who is a member in neither. -/
theorem reads_need_membership_iff (hroom : ∃ room ∈ db.datarooms, room.poolId = poolId) (r : Read) :
    ((∀ shown, r.answer orders db poolId user = .ok shown → ActiveMember db poolId user.address) ↔
      ActiveMember db poolId user.address ∨ r = .getPool ∨ ¬ OfPoolsOrg db poolId user ∨ ¬ r.Present db poolId) ∧
    ∀ db' : Db, (PoolsRepository.findById db poolId).map PoolRow.orgId =
        (PoolsRepository.findById db' poolId).map PoolRow.orgId →
      (∃ room ∈ db'.datarooms, room.poolId = poolId) → ¬ ActiveMember db poolId user.address →
      ¬ ActiveMember db' poolId user.address → (r = .getPool ∨ ¬ OfPoolsOrg db poolId user) →
      r.answer orders db poolId user = r.answer orders db' poolId user := by
  refine ⟨⟨fun h => ?_, fun h shown hs => ?_⟩, ?_⟩
  · by_contra hc
    rw [not_or, not_or, not_or, not_not, not_not] at hc
    obtain ⟨hm, hr, horg, hp⟩ := hc
    have hanswer : ∃ shown, r.answer orders db poolId user = .ok shown := answer_of_present hroom hr horg hp
    obtain ⟨shown, hs⟩ := hanswer
    exact hm (h shown hs)
  · obtain ⟨horg, hp⟩ := present_of_answer hs
    rcases h with hm | rfl | hn | hn
    · exact hm
    · obtain ⟨pool, hg, _⟩ := map_eq_ok.1 hs
      exact activeMember_of_getPool hroom hg
    · exact absurd horg hn
    · exact absurd hp hn
  · intro db' hp hroom' hm hm' hr
    exact answer_eq_of_not_member hp hroom hroom' hm hm' hr

/-- A pool with its room, of which nobody is a member, and a document. -/
def Sample.withDocument : Db :=
  { Sample.withPool with
    datarooms := [{ id := .given 1, suiObjectId := 3, poolId := .given 0, ownerAddress := 7 }]
    documents := [{ id := .given 2, suiObjectId := 5, poolId := .given 0, dataroomId := .given 1, folderId := 0, docType := 0,
                    title := [84], currentVersion := 1, versionCount := 1, encryptionScheme := 0 }] }

/-- A user of the organisation. -/
def Sample.colleague : Caller := { address := 9, orgId := some .zero }

/-- A colleague who is no member reads the pool. -/
theorem reads_need_membership_sample :
    (∀ shown, Read.getPool.answer ⟨id, id⟩ Sample.withDocument (.given 0) Sample.colleague = .ok shown →
      ActiveMember Sample.withDocument (.given 0) 9) ↔
    ActiveMember Sample.withDocument (.given 0) 9 ∨ Read.getPool = .getPool ∨
      ¬ OfPoolsOrg Sample.withDocument (.given 0) Sample.colleague ∨ ¬ Read.getPool.Present Sample.withDocument (.given 0) :=
  (@reads_need_membership_iff ⟨id, id⟩ Sample.withDocument (.given 0) Sample.colleague
    ⟨_, List.mem_cons_self .., rfl⟩ Read.getPool).1

/-- Nobody is a member of the room; a user of the organisation is listed the document all the same, and told a state with it from
one without. -/
theorem listDocuments_answers_nonmember :
    ¬ ActiveMember Sample.withDocument (.given 0) 9 ∧
      (Read.listDocuments 1 50).answer ⟨id, id⟩ Sample.withDocument (.given 0) Sample.colleague =
        .ok (.documents { data := Sample.withDocument.documents, total := some 1, page := 1, limit := 50 }) ∧
      (Read.listDocuments 1 50).answer ⟨id, id⟩ { Sample.withDocument with documents := [] } (.given 0) Sample.colleague ≠
        (Read.listDocuments 1 50).answer ⟨id, id⟩ Sample.withDocument (.given 0) Sample.colleague := by
  refine ⟨?_, rfl, by decide⟩
  rintro ⟨_, _, _, m, hm, _⟩
  cases hm

end BrineVault
