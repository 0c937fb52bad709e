import BrineVault.Contract.Events

/-!
# `document.move`: documents, their versions and their reviews

The dynamic fields of a document are two tables: its versions, keyed by number, and its reviews, keyed by reviewer. The functions
take the document and return it as they leave it, with the events they emit.
-/

namespace BrineVault

open Move

structure DocVersion where
  version : Nat
  walrusBlobId : MoveString
  contentHash : List UInt8
  sizeBytes : Nat
  uploadedBy : Address
  uploadedAt : Nat
  changeLog : MoveString
  deriving DecidableEq, Repr

structure ReviewRecord where
  reviewer : Address
  status : UInt8
  commentHash : Option (List UInt8)
  reviewedAt : Nat
  deriving DecidableEq, Repr

/-- The record is an approval. -/
def ReviewRecord.isApproval (r : ReviewRecord) : Bool := r.status == Types.reviewApproved

structure Document where
  id : ID
  poolId : ID
  folderId : Nat
  docType : UInt8
  title : MoveString
  currentVersion : Nat
  versionCount : Nat
  requiredFlag : Bool
  isArchived : Bool
  visibleToRoles : UInt8
  encryptionScheme : UInt8
  tags : List MoveString
  createdBy : Address
  createdAt : Nat
  lastUpdatedAt : Nat
  approvalCount : Nat
  versions : Table Nat DocVersion
  reviews : Table Address ReviewRecord

namespace Document

/-- The file a version is made of, as the caller describes it. -/
structure Upload where
  walrusBlobId : MoveString
  contentHash : List UInt8
  sizeBytes : Nat
  changeLog : MoveString
  deriving DecidableEq, Repr

/-- The version an upload becomes. -/
def Upload.toVersion (up : Upload) (version : Nat) (ctx : Ctx) : DocVersion :=
  { version, walrusBlobId := up.walrusBlobId, contentHash := up.contentHash, sizeBytes := up.sizeBytes,
    uploadedBy := ctx.sender, uploadedAt := ctx.now, changeLog := up.changeLog }

/-- `document::new`, with the id `object::new` gives it. -/
def new (id poolId : ID) (folderId : Nat) (docType : UInt8) (title : MoveString) (requiredFlag : Bool)
    (visibleToRoles encryptionScheme : UInt8) (tags : List MoveString) (up : Upload) (ctx : Ctx) : Exec Document := do
  assert (up.contentHash.length = 32) Errors.invalidContentHashLen
  Types.assertValidDocType docType
  let versions ← Table.add ∅ 1 (up.toVersion 1 ctx)
  return { id, poolId, folderId, docType, title, currentVersion := 1, versionCount := 1, requiredFlag, isArchived := false,
           visibleToRoles, encryptionScheme, tags, createdBy := ctx.sender, createdAt := ctx.now,
           lastUpdatedAt := ctx.now, approvalCount := 0, versions, reviews := ∅ }

/-- `document::add_version`. -/
def addVersion (doc : Document) (up : Upload) (ctx : Ctx) : Exec (Document × List Event) := do
  assert (doc.isArchived = false) Errors.documentArchived
  assert (up.contentHash.length = 32) Errors.invalidContentHashLen
  let newVersion ← addU64 doc.versionCount 1
  let versions ← Table.add doc.versions newVersion (up.toVersion newVersion ctx)
  return ({ doc with versions, currentVersion := newVersion, versionCount := newVersion, lastUpdatedAt := ctx.now },
    [.documentVersionAdded doc.poolId doc.id newVersion up.walrusBlobId up.contentHash ctx.sender ctx.now])

/-- The optional hash of a review comment is 32 bytes long. -/
def assertCommentHash : Option (List UInt8) → Exec Unit
  | none => .ok ()
  | some h => assert (h.length = 32) Errors.invalidContentHashLen

/-- How `submit_review` moves the counter when a record replaces another; a reviewer without a record has not approved. -/
def moveCount (count : Nat) (wasApproved isApproved : Bool) : Exec Nat :=
  if wasApproved && !isApproved then subU64 count 1
  else if !wasApproved && isApproved then addU64 count 1
  else .ok count

/-- `document::submit_review`: a reviewer's record is written over by the next one of the same reviewer. -/
def submitReview (doc : Document) (reviewer : Address) (status : UInt8) (commentHash : Option (List UInt8))
    (ctx : Ctx) : Exec (Document × List Event) := do
  assert (doc.isArchived = false) Errors.documentArchived
  Types.assertValidReviewStatus status
  assertCommentHash commentHash
  let record : ReviewRecord := { reviewer, status, commentHash, reviewedAt := ctx.now }
  let event := Event.documentReviewed doc.poolId doc.id reviewer status ctx.now
  match doc.reviews.lookup reviewer with
  | some existing =>
    let approvalCount ← moveCount doc.approvalCount existing.isApproval record.isApproval
    return ({ doc with reviews := doc.reviews.insert reviewer record, approvalCount, lastUpdatedAt := ctx.now }, [event])
  | none =>
    let reviews ← Table.add doc.reviews reviewer record
    let approvalCount ← moveCount doc.approvalCount false record.isApproval
    return ({ doc with reviews, approvalCount, lastUpdatedAt := ctx.now }, [event])

/-- `document::archive`. -/
def archive (doc : Document) (ctx : Ctx) : Document := { doc with isArchived := true, lastUpdatedAt := ctx.now }

/-- `document::set_required_flag`. -/
def setRequiredFlag (doc : Document) (required : Bool) (ctx : Ctx) : Document :=
  { doc with requiredFlag := required, lastUpdatedAt := ctx.now }

/-- `document::has_any_approval`. -/
def hasAnyApproval (doc : Document) : Bool := decide (doc.approvalCount > 0)

/-- `document::has_approved_review`. -/
def hasApprovedReview (doc : Document) (reviewer : Address) : Bool :=
  match doc.reviews.lookup reviewer with
  | none => false
  | some record => record.isApproval

/-- `document::current_version_uploader`. -/
def currentVersionUploader (doc : Document) : Exec Address := do
  let ver ← Table.borrow doc.versions doc.currentVersion
  return ver.uploadedBy

/-! ## What each function does -/

/-- What a new document needs and holds. -/
theorem new_ok {id poolId : ID} {folderId : Nat} {docType : UInt8} {title : MoveString} {requiredFlag : Bool}
    {visibleToRoles encryptionScheme : UInt8} {tags : List MoveString} {up : Upload} {ctx : Ctx} {doc : Document}
    (h : new id poolId folderId docType title requiredFlag visibleToRoles encryptionScheme tags up ctx = .ok doc) :
    up.contentHash.length = 32 ∧ docType ≤ 9 ∧
      doc = { id, poolId, folderId, docType, title, currentVersion := 1, versionCount := 1, requiredFlag,
              isArchived := false, visibleToRoles, encryptionScheme, tags, createdBy := ctx.sender, createdAt := ctx.now,
              lastUpdatedAt := ctx.now, approvalCount := 0, versions := (∅ : Table _ _).insert 1 (up.toVersion 1 ctx),
              reviews := ∅ } := by
  simp only [new, Types.assertValidDocType, bind_eq_ok, assert_eq_ok, pure_eq_ok, Table.add_eq_ok,
    Types.isValidDocType, decide_eq_true_eq, exists_and_left] at h
  obtain ⟨hh, hd, _, _, _, ⟨-, rfl⟩, rfl⟩ := h
  exact ⟨hh, hd, rfl⟩

theorem addVersion_ok {doc doc' : Document} {up : Upload} {ctx : Ctx} {evs : List Event}
    (h : doc.addVersion up ctx = .ok (doc', evs)) :
    doc.isArchived = false ∧ up.contentHash.length = 32 ∧ doc.versionCount + 1 < 2 ^ 64 ∧
      doc.versions.lookup (doc.versionCount + 1) = none ∧
      doc' = { doc with
        versions := doc.versions.insert (doc.versionCount + 1) (up.toVersion (doc.versionCount + 1) ctx)
        currentVersion := doc.versionCount + 1
        versionCount := doc.versionCount + 1
        lastUpdatedAt := ctx.now } ∧
      evs = [.documentVersionAdded doc.poolId doc.id (doc.versionCount + 1) up.walrusBlobId up.contentHash ctx.sender
        ctx.now] := by
  simp only [addVersion, bind_eq_ok, assert_eq_ok, pure_eq_ok, addU64_eq_ok, Table.add_eq_ok, Prod.mk.injEq] at h
  obtain ⟨_, ha, _, hh, _, ⟨hb, rfl⟩, _, ⟨hl, rfl⟩, rfl, rfl⟩ := h
  exact ⟨ha, hh, hb, hl, rfl, rfl⟩

/-- The counter moves by what the record says. -/
theorem moveCount_ok {count c : Nat} {was now : Bool} (h : moveCount count was now = .ok c) :
    c + (if was then 1 else 0) = count + (if now then 1 else 0) := by
  unfold moveCount at h
  cases was <;> cases now <;> simp_all [subU64_eq_ok, addU64_eq_ok]

/-- The two ways the counter can leave `u64`: counting down from zero, and counting up beyond the last value. -/
theorem moveCount_eq_arithmetic {count : Nat} {was now : Bool} (h : moveCount count was now = .error .arithmetic) :
    (was = true ∧ now = false ∧ count = 0) ∨ (now = true ∧ 2 ^ 64 ≤ count + 1) := by
  unfold moveCount subU64 addU64 at h
  cases was <;> cases now <;> simp_all

/-- A review that is accepted stores the reviewer's record, writing over an earlier one, and moves the counter by the
difference the record makes to the number of approvals. -/
theorem submitReview_ok {doc doc' : Document} {reviewer : Address} {status : UInt8} {commentHash : Option (List UInt8)}
    {ctx : Ctx} {evs : List Event} (h : doc.submitReview reviewer status commentHash ctx = .ok (doc', evs)) :
    doc.isArchived = false ∧ status ≤ Types.reviewNeedsRevision ∧
      (∃ count, doc' = { doc with
          reviews := doc.reviews.insert reviewer { reviewer, status, commentHash, reviewedAt := ctx.now }
          approvalCount := count
          lastUpdatedAt := ctx.now } ∧
        count + Table.count ReviewRecord.isApproval doc.reviews =
          doc.approvalCount + Table.count ReviewRecord.isApproval doc'.reviews) ∧
      evs = [.documentReviewed doc.poolId doc.id reviewer status ctx.now] := by
  simp only [submitReview, Types.assertValidReviewStatus, bind_eq_ok, assert_eq_ok] at h
  obtain ⟨_, ha, _, hs, _, _, h⟩ := h
  split at h
  · rename_i existing he
    simp only [bind_eq_ok, pure_eq_ok, Prod.mk.injEq] at h
    obtain ⟨count, hc, rfl, rfl⟩ := h
    refine ⟨ha, hs, ⟨count, rfl, ?_⟩, rfl⟩
    have h1 := moveCount_ok hc
    have h2 := Table.count_insert_over ReviewRecord.isApproval
      (v := ({ reviewer, status, commentHash, reviewedAt := ctx.now } : ReviewRecord)) he
    simp only at h1 h2 ⊢
    omega
  · rename_i he
    simp only [bind_eq_ok, pure_eq_ok, Prod.mk.injEq, Table.add_eq_ok] at h
    obtain ⟨_, ⟨_, rfl⟩, count, hc, rfl, rfl⟩ := h
    refine ⟨ha, hs, ⟨count, rfl, ?_⟩, rfl⟩
    have h1 := moveCount_ok hc
    have h2 := Table.count_insert_new ReviewRecord.isApproval
      ({ reviewer, status, commentHash, reviewedAt := ctx.now } : ReviewRecord) he
    simp only [Bool.false_eq_true, if_false] at h1 h2 ⊢
    omega

end Document

end BrineVault
