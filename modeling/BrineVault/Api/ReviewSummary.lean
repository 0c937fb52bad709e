import BrineVault.Api.Reads
import BrineVault.Contract.Records

/-!
# The summary of the reviews

`getReviewSummary` counts the cached rows by their status. It takes 0 for an approval, 1 for a request to revise and 2 for a rejection, while the
package writes 0 for a pending review, 1 for an approval and 2 for a request to revise.
-/

namespace BrineVault

/-- The number of reviewers whose record has the status. -/
def Document.reviewersWith (doc : Document) (status : UInt8) : Nat := Move.Table.count (fun r => decide (r.status = status)) doc.reviews

/-- The rows of the document's reviews are its records: one for each reviewer, with the status of the record. -/
def MirrorsReviews (db : Db) (docId : Uuid) (doc : Document) : Prop :=
  ((DocumentReviewsRepository.findByDocumentId db docId).map fun r => (r.reviewerAddress, r.status)).Perm
    (doc.reviews.entries.map fun e => (e.1, e.2.status))

/-- The summary reports the approvals that the document counts, and the reviewers who ask for a revision. -/
def ReviewSummary.Matches (summary : ReviewSummary) (doc : Document) : Prop :=
  summary.approved = doc.approvalCount ∧ summary.needsRevision = doc.reviewersWith Types.reviewNeedsRevision

variable {db : Db} {docId : Uuid} {doc : Document}

/-- The rows with a status are as many as the reviewers with it. -/
theorem MirrorsReviews.countP_status (h : MirrorsReviews db docId doc) (status : UInt8) :
    (DocumentReviewsRepository.findByDocumentId db docId).countP (fun r => decide (r.status = status)) = doc.reviewersWith status := by
  have hcount := h.countP_eq fun p => decide (p.2 = status)
  rw [List.countP_map, List.countP_map] at hcount
  exact hcount

/-- What the summary reports, in the words of the package. -/
theorem getReviewSummary_counts {poolId : Uuid} {userOrgId : Option Uuid} {summary : ReviewSummary}
    (h : ReviewsService.getReviewSummary db poolId docId userOrgId = .ok summary) (hm : MirrorsReviews db docId doc) :
    summary.approved = doc.reviewersWith Types.reviewPending ∧ summary.needsRevision = doc.reviewersWith Types.reviewApproved ∧
      summary.rejected = doc.reviewersWith Types.reviewNeedsRevision := by
  unfold ReviewsService.getReviewSummary at h
  obtain ⟨_, _, h⟩ := Move.bind_eq_ok.1 h
  obtain ⟨_, _, h⟩ := Move.bind_eq_ok.1 h
  cases h
  exact ⟨hm.countP_status 0, hm.countP_status 1, hm.countP_status 2⟩

namespace World

/-- For every document of every reachable state whose rows mirror its reviews, the summary matches the document exactly when as many reviewers are
pending as have approved, and as many have approved as ask for a revision. -/
theorem review_summary_matches_iff {publisher : Ctx} {steps : List Step} {w : World} (hr : run publisher steps = .ok w) {poolId k : ID}
    {pool : Pool} {doc : Document} (hl : w.pools.lookup poolId = some pool) (hd : pool.documents.lookup k = some doc) {db : Db}
    {poolUuid docId : Uuid} {userOrgId : Option Uuid} {summary : ReviewSummary} (hm : MirrorsReviews db docId doc)
    (hs : ReviewsService.getReviewSummary db poolUuid docId userOrgId = .ok summary) :
    summary.Matches doc ↔
      doc.reviewersWith Types.reviewPending = doc.reviewersWith Types.reviewApproved ∧
        doc.reviewersWith Types.reviewApproved = doc.reviewersWith Types.reviewNeedsRevision := by
  have hcount : doc.approvalCount = doc.reviewersWith Types.reviewApproved := ((wf_run hr).documents hl hd).count
  obtain ⟨happroved, hrevision, _⟩ := getReviewSummary_counts hs hm
  rw [ReviewSummary.Matches, happroved, hrevision, hcount]

end World

namespace Sample

/-- A reviewer approves a document. -/
def approval : List Step := [createPool, byOwner (.addMember 8 Types.roleReviewer []), createDocument, approve]

/-- The tables that the indexer leaves, for a pool that it knows. -/
def indexed (w : World) : Db := Statements.actAll withPool (processBatch w.log withPool).1

/-- The approved document, with its rows. -/
theorem indexed_approval :
    ∃ w pool doc, World.run owner approval = .ok w ∧ w.pools.lookup 2 = some pool ∧ pool.documents.lookup 5 = some doc ∧
      MirrorsReviews (indexed w) (.document 5) doc ∧
      ReviewsService.getReviewSummary (indexed w) (.given 0) (.document 5) (some .zero) = .ok ⟨1, 0, 1, 0⟩ ∧
      doc.approvalCount = 1 := by
  refine ⟨_, _, _, rfl, rfl, rfl, ?_, by decide +kernel, by decide +kernel⟩
  unfold MirrorsReviews
  decide +kernel

end Sample

namespace World

/-- The summary of one approval, against the document. -/
theorem review_summary_matches_iff_sample :
    ∃ w pool doc, run Sample.owner Sample.approval = .ok w ∧ w.pools.lookup 2 = some pool ∧ pool.documents.lookup 5 = some doc ∧
      ((⟨1, 0, 1, 0⟩ : ReviewSummary).Matches doc ↔
        doc.reviewersWith Types.reviewPending = doc.reviewersWith Types.reviewApproved ∧
          doc.reviewersWith Types.reviewApproved = doc.reviewersWith Types.reviewNeedsRevision) := by
  obtain ⟨w, pool, doc, hr, hl, hd, hm, hs, _⟩ := Sample.indexed_approval
  exact ⟨w, pool, doc, hr, hl, hd, review_summary_matches_iff hr hl hd hm hs⟩

/-- One review, an approval: the summary reports no approval and one request to revise. -/
theorem approval_reported_as_revision :
    ∃ w pool doc summary, run Sample.owner Sample.approval = .ok w ∧ w.pools.lookup 2 = some pool ∧
      pool.documents.lookup 5 = some doc ∧ MirrorsReviews (Sample.indexed w) (.document 5) doc ∧
      ReviewsService.getReviewSummary (Sample.indexed w) (.given 0) (.document 5) (some .zero) = .ok summary ∧
      summary.approved = 0 ∧ summary.needsRevision = 1 ∧ ¬ summary.Matches doc := by
  obtain ⟨w, pool, doc, hr, hl, hd, hm, hs, hcount⟩ := Sample.indexed_approval
  refine ⟨w, pool, doc, _, hr, hl, hd, hm, hs, rfl, rfl, fun h => ?_⟩
  have happroved := h.1
  rw [hcount] at happroved
  cases happroved

end World

end BrineVault
