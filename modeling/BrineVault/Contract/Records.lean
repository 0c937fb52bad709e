import BrineVault.Contract.Gate

/-!
# What a document keeps: its versions and its reviews

The versions of a document are added under the next number and never written again. The counter of approvals is the number of
reviewers whose record is an approval. A reviewer cannot review a version of their own; nothing keeps them from uploading one
after their approval, so a document can carry an approval by the address that uploaded what is now current.
-/

namespace BrineVault

open Move

/-! ## The versions -/

/-- The versions are numbered from 1 to the last one, which is current, and each has a file. -/
structure Document.History (doc : Document) : Prop where
  current : doc.currentVersion = doc.versionCount
  numbered : Table.Numbered DocVersion.version 1 (doc.versionCount + 1) doc.versions
  files : ∀ k ver, doc.versions.lookup k = some ver → ver.contentHash.length = 32 ∧ ver.walrusBlobId ≠ []

/-- A new document has a history. -/
theorem Document.History.new {freshId : ID} {ctx : Ctx} {pool : Pool} {call : PoolCall} {doc : Document}
    (h : call.Attaches freshId ctx pool doc) (hc : call.Checked ctx pool) : doc.History := by
  cases h with
  | createDocument h =>
    obtain ⟨hlen, _, rfl⟩ := Document.new_ok h
    refine ⟨rfl, (Table.numbered_empty _ 1).insert (Nat.le_refl 1) rfl, ?_⟩
    intro k ver hl
    rw [Table.lookup_insert] at hl
    split at hl
    · cases hl
      exact ⟨hlen, hc⟩
    · cases hl

/-- A change keeps the history, and every version of it. -/
theorem Document.History.changes {docId : ID} {ctx : Ctx} {pool : Pool} {call : PoolCall} {doc doc' : Document}
    (hh : doc.History) (h : call.Changes ctx docId doc doc') (hc : call.Checked ctx pool) : doc'.History := by
  cases h with
  | addVersion h =>
    obtain ⟨_, hlen, _, _, rfl, _⟩ := Document.addVersion_ok h
    refine ⟨rfl, hh.numbered.insert (Nat.le_add_left 1 _) rfl, ?_⟩
    intro k ver hl
    rw [Table.lookup_insert] at hl
    split at hl
    · cases hl
      exact ⟨hlen, hc⟩
    · exact hh.files k ver hl
  | submitReview h =>
    obtain ⟨_, _, ⟨_, rfl, _⟩, _⟩ := Document.submitReview_ok h
    exact ⟨hh.current, hh.numbered, hh.files⟩
  | markAsRequired => exact ⟨hh.current, hh.numbered, hh.files⟩
  | archiveDocument => exact ⟨hh.current, hh.numbered, hh.files⟩

/-- A change adds versions, and takes none away. -/
theorem PoolCall.Changes.extends_versions {docId : ID} {ctx : Ctx} {call : PoolCall} {doc doc' : Document}
    (h : call.Changes ctx docId doc doc') : doc.versions.Extends doc'.versions := by
  cases h with
  | addVersion h =>
    obtain ⟨_, _, _, hn, rfl, _⟩ := Document.addVersion_ok h
    exact Table.extends_insert _ hn
  | submitReview h =>
    obtain ⟨_, _, ⟨_, rfl, _⟩, _⟩ := Document.submitReview_ok h
    exact Table.Extends.refl _
  | markAsRequired => exact Table.Extends.refl _
  | archiveDocument => exact Table.Extends.refl _

namespace World

/-- Every document of the first state is in the second, with every version it had. -/
def KeepsVersions (w w' : World) : Prop :=
  ∀ poolId pool docId doc, w.pools.lookup poolId = some pool → pool.documents.lookup docId = some doc →
    ∃ pool' doc', w'.pools.lookup poolId = some pool' ∧ pool'.documents.lookup docId = some doc' ∧
      doc.versions.Extends doc'.versions

theorem KeepsVersions.refl (w : World) : w.KeepsVersions w :=
  fun _ pool _ doc hl hd => ⟨pool, doc, hl, hd, Table.Extends.refl _⟩

/-- A step keeps them. -/
theorem KeepsVersions.step {w m m' : World} {s : Step} (hk : w.KeepsVersions m) (hw : Wf m) (h : m.step s = .ok m') :
    w.KeepsVersions m' := by
  intro poolId pool docId doc hl hd
  obtain ⟨pool₁, doc₁, hl₁, hd₁, he₁⟩ := hk poolId pool docId doc hl hd
  obtain ⟨pool₂, doc₂, hl₂, hd₂, hch⟩ := step_keepsDocument hw h hl₁ hd₁
  have he₂ : doc₁.versions.Extends doc₂.versions := by
    rcases hch with rfl | ⟨call, _, hch⟩
    · exact Table.Extends.refl _
    · exact hch.extends_versions
  exact ⟨pool₂, doc₂, hl₂, hd₂, he₁.trans he₂⟩

/-- Whatever is called, no version is lost. -/
theorem keepsVersions_run {w w' : World} {steps : List Step} (hw : Wf w) (hr : Steps.run step w steps = .ok w') :
    w.KeepsVersions w' := by
  have h : Wf w' ∧ w.KeepsVersions w' := by
    refine Steps.run_preserves step (P := fun m => Wf m ∧ w.KeepsVersions m) ?_ hr ⟨hw, KeepsVersions.refl w⟩
    rintro m s m' ⟨hm, hk⟩ hs
    exact ⟨wf_step hm hs, hk.step hm hs⟩
  exact h.2

/-- The version history is append-only: in every state of a run the versions of a document are those from 1 to the last, which is
current, each with its number and its file; and in every later state all of them are there, unchanged. -/
theorem versions_append_only {publisher : Ctx} {past rest : List Step} {w w' : World} (hr : run publisher past = .ok w)
    (hr' : Steps.run step w rest = .ok w') {poolId docId : ID} {pool : Pool} {doc : Document}
    (hl : w.pools.lookup poolId = some pool) (hd : pool.documents.lookup docId = some doc) :
    (doc.currentVersion = doc.versionCount ∧ (∀ k, k ∈ doc.versions ↔ 1 ≤ k ∧ k ≤ doc.versionCount) ∧
      ∀ k ver, doc.versions.lookup k = some ver →
        ver.version = k ∧ ver.contentHash.length = 32 ∧ ver.walrusBlobId ≠ []) ∧
      ∃ pool' doc', w'.pools.lookup poolId = some pool' ∧ pool'.documents.lookup docId = some doc' ∧
        ∀ k ver, doc.versions.lookup k = some ver → doc'.versions.lookup k = some ver := by
  have hh : doc.History :=
    documents_run (fun _ _ _ _ _ => Document.History.new) (fun _ _ _ _ _ _ => Document.History.changes) hr hl hd
  refine ⟨⟨hh.current, ?_, ?_⟩, keepsVersions_run (wf_run hr) hr' poolId pool docId doc hl hd⟩
  · intro k
    rw [hh.numbered.keys k, Nat.lt_succ_iff]
  · intro k ver hv
    exact ⟨hh.numbered.values hv, hh.files k ver hv⟩

/-- A document with a version, in the state before its second version is added. -/
theorem versions_append_only_sample :
    ∃ w w' pool doc, run Sample.owner [Sample.createPool, Sample.createDocument] = .ok w ∧
      Steps.run step w [Sample.byOwner (.addVersion 5 Sample.upload)] = .ok w' ∧
      w.pools.lookup 2 = some pool ∧ pool.documents.lookup 5 = some doc ∧
      (doc.currentVersion = doc.versionCount ∧ (∀ k, k ∈ doc.versions ↔ 1 ≤ k ∧ k ≤ doc.versionCount) ∧
        ∀ k ver, doc.versions.lookup k = some ver →
          ver.version = k ∧ ver.contentHash.length = 32 ∧ ver.walrusBlobId ≠ []) ∧
      ∃ pool' doc', w'.pools.lookup 2 = some pool' ∧ pool'.documents.lookup 5 = some doc' ∧
        ∀ k ver, doc.versions.lookup k = some ver → doc'.versions.lookup k = some ver := by
  refine ⟨_, _, _, _, rfl, rfl, rfl, rfl, ?_⟩
  exact @versions_append_only Sample.owner [Sample.createPool, Sample.createDocument]
    [Sample.byOwner (.addVersion 5 Sample.upload)] _ _ rfl rfl 2 5 _ _ rfl rfl

/-! ## The reviews -/

/-- The addresses whose review of the document is an approval. -/
def approvers (doc : Document) : Finset Address := doc.reviews.keys.toFinset.filter fun a => doc.hasApprovedReview a = true

/-- The approvers are as many as the approvals. -/
theorem card_approvers (doc : Document) : (approvers doc).card = Table.count ReviewRecord.isApproval doc.reviews := by
  refine (Table.count_eq_card _ _ _ ?_).symm
  intro a r hl
  simp only [Document.hasApprovedReview, hl]

/-- A review that does not fit the counter is one approval too many for `u64`: the counter is never counted down from zero. -/
theorem submitReview_arithmetic {poolId docId : ID} {doc : Document} (hw : WfDocument poolId docId doc) {reviewer : Address}
    {status : UInt8} {commentHash : Option (List UInt8)} {ctx : Ctx}
    (h : doc.submitReview reviewer status commentHash ctx = .error .arithmetic) :
    status = Types.reviewApproved ∧ 2 ^ 64 ≤ doc.approvalCount + 1 := by
  simp only [Document.submitReview, Types.assertValidReviewStatus, bind_eq_error, assert_ne_arithmetic, false_or] at h
  obtain ⟨_, _, _, _, h | ⟨_, _, h⟩⟩ := h
  · cases commentHash with
    | none => cases h
    | some hash => exact absurd h assert_ne_arithmetic
  · split at h
    · rename_i existing he
      simp only [bind_eq_error] at h
      obtain h | ⟨_, _, h⟩ := h
      · rcases Document.moveCount_eq_arithmetic h with ⟨hwas, _, hzero⟩ | ⟨hnow, hmax⟩
        · -- The record that is withdrawn is counted.
          have hpos : 0 < Table.count ReviewRecord.isApproval doc.reviews :=
            (Table.count_pos_iff _ _).2 ⟨reviewer, existing, he, hwas⟩
          have := hw.count
          omega
        · exact ⟨by simpa [ReviewRecord.isApproval] using hnow, hmax⟩
      · cases h
    · rename_i he
      have hadd : Table.add doc.reviews reviewer { reviewer, status, commentHash, reviewedAt := ctx.now } =
          .ok (doc.reviews.insert reviewer { reviewer, status, commentHash, reviewedAt := ctx.now }) :=
        Table.add_eq_ok.2 ⟨he, rfl⟩
      simp only [hadd, bind_eq_error] at h
      obtain h | ⟨_, _, h | ⟨_, _, h⟩⟩ := h
      · cases h
      · rcases Document.moveCount_eq_arithmetic h with ⟨hwas, _⟩ | ⟨hnow, hmax⟩
        · cases hwas
        · exact ⟨by simpa [ReviewRecord.isApproval] using hnow, hmax⟩
      · cases h

/-- The counter of a document is the number of reviewers whose record is an approval, and no review counts it down from zero:
the only arithmetic a review can abort on is an approval beyond the last value of `u64`. -/
theorem approval_count_eq {publisher : Ctx} {steps : List Step} {w : World} (hr : run publisher steps = .ok w)
    {poolId docId : ID} {pool : Pool} {doc : Document} (hl : w.pools.lookup poolId = some pool)
    (hd : pool.documents.lookup docId = some doc) :
    doc.approvalCount = (approvers doc).card ∧
      ∀ reviewer status commentHash ctx, doc.submitReview reviewer status commentHash ctx = .error .arithmetic →
        status = Types.reviewApproved ∧ 2 ^ 64 ≤ doc.approvalCount + 1 := by
  have hw : WfDocument poolId docId doc := (wf_run hr).documents hl hd
  exact ⟨by rw [hw.count, card_approvers], fun _ _ _ _ => submitReview_arithmetic hw⟩

/-- One approval of the sample, and one approver. -/
theorem approval_count_eq_sample :
    ∃ w pool doc, run Sample.owner [Sample.createPool, Sample.byOwner (.addMember 8 Types.roleReviewer []),
        Sample.createDocument, Sample.approve] = .ok w ∧
      w.pools.lookup 2 = some pool ∧ pool.documents.lookup 5 = some doc ∧
      doc.approvalCount = (approvers doc).card ∧
      ∀ reviewer status commentHash ctx, doc.submitReview reviewer status commentHash ctx = .error .arithmetic →
        status = Types.reviewApproved ∧ 2 ^ 64 ≤ doc.approvalCount + 1 := by
  refine ⟨_, _, _, rfl, rfl, rfl, ?_⟩
  exact @approval_count_eq Sample.owner [Sample.createPool, Sample.byOwner (.addMember 8 Types.roleReviewer []),
    Sample.createDocument, Sample.approve] _ rfl 2 5 _ _ rfl rfl

/-! ## Approvals of one's own version -/

/-- No stored approval of a document is by the address that uploaded its current version. -/
def NoSelfApproval (w : World) : Prop :=
  ∀ poolId pool docId doc reviewer ver, w.pools.lookup poolId = some pool → pool.documents.lookup docId = some doc →
    doc.hasApprovedReview reviewer = true → doc.versions.lookup doc.currentVersion = some ver → ver.uploadedBy ≠ reviewer

/-- The step is an upload of a version of a document by an address whose approval of the document is stored. -/
def VersionsOwnApproval (w : World) (s : Step) : Prop :=
  ∃ poolId docId up pool doc, s.call = .onPool poolId (.addVersion docId up) ∧ w.pools.lookup poolId = some pool ∧
    pool.documents.lookup docId = some doc ∧ doc.hasApprovedReview (w.ctxOf s).sender = true

/-- A step that is no new version by an approver keeps approvals from uploaders. -/
theorem noSelfApproval_step {w w' : World} {s : Step} (hn : w.NoSelfApproval) (hv : ¬ w.VersionsOwnApproval s)
    (h : w.step s = .ok w') : w'.NoSelfApproval := by
  intro poolId pool' docId doc reviewer ver hk hdoc hrev hver
  cases step_document h hk hdoc with
  | kept hl hd => exact hn _ _ _ _ _ _ hl hd hrev hver
  | attached _ _ _ hatt =>
    cases hatt with
    | createDocument hnew =>
      obtain ⟨_, _, rfl⟩ := Document.new_ok hnew
      cases hrev
  | @changed pool call old hc hl hd hch =>
    have hcheck := step_checked h hc hl
    cases hch with
    | addVersion hadd =>
      -- The new version is the current one; its uploader has no approval of the document.
      obtain ⟨_, _, _, _, rfl, _⟩ := Document.addVersion_ok hadd
      simp only [Table.lookup_insert, if_pos, Option.some.injEq] at hver
      subst hver
      rintro rfl
      exact hv ⟨_, _, _, _, _, hc, hl, hd, hrev⟩
    | submitReview hsub =>
      obtain ⟨_, _, ⟨_, rfl, _⟩, _⟩ := Document.submitReview_ok hsub
      by_cases hs : reviewer = (w.ctxOf s).sender
      · rw [hs]
        exact (hcheck old ver hd hver).symm
      · have hrev' : old.hasApprovedReview reviewer = true := by
          simpa only [Document.hasApprovedReview, Table.lookup_insert, if_neg hs] using hrev
        exact hn _ _ _ _ _ _ hl hd hrev' hver
    | markAsRequired docId required old => exact hn _ _ _ _ _ _ hl hd hrev hver
    | archiveDocument docId old => exact hn _ _ _ _ _ _ hl hd hrev hver

/-- An upload by an approver makes the approval one of the approver's own version. -/
theorem not_noSelfApproval_of_versionsOwnApproval {w w' : World} {s : Step} (hv : w.VersionsOwnApproval s)
    (h : w.step s = .ok w') : ¬ w'.NoSelfApproval := by
  obtain ⟨poolId, docId, up, pool, doc, hc, hl, hd, happ⟩ := hv
  obtain ⟨pool', doc', _, hl', hd', hadd⟩ := step_addVersion h hc hl hd
  obtain ⟨_, _, _, _, rfl, _⟩ := Document.addVersion_ok hadd
  intro hn
  have hcur : (doc.versions.insert (doc.versionCount + 1) (up.toVersion (doc.versionCount + 1) (w.ctxOf s))).lookup
      (doc.versionCount + 1) = some (up.toVersion (doc.versionCount + 1) (w.ctxOf s)) := by
    rw [Table.lookup_insert, if_pos rfl]
  exact hn poolId pool' docId _ _ _ hl' hd' happ hcur rfl

/-- Along a run, nobody's approval is of their own version in any state reached if and only if no version is uploaded by an
address whose approval of the document is stored. -/
theorem noSelfApproval_iff {publisher : Ctx} {steps : List Step} {w : World} (hr : run publisher steps = .ok w) :
    (∀ past rest m, steps = past ++ rest → run publisher past = .ok m → m.NoSelfApproval) ↔
      Steps.AllSteps step (fun m s => ¬ m.VersionsOwnApproval s) (genesis publisher) steps := by
  refine Steps.always_iff_allSteps step (fun _ m => m.NoSelfApproval) (fun _ m => m.NoSelfApproval) ?_ ?_ ?_ ?_ hr
  · intro poolId pool docId doc reviewer ver hl
    cases hl
  · intro past m s m' _ hn hv h
    exact noSelfApproval_step hn hv h
  · intro past m _ hn
    exact hn
  · intro past m s m' _ _ hv h
    exact not_noSelfApproval_of_versionsOwnApproval (not_not.1 hv) h

/-- The reviewer, who may also edit, as the one who uploads a second version. -/
def uploadByReviewer : Step := { tx := some Sample.reviewer, call := .onPool 2 (.addVersion 5 Sample.upload) }

/-- A run in which a document is approved by an address that uploads nothing. -/
theorem noSelfApproval_iff_sample :
    ∃ w, run Sample.owner [Sample.createPool, Sample.byOwner (.addMember 8 Types.roleReviewer []), Sample.createDocument,
        Sample.approve] = .ok w ∧
      ((∀ past rest m, [Sample.createPool, Sample.byOwner (.addMember 8 Types.roleReviewer []), Sample.createDocument,
            Sample.approve] = past ++ rest → run Sample.owner past = .ok m → m.NoSelfApproval) ↔
        Steps.AllSteps step (fun m s => ¬ m.VersionsOwnApproval s) (genesis Sample.owner)
          [Sample.createPool, Sample.byOwner (.addMember 8 Types.roleReviewer []), Sample.createDocument, Sample.approve]) := by
  obtain ⟨w, hw⟩ := exists_ok_of_returns (x := run Sample.owner [Sample.createPool,
    Sample.byOwner (.addMember 8 Types.roleReviewer []), Sample.createDocument, Sample.approve]) rfl
  exact ⟨w, hw, noSelfApproval_iff hw⟩

/-- A member with the roles of a reviewer and of an editor approves the document, then uploads its next version. -/
theorem own_version_approved :
    ∃ w, run Sample.owner [Sample.createPool, Sample.byOwner (.addMember 8 6 []), Sample.createDocument, Sample.approve,
        uploadByReviewer] = .ok w ∧ ¬ w.NoSelfApproval := by
  refine ⟨_, rfl, fun h => ?_⟩
  exact h 2 _ 5 _ 8 _ rfl rfl rfl rfl rfl

end World

end BrineVault
