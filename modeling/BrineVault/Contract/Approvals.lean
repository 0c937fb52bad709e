import BrineVault.Contract.Gate

/-!
# Approvals and versions

The review records of a document and its counter of approvals carry no version number, and `add_version` leaves them as they are. Which
version an approval was given for is a question about the history of the calls, and it is answered here from that history.
-/

namespace BrineVault

open Move

namespace World

/-! ## The history of the calls -/

/-- The calls of a run with the contexts they ran in, oldest first; `ctx` is the context of the transaction that is open. -/
def calls (ctx : Ctx) : List Step → List (Ctx × Call)
  | [] => []
  | s :: ss => (s.tx.getD ctx, s.call) :: calls (s.tx.getD ctx) ss

/-- The calls of a run, newest first. -/
def history (publisher : Ctx) (steps : List Step) : List (Ctx × Call) := (calls publisher steps).reverse

/-- The context of a step is that of its transaction, or the last one. -/
theorem ctxOf_eq (w : World) (s : Step) : w.ctxOf s = s.tx.getD w.ctx := by
  unfold ctxOf
  cases s.tx <;> rfl

/-- A step leaves its context to the next. -/
theorem step_ctx {w w' : World} {s : Step} (h : w.step s = .ok w') : w'.ctx = w.ctxOf s := by
  simp only [step, bind_eq_ok, pure_eq_ok, Prod.exists] at h
  obtain ⟨m, evs, he, rfl⟩ := h
  cases hc : s.call <;> simp only [hc, exec, bind_eq_ok, pure_eq_ok, Prod.mk.injEq, Prod.exists] at he
  · obtain ⟨_, _, _, rfl, _⟩ := he
    rfl
  · obtain ⟨_, _, _, rfl, _⟩ := he
    rfl
  · obtain ⟨_, _, _, _, _, rfl, _⟩ := he
    rfl

theorem calls_snoc {w₀ w : World} {steps : List Step} (h : Steps.run step w₀ steps = .ok w) (s : Step) :
    calls w₀.ctx (steps ++ [s]) = calls w₀.ctx steps ++ [(w.ctxOf s, s.call)] := by
  induction steps generalizing w₀ with
  | nil =>
    cases h
    rw [ctxOf_eq]
    rfl
  | cons a steps ih =>
    obtain ⟨m, hm, h⟩ := (Steps.run_cons_ok step).1 h
    have := ih h
    rw [step_ctx hm, ctxOf_eq] at this
    rw [List.cons_append, calls, calls, this, List.cons_append]

theorem history_snoc {publisher : Ctx} {steps : List Step} {w : World} (h : run publisher steps = .ok w) (s : Step) :
    history publisher (steps ++ [s]) = (w.ctxOf s, s.call) :: history publisher steps := by
  have := calls_snoc h s
  rw [history, history]
  rw [show (genesis publisher).ctx = publisher from rfl] at this
  rw [this, List.reverse_concat]

/-- The reviewer has submitted a review of the document since its last new version; the history is newest first. -/
def reviewedSinceVersion (poolId docId : ID) (reviewer : Address) : List (Ctx × Call) → Bool
  | [] => false
  | (ctx, call) :: older =>
    match call with
    | .onPool p (.addVersion d _) =>
      if p = poolId ∧ d = docId then false else reviewedSinceVersion poolId docId reviewer older
    | .onPool p (.submitReview d _ _) =>
      if p = poolId ∧ d = docId ∧ ctx.sender = reviewer then true else reviewedSinceVersion poolId docId reviewer older
    | _ => reviewedSinceVersion poolId docId reviewer older

/-- An approval of the document is stored that was submitted since its last new version. A reviewer's stored record is the last
one submitted, so that it is since the last version exactly when some review of the reviewer is. -/
def ApprovedSinceVersion (history : List (Ctx × Call)) (poolId docId : ID) (doc : Document) : Prop :=
  ∃ reviewer r, doc.reviews.lookup reviewer = some r ∧ r.status = Types.reviewApproved ∧
    reviewedSinceVersion poolId docId reviewer history = true

/-- Approvals are for the current version: a document that counts as approved has been approved since its last new version. -/
def ApprovalsCurrent (history : List (Ctx × Call)) (w : World) : Prop :=
  ∀ poolId pool docId doc, w.pools.lookup poolId = some pool → pool.documents.lookup docId = some doc →
    doc.hasAnyApproval = true → ApprovedSinceVersion history poolId docId doc

/-- The step adds a version to a document that counts as approved. -/
def VersionsApproved (w : World) (s : Step) : Prop :=
  ∃ poolId docId up pool doc, s.call = .onPool poolId (.addVersion docId up) ∧ w.pools.lookup poolId = some pool ∧
    pool.documents.lookup docId = some doc ∧ doc.hasAnyApproval = true

/-! ## What a step does to the approvals -/

section Step

variable {poolId docId : ID} {reviewer : Address} {ctx : Ctx} {older : List (Ctx × Call)}

/-- A call that is not about the document changes nothing for it. -/
theorem reviewedSinceVersion_other {call : Call} (h : ∀ c, call = .onPool poolId c → c.target ≠ some docId) :
    reviewedSinceVersion poolId docId reviewer ((ctx, call) :: older) = reviewedSinceVersion poolId docId reviewer older := by
  cases call with
  | admin c => rfl
  | createPool p => rfl
  | onPool p c =>
    have hne : ∀ d, c.target = some d → ¬ (p = poolId ∧ d = docId) := by
      rintro d hd ⟨rfl, rfl⟩
      exact h c rfl hd
    cases c <;> try rfl
    case addVersion d up => exact if_neg (hne d rfl)
    case submitReview d status comment => exact if_neg fun he => hne d rfl ⟨he.1, he.2.1⟩

/-- After a new version nobody has reviewed it. -/
theorem reviewedSinceVersion_addVersion {up : Document.Upload} :
    reviewedSinceVersion poolId docId reviewer ((ctx, .onPool poolId (.addVersion docId up)) :: older) = false :=
  if_pos ⟨rfl, rfl⟩

/-- A review counts for its sender. -/
theorem reviewedSinceVersion_submitReview {status : UInt8} {comment : Option (List UInt8)} :
    reviewedSinceVersion poolId docId reviewer ((ctx, .onPool poolId (.submitReview docId status comment)) :: older) =
      if ctx.sender = reviewer then true else reviewedSinceVersion poolId docId reviewer older := by
  simp only [reviewedSinceVersion, true_and]

end Step

/-- Every stored approval was submitted since the last new version: the invariant that carries the result. -/
def AllCurrent (history : List (Ctx × Call)) (w : World) : Prop :=
  ∀ poolId pool docId doc reviewer r, w.pools.lookup poolId = some pool → pool.documents.lookup docId = some doc →
    doc.reviews.lookup reviewer = some r → r.status = Types.reviewApproved →
    reviewedSinceVersion poolId docId reviewer history = true

/-- The invariant survives every step but a new version of a document that counts as approved. -/
theorem allCurrent_step {history : List (Ctx × Call)} {w w' : World} {s : Step} (hw : Wf w) (ha : AllCurrent history w)
    (hv : ¬ w.VersionsApproved s) (h : w.step s = .ok w') : AllCurrent ((w.ctxOf s, s.call) :: history) w' := by
  intro poolId pool' docId doc reviewer r hk hdoc hrev hr
  cases step_document h hk hdoc with
  | kept hl hd hc =>
    rw [reviewedSinceVersion_other hc]
    exact ha _ _ _ _ _ _ hl hd hrev hr
  | attached _ _ _ hatt =>
    cases hatt with
    | createDocument hn =>
      obtain ⟨_, _, rfl⟩ := Document.new_ok hn
      cases hrev
  | changed hc hl hd hch =>
    rw [hc]
    cases hch with
    | addVersion hn =>
      -- The records are those of the old document, so it counted as approved.
      obtain ⟨_, _, _, _, rfl, _⟩ := Document.addVersion_ok hn
      refine absurd ⟨_, _, _, _, _, hc, hl, hd, ?_⟩ hv
      exact (Document.hasAnyApproval_iff (hw.documents hl hd)).2 ⟨reviewer, r, hrev, hr⟩
    | submitReview hn =>
      rw [reviewedSinceVersion_submitReview]
      obtain ⟨_, _, ⟨_, rfl, _⟩, _⟩ := Document.submitReview_ok hn
      simp only [Table.lookup_insert] at hrev
      split at hrev
      · rename_i he
        rw [if_pos he.symm]
      · rename_i he
        rw [if_neg fun he' => he he'.symm]
        exact ha _ _ _ _ _ _ hl hd hrev hr
    | markAsRequired docId required old => exact ha _ _ _ _ _ _ hl hd hrev hr
    | archiveDocument docId old => exact ha _ _ _ _ _ _ hl hd hrev hr

/-- Where every stored approval is current, every document that counts as approved is so by a current one. -/
theorem AllCurrent.approvalsCurrent {history : List (Ctx × Call)} {w : World} (hw : Wf w) (ha : AllCurrent history w) :
    ApprovalsCurrent history w := by
  intro poolId pool docId doc hl hd happ
  obtain ⟨reviewer, r, hrev, hr⟩ := (Document.hasAnyApproval_iff (hw.documents hl hd)).1 happ
  exact ⟨reviewer, r, hrev, hr, ha _ _ _ _ _ _ hl hd hrev hr⟩

/-- After a new version of a document that counts as approved, it still does, and no approval is current. -/
theorem not_approvalsCurrent_of_versionsApproved {history : List (Ctx × Call)} {w w' : World} {s : Step}
    (hv : w.VersionsApproved s) (h : w.step s = .ok w') : ¬ ApprovalsCurrent ((w.ctxOf s, s.call) :: history) w' := by
  obtain ⟨poolId, docId, up, pool, doc, hc, hl, hd, happ⟩ := hv
  obtain ⟨pool', doc', _, hl', hd', hn⟩ := step_addVersion h hc hl hd
  have happ' : doc'.hasAnyApproval = true := by
    obtain ⟨_, _, _, _, rfl, _⟩ := Document.addVersion_ok hn
    exact happ
  intro hcur
  obtain ⟨_, _, _, _, hsince⟩ := hcur poolId pool' docId doc' hl' hd' happ'
  rw [hc, reviewedSinceVersion_addVersion] at hsince
  cases hsince

/-! ## The result -/

/-- Along a run, approvals are for the current version in every state reached if and only if no step adds a version to a
document that counts as approved. -/
theorem approvals_current_iff {publisher : Ctx} {steps : List Step} {w : World} (hr : run publisher steps = .ok w) :
    (∀ past rest m, steps = past ++ rest → run publisher past = .ok m → ApprovalsCurrent (history publisher past) m) ↔
      Steps.AllSteps step (fun m s => ¬ m.VersionsApproved s) (genesis publisher) steps := by
  refine Steps.always_iff_allSteps step (fun past m => AllCurrent (history publisher past) m)
    (fun past m => ApprovalsCurrent (history publisher past) m) ?_ ?_ ?_ ?_ hr
  · intro poolId pool docId doc reviewer r hl
    cases hl
  · intro past m s m' hm ha hv h
    rw [history_snoc hm]
    exact allCurrent_step (wf_run hm) ha hv h
  · intro past m hm ha
    exact ha.approvalsCurrent (wf_run hm)
  · intro past m s m' hm _ hv h
    rw [history_snoc hm]
    exact not_approvalsCurrent_of_versionsApproved (not_not.1 hv) h

/-- A run in which a document gets a version, then an approval. -/
theorem approvals_current_iff_sample :
    ∃ w, run Sample.owner [Sample.createPool, Sample.byOwner (.addMember 8 Types.roleReviewer []), Sample.createDocument,
        Sample.byOwner (.addVersion 5 Sample.upload), Sample.approve] = .ok w ∧
      ((∀ past rest m, [Sample.createPool, Sample.byOwner (.addMember 8 Types.roleReviewer []), Sample.createDocument,
            Sample.byOwner (.addVersion 5 Sample.upload), Sample.approve] = past ++ rest →
          run Sample.owner past = .ok m → ApprovalsCurrent (history Sample.owner past) m) ↔
        Steps.AllSteps step (fun m s => ¬ m.VersionsApproved s) (genesis Sample.owner)
          [Sample.createPool, Sample.byOwner (.addMember 8 Types.roleReviewer []), Sample.createDocument,
            Sample.byOwner (.addVersion 5 Sample.upload), Sample.approve]) := by
  obtain ⟨w, hw⟩ := exists_ok_of_returns (x := run Sample.owner [Sample.createPool,
    Sample.byOwner (.addMember 8 Types.roleReviewer []), Sample.createDocument,
    Sample.byOwner (.addVersion 5 Sample.upload), Sample.approve]) rfl
  exact ⟨w, hw, approvals_current_iff hw⟩

/-- A version is added after the approval: the document counts as approved, and no approval is for its current version. -/
theorem approval_outlives_version :
    ∃ w, run Sample.owner [Sample.createPool, Sample.byOwner (.addMember 8 Types.roleReviewer []), Sample.createDocument,
        Sample.approve, Sample.byOwner (.addVersion 5 Sample.upload)] = .ok w ∧
      ¬ ApprovalsCurrent (history Sample.owner [Sample.createPool, Sample.byOwner (.addMember 8 Types.roleReviewer []),
        Sample.createDocument, Sample.approve, Sample.byOwner (.addVersion 5 Sample.upload)]) w := by
  refine ⟨_, rfl, fun h => ?_⟩
  obtain ⟨_, _, _, _, hs⟩ := h 2 _ 5 _ rfl rfl rfl
  cases hs

end World

end BrineVault
