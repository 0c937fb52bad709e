import BrineVault.Contract.World

/-!
# The gate of the required documents

`progress_to_ic_review` and `progress_to_ready_to_issue` look at the documents the caller lists, and at no other. What the gate
gives is therefore decided by the required documents that the caller leaves out of the list.
-/

namespace BrineVault

open Move

/-- Some reviewer's record of the document is an approval. -/
def Document.HasStoredApproval (doc : Document) : Prop :=
  ∃ reviewer r, doc.reviews.lookup reviewer = some r ∧ r.status = Types.reviewApproved

/-- The documents the gate is about: required and not archived. -/
def Document.isGated (doc : Document) : Bool := doc.requiredFlag && !doc.isArchived

/-- Every document the gate is about has a stored approval. -/
def Pool.GateHolds (pool : Pool) : Prop :=
  ∀ docId doc, pool.documents.lookup docId = some doc → doc.isGated = true → doc.HasStoredApproval

/-- The required documents that the list leaves out have an approval all the same. -/
def Pool.OmittedApproved (pool : Pool) (ids : List ID) : Prop :=
  ∀ docId doc, pool.documents.lookup docId = some doc → doc.isGated = true → docId ∉ ids → doc.hasAnyApproval = true

/-- The list that a call checks at the gate, where the call is one of the two that do. -/
def PoolCall.gateList : PoolCall → Option (List ID)
  | .progressToIcReview ids => some ids
  | .progressToReadyToIssue ids => some ids
  | _ => none

/-- On a well-formed document the counter is positive exactly when an approval is stored. -/
theorem Document.hasAnyApproval_iff {poolId docId : ID} {doc : Document} (hw : World.WfDocument poolId docId doc) :
    doc.hasAnyApproval = true ↔ doc.HasStoredApproval := by
  simp only [hasAnyApproval, decide_eq_true_eq, gt_iff_lt, hw.count, Table.count_pos_iff, ReviewRecord.isApproval,
    beq_iff_eq, HasStoredApproval]

/-- A pool that passes the gate: what it owes is settled by the documents left out. -/
theorem Pool.gateHolds_iff {pool : Pool} {ids : List ID}
    (hw : ∀ docId doc, pool.documents.lookup docId = some doc → World.WfDocument pool.id docId doc)
    (hg : pool.docsGate ids = .ok ()) : pool.GateHolds ↔ pool.OmittedApproved ids := by
  constructor
  · intro h docId doc hl hd _
    exact (Document.hasAnyApproval_iff (hw docId doc hl)).2 (h docId doc hl hd)
  · intro h docId doc hl hd
    rw [← Document.hasAnyApproval_iff (hw docId doc hl)]
    by_cases hm : docId ∈ ids
    · obtain ⟨doc', hl', ha⟩ := Pool.docsGate_ok.1 hg docId hm
      rw [hl, Option.some.injEq] at hl'
      rw [hl', ha]
    · exact h docId doc hl hd hm

/-- A call with a list at the gate passes it, and leaves the documents as they are. -/
theorem PoolCall.gate_passed {config : AdminConfig} {freshId : ID} {ctx : Ctx} {pool pool' : Pool} {call : PoolCall}
    {evs : List Event} {ids : List ID} (h : call.exec config freshId ctx pool = .ok (pool', evs))
    (hg : call.gateList = some ids) : pool.docsGate ids = .ok () ∧ pool'.documents = pool.documents := by
  cases call <;> simp only [gateList, reduceCtorEq, Option.some.injEq] at hg <;> subst hg
  case progressToIcReview ids =>
    obtain ⟨_, hp, rfl, _⟩ := Pool.progress_ok h
    exact ⟨hp, rfl⟩
  case progressToReadyToIssue ids =>
    obtain ⟨_, hp, rfl, _⟩ := Pool.progress_ok h
    rw [bind_eq_ok] at hp
    exact ⟨hp.choose_spec.2, rfl⟩

namespace World

/-- In any run, a call that passes the gate leaves every required document with a stored approval if and only if the
required documents that its list leaves out had an approval. -/
theorem gate_sound_iff {publisher : Ctx} {steps : List Step} {w w' : World} {s : Step} {poolId : ID} {call : PoolCall}
    {ids : List ID} (hr : run publisher steps = .ok w) (hs : w.step s = .ok w') (hc : s.call = .onPool poolId call)
    (hg : call.gateList = some ids) :
    ∃ pool pool', w.pools.lookup poolId = some pool ∧ w'.pools.lookup poolId = some pool' ∧
      (pool'.GateHolds ↔ pool.OmittedApproved ids) := by
  have hw := wf_run hr
  obtain ⟨pool, pool', evs, hl, hl', hx⟩ := step_onPool hs hc
  obtain ⟨hpass, hdocs⟩ := PoolCall.gate_passed hx hg
  refine ⟨pool, pool', hl, hl', ?_⟩
  rw [← Pool.gateHolds_iff (fun d doc hd => by rw [(hw.ids hl).1]; exact hw.documents hl hd) hpass]
  simp only [Pool.GateHolds, hdocs]

/-- A run that passes the gate with its one required document approved and listed. -/
theorem gate_sound_iff_listed :
    ∃ w w' pool pool', run Sample.owner [Sample.createPool, Sample.byOwner .progressToDd,
        Sample.byOwner (.addMember 8 Types.roleReviewer []), Sample.createDocument, Sample.approve] = .ok w ∧
      w.step (Sample.byOwner (.progressToIcReview [5])) = .ok w' ∧
      w.pools.lookup 2 = some pool ∧ w'.pools.lookup 2 = some pool' ∧ (pool'.GateHolds ↔ pool.OmittedApproved [5]) := by
  obtain ⟨w, hw⟩ := exists_ok_of_returns (x := run Sample.owner [Sample.createPool, Sample.byOwner .progressToDd,
    Sample.byOwner (.addMember 8 Types.roleReviewer []), Sample.createDocument, Sample.approve]) rfl
  obtain ⟨w', hw'⟩ := exists_ok_of_returns (x := w.step (Sample.byOwner (.progressToIcReview [5]))) (by cases hw; rfl)
  obtain ⟨pool, pool', h⟩ := gate_sound_iff hw hw' rfl rfl
  exact ⟨w, w', pool, pool', hw, hw', h⟩

/-- With an empty list the gate is passed while the required document of the pool has no review at all. -/
theorem gate_passed_unreviewed :
    ∃ w w' pool, run Sample.owner [Sample.createPool, Sample.byOwner .progressToDd, Sample.createDocument] = .ok w ∧
      w.step (Sample.byOwner (.progressToIcReview [])) = .ok w' ∧ w'.pools.lookup 2 = some pool ∧ ¬ pool.GateHolds := by
  refine ⟨_, _, _, rfl, rfl, rfl, fun h => ?_⟩
  obtain ⟨_, _, hr, _⟩ := h 5 _ rfl rfl
  cases hr

end World

end BrineVault
