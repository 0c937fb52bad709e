import BrineVault.Contract.World

/-!
# The decisions of the committee

A pool keeps its decisions under the numbers 0, 1, 2, ..., remembers whether one of them was an approval, and is in one of the two
approved states exactly then. The approval ends the sequence: the states after it allow no further decision.
-/

namespace BrineVault

open Move

/-- The states that follow an approval by the committee. -/
def isApprovedState (state : UInt8) : Prop :=
  state = Types.poolStateApprovedInternal ∨ state = Types.poolStateReadyToIssue

/-- The changes of state made without a decision neither enter nor leave the approved states. -/
theorem isApprovedState_of_moves {fromState toState : UInt8} (h : (fromState, toState) ∈ Pool.moves) :
    isApprovedState toState ↔ isApprovedState fromState := by
  simp only [Pool.moves, List.mem_cons, Prod.mk.injEq, List.not_mem_nil, or_false] at h
  unfold isApprovedState
  rcases h with ⟨rfl, rfl⟩ | ⟨rfl, rfl⟩ | ⟨rfl, rfl⟩ | ⟨rfl, rfl⟩ | ⟨rfl, rfl⟩ | ⟨rfl, rfl⟩ <;> decide

/-- A recorded decision leads to an approved state exactly when it is an approval. -/
theorem isApprovedState_of_decision {call : PoolCall} {decisionType toState : UInt8} {record : IcRecord}
    (h : call.decision = some (decisionType, toState, record)) :
    isApprovedState toState ↔ decisionType = Types.icApprove := by
  unfold PoolCall.decision at h
  unfold isApprovedState
  split at h <;> cases h <;> decide

/-- The ledger of decisions, with the approval it may end in. -/
structure Pool.DecisionLedger (pool : Pool) : Prop where
  numbered : Table.Numbered IcDecision.index 0 pool.icDecisionCount pool.icDecisions
  cached : pool.hasIcApprovalCached = true ↔ ∃ k d, pool.icDecisions.lookup k = some d ∧ d.decisionType = Types.icApprove
  state : pool.hasIcApprovalCached = true ↔ isApprovedState pool.currentState
  last : ∀ k d, pool.icDecisions.lookup k = some d → d.decisionType = Types.icApprove → k + 1 = pool.icDecisionCount

/-- A new pool has a ledger without decisions. -/
theorem Pool.DecisionLedger.createPool {config : AdminConfig} {id dataroomId : ID} {p : Pool.Params} {ctx : Ctx} {pool : Pool}
    {evs : List Event} (h : Pool.createPool config id dataroomId p ctx = .ok (pool, evs)) : pool.DecisionLedger := by
  obtain ⟨hd, hn, hc⟩ := Pool.createPool_decisions h
  obtain ⟨_, _, hs, _⟩ := Pool.createPool_ok h
  constructor
  · rw [hd, hn]
    exact Table.numbered_empty _ 0
  · rw [hd, hc]
    constructor
    · intro h
      cases h
    · rintro ⟨_, _, hl, _⟩
      cases hl
  · rw [hc, hs]
    unfold isApprovedState
    decide
  · intro k d hl
    rw [hd] at hl
    cases hl

/-- Recording a decision: before it there is no approval, since the pool is in review. -/
theorem Pool.DecisionLedger.record {config : AdminConfig} {pool pool' : Pool} {decisionType toState : UInt8}
    {record : IcRecord} {ctx : Ctx} {evs : List Event} (hp : pool.DecisionLedger)
    (ht : isApprovedState toState ↔ decisionType = Types.icApprove)
    (h : pool.recordIcDecision config decisionType toState record ctx = .ok (pool', evs)) : pool'.DecisionLedger := by
  obtain ⟨hf, ⟨decision, hnew, hl, rfl⟩, _⟩ := Pool.recordIcDecision_eq h
  obtain ⟨_, _, _, hdec⟩ := IcDecision.new_ok hnew
  have hindex : decision.index = pool.icDecisionCount := by rw [hdec]
  have htype : decision.decisionType = decisionType := by rw [hdec]
  have hcached : pool.hasIcApprovalCached = false := by
    by_contra hc
    have := hp.state.1 (by simpa using hc)
    rw [hf] at this
    revert this
    unfold isApprovedState
    decide
  have hnone : ∀ k d, pool.icDecisions.lookup k = some d → d.decisionType ≠ Types.icApprove := by
    intro k d hk happ
    have := hp.cached.2 ⟨k, d, hk, happ⟩
    rw [hcached] at this
    cases this
  have happroved : (pool.hasIcApprovalCached || decision.decisionType == Types.icApprove) = true ↔
      decisionType = Types.icApprove := by
    rw [hcached, htype, Bool.false_or, beq_iff_eq]
  constructor
  · exact hp.numbered.insert (Nat.zero_le _) hindex
  · rw [happroved]
    constructor
    · intro ha
      exact ⟨pool.icDecisionCount, decision, by rw [Table.lookup_insert, if_pos rfl], by rw [htype, ha]⟩
    · rintro ⟨k, d, hk, ha⟩
      rw [Table.lookup_insert] at hk
      split at hk
      · cases hk
        rw [← htype, ha]
      · exact absurd ha (hnone k d hk)
  · rw [happroved, ht]
  · intro k d hk ha
    rw [Table.lookup_insert] at hk
    split at hk
    · rename_i hkk
      rw [hkk]
    · exact absurd ha (hnone k d hk)

/-- Any other call keeps the ledger, whatever it does to the state. -/
theorem Pool.DecisionLedger.same {pool pool' : Pool} (hp : pool.DecisionLedger) (h : pool.SameDecisions pool')
    (hs : pool'.currentState = pool.currentState ∨ (pool.currentState, pool'.currentState) ∈ Pool.moves) :
    pool'.DecisionLedger := by
  obtain ⟨hd, hn, hc⟩ := h
  have hstate : isApprovedState pool'.currentState ↔ isApprovedState pool.currentState := by
    rcases hs with hs | hs
    · rw [hs]
    · exact isApprovedState_of_moves hs
  constructor
  · rw [hd, hn]
    exact hp.numbered
  · rw [hd, hc]
    exact hp.cached
  · rw [hc, hstate]
    exact hp.state
  · rw [hd, hn]
    exact hp.last

/-- Every call keeps the ledger. -/
theorem Pool.DecisionLedger.exec {config : AdminConfig} {freshId : ID} {ctx : Ctx} {call : PoolCall} {pool pool' : Pool}
    {evs : List Event} (hp : pool.DecisionLedger) (h : call.exec config freshId ctx pool = .ok (pool', evs)) :
    pool'.DecisionLedger := by
  rcases PoolCall.exec_decisions h with ⟨_, _, _, hd, hr⟩ | ⟨hsame, hs⟩
  · exact hp.record (isApprovedState_of_decision hd) hr
  · exact hp.same hsame hs

namespace World

/-- The decisions of a pool in any state of a run: they have the numbers below their count; the pool remembers an approval exactly
when one is stored, and exactly when it is in a state that follows one; and an approval is the only one and the last decision. -/
theorem decision_ledger {publisher : Ctx} {steps : List Step} {w : World} (hr : run publisher steps = .ok w) {poolId : ID}
    {pool : Pool} (hl : w.pools.lookup poolId = some pool) :
    (∀ k, k ∈ pool.icDecisions ↔ k < pool.icDecisionCount) ∧
      (∀ k d, pool.icDecisions.lookup k = some d → d.index = k) ∧
      (pool.hasIcApprovalCached = true ↔
        ∃ k d, pool.icDecisions.lookup k = some d ∧ d.decisionType = Types.icApprove) ∧
      (pool.hasIcApprovalCached = true ↔
        pool.currentState = Types.poolStateApprovedInternal ∨ pool.currentState = Types.poolStateReadyToIssue) ∧
      ∀ k d, pool.icDecisions.lookup k = some d → d.decisionType = Types.icApprove →
        k + 1 = pool.icDecisionCount ∧
          ∀ k' d', pool.icDecisions.lookup k' = some d' → d'.decisionType = Types.icApprove → k' = k := by
  have hp : pool.DecisionLedger :=
    pools_run (fun _ _ _ _ _ _ _ => Pool.DecisionLedger.createPool) (fun _ _ _ _ _ _ _ => Pool.DecisionLedger.exec) hr hl
  refine ⟨?_, fun k d => hp.numbered.values, hp.cached, hp.state, ?_⟩
  · intro k
    rw [hp.numbered.keys k]
    simp
  · intro k d hk ha
    have hlast := hp.last k d hk ha
    refine ⟨hlast, ?_⟩
    intro k' d' hk' ha'
    have := hp.last k' d' hk' ha'
    omega

/-- A pool that was sent back once and then approved. -/
theorem decision_ledger_sample :
    ∃ w pool, run Sample.owner [Sample.createPool, Sample.byOwner .progressToDd, Sample.byOwner (.progressToIcReview []),
        Sample.byOwner (.recordIcRequestChanges Sample.decision), Sample.byOwner (.progressToIcReview []),
        Sample.byOwner (.recordIcApproval Sample.decision)] = .ok w ∧
      w.pools.lookup 2 = some pool ∧
      (∀ k, k ∈ pool.icDecisions ↔ k < pool.icDecisionCount) ∧
      (∀ k d, pool.icDecisions.lookup k = some d → d.index = k) ∧
      (pool.hasIcApprovalCached = true ↔
        ∃ k d, pool.icDecisions.lookup k = some d ∧ d.decisionType = Types.icApprove) ∧
      (pool.hasIcApprovalCached = true ↔
        pool.currentState = Types.poolStateApprovedInternal ∨ pool.currentState = Types.poolStateReadyToIssue) ∧
      ∀ k d, pool.icDecisions.lookup k = some d → d.decisionType = Types.icApprove →
        k + 1 = pool.icDecisionCount ∧
          ∀ k' d', pool.icDecisions.lookup k' = some d' → d'.decisionType = Types.icApprove → k' = k := by
  refine ⟨_, _, rfl, rfl, ?_⟩
  exact @decision_ledger Sample.owner [Sample.createPool, Sample.byOwner .progressToDd, Sample.byOwner (.progressToIcReview []),
    Sample.byOwner (.recordIcRequestChanges Sample.decision), Sample.byOwner (.progressToIcReview []),
    Sample.byOwner (.recordIcApproval Sample.decision)] _ rfl 2 _ rfl

end World

end BrineVault
