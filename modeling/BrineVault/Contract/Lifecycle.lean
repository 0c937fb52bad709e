import BrineVault.Contract.Decisions

/-!
# How often a pool changes state

Eight functions change the state of a pool. What comes to a state leaves it or is still there: counting the calls of a run tells how
often the committee was asked, what it decided, and which state the pool is in. A pool is approved once at most, and what is ready to
issue or cancelled stays so.
-/

namespace BrineVault

open Move

/-- The functions that change the state of a pool. -/
inductive Change where
  | progressToDd
  | progressToIcReview
  | recordIcApproval
  | recordIcRejection
  | recordIcRequestChanges
  | progressToReadyToIssue
  | cancelPool
  | reopenRejectedPool
  deriving DecidableEq, Repr

namespace Change

/-- The states a function changes from. -/
def sources : Change → List UInt8
  | .progressToDd => [Types.poolStateDraft]
  | .progressToIcReview => [Types.poolStateDdInProgress]
  | .recordIcApproval | .recordIcRejection | .recordIcRequestChanges => [Types.poolStateIcReview]
  | .progressToReadyToIssue => [Types.poolStateApprovedInternal]
  | .cancelPool => [Types.poolStateDraft, Types.poolStateDdInProgress]
  | .reopenRejectedPool => [Types.poolStateRejected]

/-- The state it changes to. -/
def target : Change → UInt8
  | .progressToDd => Types.poolStateDdInProgress
  | .progressToIcReview => Types.poolStateIcReview
  | .recordIcApproval => Types.poolStateApprovedInternal
  | .recordIcRejection => Types.poolStateRejected
  | .recordIcRequestChanges => Types.poolStateDdInProgress
  | .progressToReadyToIssue => Types.poolStateReadyToIssue
  | .cancelPool => Types.poolStateCancelled
  | .reopenRejectedPool => Types.poolStateDraft

/-- The function records a decision of the committee. -/
def decides : Change → Bool
  | .recordIcApproval | .recordIcRejection | .recordIcRequestChanges => true
  | _ => false

end Change

namespace PoolCall

/-- The change of state a call is, when it is one. -/
def change : PoolCall → Option Change
  | .progressToDd => some .progressToDd
  | .progressToIcReview _ => some .progressToIcReview
  | .recordIcApproval _ => some .recordIcApproval
  | .recordIcRejection _ => some .recordIcRejection
  | .recordIcRequestChanges _ => some .recordIcRequestChanges
  | .progressToReadyToIssue _ => some .progressToReadyToIssue
  | .cancelPool => some .cancelPool
  | .reopenRejectedPool => some .reopenRejectedPool
  | _ => none

section Exec

variable {config : AdminConfig} {freshId : ID} {ctx : Ctx} {call : PoolCall} {pool pool' : Pool} {evs : List Event}

/-- A call that changes the state leads from a source of the change to its target. -/
theorem exec_change (h : call.exec config freshId ctx pool = .ok (pool', evs)) {c : Change} (hc : call.change = some c) :
    pool.currentState ∈ c.sources ∧ pool'.currentState = c.target ∧
      pool'.icDecisionCount = pool.icDecisionCount + (if c.decides then 1 else 0) := by
  cases call with
  | progressToDd | progressToIcReview | progressToReadyToIssue | reopenRejectedPool =>
    cases hc
    obtain ⟨hf, _, rfl, _⟩ := Pool.progress_ok h
    exact ⟨List.mem_singleton.2 hf, rfl, rfl⟩
  | recordIcApproval | recordIcRejection | recordIcRequestChanges =>
    cases hc
    obtain ⟨hf, ⟨_, _, _, rfl⟩, _⟩ := Pool.recordIcDecision_eq h
    exact ⟨List.mem_singleton.2 hf, rfl, rfl⟩
  | cancelPool =>
    cases hc
    have hf := Pool.cancelPool_from h
    obtain ⟨rfl, _⟩ := Pool.cancelPool_ok h
    exact ⟨by simpa [Change.sources] using hf, rfl, rfl⟩
  | _ => cases hc

/-- Every other call leaves the state and the decisions alone. -/
theorem exec_no_change (h : call.exec config freshId ctx pool = .ok (pool', evs)) (hc : call.change = none) :
    pool'.currentState = pool.currentState ∧ pool'.icDecisionCount = pool.icDecisionCount := by
  cases exec_effect h with
  | moved move target quiet =>
    cases call with
    | progressToDd | progressToIcReview | progressToReadyToIssue | reopenRejectedPool | cancelPool => cases hc
    | recordIcApproval | recordIcRejection | recordIcRequestChanges => cases hc
    | addVersion | submitReview | markAsRequired | archiveDocument => cases target
    | addMember =>
      obtain ⟨_, ⟨_, _, he⟩, _⟩ := Pool.addMember_ok h
      rw [he]
      exact ⟨rfl, rfl⟩
    | removeMember =>
      obtain ⟨_, ⟨_, _, he⟩, _⟩ := Pool.removeMember_ok h
      rw [he]
      exact ⟨rfl, rfl⟩
    | updateMemberRole =>
      obtain ⟨_, _, _, _, _, he, _⟩ := Pool.updateMemberRole_ok h
      rw [he]
      exact ⟨rfl, rfl⟩
    | createCustomFolder =>
      obtain ⟨⟨_, he⟩, _⟩ := Pool.createCustomFolder_ok h
      rw [he]
      exact ⟨rfl, rfl⟩
    | storeEncryptedFolderKey =>
      obtain ⟨he, _⟩ := Pool.storeEncryptedFolderKey_ok h
      rw [he]
      exact ⟨rfl, rfl⟩
    | createDocument =>
      obtain ⟨⟨_, _, _, he⟩, _⟩ := Pool.createDocument_ok h
      rw [he]
      exact ⟨rfl, rfl⟩
  | decided decision =>
    cases call with
    | recordIcApproval | recordIcRejection | recordIcRequestChanges => cases hc
    | _ => cases decision
  | enrolled | arranged | attached | changed => exact ⟨rfl, rfl⟩

end Exec

end PoolCall

/-! ## Counting -/

/-- The changes of state of a pool among the steps of a run. -/
def World.changesOn (poolId : ID) (steps : List Step) : List Change :=
  steps.filterMap fun s =>
    match s.call with
    | .onPool id call => if id = poolId then call.change else none
    | _ => none

/-- How many of the states a pool is in: one or none. -/
def Pool.inStates (pool : Pool) (states : List UInt8) : Nat := if pool.currentState ∈ states then 1 else 0

/-- The balance of a pool against its changes of state: what came to a state left it, or the pool is in it. -/
structure Pool.Balanced (changes : List Change) (pool : Pool) : Prop where
  started : changes.count .reopenRejectedPool + changes.count .recordIcRequestChanges + 1 =
    changes.count .progressToIcReview + changes.count .cancelPool +
      pool.inStates [Types.poolStateDraft, Types.poolStateDdInProgress]
  submitted : changes.count .progressToIcReview = pool.icDecisionCount + pool.inStates [Types.poolStateIcReview]
  decided : pool.icDecisionCount =
    changes.count .recordIcApproval + changes.count .recordIcRejection + changes.count .recordIcRequestChanges
  approved : changes.count .recordIcApproval = pool.inStates [Types.poolStateApprovedInternal, Types.poolStateReadyToIssue]
  released : changes.count .progressToReadyToIssue = pool.inStates [Types.poolStateReadyToIssue]
  rejected : changes.count .recordIcRejection = changes.count .reopenRejectedPool + pool.inStates [Types.poolStateRejected]
  cancelled : changes.count .cancelPool = pool.inStates [Types.poolStateCancelled]

namespace Pool.Balanced

variable {pool pool' : Pool} {changes : List Change}

/-- A new pool is balanced before any change. -/
theorem createPool {config : AdminConfig} {id dataroomId : ID} {p : Params} {ctx : Ctx} {evs : List Event}
    (h : createPool config id dataroomId p ctx = .ok (pool, evs)) : pool.Balanced [] := by
  obtain ⟨_, _, hstate, _⟩ := createPool_ok h
  obtain ⟨_, hcount, _⟩ := createPool_decisions h
  constructor <;> simp only [inStates, hstate, hcount] <;> decide

/-- The balance is about the state and the number of decisions only. -/
theorem congr (h : pool.Balanced changes) (hstate : pool'.currentState = pool.currentState)
    (hcount : pool'.icDecisionCount = pool.icDecisionCount) : pool'.Balanced changes := by
  have hin : pool'.inStates = pool.inStates := by
    funext states
    rw [inStates, inStates, hstate]
  obtain ⟨h1, h2, h3, h4, h5, h6, h7⟩ := h
  rw [← hin] at h1 h2 h4 h5 h6 h7
  rw [← hcount] at h2 h3
  exact ⟨h1, h2, h3, h4, h5, h6, h7⟩

/-- A change takes the pool out of one state and into another, and is counted. -/
theorem change (h : pool.Balanced changes) {c : Change} (hfrom : pool.currentState ∈ c.sources)
    (hto : pool'.currentState = c.target) (hcount : pool'.icDecisionCount = pool.icDecisionCount + (if c.decides then 1 else 0)) :
    pool'.Balanced (changes ++ [c]) := by
  obtain ⟨h1, h2, h3, h4, h5, h6, h7⟩ := h
  cases c with
  | cancelPool =>
    simp only [Change.sources, List.mem_cons, List.not_mem_nil, or_false] at hfrom
    obtain hfrom | hfrom := hfrom <;>
      simp [inStates, hfrom, Types.poolStateDraft, Types.poolStateDdInProgress, Types.poolStateIcReview,
        Types.poolStateApprovedInternal, Types.poolStateReadyToIssue, Types.poolStateRejected, Types.poolStateCancelled]
        at h1 h2 h3 h4 h5 h6 h7 <;>
      constructor <;>
      simp [inStates, hto, hcount, Change.target, Change.decides, List.count_append,
        Types.poolStateDraft, Types.poolStateDdInProgress, Types.poolStateIcReview, Types.poolStateApprovedInternal,
        Types.poolStateReadyToIssue, Types.poolStateRejected, Types.poolStateCancelled] <;>
      omega
  | _ =>
    rw [Change.sources, List.mem_singleton] at hfrom
    simp [inStates, hfrom, Types.poolStateDraft, Types.poolStateDdInProgress, Types.poolStateIcReview,
      Types.poolStateApprovedInternal, Types.poolStateReadyToIssue, Types.poolStateRejected, Types.poolStateCancelled]
      at h1 h2 h3 h4 h5 h6 h7
    constructor <;>
      simp [inStates, hto, hcount, Change.target, Change.decides, List.count_append,
        Types.poolStateDraft, Types.poolStateDdInProgress, Types.poolStateIcReview, Types.poolStateApprovedInternal,
        Types.poolStateReadyToIssue, Types.poolStateRejected, Types.poolStateCancelled] <;>
      omega

end Pool.Balanced

namespace World

theorem changesOn_append (poolId : ID) (as bs : List Step) : changesOn poolId (as ++ bs) = changesOn poolId as ++ changesOn poolId bs :=
  List.filterMap_append

/-- The change of one step. -/
theorem changesOn_onPool {poolId : ID} {s : Step} {call : PoolCall} (hc : s.call = .onPool poolId call) :
    changesOn poolId [s] = call.change.toList := by
  cases hch : call.change with
  | none => simp [changesOn, hc, hch]
  | some c => simp [changesOn, hc, hch]

/-- A step that is no call on the pool. -/
theorem changesOn_eq_nil {poolId : ID} {s : Step} (hc : ∀ call, s.call ≠ .onPool poolId call) : changesOn poolId [s] = [] := by
  unfold changesOn
  cases hs : s.call with
  | admin | createPool => simp [hs]
  | onPool id call =>
    have hne : id ≠ poolId := by
      rintro rfl
      exact hc call hs
    simp [hs, hne]

/-- Every pool of a run is balanced, and a pool that does not exist was not changed. -/
theorem balanced_run {publisher : Ctx} {steps : List Step} {w : World} (hr : run publisher steps = .ok w) (poolId : ID) :
    (w.pools.lookup poolId = none → changesOn poolId steps = []) ∧
      ∀ pool, w.pools.lookup poolId = some pool → pool.Balanced (changesOn poolId steps) := by
  refine Steps.run_invariant step (fun past m => (m.pools.lookup poolId = none → changesOn poolId past = []) ∧
    ∀ pool, m.pools.lookup poolId = some pool → pool.Balanced (changesOn poolId past)) ?_ ?_ hr
  · exact ⟨fun _ => rfl, fun _ hl => by cases hl⟩
  rintro past m s m' hm ⟨hnone, hsome⟩ hs
  rw [changesOn_append]
  obtain ⟨evs, hd, _⟩ := step_does hs
  cases hd with
  | admin hc _ hp =>
    rw [changesOn_eq_nil (by simp [hc]), List.append_nil, hp]
    exact ⟨hnone, hsome⟩
  | createPool hc hnew hp =>
    rw [changesOn_eq_nil (by simp [hc]), List.append_nil, hp]
    constructor
    · intro hl
      rw [Table.lookup_insert] at hl
      split at hl
      · cases hl
      · exact hnone hl
    · intro pool hl
      obtain ⟨hid, rfl⟩ | hl := Table.lookup_insert_cases hl
      · -- The id is new, so no call on the pool came before.
        rw [hnone (hid ▸ (wf_run hm).lookup_idsCreated)]
        exact .createPool hnew
      · exact hsome pool hl
  | @onPool id call pool₀ pool' hc hl₀ hx hp =>
    rw [hp]
    by_cases hid : poolId = id
    · subst hid
      rw [changesOn_onPool hc, Table.lookup_insert, if_pos rfl]
      constructor
      · intro hl
        cases hl
      intro pool hl
      cases hl
      have hb := hsome pool₀ hl₀
      cases hch : call.change with
      | none =>
        obtain ⟨hstate, hcount⟩ := PoolCall.exec_no_change hx hch
        rw [Option.toList_none, List.append_nil]
        exact hb.congr hstate hcount
      | some c =>
        obtain ⟨hfrom, hto, hcount⟩ := PoolCall.exec_change hx hch
        exact hb.change hfrom hto hcount
    · have hother : ∀ call', s.call ≠ .onPool poolId call' := by
        intro call' he
        rw [hc] at he
        cases he
        exact hid rfl
      rw [changesOn_eq_nil hother, List.append_nil, Table.lookup_insert, if_neg hid]
      exact ⟨hnone, hsome⟩

/-- The lifecycle of a pool in numbers. In every state of a run the calls that took it to review are as many as the decisions of the
committee, and one more while it is in review; the decisions are the approvals, the rejections and the requests for changes; there was one
approval if the pool is approved or ready to issue, and none otherwise; each rejection but the one that holds was reopened; and the
pool was cancelled once if it is cancelled, and never otherwise. -/
theorem lifecycle_counts {publisher : Ctx} {steps : List Step} {w : World} (hr : run publisher steps = .ok w) {poolId : ID}
    {pool : Pool} (hl : w.pools.lookup poolId = some pool) : pool.Balanced (changesOn poolId steps) :=
  (balanced_run hr poolId).2 pool hl

/-- A pool that was rejected, reopened and submitted again. -/
theorem lifecycle_counts_sample :
    ∃ w pool, run Sample.owner [Sample.createPool, Sample.byOwner .progressToDd, Sample.byOwner (.progressToIcReview []),
        Sample.byOwner (.recordIcRejection Sample.decision), Sample.byOwner .reopenRejectedPool, Sample.byOwner .progressToDd,
        Sample.byOwner (.progressToIcReview [])] = .ok w ∧
      w.pools.lookup 2 = some pool ∧
      pool.Balanced (changesOn 2 [Sample.createPool, Sample.byOwner .progressToDd, Sample.byOwner (.progressToIcReview []),
        Sample.byOwner (.recordIcRejection Sample.decision), Sample.byOwner .reopenRejectedPool, Sample.byOwner .progressToDd,
        Sample.byOwner (.progressToIcReview [])]) := by
  refine ⟨_, _, rfl, rfl, ?_⟩
  exact @lifecycle_counts Sample.owner [Sample.createPool, Sample.byOwner .progressToDd, Sample.byOwner (.progressToIcReview []),
    Sample.byOwner (.recordIcRejection Sample.decision), Sample.byOwner .reopenRejectedPool, Sample.byOwner .progressToDd,
    Sample.byOwner (.progressToIcReview [])] _ rfl 2 _ rfl

end World

end BrineVault
