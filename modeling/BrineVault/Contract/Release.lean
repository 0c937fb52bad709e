import BrineVault.Contract.Enabled
import BrineVault.Contract.Lifecycle

/-!
# No pool gets stuck

Whatever was called before, the owner of a room can bring its pool to the last state by calls of their own, with no document reviewed and
a committee of themselves; unless the pool is cancelled, or the counter of its decisions is full before an approval. From there nobody can.
-/

namespace BrineVault

open Move

/-! ## One change after the other -/

/-- The states a pool is in. -/
def Pool.inLifecycle (pool : Pool) : Prop :=
  pool.currentState = Types.poolStateDraft ∨ pool.currentState = Types.poolStateDdInProgress ∨
    pool.currentState = Types.poolStateIcReview ∨ pool.currentState = Types.poolStateApprovedInternal ∨
    pool.currentState = Types.poolStateReadyToIssue ∨ pool.currentState = Types.poolStateRejected ∨
    pool.currentState = Types.poolStateCancelled

/-- The pool can come to the last state: it is not cancelled, and it is approved or can take one more decision. -/
def Pool.Releasable (pool : Pool) : Prop :=
  pool.currentState ≠ Types.poolStateCancelled ∧ (isApprovedState pool.currentState ∨ pool.icDecisionCount + 1 < 2 ^ 64)

/-- The target of a change is in the lifecycle. -/
theorem Change.target_inLifecycle (c : Change) {pool : Pool} (h : pool.currentState = c.target) : pool.inLifecycle := by
  unfold Pool.inLifecycle
  cases c <;> simp [h, Change.target]

section Exec

variable {config : AdminConfig} {freshId : ID} {ctx : Ctx} {call : PoolCall} {pool pool' : Pool} {evs : List Event}

/-- A decision is recorded while the counter is not full. -/
theorem PoolCall.exec_decides (h : call.exec config freshId ctx pool = .ok (pool', evs)) {c : Change} (hc : call.change = some c)
    (hd : c.decides = true) : pool.icDecisionCount + 1 < 2 ^ 64 := by
  cases call with
  | recordIcApproval | recordIcRejection | recordIcRequestChanges =>
    simp only [exec, Pool.recordIcApproval, Pool.recordIcRejection, Pool.recordIcRequestChanges, Pool.recordIcDecision,
      Pool.attachIcDecision, bind_assoc, bind_eq_ok, addU64_eq_ok] at h
    obtain ⟨_, _, _, _, _, _, _, _, _, _, _, ⟨hlt, _⟩, _⟩ := h
    exact hlt
  | _ => cases hc <;> cases hd

/-- What cannot come to the last state is not brought nearer by any call. -/
theorem PoolCall.exec_stuck (h : call.exec config freshId ctx pool = .ok (pool', evs)) (hstuck : ¬ pool.Releasable) :
    ¬ pool'.Releasable := by
  cases hc : call.change with
  | none =>
    obtain ⟨hstate, hcount⟩ := exec_no_change h hc
    rwa [Pool.Releasable, hstate, hcount]
  | some c =>
    obtain ⟨hfrom, hto, hcount⟩ := exec_change h hc
    have hbound := exec_decides h hc
    rw [Pool.Releasable, hto, hcount]
    rintro ⟨_, hgoal⟩
    refine hstuck ⟨?_, ?_⟩
    · intro hstate
      rw [hstate] at hfrom
      revert hfrom
      cases c <;> decide
    · obtain happroved | hlt := hgoal
      · cases c with
        | recordIcApproval => exact .inr (hbound rfl)
        | progressToReadyToIssue => exact .inl (.inl (List.mem_singleton.1 hfrom))
        | _ =>
          obtain htarget | htarget := happroved <;> cases htarget
      · exact .inr (by omega)

end Exec

namespace World

/-- A pool of a run is in one of the states. -/
theorem inLifecycle_run {publisher : Ctx} {steps : List Step} {w : World} (hr : run publisher steps = .ok w) {poolId : ID} {pool : Pool}
    (hl : w.pools.lookup poolId = some pool) : pool.inLifecycle := by
  refine pools_run (P := Pool.inLifecycle) ?_ ?_ hr hl
  · intro config id room p ctx pool evs h
    exact .inl (Pool.createPool_ok h).2.2.1
  · intro config freshId ctx call pool pool' evs hin h
    cases hc : call.change with
    | none => rwa [Pool.inLifecycle, (PoolCall.exec_no_change h hc).1]
    | some c => exact c.target_inLifecycle (PoolCall.exec_change h hc).2.1

/-- A pool that cannot come to the last state never does, whatever is called. -/
theorem stuck_run {w w' : World} (hw : Wf w) {rest : List Step} (hr : Steps.run step w rest = .ok w') {poolId : ID} {pool : Pool}
    (hl : w.pools.lookup poolId = some pool) (hstuck : ¬ pool.Releasable) :
    ∃ pool', w'.pools.lookup poolId = some pool' ∧ ¬ pool'.Releasable := by
  have key : Wf w' ∧ ∃ pool', w'.pools.lookup poolId = some pool' ∧ ¬ pool'.Releasable := by
    refine Steps.run_preserves step (P := fun m => Wf m ∧ ∃ q, m.pools.lookup poolId = some q ∧ ¬ q.Releasable) ?_ hr ⟨hw, pool, hl, hstuck⟩
    rintro m s m' ⟨hm, q, hq, hs⟩ h
    refine ⟨wf_step hm h, ?_⟩
    obtain ⟨evs, hd, _⟩ := step_does h
    cases hd with
    | admin _ _ hp => exact ⟨q, by rw [hp, hq], hs⟩
    | createPool _ _ hp => exact ⟨q, by rw [hp, Table.lookup_insert, if_neg (hm.ne_idsCreated hq), hq], hs⟩
    | @onPool id call q₀ q' _ hq₀ hx hp =>
      by_cases hid : poolId = id
      · subst hid
        rw [hq, Option.some.injEq] at hq₀
        subst hq₀
        exact ⟨q', by rw [hp, Table.lookup_insert, if_pos rfl], PoolCall.exec_stuck hx hs⟩
      · exact ⟨q, by rw [hp, Table.lookup_insert, if_neg hid, hq], hs⟩
  exact key.2

/-! ## The way of the owner -/

/-- The step lifts the pause, or is a call of this address on this pool, in a transaction of its own. -/
def OwnStep (poolId : ID) (caller : Address) (s : Step) : Prop :=
  s.call = .admin .unpause ∨ ∃ now call, s = ⟨some ⟨caller, now⟩, .onPool poolId call⟩

/-- By such steps alone the pool comes to the last state. -/
def ReleasedBy (w : World) (poolId : ID) (caller : Address) : Prop :=
  ∃ rest w' pool', Steps.run step w rest = .ok w' ∧ (∀ s ∈ rest, OwnStep poolId caller s) ∧ w'.pools.lookup poolId = some pool' ∧
    pool'.currentState = Types.poolStateReadyToIssue

/-- What is released from the next state is released from this one by one step more. -/
theorem ReleasedBy.cons {w w' : World} {poolId : ID} {caller : Address} {s : Step} (h : w.step s = .ok w') (hs : OwnStep poolId caller s)
    (hreleased : w'.ReleasedBy poolId caller) : w.ReleasedBy poolId caller := by
  obtain ⟨rest, m, pool, hrun, hown, hl, hstate⟩ := hreleased
  refine ⟨s :: rest, m, pool, (Steps.run_cons_ok World.step).2 ⟨w', h, hrun⟩, ?_, hl, hstate⟩
  intro t ht
  obtain rfl | ht := List.mem_cons.1 ht
  · exact hs
  · exact hown t ht

/-- A state that was reached and is not paused, with what decides about the pool in it. -/
structure At (w : World) (poolId : ID) (owner : Address) (state : UInt8) (decisions : Nat) : Prop where
  reached : ∃ publisher past, run publisher past = .ok w
  running : w.adminConfig.paused = false
  pool : ∃ pool, w.pools.lookup poolId = some pool ∧ pool.dataroom.owner = owner ∧ pool.currentState = state ∧
    pool.icDecisionCount = decisions

/-- A call on a pool leaves the configuration. -/
theorem step_onPool_adminConfig {w w' : World} {s : Step} (h : w.step s = .ok w') {poolId : ID} {call : PoolCall}
    (hc : s.call = .onPool poolId call) : w'.adminConfig = w.adminConfig := by
  simp only [World.step, hc, exec, bind_eq_ok, pure_eq_ok, Prod.exists, Prod.mk.injEq] at h
  obtain ⟨_, _, ⟨_, _, _, _, _, rfl, rfl⟩, rfl⟩ := h
  exact openTx_adminConfig _ _

/-- A call that changes the state asks for the owner's role. -/
theorem requiredRole_of_change {call : PoolCall} {c : Change} (hc : call.change = some c) : call.requiredRole = Types.roleOwnerUp := by
  cases call with
  | createCustomFolder | createDocument | addVersion | submitReview => cases hc
  | _ => rfl

section Advance

variable {w : World} {poolId : ID} {owner : Address} {state : UInt8} {decisions : Nat}

/-- The owner makes one change of state that the pool is ready for, and goes on from there. -/
theorem At.advance (h : w.At poolId owner state decisions) (call : PoolCall) {c : Change} (hc : call.change = some c)
    (hready : ∀ config ctx pool, pool.currentState = state → pool.icDecisionCount = decisions → call.Ready config ctx pool)
    (hnext : ∀ w' : World, w'.At poolId owner c.target (decisions + if c.decides then 1 else 0) → w'.ReleasedBy poolId owner) :
    w.ReleasedBy poolId owner := by
  obtain ⟨publisher, past, hr⟩ := h.reached
  obtain ⟨pool, hl, rfl, hstate, hcount⟩ := h.pool
  have hpermits : pool.dataroom.Permits pool.dataroom.owner call.requiredRole := by
    obtain ⟨m, hm, hactive, hrole⟩ := (bookkept_run hr hl).owner
    exact ⟨m, hm, hactive, requiredRole_of_change hc ▸ Types.hasRole_ownerUp hrole⟩
  obtain ⟨w', hs⟩ : Succeeds (w.step ⟨some ⟨pool.dataroom.owner, 0⟩, .onPool poolId call⟩) :=
    (succeeds_onPool hr).2 ⟨pool, hl, h.running, hpermits, hready _ _ pool hstate hcount⟩
  refine .cons hs (.inr ⟨0, call, rfl⟩) (hnext w' ⟨?_, ?_, ?_⟩)
  · exact ⟨publisher, past ++ [_], (Steps.run_snoc_ok World.step).2 ⟨w, hr, hs⟩⟩
  · rw [step_onPool_adminConfig hs rfl, h.running]
  · obtain ⟨pool₀, pool', evs, hl₀, hl', hx⟩ := step_onPool hs rfl
    rw [hl, Option.some.injEq] at hl₀
    subst hl₀
    obtain ⟨-, htarget, hcount'⟩ := PoolCall.exec_change hx hc
    exact ⟨pool', hl', (PoolCall.exec_frame hx).2.2.2, htarget, by rw [hcount', hcount]⟩

theorem At.of_ready (h : w.At poolId owner Types.poolStateReadyToIssue decisions) : w.ReleasedBy poolId owner := by
  obtain ⟨pool, hl, -, hstate, -⟩ := h.pool
  exact ⟨[], w, pool, rfl, by simp, hl, hstate⟩

theorem At.of_approved (h : w.At poolId owner Types.poolStateApprovedInternal decisions) : w.ReleasedBy poolId owner :=
  h.advance (.progressToReadyToIssue []) rfl (fun _ _ pool hstate _ => ⟨hstate, pool.allApproved_nil⟩) fun _ => At.of_ready

/-- The owner decides as a committee of one. -/
theorem At.of_review (h : w.At poolId owner Types.poolStateIcReview decisions) (hroom : decisions + 1 < 2 ^ 64) :
    w.ReleasedBy poolId owner := by
  let record : IcRecord := { decisionText := [], pdfBlobId := [], committeeMembers := [owner], votes := [0], relatedDocIds := [] }
  have hmembers : record.committeeMembers.length = record.votes.length ∧ record.committeeMembers ≠ [] := ⟨rfl, by simp [record]⟩
  refine h.advance (.recordIcApproval record) rfl (fun _ _ pool hstate hcount => ⟨hstate, hmembers, ?_⟩) fun _ => At.of_approved
  rw [hcount]
  exact hroom

/-- The owner releases the pool from the due diligence while the count of decisions has room. -/
theorem At.of_dd (h : w.At poolId owner Types.poolStateDdInProgress decisions) (hroom : decisions + 1 < 2 ^ 64) :
    w.ReleasedBy poolId owner :=
  h.advance (.progressToIcReview []) rfl (fun _ _ pool hstate _ => ⟨hstate, pool.allApproved_nil⟩) fun _ hnext => hnext.of_review hroom

theorem At.of_draft (h : w.At poolId owner Types.poolStateDraft decisions) (hroom : decisions + 1 < 2 ^ 64) : w.ReleasedBy poolId owner :=
  h.advance .progressToDd rfl (fun _ _ _ hstate _ => hstate) fun _ hnext => hnext.of_dd hroom

theorem At.of_rejected (h : w.At poolId owner Types.poolStateRejected decisions) (hroom : decisions + 1 < 2 ^ 64) :
    w.ReleasedBy poolId owner :=
  h.advance .reopenRejectedPool rfl (fun _ _ _ hstate _ => hstate) fun _ hnext => hnext.of_draft hroom

end Advance

/-- From every state in which the package is not paused and the pool is not cancelled. -/
theorem releasedBy_of_running {publisher : Ctx} {past : List Step} {w : World} (hr : run publisher past = .ok w)
    (hp : w.adminConfig.paused = false) {poolId : ID} {pool : Pool} (hl : w.pools.lookup poolId = some pool) (hgoal : pool.Releasable) :
    w.ReleasedBy poolId pool.dataroom.owner := by
  have hat : ∀ state, pool.currentState = state → w.At poolId pool.dataroom.owner state pool.icDecisionCount := fun state hstate =>
    ⟨⟨publisher, past, hr⟩, hp, pool, hl, rfl, hstate, rfl⟩
  obtain ⟨hcancelled, (hs | hs) | hroom⟩ := hgoal
  · exact (hat _ hs).of_approved
  · exact (hat _ hs).of_ready
  obtain hs | hs | hs | hs | hs | hs | hs := inLifecycle_run hr hl
  · exact (hat _ hs).of_draft hroom
  · exact (hat _ hs).of_dd hroom
  · exact (hat _ hs).of_review hroom
  · exact (hat _ hs).of_approved
  · exact (hat _ hs).of_ready
  · exact (hat _ hs).of_rejected hroom
  · exact absurd hs hcancelled

/-- A pause can be lifted, and leaves the pools as they are. -/
theorem exists_unpaused {w : World} (hp : w.adminConfig.paused = true) :
    ∃ w', w.step ⟨none, .admin .unpause⟩ = .ok w' ∧ w'.adminConfig.paused = false ∧ w'.pools = w.pools := by
  simp [World.step, exec, AdminCall.exec, AdminConfig.unpause, assert, hp, openTx, emit, bind, Except.bind, pure, Except.pure]

/-- In every state that the package reaches, the owner of a room alone can bring its pool to the last state, once the package is not
paused; or the pool is cancelled, or the counter of its decisions is full before an approval, and then nobody can, whatever they call. -/
theorem owner_releases_or_nobody {publisher : Ctx} {past : List Step} {w : World} (hr : run publisher past = .ok w) {poolId : ID}
    {pool : Pool} (hl : w.pools.lookup poolId = some pool) :
    (pool.Releasable → w.ReleasedBy poolId pool.dataroom.owner) ∧
      (¬ pool.Releasable → ∀ rest w', Steps.run step w rest = .ok w' →
        ∃ pool', w'.pools.lookup poolId = some pool' ∧ pool'.currentState ≠ Types.poolStateReadyToIssue) := by
  constructor
  · intro hgoal
    cases hp : w.adminConfig.paused with
    | false => exact releasedBy_of_running hr hp hl hgoal
    | true =>
      obtain ⟨m, hs, hrunning, hpools⟩ := exists_unpaused hp
      have hm : run publisher (past ++ [_]) = .ok m := (Steps.run_snoc_ok World.step).2 ⟨w, hr, hs⟩
      exact .cons hs (.inl rfl) (releasedBy_of_running hm hrunning (by rw [hpools, hl]) hgoal)
  · intro hstuck rest w' hrest
    obtain ⟨pool', hl', hstuck'⟩ := stuck_run (wf_run hr) hrest hl hstuck
    refine ⟨pool', hl', fun hstate => hstuck' ⟨?_, .inl (.inr hstate)⟩⟩
    rw [hstate]
    decide

/-- A rejected pool in a paused package. -/
theorem owner_releases_or_nobody_sample :
    ∃ w pool, run Sample.owner [Sample.createPool, Sample.byOwner .progressToDd, Sample.byOwner (.progressToIcReview []),
        Sample.byOwner (.recordIcRejection Sample.decision), ⟨some Sample.owner, .admin .pause⟩] = .ok w ∧
      w.pools.lookup 2 = some pool ∧
      (pool.Releasable → w.ReleasedBy 2 pool.dataroom.owner) ∧
      (¬ pool.Releasable → ∀ rest w', Steps.run step w rest = .ok w' →
        ∃ pool', w'.pools.lookup 2 = some pool' ∧ pool'.currentState ≠ Types.poolStateReadyToIssue) := by
  refine ⟨_, _, rfl, rfl, ?_⟩
  exact @owner_releases_or_nobody Sample.owner [Sample.createPool, Sample.byOwner .progressToDd, Sample.byOwner (.progressToIcReview []),
    Sample.byOwner (.recordIcRejection Sample.decision), ⟨some Sample.owner, .admin .pause⟩] _ rfl 2 _ rfl

end World

end BrineVault
