import BrineVault.Contract.Emitted

/-!
# The changes of state that the events tell

A pool announces itself before any change of its state, and every change is told: the state of a pool is the one that the last change
in the log leads to, or the first state where the log has none.
-/

namespace BrineVault

open Move

/-- The state an event moves the pool to, where it tells of a move. -/
def Event.movesPool (k : ID) : Event → Option UInt8
  | .poolStateChanged poolId _ toState _ _ => if poolId = k then some toState else none
  | _ => none

/-- The state the last change of the pool leads to. -/
def lastState (k : ID) (es : List Event) : Option UInt8 := es.reverse.findSome? (Event.movesPool k)

theorem lastState_append (k : ID) (es fs : List Event) : lastState k (es ++ fs) = (lastState k fs).or (lastState k es) := by
  rw [lastState, List.reverse_append, List.findSome?_append, lastState, lastState]

@[simp] theorem lastState_nil (k : ID) : lastState k [] = none := rfl

/-- The last state of a list, its first event taken off. -/
@[simp] theorem lastState_cons (k : ID) (e : Event) (es : List Event) :
    lastState k (e :: es) = (lastState k es).or (e.movesPool k) := by
  rw [← List.singleton_append, lastState_append]
  congr 1
  rw [lastState, List.reverse_singleton, List.findSome?_cons]
  cases e.movesPool k <;> rfl

/-- No state is told of when no event moves the pool. -/
theorem lastState_eq_none_iff {k : ID} {es : List Event} : lastState k es = none ↔ ∀ e ∈ es, e.movesPool k = none := by
  simp [lastState]

/-- The last change of the pool, with what comes after it. -/
theorem exists_last_change {k : ID} {es : List Event} {state : UInt8} (h : lastState k es = some state) :
    ∃ past e rest, es = past ++ e :: rest ∧ e.movesPool k = some state ∧ ∀ f ∈ rest, f.movesPool k = none := by
  obtain ⟨rest, e, past, hes, he, hrest⟩ := List.findSome?_eq_some_iff.1 h
  refine ⟨past.reverse, e, rest.reverse, ?_, he, fun f hf => hrest f (List.mem_reverse.1 hf)⟩
  rw [← List.reverse_reverse es, hes]
  simp

/-- A place in two lists that are appended is a place in the first, or one in the second. -/
theorem place_in_append {α : Type} {l l' past rest : List α} {a : α} (h : l ++ l' = past ++ a :: rest) :
    (∃ mid, l = past ++ a :: mid) ∨ ∃ part, past = l ++ part ∧ l' = part ++ a :: rest := by
  obtain ⟨part, rfl, rfl⟩ | ⟨mid, rfl, hrest⟩ := List.append_eq_append_iff.1 h
  · exact .inr ⟨part, rfl, rfl⟩
  · cases mid with
    | nil => exact .inr ⟨[], by simp, by simpa using hrest.symm⟩
    | cons b mid =>
      rw [List.cons_append, List.cons.injEq] at hrest
      obtain ⟨rfl, _⟩ := hrest
      exact .inl ⟨mid, rfl⟩

/-- What a call tells of states: of no other pool, and of its own the state it leaves it in. -/
theorem PoolCall.exec_lastState {config : AdminConfig} {freshId : ID} {ctx : Ctx} {pool pool' : Pool} {call : PoolCall}
    {evs : List Event} (h : call.exec config freshId ctx pool = .ok (pool', evs)) :
    (∀ k, k ≠ pool.id → lastState k evs = none) ∧ pool'.currentState = (lastState pool.id evs).getD pool.currentState := by
  cases call with
  | progressToDd | progressToIcReview | progressToReadyToIssue | reopenRejectedPool =>
    obtain ⟨_, _, rfl, rfl⟩ := Pool.progress_ok h
    exact ⟨fun k hk => by simp [Event.movesPool, auditEvent, hk.symm], by simp [Event.movesPool, auditEvent]⟩
  | cancelPool =>
    obtain ⟨rfl, rfl⟩ := Pool.cancelPool_ok h
    exact ⟨fun k hk => by simp [Event.movesPool, auditEvent, hk.symm], by simp [Event.movesPool, auditEvent]⟩
  | recordIcApproval | recordIcRejection | recordIcRequestChanges =>
    obtain ⟨_, _, hstate, _, _, rfl⟩ := Pool.recordIcDecision_ok h
    exact ⟨fun k hk => by simp [Event.movesPool, auditEvent, hk.symm], by
      simp [Event.movesPool, auditEvent, hstate]⟩
  | addMember =>
    obtain ⟨_, ⟨_, _, rfl⟩, rfl⟩ := Pool.addMember_ok h
    exact ⟨fun _ _ => rfl, rfl⟩
  | removeMember =>
    obtain ⟨_, ⟨_, _, rfl⟩, rfl⟩ := Pool.removeMember_ok h
    exact ⟨fun _ _ => rfl, rfl⟩
  | updateMemberRole =>
    obtain ⟨_, _, _, _, _, rfl, rfl⟩ := Pool.updateMemberRole_ok h
    exact ⟨fun _ _ => rfl, rfl⟩
  | createCustomFolder =>
    obtain ⟨⟨_, rfl⟩, _, rfl⟩ := Pool.createCustomFolder_ok h
    exact ⟨fun _ _ => rfl, rfl⟩
  | storeEncryptedFolderKey =>
    obtain ⟨rfl, rfl⟩ := Pool.storeEncryptedFolderKey_ok h
    exact ⟨fun _ _ => rfl, rfl⟩
  | createDocument =>
    obtain ⟨⟨_, _, _, rfl⟩, rfl⟩ := Pool.createDocument_ok h
    exact ⟨fun _ _ => rfl, rfl⟩
  | addVersion =>
    obtain ⟨_, _, _, _, hd, rfl, rfl⟩ := Pool.addVersion_ok h
    obtain ⟨_, _, _, _, _, rfl⟩ := Document.addVersion_ok hd
    exact ⟨fun _ _ => rfl, rfl⟩
  | submitReview =>
    obtain ⟨_, _, _, _, hd, rfl, rfl⟩ := Pool.submitReview_ok h
    obtain ⟨_, _, _, rfl⟩ := Document.submitReview_ok hd
    exact ⟨fun _ _ => rfl, rfl⟩
  | markAsRequired =>
    obtain ⟨_, _, rfl, rfl⟩ := Pool.markAsRequired_ok h
    exact ⟨fun _ _ => rfl, rfl⟩
  | archiveDocument =>
    obtain ⟨_, _, rfl, rfl⟩ := Pool.archiveDocument_ok h
    exact ⟨fun _ _ => rfl, rfl⟩

/-- The admin's calls move no pool. -/
theorem AdminCall.exec_lastState {call : AdminCall} {config config' : AdminConfig} {ctx : Ctx} {evs : List Event}
    (h : call.exec config ctx = .ok (config', evs)) (k : ID) : lastState k evs = none := by
  obtain ⟨_, _, _, _, rfl⟩ | ⟨_, _, rfl⟩ := AdminCall.exec_ok h
  · rfl
  · rfl

namespace World

/-- What the log tells of the states: the state of every pool, and nothing of a pool that is not there. -/
structure StatesTold (w : World) : Prop where
  current : ∀ k pool, w.pools.lookup k = some pool → pool.currentState = (lastState k w.events).getD Types.poolStateDraft
  unknown : ∀ k, w.pools.lookup k = none → lastState k w.events = none
  announced : ∀ past e rest k, w.events = past ++ e :: rest → e.movesPool k ≠ none →
    ∃ name org createdBy scheme t, .poolCreated k name org createdBy scheme t ∈ past

/-- A log that grows by events that move pools that have announced themselves only. -/
theorem announced_append {w w' : World} {evs : List Event} (he : w'.events = w.events ++ evs) (ht : StatesTold w)
    (hevs : ∀ k, lastState k evs ≠ none → ∃ name org createdBy scheme t, .poolCreated k name org createdBy scheme t ∈ w.events)
    {past : List Event} {e : Event} {rest : List Event} {k : ID} (hs : w'.events = past ++ e :: rest) (hm : e.movesPool k ≠ none) :
    ∃ name org createdBy scheme t, .poolCreated k name org createdBy scheme t ∈ past := by
  obtain ⟨mid, hold⟩ | ⟨part, rfl, hnew⟩ := place_in_append (he.symm.trans hs)
  · exact ht.announced past e mid k hold hm
  · -- The event is one of the new ones, so its pool announced itself in the old log.
    obtain ⟨name, org, createdBy, scheme, t, hc⟩ := hevs k fun hnone =>
      hm (lastState_eq_none_iff.1 hnone e (by rw [hnew]; simp))
    exact ⟨name, org, createdBy, scheme, t, List.mem_append_left part hc⟩

/-- A step keeps the tale of the states. -/
theorem StatesTold.step {publisher : Ctx} {steps : List Step} {w w' : World} {s : Step} (hr : run publisher steps = .ok w)
    (ht : StatesTold w) (h : w.step s = .ok w') : StatesTold w' := by
  have hw := wf_run hr
  obtain ⟨evs, hdoes, he⟩ := step_events h
  cases hdoes with
  | admin _ hx hp =>
    have hquiet := AdminCall.exec_lastState hx
    refine ⟨?_, ?_, fun past e rest k => announced_append he ht fun k hne => absurd (hquiet k) hne⟩
    · intro k pool hl
      rw [he, lastState_append, hquiet, Option.none_or]
      exact ht.current k pool (hp ▸ hl)
    · intro k hl
      rw [he, lastState_append, hquiet, Option.none_or]
      exact ht.unknown k (hp ▸ hl)
  | createPool _ hx hp =>
    obtain ⟨_, _, hdraft, _, _, _, _, _, _, _, hevs⟩ := Pool.createPool_ok hx
    have hquiet : ∀ k, lastState k evs = none := fun k => by rw [hevs]; rfl
    refine ⟨?_, ?_, fun past e rest k => announced_append he ht fun k hne => absurd (hquiet k) hne⟩
    · intro k pool hl
      rw [he, lastState_append, hquiet, Option.none_or]
      rw [hp, Table.lookup_insert] at hl
      split at hl
      · rename_i hk
        cases hl
        rw [ht.unknown k (hk ▸ hw.lookup_idsCreated), hdraft]
        rfl
      · exact ht.current k pool hl
    · intro k hl
      rw [he, lastState_append, hquiet, Option.none_or]
      rw [hp, Table.lookup_insert] at hl
      split at hl
      · cases hl
      · exact ht.unknown k hl
  | @onPool poolId call pool pool' _ hl₀ hx hp =>
    obtain ⟨hother, hown⟩ := PoolCall.exec_lastState hx
    have hid : pool.id = poolId := (hw.ids hl₀).1
    rw [hid] at hother hown
    refine ⟨?_, ?_, fun past e rest k => announced_append he ht fun k hne => ?_⟩
    · intro k p hl
      rw [he, lastState_append]
      rw [hp, Table.lookup_insert] at hl
      split at hl
      · rename_i hk
        cases hl
        rw [hk, hown, ht.current poolId pool hl₀]
        cases lastState poolId evs <;> rfl
      · rename_i hk
        rw [hother k hk, Option.none_or]
        exact ht.current k p hl
    · intro k hl
      rw [hp, Table.lookup_insert] at hl
      split at hl
      · cases hl
      · rename_i hk
        rw [he, lastState_append, hother k hk, Option.none_or]
        exact ht.unknown k hl
    · have hk : k = poolId := by
        by_contra hk
        exact hne (hother k hk)
      exact hk ▸ poolCreated_of_lookup hr poolId pool hl₀

/-- The log of every run tells the states of its pools. -/
theorem statesTold_run {publisher : Ctx} {steps : List Step} {w : World} (hr : run publisher steps = .ok w) : StatesTold w := by
  refine Steps.run_invariant World.step (fun _ m => StatesTold m) ?_ ?_ hr
  · refine ⟨fun k pool hl => ?_, fun k _ => rfl, fun past e rest k he => ?_⟩
    · cases hl
    · simp [events, genesis] at he
  · exact fun _ _ _ _ hm ht hs => ht.step hm hs

end World

end BrineVault
