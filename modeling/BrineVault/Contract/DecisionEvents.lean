import BrineVault.Contract.Decisions
import BrineVault.Contract.StateChanges

/-!
# The decisions that the events tell

Every decision that a pool keeps is told once, by an event with its number, its type and who recorded it, and nothing else is told of
decisions. The pool has announced itself before.
-/

namespace BrineVault

open Move

/-- What an event tells of a decision: the pool, the number, the type, and who recorded it. -/
structure DecisionNote where
  poolId : ID
  index : Nat
  decisionType : UInt8
  createdBy : Address
  deriving DecidableEq, Repr

/-- The note of an event, when it tells of a decision. -/
def Event.decisionNote : Event → Option DecisionNote
  | .icDecisionCreated poolId index decisionType createdBy _ => some { poolId, index, decisionType, createdBy }
  | _ => none

/-- What a call tells of decisions: of the one it records, when it records one. -/
theorem PoolCall.exec_decisionNotes {config : AdminConfig} {freshId : ID} {ctx : Ctx} {pool pool' : Pool} {call : PoolCall}
    {evs : List Event} (h : call.exec config freshId ctx pool = .ok (pool', evs)) :
    (evs.filterMap Event.decisionNote = [] ∧ pool'.icDecisions = pool.icDecisions) ∨
      ∃ d, evs.filterMap Event.decisionNote = [⟨pool.id, pool.icDecisionCount, d.decisionType, d.createdBy⟩] ∧
        pool.icDecisions.lookup pool.icDecisionCount = none ∧
        pool'.icDecisions = pool.icDecisions.insert pool.icDecisionCount d := by
  cases call with
  | progressToDd | progressToIcReview | progressToReadyToIssue | reopenRejectedPool =>
    obtain ⟨_, _, rfl, rfl⟩ := Pool.progress_ok h
    exact .inl ⟨rfl, rfl⟩
  | cancelPool =>
    obtain ⟨rfl, rfl⟩ := Pool.cancelPool_ok h
    exact .inl ⟨rfl, rfl⟩
  | recordIcApproval | recordIcRejection | recordIcRequestChanges =>
    obtain ⟨_, ⟨d, hd, hn, rfl⟩, rfl⟩ := Pool.recordIcDecision_eq h
    obtain ⟨_, _, _, rfl⟩ := IcDecision.new_ok hd
    exact .inr ⟨_, rfl, hn, rfl⟩
  | addMember =>
    obtain ⟨_, ⟨_, _, rfl⟩, rfl⟩ := Pool.addMember_ok h
    exact .inl ⟨rfl, rfl⟩
  | removeMember =>
    obtain ⟨_, ⟨_, _, rfl⟩, rfl⟩ := Pool.removeMember_ok h
    exact .inl ⟨rfl, rfl⟩
  | updateMemberRole =>
    obtain ⟨_, _, _, _, _, rfl, rfl⟩ := Pool.updateMemberRole_ok h
    exact .inl ⟨rfl, rfl⟩
  | createCustomFolder =>
    obtain ⟨⟨_, rfl⟩, _, rfl⟩ := Pool.createCustomFolder_ok h
    exact .inl ⟨rfl, rfl⟩
  | storeEncryptedFolderKey =>
    obtain ⟨rfl, rfl⟩ := Pool.storeEncryptedFolderKey_ok h
    exact .inl ⟨rfl, rfl⟩
  | createDocument =>
    obtain ⟨⟨_, _, _, rfl⟩, rfl⟩ := Pool.createDocument_ok h
    exact .inl ⟨rfl, rfl⟩
  | addVersion =>
    obtain ⟨_, _, _, _, hd, rfl, rfl⟩ := Pool.addVersion_ok h
    obtain ⟨_, _, _, _, _, rfl⟩ := Document.addVersion_ok hd
    exact .inl ⟨rfl, rfl⟩
  | submitReview =>
    obtain ⟨_, _, _, _, hd, rfl, rfl⟩ := Pool.submitReview_ok h
    obtain ⟨_, _, _, rfl⟩ := Document.submitReview_ok hd
    exact .inl ⟨rfl, rfl⟩
  | markAsRequired =>
    obtain ⟨_, _, rfl, rfl⟩ := Pool.markAsRequired_ok h
    exact .inl ⟨rfl, rfl⟩
  | archiveDocument =>
    obtain ⟨_, _, rfl, rfl⟩ := Pool.archiveDocument_ok h
    exact .inl ⟨rfl, rfl⟩

/-- The admin's calls tell of no decision. -/
theorem AdminCall.exec_decisionNotes {call : AdminCall} {config config' : AdminConfig} {ctx : Ctx} {evs : List Event}
    (h : call.exec config ctx = .ok (config', evs)) : evs.filterMap Event.decisionNote = [] := by
  obtain ⟨_, _, _, _, rfl⟩ | ⟨_, _, rfl⟩ := AdminCall.exec_ok h
  · rfl
  · rfl

namespace World

/-- The decisions that the log tells of. -/
def decisionNotes (w : World) : List DecisionNote := w.events.filterMap Event.decisionNote

/-- The pool of the note keeps the decision that the note tells of. -/
def Decided (w : World) (n : DecisionNote) : Prop :=
  ∃ pool d, w.pools.lookup n.poolId = some pool ∧ pool.icDecisions.lookup n.index = some d ∧ d.decisionType = n.decisionType ∧
    d.createdBy = n.createdBy

/-- What the log tells of the decisions: exactly those that the pools keep, each after its pool. -/
structure DecisionsTold (w : World) : Prop where
  told : ∀ n, n ∈ w.decisionNotes ↔ w.Decided n
  announced : ∀ past e rest n, w.events = past ++ e :: rest → e.decisionNote = some n →
    ∃ name org createdBy scheme t, .poolCreated n.poolId name org createdBy scheme t ∈ past

/-- New events that tell only of decisions of pools that have announced themselves. -/
theorem DecisionsTold.announced_append {w w' : World} {evs : List Event} (ht : DecisionsTold w) (he : w'.events = w.events ++ evs)
    (hevs : ∀ n ∈ evs.filterMap Event.decisionNote,
      ∃ name org createdBy scheme t, .poolCreated n.poolId name org createdBy scheme t ∈ w.events)
    {past : List Event} {e : Event} {rest : List Event} {n : DecisionNote} (hs : w'.events = past ++ e :: rest)
    (hn : e.decisionNote = some n) : ∃ name org createdBy scheme t, .poolCreated n.poolId name org createdBy scheme t ∈ past := by
  obtain ⟨mid, hold⟩ | ⟨part, rfl, hnew⟩ := place_in_append (he.symm.trans hs)
  · exact ht.announced past e mid n hold hn
  · have hmem : n ∈ evs.filterMap Event.decisionNote := by
      rw [List.mem_filterMap]
      exact ⟨e, by rw [hnew]; simp, hn⟩
    obtain ⟨name, org, createdBy, scheme, t, hc⟩ := hevs n hmem
    exact ⟨name, org, createdBy, scheme, t, List.mem_append_left part hc⟩

/-- A step that tells of no decision, and leaves those of every pool alone. -/
theorem DecisionsTold.of_quiet {w w' : World} {evs : List Event} (ht : DecisionsTold w) (he : w'.events = w.events ++ evs)
    (hquiet : evs.filterMap Event.decisionNote = []) (hsame : ∀ n, w'.Decided n ↔ w.Decided n) : DecisionsTold w' := by
  refine ⟨fun n => ?_, fun past e rest n => ht.announced_append he (by simp [hquiet])⟩
  rw [hsame, decisionNotes, he, List.filterMap_append, hquiet, List.append_nil]
  exact ht.told n

/-- A step keeps that the events tell of the decisions. -/
theorem DecisionsTold.step {publisher : Ctx} {steps : List Step} {w w' : World} {s : Step} (hr : run publisher steps = .ok w)
    (ht : DecisionsTold w) (h : w.step s = .ok w') : DecisionsTold w' := by
  have hw := wf_run hr
  obtain ⟨evs, hdoes, he⟩ := step_events h
  cases hdoes with
  | admin _ hx hp =>
    refine ht.of_quiet he (AdminCall.exec_decisionNotes hx) fun n => ?_
    rw [Decided, hp]
    rfl
  | createPool _ hx hp =>
    obtain ⟨_, _, _, _, _, _, _, _, _, _, hevs⟩ := Pool.createPool_ok hx
    obtain ⟨hempty, _, _⟩ := Pool.createPool_decisions hx
    refine ht.of_quiet he (by rw [hevs]; rfl) fun n => ?_
    constructor
    · rintro ⟨pool, d, hl, hd, hn⟩
      rw [hp] at hl
      obtain ⟨_, rfl⟩ | hl := Table.lookup_insert_cases hl
      · rw [hempty] at hd
        cases hd
      · exact ⟨pool, d, hl, hd, hn⟩
    · rintro ⟨pool, d, hl, hd, hn⟩
      exact ⟨pool, d, by rw [hp, Table.lookup_insert, if_neg (hw.ne_idsCreated hl), hl], hd, hn⟩
  | @onPool poolId call pool pool' _ hl₀ hx hp =>
    have hid : pool.id = poolId := (hw.ids hl₀).1
    obtain ⟨hquiet, hsame⟩ | ⟨d, hnotes, hnone, hnew⟩ := PoolCall.exec_decisionNotes hx
    · refine ht.of_quiet he hquiet fun n => ?_
      constructor
      · rintro ⟨p, d, hl, hd, hn⟩
        rw [hp] at hl
        obtain ⟨hk, rfl⟩ | hl := Table.lookup_insert_cases hl
        · exact ⟨pool, d, by rw [hk, hl₀], hsame ▸ hd, hn⟩
        · exact ⟨p, d, hl, hd, hn⟩
      · rintro ⟨p, d, hl, hd, hn⟩
        by_cases hk : n.poolId = poolId
        · rw [hk, hl₀, Option.some.injEq] at hl
          subst hl
          exact ⟨pool', d, by rw [hp, hk, Table.lookup_insert, if_pos rfl], hsame.symm ▸ hd, hn⟩
        · exact ⟨p, d, by rw [hp, Table.lookup_insert, if_neg hk, hl], hd, hn⟩
    · rw [hid] at hnotes
      refine ⟨fun n => ?_, fun past e rest n => ht.announced_append he ?_⟩
      · rw [decisionNotes, he, List.filterMap_append, hnotes, List.mem_append, List.mem_singleton, ← decisionNotes, ht.told]
        constructor
        · rintro (⟨p, d', hl, hd, hn⟩ | rfl)
          · by_cases hk : n.poolId = poolId
            · rw [hk, hl₀, Option.some.injEq] at hl
              subst hl
              refine ⟨pool', d', by rw [hp, hk, Table.lookup_insert, if_pos rfl], ?_, hn⟩
              rw [hnew]
              exact Table.extends_insert d hnone _ _ hd
            · exact ⟨p, d', by rw [hp, Table.lookup_insert, if_neg hk, hl], hd, hn⟩
          · exact ⟨pool', d, by rw [hp, Table.lookup_insert, if_pos rfl], by rw [hnew, Table.lookup_insert, if_pos rfl], rfl, rfl⟩
        · rintro ⟨p, d', hl, hd, htype, hby⟩
          rw [hp] at hl
          obtain ⟨hk, rfl⟩ | hl := Table.lookup_insert_cases hl
          · rw [hnew] at hd
            obtain ⟨hi, rfl⟩ | hd := Table.lookup_insert_cases hd
            · right
              cases n
              cases hk
              cases hi
              cases htype
              cases hby
              rfl
            · exact .inl ⟨pool, d', by rw [hk, hl₀], hd, htype, hby⟩
          · exact .inl ⟨p, d', hl, hd, htype, hby⟩
      · rw [hnotes]
        intro n hn
        rw [List.mem_singleton.1 hn]
        exact poolCreated_of_lookup hr poolId pool hl₀

/-- The log of every run tells the decisions of its pools. -/
theorem decisionsTold_run {publisher : Ctx} {steps : List Step} {w : World} (hr : run publisher steps = .ok w) :
    DecisionsTold w := by
  refine Steps.run_invariant World.step (fun _ m => DecisionsTold m) ?_ ?_ hr
  · refine ⟨fun n => ?_, fun past e rest n he => ?_⟩
    · constructor
      · intro h
        simp [decisionNotes, events, genesis] at h
      · rintro ⟨_, _, hl, _⟩
        cases hl
    · simp [events, genesis] at he
  · exact fun _ _ _ _ hm ht hs => ht.step hm hs

end World

end BrineVault
