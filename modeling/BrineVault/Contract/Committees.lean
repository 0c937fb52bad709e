import BrineVault.Contract.World

/-!
# The committees behind the decisions

A decision names the members of the committee and their votes. The functions that record one check that there are as many votes as
members and that there is a member at all; whether the members are distinct and active members of the room is left to the caller. A
decision keeps its place forever, so what holds of the committee in the state in which it was recorded can be said at any time later.
-/

namespace BrineVault

open Move

/-- A call that records a decision records it as its type and its next state say. -/
theorem PoolCall.exec_of_decision {config : AdminConfig} {freshId : ID} {ctx : Ctx} {call : PoolCall} {pool pool' : Pool}
    {evs : List Event} {decisionType toState : UInt8} {record : IcRecord}
    (h : call.exec config freshId ctx pool = .ok (pool', evs)) (hd : call.decision = some (decisionType, toState, record)) :
    pool.recordIcDecision config decisionType toState record ctx = .ok (pool', evs) := by
  cases call with
  | recordIcApproval | recordIcRejection | recordIcRequestChanges =>
    cases hd
    exact h
  | _ => cases hd

namespace World

/-- The decision number `k` of a pool. -/
def decisionAt (w : World) (poolId : ID) (k : Nat) : Option IcDecision :=
  (w.pools.lookup poolId).bind fun pool => pool.icDecisions.lookup k

/-- The committee is made of distinct active members of the pool's room. -/
def Seats (w : World) (poolId : ID) (committee : List Address) : Prop :=
  committee.Nodup ∧ ∃ pool, w.pools.lookup poolId = some pool ∧ ∀ a ∈ committee, pool.dataroom.isActiveMember a = true

/-- The run recorded the decision in the state `m`: a step taken there stored it where no decision was. -/
def RecordedIn (publisher : Ctx) (steps : List Step) (poolId : ID) (k : Nat) (d : IcDecision) (m : World) : Prop :=
  ∃ past s rest m', steps = past ++ s :: rest ∧ run publisher past = .ok m ∧ m.step s = .ok m' ∧
    m.decisionAt poolId k = none ∧ m'.decisionAt poolId k = some d

/-- Every stored decision was recorded in a state in which its committee sat, and has one vote for each of its members. -/
def CommitteesGenuine (publisher : Ctx) (steps : List Step) (w : World) : Prop :=
  ∀ poolId k d, w.decisionAt poolId k = some d →
    ∃ m, RecordedIn publisher steps poolId k d m ∧ m.Seats poolId d.committeeMembers ∧
      d.votes.length = d.committeeMembers.length

/-- A step that records a decision names a committee that sits. -/
def NamesSeated (w : World) (s : Step) : Prop :=
  ∀ poolId call decisionType toState record, s.call = .onPool poolId call →
    call.decision = some (decisionType, toState, record) → w.Seats poolId record.committeeMembers

/-! ## One step -/

/-- A call that records a decision stores the committee it names, with as many votes, under a free number. -/
theorem step_records {w w' : World} {s : Step} (h : w.step s = .ok w') {poolId : ID} {call : PoolCall} {decisionType toState : UInt8}
    {record : IcRecord} (hc : s.call = .onPool poolId call) (hd : call.decision = some (decisionType, toState, record)) :
    ∃ pool d, w.pools.lookup poolId = some pool ∧ w.decisionAt poolId pool.icDecisionCount = none ∧
      d.committeeMembers = record.committeeMembers ∧ d.votes.length = d.committeeMembers.length ∧
      ∀ k, w'.decisionAt poolId k = if k = pool.icDecisionCount then some d else w.decisionAt poolId k := by
  obtain ⟨pool, pool', evs, hl, hl', hx⟩ := step_onPool h hc
  obtain ⟨_, ⟨d, hnew, hfree, rfl⟩, _⟩ := Pool.recordIcDecision_eq (PoolCall.exec_of_decision hx hd)
  obtain ⟨_, hlen, _, hdec⟩ := IcDecision.new_ok hnew
  have hmembers : d.committeeMembers = record.committeeMembers := by rw [hdec]
  have hvotes : d.votes = record.votes := by rw [hdec]
  refine ⟨pool, d, hl, by rw [decisionAt, hl]; exact hfree, hmembers, by rw [hvotes, hmembers, hlen], ?_⟩
  intro k
  simp only [decisionAt, hl, hl', Option.bind_some, Table.lookup_insert]

/-- A decision after a step was there before it, or the step recorded it where none was. -/
theorem step_decision {w w' : World} {s : Step} (hw : Wf w) (h : w.step s = .ok w') (poolId : ID) (k : Nat) :
    w'.decisionAt poolId k = w.decisionAt poolId k ∨
      ∃ call decisionType toState record d, s.call = .onPool poolId call ∧
        call.decision = some (decisionType, toState, record) ∧ w.decisionAt poolId k = none ∧ w'.decisionAt poolId k = some d ∧
        d.committeeMembers = record.committeeMembers ∧ d.votes.length = d.committeeMembers.length := by
  obtain ⟨evs, hdoes, _⟩ := step_does h
  cases hdoes with
  | admin _ _ hp => exact .inl (by rw [decisionAt, hp, decisionAt])
  | createPool hc hx hp =>
    refine .inl ?_
    by_cases hk : poolId = w.idsCreated
    · have hnone : w.pools.lookup poolId = none := hk ▸ hw.lookup_idsCreated
      rw [decisionAt, decisionAt, hp, Table.lookup_insert, if_pos hk, hnone, Option.bind_some, (Pool.createPool_decisions hx).1]
      rfl
    · rw [decisionAt, hp, Table.lookup_insert, if_neg hk, decisionAt]
  | @onPool poolId₀ call pool pool' hc hl hx hp =>
    by_cases hk : poolId = poolId₀
    · subst hk
      obtain ⟨_, _, _, hd, _⟩ | ⟨hsame, _⟩ := PoolCall.exec_decisions hx
      · obtain ⟨pool₀, d, _, hfree, hmembers, hvotes, hafter⟩ := step_records h hc hd
        by_cases hkk : k = pool₀.icDecisionCount
        · subst hkk
          exact .inr ⟨call, _, _, _, d, hc, hd, hfree, by rw [hafter, if_pos rfl], hmembers, hvotes⟩
        · exact .inl (by rw [hafter, if_neg hkk])
      · refine .inl ?_
        rw [decisionAt, decisionAt, hp, Table.lookup_insert, if_pos rfl, hl, Option.bind_some, Option.bind_some, hsame.1]
    · exact .inl (by rw [decisionAt, hp, Table.lookup_insert, if_neg hk, decisionAt])

/-- A stored decision stays. -/
theorem step_keepsDecision {w w' : World} {s : Step} (hw : Wf w) (h : w.step s = .ok w') {poolId : ID} {k : Nat} {d : IcDecision}
    (hd : w.decisionAt poolId k = some d) : w'.decisionAt poolId k = some d := by
  obtain hsame | ⟨_, _, _, _, _, _, _, hnone, _⟩ := step_decision hw h poolId k
  · rw [hsame, hd]
  · rw [hd] at hnone
    cases hnone

/-! ## A run -/

variable {publisher : Ctx} {steps : List Step} {w m : World} {poolId : ID} {k : Nat} {d : IcDecision}

/-- A recorded decision is stored in every later state of the run. -/
theorem RecordedIn.stored (h : RecordedIn publisher steps poolId k d m) (hr : run publisher steps = .ok w) :
    w.decisionAt poolId k = some d := by
  obtain ⟨past, s, rest, m', hsteps, hm, hs, _, hd⟩ := h
  obtain ⟨m₁, hm₁, hrest⟩ := Steps.run_prefix step hr hsteps
  rw [show Steps.run step (genesis publisher) past = .ok m from hm, Except.ok.injEq] at hm₁
  subst hm₁
  obtain ⟨m₂, hm₂, hrest⟩ := (Steps.run_cons_ok step).1 hrest
  rw [hs, Except.ok.injEq] at hm₂
  subst hm₂
  have hwf : Wf m' := wf_step (wf_run hm) hs
  exact (Steps.run_preserves step (P := fun m => Wf m ∧ m.decisionAt poolId k = some d)
    (fun _ _ _ hP ht => ⟨wf_step hP.1 ht, step_keepsDecision hP.1 ht hP.2⟩) hrest ⟨hwf, hd⟩).2

/-- What a longer run recorded: the part before its last step did, or the last step did. -/
theorem RecordedIn.of_snoc {s : Step} (h : RecordedIn publisher (steps ++ [s]) poolId k d m) (hr : run publisher steps = .ok w) :
    RecordedIn publisher steps poolId k d m ∨ m = w := by
  obtain ⟨past, s', rest, m', hsteps, hm, hs, hnone, hd⟩ := h
  rcases Steps.snoc_eq_append_cons hsteps with ⟨_, rfl, _⟩ | ⟨rest', _, rfl⟩
  · rw [hm, Except.ok.injEq] at hr
    exact .inr hr
  · exact .inl ⟨past, s', rest', m', rfl, hm, hs, hnone, hd⟩

/-- What was recorded in a step is recorded with one step more. -/
theorem RecordedIn.snoc (h : RecordedIn publisher steps poolId k d m) (s : Step) :
    RecordedIn publisher (steps ++ [s]) poolId k d m := by
  obtain ⟨past, s', rest, m', rfl, h⟩ := h
  exact ⟨past, s', rest ++ [s], m', by simp, h⟩

/-- A step that names a committee that sits keeps the committees genuine. -/
theorem CommitteesGenuine.step {s : Step} {w' : World} (hg : CommitteesGenuine publisher steps w) (hr : run publisher steps = .ok w)
    (hs : w.step s = .ok w') (hn : w.NamesSeated s) : CommitteesGenuine publisher (steps ++ [s]) w' := by
  intro poolId k d hd
  obtain hsame | ⟨call, _, _, record, d', hc, hdec, hnone, hd', hmembers, hvotes⟩ := step_decision (wf_run hr) hs poolId k
  · rw [hsame] at hd
    obtain ⟨m, hm, hseats, hvotes⟩ := hg poolId k d hd
    exact ⟨m, hm.snoc s, hseats, hvotes⟩
  · have hdd : d' = d := by
      rw [hd, Option.some.injEq] at hd'
      exact hd'.symm
    subst hdd
    refine ⟨w, ⟨steps, s, [], w', rfl, hr, hs, hnone, hd⟩, ?_, hvotes⟩
    rw [hmembers]
    exact hn poolId call _ _ record hc hdec

/-- A step that names any other committee leaves a decision that is not genuine. -/
theorem CommitteesGenuine.broken {s : Step} {w' : World} (hr : run publisher steps = .ok w) (hs : w.step s = .ok w')
    (hn : ¬ w.NamesSeated s) : ¬ CommitteesGenuine publisher (steps ++ [s]) w' := by
  intro hg
  refine hn fun poolId call decisionType toState record hc hdec => ?_
  obtain ⟨pool, d, _, hfree, hmembers, _, hafter⟩ := step_records hs hc hdec
  obtain ⟨m, hm, hseats, _⟩ := hg poolId pool.icDecisionCount d (by rw [hafter, if_pos rfl])
  obtain hearlier | rfl := hm.of_snoc hr
  · rw [hearlier.stored hr] at hfree
    cases hfree
  · rw [← hmembers]
    exact hseats

/-- The committees are genuine in every state of a run exactly when every step of the run that records a decision names distinct
addresses that are active members of the room as the step finds it. -/
theorem committees_genuine_iff (hr : run publisher steps = .ok w) :
    (∀ past rest m, steps = past ++ rest → run publisher past = .ok m → CommitteesGenuine publisher past m) ↔
      Steps.AllSteps step NamesSeated (genesis publisher) steps := by
  refine Steps.always_iff_allSteps step (CommitteesGenuine publisher) (CommitteesGenuine publisher) ?_ ?_ ?_ ?_ hr
  · intro poolId k d hd
    cases hd
  · intro as m s t hm hg hn hs
    exact hg.step hm hs hn
  · exact fun _ _ _ hg => hg
  · intro as m s t hm _ hn hs
    exact CommitteesGenuine.broken hm hs hn

/-- A pool whose owner decides alone. -/
theorem committees_genuine_iff_sample :
    ∃ w, run Sample.owner [Sample.createPool, Sample.byOwner .progressToDd, Sample.byOwner (.progressToIcReview []),
        Sample.byOwner (.recordIcApproval Sample.decision)] = .ok w ∧
      ((∀ past rest m, [Sample.createPool, Sample.byOwner .progressToDd, Sample.byOwner (.progressToIcReview []),
          Sample.byOwner (.recordIcApproval Sample.decision)] = past ++ rest → run Sample.owner past = .ok m →
          CommitteesGenuine Sample.owner past m) ↔
        Steps.AllSteps step NamesSeated (genesis Sample.owner) [Sample.createPool, Sample.byOwner .progressToDd,
          Sample.byOwner (.progressToIcReview []), Sample.byOwner (.recordIcApproval Sample.decision)]) :=
  ⟨_, rfl, committees_genuine_iff rfl⟩

/-- The owner records an approval by an address that was never a member of the room. -/
theorem stranger_on_committee :
    ∃ w, run Sample.owner ([Sample.createPool, Sample.byOwner .progressToDd, Sample.byOwner (.progressToIcReview [])] ++
        [Sample.byOwner (.recordIcApproval { Sample.decision with committeeMembers := [99] })]) = .ok w ∧
      ¬ CommitteesGenuine Sample.owner ([Sample.createPool, Sample.byOwner .progressToDd,
        Sample.byOwner (.progressToIcReview [])] ++
        [Sample.byOwner (.recordIcApproval { Sample.decision with committeeMembers := [99] })]) w := by
  refine ⟨_, rfl, CommitteesGenuine.broken rfl rfl ?_⟩
  intro h
  obtain ⟨_, pool, hl, ha⟩ := h 2 _ _ _ _ rfl rfl
  cases hl
  exact absurd (ha 99 (List.mem_singleton.2 rfl)) (by decide)

end World

end BrineVault
