import BrineVault.Contract.World

/-!
# What the package emits

The values an emitted event can carry, and the order of the events that announce a pool and its data room.
-/

namespace BrineVault

open Move

/-- The values that the package has checked before it emits the event. -/
def Event.Valid : Event → Prop
  | .poolCreated _ _ _ _ scheme _ => scheme ≤ 1
  | .poolStateChanged _ _ toState _ _ => toState ≤ 8
  | .memberAdded _ _ role _ _ => 0 < role ∧ role ≤ 63
  | .memberRoleUpdated _ _ _ newRole _ _ => 0 < newRole ∧ newRole ≤ 63
  | .documentCreated _ _ _ _ _ version _ _ _ _ => version = 1
  | .documentVersionAdded _ _ version _ _ _ _ => 0 < version
  | .documentReviewed _ _ _ status _ => status ≤ 2
  | _ => True

/-- A pool is announced after its data room, and a data room is announced once. -/
def Event.Before : Event → Event → Prop
  | .poolCreated poolId _ _ _ _ _, .dataRoomCreated poolId' _ _ _ => poolId ≠ poolId'
  | .dataRoomCreated _ room _ _, .dataRoomCreated _ room' _ _ => room ≠ room'
  | _, _ => True

/-- The event announces a pool or a data room. -/
def Event.announces : Event → Bool
  | .poolCreated .. | .dataRoomCreated .. => true
  | _ => false

/-- The events of a call, the audit event after the others. -/
theorem valid_audited {others : List Event} (h : ∀ e ∈ others, e.Valid ∧ e.announces = false) (poolId : ID) (actor : Address)
    (actionType : UInt8) (targetId : Option ID) (now : Nat) :
    ∀ e ∈ others ++ [auditEvent poolId actor actionType targetId now], e.Valid ∧ e.announces = false := by
  intro e he
  rcases List.mem_append.1 he with he | he
  · exact h e he
  · rw [List.mem_singleton.1 he]
    exact ⟨trivial, rfl⟩

/-- An event and its audit event are valid where the first is. -/
theorem valid_pair {event : Event} (hvalid : event.Valid) (hsilent : event.announces = false) {poolId : ID} {actor : Address}
    {actionType : UInt8} {targetId : Option ID} {now : Nat} :
    ∀ e ∈ [event, auditEvent poolId actor actionType targetId now], e.Valid ∧ e.announces = false :=
  valid_audited (List.forall_mem_singleton.2 ⟨hvalid, hsilent⟩) poolId actor actionType targetId now

/-- An event, the change of the pool's state that goes with it, and the audit event. -/
theorem valid_change {event : Event} (hvalid : event.Valid) (hsilent : event.announces = false) {poolId : ID}
    {fromState toState : UInt8} (hstate : toState ≤ 8) {actor : Address} {actionType : UInt8} {targetId : Option ID} {now : Nat} :
    ∀ e ∈ [event, .poolStateChanged poolId fromState toState actor now, auditEvent poolId actor actionType targetId now],
      e.Valid ∧ e.announces = false := by
  have hothers : ∀ e ∈ [event, .poolStateChanged poolId fromState toState actor now], e.Valid ∧ e.announces = false := by
    intro e he
    rcases List.mem_pair.1 he with rfl | rfl
    · exact ⟨hvalid, hsilent⟩
    · exact ⟨hstate, rfl⟩
  exact valid_audited hothers poolId actor actionType targetId now

/-- Every event of a call on a pool is valid, and announces nothing. -/
theorem PoolCall.exec_valid {config : AdminConfig} {freshId : ID} {ctx : Ctx} {pool pool' : Pool} {call : PoolCall}
    {evs : List Event} (h : call.exec config freshId ctx pool = .ok (pool', evs)) :
    ∀ e ∈ evs, e.Valid ∧ e.announces = false := by
  cases call with
  | progressToDd =>
    obtain ⟨_, _, _, rfl⟩ := Pool.progress_ok h
    refine valid_pair ?_ rfl
    exact (by decide : Types.poolStateDdInProgress ≤ 8)
  | progressToIcReview ids =>
    obtain ⟨_, _, _, rfl⟩ := Pool.progress_ok h
    refine valid_pair ?_ rfl
    exact (by decide : Types.poolStateIcReview ≤ 8)
  | progressToReadyToIssue ids =>
    obtain ⟨_, _, _, rfl⟩ := Pool.progress_ok h
    refine valid_pair ?_ rfl
    exact (by decide : Types.poolStateReadyToIssue ≤ 8)
  | reopenRejectedPool =>
    obtain ⟨_, _, _, rfl⟩ := Pool.progress_ok h
    refine valid_pair ?_ rfl
    exact (by decide : Types.poolStateDraft ≤ 8)
  | recordIcApproval r =>
    obtain ⟨_, _, _, _, _, rfl⟩ := Pool.recordIcDecision_ok h
    refine valid_change ?_ rfl ?_
    · trivial
    · exact (by decide : Types.poolStateApprovedInternal ≤ 8)
  | recordIcRejection r =>
    obtain ⟨_, _, _, _, _, rfl⟩ := Pool.recordIcDecision_ok h
    refine valid_change ?_ rfl ?_
    · trivial
    · exact (by decide : Types.poolStateRejected ≤ 8)
  | recordIcRequestChanges r =>
    obtain ⟨_, _, _, _, _, rfl⟩ := Pool.recordIcDecision_ok h
    refine valid_change ?_ rfl ?_
    · trivial
    · exact (by decide : Types.poolStateDdInProgress ≤ 8)
  | cancelPool =>
    obtain ⟨_, rfl⟩ := Pool.cancelPool_ok h
    refine valid_change ?_ rfl ?_
    · trivial
    · exact (by decide : Types.poolStateCancelled ≤ 8)
  | addMember a role tags =>
    obtain ⟨hr, _, rfl⟩ := Pool.addMember_ok h
    refine valid_pair ?_ rfl
    exact Types.isValidRole_iff.1 hr
  | removeMember a =>
    obtain ⟨_, _, rfl⟩ := Pool.removeMember_ok h
    refine valid_pair ?_ rfl
    exact trivial
  | updateMemberRole a role =>
    obtain ⟨hr, _, _, _, _, _, rfl⟩ := Pool.updateMemberRole_ok h
    refine valid_pair ?_ rfl
    exact Types.isValidRole_iff.1 hr
  | createCustomFolder name parent roles =>
    obtain ⟨_, _, rfl⟩ := Pool.createCustomFolder_ok h
    refine valid_pair ?_ rfl
    exact trivial
  | storeEncryptedFolderKey folder a key =>
    obtain ⟨_, rfl⟩ := Pool.storeEncryptedFolderKey_ok h
    refine valid_pair ?_ rfl
    exact trivial
  | createDocument p up =>
    obtain ⟨_, rfl⟩ := Pool.createDocument_ok h
    refine valid_pair ?_ rfl
    rfl
  | addVersion docId up =>
    obtain ⟨_, _, _, _, hd, _, rfl⟩ := Pool.addVersion_ok h
    obtain ⟨_, _, _, _, _, rfl⟩ := Document.addVersion_ok hd
    refine valid_pair ?_ rfl
    exact Nat.succ_pos _
  | submitReview docId status comment =>
    obtain ⟨_, _, _, _, hd, _, rfl⟩ := Pool.submitReview_ok h
    obtain ⟨_, hs, _, rfl⟩ := Document.submitReview_ok hd
    refine valid_pair ?_ rfl
    exact hs
  | markAsRequired docId required =>
    obtain ⟨_, _, _, rfl⟩ := Pool.markAsRequired_ok h
    exact valid_audited (List.forall_mem_nil _) _ _ _ _ _
  | archiveDocument docId =>
    obtain ⟨_, _, _, rfl⟩ := Pool.archiveDocument_ok h
    refine valid_pair ?_ rfl
    exact trivial

/-- The admin's events are valid, and announce nothing. -/
theorem AdminCall.exec_valid {call : AdminCall} {config config' : AdminConfig} {ctx : Ctx} {evs : List Event}
    (h : call.exec config ctx = .ok (config', evs)) : ∀ e ∈ evs, e.Valid ∧ e.announces = false := by
  obtain ⟨_, _, _, _, rfl⟩ | ⟨_, _, rfl⟩ := AdminCall.exec_ok h
  · simp [Event.Valid, Event.announces]
  · simp

namespace World

/-- Every event the package emits is valid. -/
theorem events_valid {publisher : Ctx} {steps : List Step} {w : World} (hr : run publisher steps = .ok w) :
    ∀ e ∈ w.events, e.Valid := by
  refine Steps.run_invariant step (fun _ m => ∀ e ∈ m.events, e.Valid) (by simp [events, genesis]) ?_ hr
  intro past m s m' _ ih h
  obtain ⟨evs, hd, he⟩ := step_events h
  rw [he]
  intro e hm
  rcases List.mem_append.1 hm with hm | hm
  · exact ih e hm
  · cases hd with
    | admin _ h => exact (AdminCall.exec_valid h e hm).1
    | createPool _ h =>
      obtain ⟨_, _, _, _, _, _, _, _, hs, _, rfl⟩ := Pool.createPool_ok h
      simp only [List.mem_cons, List.not_mem_nil, or_false] at hm
      rcases hm with rfl | rfl | rfl
      · trivial
      · exact ⟨by decide, by decide⟩
      · exact hs
    | onPool _ _ h => exact (PoolCall.exec_valid h e hm).1

/-- What is announced has an id that was given to a pool or a room before. -/
def Announced (m : World) : Prop :=
  (∀ poolId name org by' scheme t, .poolCreated poolId name org by' scheme t ∈ m.events → poolId < m.idsCreated) ∧
    ∀ poolId room owner t, .dataRoomCreated poolId room owner t ∈ m.events → room < m.idsCreated

/-- An event that announces nothing may come after any other. -/
theorem before_of_quiet {a b : Event} (hb : b.announces = false) : Event.Before a b := by
  cases b <;> first | (cases hb; done) | (cases a <;> trivial)

/-- Events that announce nothing keep the order of a log. -/
theorem ordered_append_quiet {m m' : World} {evs : List Event} (he : m'.events = m.events ++ evs)
    (hq : ∀ e ∈ evs, e.announces = false) (hi : m.idsCreated ≤ m'.idsCreated) (ho : m.events.Pairwise Event.Before)
    (ha : Announced m) : m'.events.Pairwise Event.Before ∧ Announced m' := by
  have old : ∀ {e : Event}, e.announces = true → e ∈ m'.events → e ∈ m.events := by
    intro e hae hm
    rw [he, List.mem_append] at hm
    refine hm.resolve_right fun hm => ?_
    rw [hq e hm] at hae
    cases hae
  refine ⟨?_, fun _ _ _ _ _ _ hm => ?_, fun _ _ _ _ hm => ?_⟩
  · rw [he, List.pairwise_append]
    exact ⟨ho, List.pairwise_of_forall_mem_list fun _ _ b hb => before_of_quiet (hq b hb),
      fun _ _ b hb => before_of_quiet (hq b hb)⟩
  · exact Nat.lt_of_lt_of_le (ha.1 _ _ _ _ _ _ (old rfl hm)) hi
  · exact Nat.lt_of_lt_of_le (ha.2 _ _ _ _ (old rfl hm)) hi

/-- The announcements of a log come in order. -/
theorem events_ordered {publisher : Ctx} {steps : List Step} {w : World} (hr : run publisher steps = .ok w) :
    w.events.Pairwise Event.Before ∧ Announced w := by
  refine Steps.run_invariant step (fun _ m => m.events.Pairwise Event.Before ∧ Announced m)
    ⟨by simp [events, genesis], by simp [Announced, events, genesis]⟩ ?_ hr
  rintro past m s m' - ⟨ih, ihp, ihd⟩ h
  obtain ⟨evs, hd, he⟩ := step_events h
  cases hd with
  | admin _ h _ hi => exact ordered_append_quiet he (fun e hm => (AdminCall.exec_valid h e hm).2) (by omega) ih ⟨ihp, ihd⟩
  | onPool _ _ h _ hi =>
    exact ordered_append_quiet he (fun e hm => (PoolCall.exec_valid h e hm).2) (by omega) ih ⟨ihp, ihd⟩
  | createPool _ h _ hi =>
    obtain ⟨_, _, _, _, _, _, _, _, _, _, rfl⟩ := Pool.createPool_ok h
    refine ⟨?_, ?_, ?_⟩
    · rw [he, List.pairwise_append]
      refine ⟨ih, by simp [Event.Before], fun a ha b hb => ?_⟩
      simp only [List.mem_cons, List.not_mem_nil, or_false] at hb
      rcases hb with rfl | rfl | rfl
      · cases a with
        | poolCreated poolId =>
          have := ihp _ _ _ _ _ _ ha
          exact Nat.ne_of_lt this
        | dataRoomCreated _ room =>
          have := ihd _ _ _ _ ha
          exact Nat.ne_of_lt (Nat.lt_succ_of_lt this)
        | _ => trivial
      · exact before_of_quiet rfl
      · cases a <;> trivial
    · intro poolId name org by' scheme t hm
      rw [he, List.mem_append] at hm
      rcases hm with hm | hm
      · have := ihp _ _ _ _ _ _ hm
        grind
      · simp only [List.mem_cons, reduceCtorEq, false_or, Event.poolCreated.injEq, List.not_mem_nil, or_false] at hm
        have := hm.1
        grind
    · intro poolId room owner t hm
      rw [he, List.mem_append] at hm
      rcases hm with hm | hm
      · have := ihd _ _ _ _ hm
        grind
      · simp only [List.mem_cons, reduceCtorEq, or_false, Event.dataRoomCreated.injEq, List.not_mem_nil] at hm
        have := hm.2.1
        grind

/-! ## The ids of the log -/

/-- The ids of numbered events. -/
theorem mem_numberFrom {digest seq : Nat} {es : List Event} {e : SuiEvent} (h : e ∈ numberFrom digest seq es) :
    e.id.txDigest = digest ∧ seq ≤ e.id.eventSeq ∧ e.id.eventSeq < seq + es.length := by
  induction es generalizing seq with
  | nil => cases h
  | cons f es ih =>
    obtain rfl | h := List.mem_cons.1 h
    · exact ⟨rfl, Nat.le_refl _, by simp⟩
    · have := ih h
      rw [List.length_cons]
      omega

/-- Events are numbered apart. -/
theorem nodup_ids_numberFrom (digest seq : Nat) (es : List Event) : ((numberFrom digest seq es).map (·.id)).Nodup := by
  induction es generalizing seq with
  | nil => exact List.nodup_nil
  | cons e es ih =>
    refine List.nodup_cons.2 ⟨fun h => ?_, ih (seq + 1)⟩
    obtain ⟨f, hf, he⟩ := List.mem_map.1 h
    have := (mem_numberFrom hf).2.1
    rw [he] at this
    exact Nat.not_succ_le_self seq this

/-- The id comes before the one that the next event gets. -/
def IdUsed (w : World) (id : EventId) : Prop :=
  id.txDigest < w.txDigest ∨ id.txDigest = w.txDigest ∧ id.eventSeq < w.eventSeq

/-- An id that was used stays so with a new transaction. -/
theorem idUsed_openTx {w : World} {id : EventId} (h : IdUsed w id) (tx : Option Ctx) : IdUsed (w.openTx tx) id := by
  cases tx with
  | none => exact h
  | some ctx =>
    left
    change id.txDigest < w.txDigest + 1
    obtain h | h := h <;> omega

/-- No two events of the log have one id. -/
theorem log_ids_nodup {publisher : Ctx} {steps : List Step} {w : World} (hr : run publisher steps = .ok w) :
    (w.log.map (·.id)).Nodup := by
  refine (Steps.run_invariant step (fun _ (m : World) => (m.log.map (·.id)).Nodup ∧ ∀ e ∈ m.log, IdUsed m e.id)
    ⟨by simp [genesis], by simp [genesis]⟩ ?_ hr).1
  rintro past m s m' - ⟨hn, hu⟩ h
  obtain ⟨evs, _, hd, hs, hl⟩ := step_does h
  refine ⟨?_, fun e he => ?_⟩
  · rw [hl, List.map_append, List.nodup_append]
    refine ⟨hn, nodup_ids_numberFrom .., fun a ha b hb => ?_⟩
    obtain ⟨e, he, rfl⟩ := List.mem_map.1 ha
    obtain ⟨f, hf, rfl⟩ := List.mem_map.1 hb
    have hold := idUsed_openTx (hu e he) s.tx
    have hnew := mem_numberFrom hf
    intro heq
    rw [IdUsed, heq] at hold
    omega
  · rw [hl, List.mem_append] at he
    rw [IdUsed, hd, hs]
    obtain he | he := he
    · have := idUsed_openTx (hu e he) s.tx
      rw [IdUsed] at this
      omega
    · have := mem_numberFrom he
      omega

/-- Every pool has announced its room and itself. -/
theorem announced_of_lookup {publisher : Ctx} {steps : List Step} {w : World} (hr : run publisher steps = .ok w) :
    ∀ poolId pool, w.pools.lookup poolId = some pool →
      (∃ room owner t, .dataRoomCreated poolId room owner t ∈ w.events) ∧
        ∃ name org createdBy scheme t, .poolCreated poolId name org createdBy scheme t ∈ w.events := by
  refine Steps.run_invariant step (fun _ (m : World) => ∀ poolId pool, m.pools.lookup poolId = some pool →
    (∃ room owner t, .dataRoomCreated poolId room owner t ∈ m.events) ∧
      ∃ name org createdBy scheme t, .poolCreated poolId name org createdBy scheme t ∈ m.events)
    (fun _ _ hl => by cases hl) ?_ hr
  intro past m s m' _ ih h poolId pool hk
  obtain ⟨evs, hd, he⟩ := step_events h
  rw [he]
  have old : ∀ pool₀, m.pools.lookup poolId = some pool₀ →
      (∃ room owner t, .dataRoomCreated poolId room owner t ∈ m.events ++ evs) ∧
        ∃ name org createdBy scheme t, .poolCreated poolId name org createdBy scheme t ∈ m.events ++ evs := by
    intro pool₀ hk₀
    obtain ⟨⟨room, owner, t₀, hroom⟩, name, org, by', scheme, t, hmem⟩ := ih poolId pool₀ hk₀
    exact ⟨⟨room, owner, t₀, List.mem_append_left _ hroom⟩, name, org, by', scheme, t, List.mem_append_left _ hmem⟩
  cases hd with
  | admin _ _ hp => exact old pool (hp ▸ hk)
  | @createPool p _ _ h hp =>
    obtain ⟨_, _, _, _, _, _, _, _, _, _, rfl⟩ := Pool.createPool_ok h
    rw [hp, Table.lookup_insert] at hk
    split at hk
    · rename_i hkk
      rw [hkk]
      refine ⟨⟨m.idsCreated + 1, (m.ctxOf s).sender, (m.ctxOf s).now, ?_⟩, p.name, p.orgIdHash, (m.ctxOf s).sender,
        p.encryptionScheme, (m.ctxOf s).now, ?_⟩
      · exact List.mem_append_right _ (List.mem_cons_self ..)
      · exact List.mem_append_right _ (List.mem_cons_of_mem _ (List.mem_cons_of_mem _ (List.mem_cons_self ..)))
    · exact old pool hk
  | onPool _ hl _ hp =>
    rw [hp, Table.lookup_insert] at hk
    split at hk
    · rename_i hkk
      exact old _ (hkk ▸ hl)
    · exact old pool hk

/-- Every pool has announced itself. -/
theorem poolCreated_of_lookup {publisher : Ctx} {steps : List Step} {w : World} (hr : run publisher steps = .ok w) :
    ∀ poolId pool, w.pools.lookup poolId = some pool →
      ∃ name org createdBy scheme t, .poolCreated poolId name org createdBy scheme t ∈ w.events :=
  fun poolId pool hl => (announced_of_lookup hr poolId pool hl).2

end World

end BrineVault
