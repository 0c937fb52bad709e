import BrineVault.Contract.Approvals

/-!
# The audit trail of a pool

Every function on a pool emits one `AuditEvent` for the pool, with the caller as the actor. Two functions record an action type that
is another function's: `mark_as_required` that of a created document and `store_encrypted_folder_key` that of an added member, each
as the closest type there is.
-/

namespace BrineVault

open Move

/-- What an `AuditEvent` says: who acted, the type of the action and the time. -/
structure AuditRecord where
  actor : Address
  actionType : UInt8
  timestamp : Nat
  deriving DecidableEq, Repr

/-- The record an event is for a pool, when it is an `AuditEvent` of the pool. -/
def Event.auditOf (poolId : ID) : Event → Option AuditRecord
  | .auditEvent p actor actionType _ timestamp _ => if p = poolId then some { actor, actionType, timestamp } else none
  | _ => none

/-- The kinds of operations on a pool. -/
inductive Operation where
  | stateChange
  | icDecision
  | cancellation
  | memberAddition
  | memberRemoval
  | roleUpdate
  | folderCreation
  | keyStorage
  | documentCreation
  | versionAddition
  | review
  | flagChange
  | archiving
  deriving DecidableEq, Repr

/-- The action type the functions of one kind record. -/
def Operation.actionType : Operation → UInt8
  | .stateChange => Types.actionStateChanged
  | .icDecision => Types.actionIcDecision
  | .cancellation => Types.actionPoolCancelled
  | .memberAddition => Types.actionMemberAdded
  | .memberRemoval => Types.actionMemberRemoved
  | .roleUpdate => Types.actionMemberRoleUpdated
  | .folderCreation => Types.actionFolderCreated
  | .keyStorage => Types.actionMemberAdded
  | .documentCreation => Types.actionDocCreated
  | .versionAddition => Types.actionDocVersionAdded
  | .review => Types.actionDocReviewed
  | .flagChange => Types.actionDocCreated
  | .archiving => Types.actionDocArchived

namespace PoolCall

/-- The kind of operation a call is. -/
def operation : PoolCall → Operation
  | .progressToDd | .progressToIcReview _ | .progressToReadyToIssue _ | .reopenRejectedPool => .stateChange
  | .recordIcApproval _ | .recordIcRejection _ | .recordIcRequestChanges _ => .icDecision
  | .cancelPool => .cancellation
  | .addMember .. => .memberAddition
  | .removeMember _ => .memberRemoval
  | .updateMemberRole .. => .roleUpdate
  | .createCustomFolder .. => .folderCreation
  | .storeEncryptedFolderKey .. => .keyStorage
  | .createDocument .. => .documentCreation
  | .addVersion .. => .versionAddition
  | .submitReview .. => .review
  | .markAsRequired .. => .flagChange
  | .archiveDocument _ => .archiving

/-- The record of a call. -/
def record (ctx : Ctx) (call : PoolCall) : AuditRecord :=
  { actor := ctx.sender, actionType := call.operation.actionType, timestamp := ctx.now }

section Exec

variable {config : AdminConfig} {freshId : ID} {ctx : Ctx} {pool pool' : Pool} {call : PoolCall} {evs : List Event}

/-- A call emits its audit event last, and no other. -/
theorem exec_audited (h : call.exec config freshId ctx pool = .ok (pool', evs)) :
    ∃ others target, evs = others ++ [auditEvent pool.id ctx.sender call.operation.actionType target ctx.now] ∧
      ∀ poolId, others.filterMap (Event.auditOf poolId) = [] := by
  cases call with
  | progressToDd =>
    obtain ⟨_, _, _, rfl⟩ := Pool.progress_ok h
    exact ⟨[_], none, rfl, fun _ => rfl⟩
  | progressToIcReview ids =>
    obtain ⟨_, _, _, rfl⟩ := Pool.progress_ok h
    exact ⟨[_], none, rfl, fun _ => rfl⟩
  | progressToReadyToIssue ids =>
    obtain ⟨_, _, _, rfl⟩ := Pool.progress_ok h
    exact ⟨[_], none, rfl, fun _ => rfl⟩
  | reopenRejectedPool =>
    obtain ⟨_, _, _, rfl⟩ := Pool.progress_ok h
    exact ⟨[_], none, rfl, fun _ => rfl⟩
  | recordIcApproval r =>
    obtain ⟨_, _, rfl⟩ := Pool.recordIcDecision_eq h
    exact ⟨[_, _], none, rfl, fun _ => rfl⟩
  | recordIcRejection r =>
    obtain ⟨_, _, rfl⟩ := Pool.recordIcDecision_eq h
    exact ⟨[_, _], none, rfl, fun _ => rfl⟩
  | recordIcRequestChanges r =>
    obtain ⟨_, _, rfl⟩ := Pool.recordIcDecision_eq h
    exact ⟨[_, _], none, rfl, fun _ => rfl⟩
  | cancelPool =>
    obtain ⟨_, rfl⟩ := Pool.cancelPool_ok h
    exact ⟨[_, _], none, rfl, fun _ => rfl⟩
  | addMember a role tags =>
    obtain ⟨_, _, rfl⟩ := Pool.addMember_ok h
    exact ⟨[_], none, rfl, fun _ => rfl⟩
  | removeMember a =>
    obtain ⟨_, _, rfl⟩ := Pool.removeMember_ok h
    exact ⟨[_], none, rfl, fun _ => rfl⟩
  | updateMemberRole a role =>
    obtain ⟨_, _, _, _, _, _, rfl⟩ := Pool.updateMemberRole_ok h
    exact ⟨[_], none, rfl, fun _ => rfl⟩
  | createCustomFolder name parent roles =>
    obtain ⟨_, _, rfl⟩ := Pool.createCustomFolder_ok h
    exact ⟨[_], none, rfl, fun _ => rfl⟩
  | storeEncryptedFolderKey folder a key =>
    obtain ⟨_, rfl⟩ := Pool.storeEncryptedFolderKey_ok h
    exact ⟨[_], none, rfl, fun _ => rfl⟩
  | createDocument p up =>
    obtain ⟨_, rfl⟩ := Pool.createDocument_ok h
    exact ⟨[_], some freshId, rfl, fun _ => rfl⟩
  | addVersion docId up =>
    obtain ⟨_, _, _, _, hd, _, rfl⟩ := Pool.addVersion_ok h
    obtain ⟨_, _, _, _, _, rfl⟩ := Document.addVersion_ok hd
    exact ⟨[_], some docId, rfl, fun _ => rfl⟩
  | submitReview docId status comment =>
    obtain ⟨_, _, _, _, hd, _, rfl⟩ := Pool.submitReview_ok h
    obtain ⟨_, _, _, rfl⟩ := Document.submitReview_ok hd
    exact ⟨[_], some docId, rfl, fun _ => rfl⟩
  | markAsRequired docId required =>
    obtain ⟨_, _, _, rfl⟩ := Pool.markAsRequired_ok h
    exact ⟨[], some docId, rfl, fun _ => rfl⟩
  | archiveDocument docId =>
    obtain ⟨_, _, _, rfl⟩ := Pool.archiveDocument_ok h
    exact ⟨[_], some docId, rfl, fun _ => rfl⟩

/-- The audit events of a call: one, for its pool. -/
theorem exec_record (h : call.exec config freshId ctx pool = .ok (pool', evs)) (poolId : ID) :
    evs.filterMap (Event.auditOf poolId) = if pool.id = poolId then [call.record ctx] else [] := by
  obtain ⟨others, target, rfl, hothers⟩ := exec_audited h
  rw [List.filterMap_append, hothers, List.nil_append]
  split
  · rename_i hid
    simp only [List.filterMap_cons, List.filterMap_nil, auditEvent, Event.auditOf, if_pos hid]
    rfl
  · rename_i hid
    simp only [List.filterMap_cons, List.filterMap_nil, auditEvent, Event.auditOf, if_neg hid]

/-- How the number of documents changes by a call. -/
theorem exec_documentCount (h : call.exec config freshId ctx pool = .ok (pool', evs)) :
    Table.count (fun _ => true) pool'.documents =
      Table.count (fun _ => true) pool.documents + if call.operation = .documentCreation then 1 else 0 := by
  have other : call.operation ≠ .documentCreation →
      Table.count (fun _ => true) pool'.documents = Table.count (fun _ => true) pool.documents := by
    intro hop
    rcases exec_documents h with ⟨-, he⟩ | ⟨_, hatt, -, -⟩ | ⟨docId, doc, doc', -, hl, he⟩
    · rw [he]
    · cases hatt
      exact absurd rfl hop
    · have hover := Table.count_insert_over (fun _ => true) doc' hl
      rw [he]
      simpa using hover
  by_cases hop : call.operation = .documentCreation
  · rw [if_pos hop]
    cases call with
    | createDocument p up =>
      obtain ⟨⟨doc, _, hl, rfl⟩, _⟩ := Pool.createDocument_ok h
      simpa [Pool.setDocument] using Table.count_insert_new (fun _ => true) doc hl
    | _ => cases hop
  · rw [if_neg hop, other hop, Nat.add_zero]

end Exec

end PoolCall

namespace World

/-- The audit events of a pool, in the order they were emitted. -/
def audit (w : World) (poolId : ID) : List AuditRecord := w.events.filterMap (Event.auditOf poolId)

/-- The audit events of a pool that a step has emitted, when it is no call of `create_pool`. -/
def auditedBy (poolId : ID) (w w' : World) (s : Step) : List AuditRecord :=
  match s.call with
  | .createPool _ => []
  | _ => (w'.audit poolId).drop (w.audit poolId).length

/-- The audit events of a pool that the steps emit, those of the calls of `create_pool` left aside. -/
def auditOfCalls (poolId : ID) (w : World) : List Step → List AuditRecord
  | [] => []
  | s :: steps =>
    match w.step s with
    | .ok w' => auditedBy poolId w w' s ++ auditOfCalls poolId w' steps
    | .error _ => []

/-- The calls on a pool. -/
def callsOn (poolId : ID) (calls : List (Ctx × Call)) : List (Ctx × PoolCall) :=
  calls.filterMap fun c =>
    match c.2 with
    | .onPool p call => if p = poolId then some (c.1, call) else none
    | _ => none

/-- The number of calls of one kind. -/
def countOf (op : Operation) (calls : List (Ctx × PoolCall)) : Nat := calls.countP fun c => decide (c.2.operation = op)

/-- The number of documents of a pool; a pool that does not exist has none. -/
def documentCount (w : World) (poolId : ID) : Nat :=
  (w.pools.lookup poolId).elim 0 fun pool => pool.documents.keys.length

/-! ## One step -/

/-- A step on the pool adds one record of its call. -/
theorem step_audit {w w' : World} {s : Step} (hw : Wf w) (h : w.step s = .ok w') (poolId : ID) :
    w'.audit poolId = w.audit poolId ++ (callsOn poolId [(w.ctxOf s, s.call)]).map fun c => c.2.record c.1 := by
  obtain ⟨evs, hd, he⟩ := step_events h
  have happend : w'.audit poolId = w.audit poolId ++ evs.filterMap (Event.auditOf poolId) := by
    rw [audit, he, List.filterMap_append, audit]
  rw [happend]
  congr 1
  cases hd with
  | @admin call _ hc hx =>
    have hquiet : evs.filterMap (Event.auditOf poolId) = [] := by
      obtain ⟨_, _, _, _, rfl⟩ | ⟨_, _, rfl⟩ := AdminCall.exec_ok hx
      · rfl
      · rfl
    rw [hquiet, hc]
    rfl
  | createPool hc hx =>
    obtain ⟨_, _, _, _, _, _, _, _, _, _, rfl⟩ := Pool.createPool_ok hx
    rw [hc]
    rfl
  | @onPool p call pool _ hc hl hx =>
    have hid : pool.id = p := (hw.ids hl).1
    rw [PoolCall.exec_record hx, hid, hc]
    by_cases hp : p = poolId <;> simp [callsOn, hp]

/-- A step counts one document more exactly when it creates one. -/
theorem step_documentCount {w w' : World} {s : Step} (hw : Wf w) (h : w.step s = .ok w') (poolId : ID) :
    w'.documentCount poolId =
      w.documentCount poolId + countOf .documentCreation (callsOn poolId [(w.ctxOf s, s.call)]) := by
  have hkeys : ∀ docs : Table ID Document, docs.keys.length = Table.count (fun _ => true) docs := by
    intro docs
    simp [AList.keys, List.keys, Table.count]
  obtain ⟨evs, hd, _⟩ := step_does h
  cases hd with
  | admin hc _ hp =>
    rw [documentCount, hp, hc]
    rfl
  | createPool hc hx hp =>
    obtain ⟨_, _, _, hempty, _⟩ := Pool.createPool_ok hx
    rw [documentCount, hp, Table.lookup_insert, hc]
    split
    · rename_i hk
      have hnone : w.pools.lookup poolId = none := hk ▸ hw.lookup_idsCreated
      rw [documentCount, hnone, Option.elim_some, hempty]
      rfl
    · rfl
  | @onPool p call pool pool' hc hl hx hp =>
    rw [documentCount, hp, Table.lookup_insert, hc]
    split
    · rename_i hk
      subst hk
      rw [documentCount, hl, Option.elim_some, Option.elim_some, hkeys, hkeys, PoolCall.exec_documentCount hx]
      simp [callsOn, countOf, List.countP_cons]
    · rename_i hk
      simp [callsOn, countOf, documentCount, Ne.symm hk]

/-! ## Runs -/

theorem callsOn_append (poolId : ID) (as bs : List (Ctx × Call)) :
    callsOn poolId (as ++ bs) = callsOn poolId as ++ callsOn poolId bs := List.filterMap_append

/-- The trail of a pool is the list of the calls on it. -/
theorem audit_run {publisher : Ctx} {steps : List Step} {w : World} (hr : run publisher steps = .ok w) (poolId : ID) :
    w.audit poolId = (callsOn poolId (calls publisher steps)).map fun c => c.2.record c.1 := by
  refine Steps.run_invariant step (fun past (m : World) =>
    m.audit poolId = (callsOn poolId (calls publisher past)).map fun c => c.2.record c.1) rfl ?_ hr
  intro past m s m' hm ih h
  have hcalls := calls_snoc hm s
  rw [show (genesis publisher).ctx = publisher from rfl] at hcalls
  rw [step_audit (wf_run hm) h, ih, hcalls, callsOn_append, List.map_append]

/-- The records that a step adds are those of its call. -/
theorem auditedBy_eq {w w' : World} {s : Step} (hw : Wf w) (h : w.step s = .ok w') (poolId : ID) :
    auditedBy poolId w w' s = (callsOn poolId [(w.ctxOf s, s.call)]).map fun c => c.2.record c.1 := by
  have hstep := step_audit hw h poolId
  unfold auditedBy
  split
  · rename_i p hc
    rw [hc]
    rfl
  · rw [hstep, List.drop_left]

theorem auditOfCalls_snoc {w m m' : World} {past : List Step} {s : Step} (hr : Steps.run step w past = .ok m) (h : m.step s = .ok m')
    (poolId : ID) : auditOfCalls poolId w (past ++ [s]) = auditOfCalls poolId w past ++ auditedBy poolId m m' s := by
  induction past generalizing w with
  | nil =>
    cases hr
    simp [auditOfCalls, h]
  | cons t past ih =>
    obtain ⟨n, ht, hr⟩ := (Steps.run_cons_ok step).1 hr
    simp only [List.cons_append, auditOfCalls, ht, ih hr, List.append_assoc]

/-- Every call on the pool emits its record, and no other call but `create_pool` may emit one. -/
theorem auditOfCalls_run {publisher : Ctx} {steps : List Step} {w : World} (hr : run publisher steps = .ok w) (poolId : ID) :
    auditOfCalls poolId (genesis publisher) steps = (callsOn poolId (calls publisher steps)).map fun c => c.2.record c.1 := by
  refine Steps.run_invariant step (fun past _ =>
    auditOfCalls poolId (genesis publisher) past = (callsOn poolId (calls publisher past)).map fun c => c.2.record c.1) rfl ?_ hr
  intro past m s m' hm ih h
  have hcalls := calls_snoc hm s
  rw [show (genesis publisher).ctx = publisher from rfl] at hcalls
  rw [auditOfCalls_snoc hm h, auditedBy_eq (wf_run hm) h, ih, hcalls, callsOn_append, List.map_append]

/-- The documents told of in a run are as many as the calls that create one. -/
theorem documentCount_run {publisher : Ctx} {steps : List Step} {w : World} (hr : run publisher steps = .ok w)
    (poolId : ID) :
    w.documentCount poolId = countOf .documentCreation (callsOn poolId (calls publisher steps)) := by
  refine Steps.run_invariant step (fun past (m : World) =>
    m.documentCount poolId = countOf .documentCreation (callsOn poolId (calls publisher past))) rfl ?_ hr
  intro past m s m' hm ih h
  have hcalls := calls_snoc hm s
  rw [show (genesis publisher).ctx = publisher from rfl] at hcalls
  rw [step_documentCount (wf_run hm) h, ih, hcalls, callsOn_append, countOf, countOf, countOf, List.countP_append]

/-- No function on a pool records the creation of a pool. -/
theorem actionType_ne_poolCreated : ∀ op : Operation, op.actionType ≠ Types.actionPoolCreated := by
  intro op
  cases op <;> decide

/-- Two kinds of operations share an action type in two cases only. -/
theorem actionType_eq_iff : ∀ op op' : Operation, op.actionType = op'.actionType ↔
    op = op' ∨ (op = .memberAddition ∧ op' = .keyStorage) ∨ (op = .keyStorage ∧ op' = .memberAddition) ∨
      (op = .documentCreation ∧ op' = .flagChange) ∨ (op = .flagChange ∧ op' = .documentCreation) := by
  intro op op'
  cases op <;> cases op' <;> decide

/-- The number of records of a type that two kinds of operations share. -/
theorem countP_record {actionType : UInt8} {op op' : Operation} (hne : op ≠ op')
    (h : ∀ o : Operation, o.actionType = actionType ↔ o = op ∨ o = op') (calls : List (Ctx × PoolCall)) :
    (calls.map fun c => c.2.record c.1).countP (fun r => r.actionType = actionType) =
      countOf op calls + countOf op' calls := by
  induction calls with
  | nil => rfl
  | cons c calls ih =>
    have hc := h c.2.operation
    simp only [countOf, List.map_cons, List.countP_cons, ih, PoolCall.record, decide_eq_true_eq, hc] at ih ⊢
    by_cases h1 : c.2.operation = op
    · simp only [h1, hne, true_or, if_true, if_false] at ih ⊢
      omega
    · by_cases h2 : c.2.operation = op'
      · simp only [h2, hne.symm, or_true, if_true, if_false] at ih ⊢
        omega
      · simp only [h1, h2, or_false, if_false] at ih ⊢
        omega

/-- In every run, what the audit events of a pool say, the creation of the pool apart, is one record for each call of a function on
the pool, in the order of the calls: by its caller, with its action type, at its time. The creation of the pool is left aside in both
ways: as what the calls of `create_pool` emit, and as the records of its type. Only the addition of a member shares its type with the
storage of a key, and the creation of a document with a change of the flag. -/
theorem audit_faithful {publisher : Ctx} {steps : List Step} {w : World} (hr : run publisher steps = .ok w) (poolId : ID) :
    auditOfCalls poolId (genesis publisher) steps = (callsOn poolId (calls publisher steps)).map (fun c => c.2.record c.1) ∧
      (w.audit poolId).filter (fun r => r.actionType ≠ Types.actionPoolCreated) =
        (callsOn poolId (calls publisher steps)).map (fun c => c.2.record c.1) ∧
      (w.audit poolId).countP (fun r => r.actionType = Types.actionDocCreated) =
        w.documentCount poolId + countOf .flagChange (callsOn poolId (calls publisher steps)) ∧
      (w.audit poolId).countP (fun r => r.actionType = Types.actionMemberAdded) =
        countOf .memberAddition (callsOn poolId (calls publisher steps)) +
          countOf .keyStorage (callsOn poolId (calls publisher steps)) ∧
      ∀ op op' : Operation, op.actionType = op'.actionType ↔
        op = op' ∨ (op = .memberAddition ∧ op' = .keyStorage) ∨ (op = .keyStorage ∧ op' = .memberAddition) ∨
          (op = .documentCreation ∧ op' = .flagChange) ∨ (op = .flagChange ∧ op' = .documentCreation) := by
  have hrun := audit_run hr poolId
  refine ⟨auditOfCalls_run hr poolId, ?_, ?_, ?_, actionType_eq_iff⟩
  · rw [hrun, List.filter_eq_self]
    intro r hm
    obtain ⟨c, _, rfl⟩ := List.mem_map.1 hm
    exact decide_eq_true (actionType_ne_poolCreated c.2.operation)
  · rw [hrun, documentCount_run hr]
    exact countP_record (by decide) (by intro o; cases o <;> decide) _
  · rw [hrun]
    exact countP_record (by decide) (by intro o; cases o <;> decide) _

/-- A run with a document, a change of its flag and a second member. -/
theorem audit_faithful_sample :
    ∃ w, run Sample.owner [Sample.createPool, Sample.createDocument, Sample.byOwner (.markAsRequired 5 false),
        Sample.byOwner (.addMember 8 Types.roleReviewer [])] = .ok w ∧
      ((w.audit 2).filter (fun r => r.actionType ≠ Types.actionPoolCreated) =
          (callsOn 2 (calls Sample.owner [Sample.createPool, Sample.createDocument, Sample.byOwner (.markAsRequired 5 false),
            Sample.byOwner (.addMember 8 Types.roleReviewer [])])).map (fun c => c.2.record c.1) ∧
        (w.audit 2).countP (fun r => r.actionType = Types.actionDocCreated) = w.documentCount 2 + 1) := by
  obtain ⟨w, hw⟩ := exists_ok_of_returns (x := run Sample.owner [Sample.createPool, Sample.createDocument,
    Sample.byOwner (.markAsRequired 5 false), Sample.byOwner (.addMember 8 Types.roleReviewer [])]) rfl
  obtain ⟨-, hrecords, hcount, -⟩ := audit_faithful hw 2
  exact ⟨w, hw, hrecords, hcount⟩

/-- Two records of created documents for one document, the record of an added member without a call of `add_member`, and no
record of the created pool. -/
theorem audit_records_closest_type :
    ∃ w, run Sample.owner [Sample.createPool, Sample.createDocument, Sample.byOwner (.markAsRequired 5 false),
        Sample.byOwner (.storeEncryptedFolderKey 0 7 [1])] = .ok w ∧
      w.documentCount 2 = 1 ∧ (w.audit 2).countP (fun r => r.actionType = Types.actionDocCreated) = 2 ∧
      (w.audit 2).countP (fun r => r.actionType = Types.actionMemberAdded) = 1 ∧
      (w.audit 2).countP (fun r => r.actionType = Types.actionPoolCreated) = 0 := by
  exact exists_ok_of_any (by decide +kernel)

end World

end BrineVault
