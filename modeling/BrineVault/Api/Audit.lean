import BrineVault.Api.Exceptions
import BrineVault.Indexer.Poison

/-!
# The audit trail of a pool

The export of a pool's audit rows, over the tables that the indexer leaves. The rows of `PoolCreated` and `PoolStateChanged` are written
without their pool, so no export has them.
-/

namespace BrineVault

/-! ## The service -/

def PoolsRepository.findById (db : Db) (id : Uuid) : Option PoolRow := db.pools.find? fun r => r.id = id

/-- The rows of a pool, by the time they were written; `order` is the order the database gives them. -/
def AuditEventsRepository.findByPoolId (order : List AuditRow → List AuditRow) (db : Db) (poolId : Uuid) (limit offset : Nat) :
    List AuditRow :=
  ((order (db.auditEvents.filter fun r => r.poolId = some poolId)).drop offset).take limit

/-- The export as a list of rows, for a caller of the organisation `userOrgId`. -/
def AuditService.exportPoolAudit (order : List AuditRow → List AuditRow) (db : Db) (poolId : Uuid) (userOrgId : Option Uuid) :
    Except HttpException (List AuditRow) :=
  match PoolsRepository.findById db poolId with
  | none => .error (NotFoundException "POOL_NOT_FOUND" "Pool not found")
  | some pool =>
    if userOrgId ≠ some pool.orgId then .error (ForbiddenException "NOT_IN_ORG" "Not a member of this organization")
    else .ok (AuditEventsRepository.findByPoolId order db poolId 10000 0)

/-! ## Completeness -/

/-- The event is of a handled type and concerns the pool: it names the pool, or its room. -/
def Event.Concerns (w : World) (poolId : ID) : Event → Prop
  | .poolCreated k _ _ _ _ _ | .poolStateChanged k _ _ _ _ | .dataRoomCreated k _ _ _ | .documentCreated k _ _ _ _ _ _ _ _ _
  | .documentVersionAdded k _ _ _ _ _ _ | .documentReviewed k _ _ _ _ | .icDecisionCreated k _ _ _ _
  | .auditEvent k _ _ _ _ _ => k = poolId
  | .memberAdded k _ _ _ _ | .memberRemoved k _ _ _ | .memberRoleUpdated k _ _ _ _ _ =>
    k = poolId ∨ ∃ pool, w.pools.lookup poolId = some pool ∧ k = pool.dataroom.id
  | _ => False

/-- The export of a pool has exactly one row for each event that concerns it. -/
def TrailComplete (order : List AuditRow → List AuditRow) (w : World) (db : Db) (poolId : ID) : Prop :=
  ∃ row rows, db.poolOf poolId = some row ∧
    AuditService.exportPoolAudit order db row.id (some row.orgId) = .ok rows ∧
      ∀ e ∈ w.log, e.event.Concerns w poolId → (rows.filter fun r => r.eventId = e.id).length = 1

/-- No event of the log is in the audit table yet. -/
def Unrecorded (log : List SuiEvent) (db : Db) : Prop := ∀ e ∈ log, Rows.has AuditRow.eventId e.id db.auditEvents = false

/-- The export holds rows of the pool only. -/
theorem mem_exportPoolAudit {order : List AuditRow → List AuditRow} (ho : ∀ rows, (order rows).Perm rows) {db : Db}
    {poolId : Uuid} {org : Option Uuid} {rows : List AuditRow} (h : AuditService.exportPoolAudit order db poolId org = .ok rows)
    {r : AuditRow} (hr : r ∈ rows) : r ∈ db.auditEvents ∧ r.poolId = some poolId := by
  unfold AuditService.exportPoolAudit at h
  split at h
  · cases h
  · split at h
    · cases h
    · cases h
      have hm := (ho _).mem_iff.1 (List.mem_of_mem_drop (List.mem_of_mem_take hr))
      simpa using List.mem_filter.1 hm

/-- In a complete trail the row of each event that concerns the pool carries the pool's id. -/
theorem TrailComplete.linked {order : List AuditRow → List AuditRow} (ho : ∀ rows, (order rows).Perm rows) {w : World}
    {db : Db} {poolId : ID} (h : TrailComplete order w db poolId) {e : SuiEvent} (he : e ∈ w.log)
    (hc : e.event.Concerns w poolId) :
    ∃ row ∈ db.pools, ∃ r ∈ db.auditEvents, r.poolId = some row.id ∧ r.eventId = e.id := by
  obtain ⟨row, rows, hrow, hx, hall⟩ := h
  have hone := hall e he hc
  obtain ⟨r, hr⟩ := List.exists_mem_of_length_pos (hone ▸ Nat.one_pos)
  obtain ⟨hmem, hid⟩ := List.mem_filter.1 hr
  obtain ⟨haudit, hpool⟩ := mem_exportPoolAudit ho hx hmem
  exact ⟨row, (Rows.find_some hrow).1, r, haudit, hpool, of_decide_eq_true hid⟩

/-! ## Who writes an audit row -/

/-- An audit row was there before, or a statement has written it. -/
theorem mem_auditEvents_actAll {db : Db} {stmts : List Stmt} {r : AuditRow}
    (h : r ∈ (Statements.actAll db stmts).auditEvents) : r ∈ db.auditEvents ∨ .insertAudit r ∈ stmts := by
  induction stmts generalizing db with
  | nil => exact .inl h
  | cons s stmts ih =>
    obtain h | h := ih h
    · cases s with
      | insertAudit row =>
        obtain h | rfl := Rows.mem_insertNew h
        · exact .inl h
        · exact .inr (List.mem_cons_self ..)
      | _ => exact .inl h
    · exact .inr (List.mem_cons_of_mem s h)

/-- A statement of a list belongs to one of its events. -/
theorem mem_stmtsOfAll {db : Db} {es : List SuiEvent} {s : Stmt} (h : s ∈ stmtsOfAll db es) :
    ∃ e ∈ es, ∃ db', s ∈ stmtsOf e.id db' e.event := by
  induction es generalizing db with
  | nil => cases h
  | cons e es ih =>
    obtain h | h := List.mem_append.1 h
    · exact ⟨e, List.mem_cons_self .., db, h⟩
    · obtain ⟨f, hf, db', hs⟩ := ih h
      exact ⟨f, List.mem_cons_of_mem e hf, db', hs⟩

/-- The event tells of the pool itself: its creation, or a change of its state. -/
def Event.tellsOfPool : Event → Bool
  | .poolCreated .. | .poolStateChanged .. => true
  | _ => false

/-- The audit row of an event carries its id, and names no pool where the event tells of the pool itself. -/
theorem auditRow_of_mem_stmtsOf {ctx : EventId} {db : Db} {e : Event} {r : AuditRow} (h : .insertAudit r ∈ stmtsOf ctx db e) :
    r.eventId = ctx ∧ (e.tellsOfPool = true → r.poolId = none) := by
  cases e <;> simp only [stmtsOf] at h
  case poolCreated | poolStateChanged =>
    simp only [List.mem_cons, reduceCtorEq, Stmt.insertAudit.injEq, List.not_mem_nil, or_false, false_or] at h
    subst h
    exact ⟨rfl, fun _ => rfl⟩
  all_goals
    refine ⟨?_, by simp [Event.tellsOfPool]⟩
    repeat' split at h
    all_goals
      simp only [List.mem_cons, List.mem_append, reduceCtorEq, Stmt.insertAudit.injEq, List.not_mem_nil, or_false,
        false_or] at h
    all_goals try (subst h; rfl)

namespace World

/-- What tells of a pool itself is recorded without a pool. -/
theorem auditRow_unlinked {publisher : Ctx} {steps : List Step} {w : World} (hr : run publisher steps = .ok w) {db : Db}
    (hu : Unrecorded w.log db) {e : SuiEvent} (he : e ∈ w.log) (ht : e.event.tellsOfPool = true) :
    ∀ r ∈ (Statements.actAll db (processBatch w.log db).1).auditEvents, r.eventId = e.id → r.poolId = none := by
  intro r hmem hid
  obtain hold | hnew := mem_auditEvents_actAll hmem
  · exact absurd hid (Rows.has_eq_false_iff.1 (hu e he) r hold)
  · obtain ⟨f, hf, db', hs⟩ := mem_stmtsOfAll ((processBatch_follows w.log db).issued.subset hnew)
    obtain ⟨hfid, hnone⟩ := auditRow_of_mem_stmtsOf hs
    have hfe : f = e := List.inj_on_of_nodup_map (log_ids_nodup hr) hf he (hfid.symm.trans hid)
    exact hnone (hfe ▸ ht)

/-- Every pool's export lacks the row of its creation, for every log of the package and whatever the tables held before. -/
theorem trail_never_complete {publisher : Ctx} {steps : List Step} {w : World} (hr : run publisher steps = .ok w) {db : Db}
    (hu : Unrecorded w.log db) {order : List AuditRow → List AuditRow} (ho : ∀ rows, (order rows).Perm rows) {poolId : ID}
    {pool : Pool} (hk : w.pools.lookup poolId = some pool) :
    ¬ TrailComplete order w (Statements.actAll db (processBatch w.log db).1) poolId := by
  intro h
  obtain ⟨name, org, createdBy, scheme, t, hmem⟩ := poolCreated_of_lookup hr poolId pool hk
  obtain ⟨e, he, hev⟩ := List.mem_map.1 hmem
  obtain ⟨row, _, r, haudit, hpool, hid⟩ := h.linked ho he (by rw [hev]; rfl)
  rw [auditRow_unlinked hr hu he (by rw [hev]; rfl) r haudit hid] at hpool
  cases hpool

/-- Two audit rows of this run have no pool, and the trail lacks them. -/
theorem trail_never_complete_withPool :
    ∃ w, run Sample.owner [Sample.createPool, Sample.byOwner .progressToDd] = .ok w ∧
      ¬ TrailComplete List.reverse w (Statements.actAll Sample.withPool (processBatch w.log Sample.withPool).1) 2 := by
  obtain ⟨w, hw⟩ := Move.exists_ok_of_returns (x := run Sample.owner [Sample.createPool, Sample.byOwner .progressToDd]) rfl
  obtain ⟨pool, hk⟩ : ∃ pool, w.pools.lookup 2 = some pool := by
    cases hw
    exact ⟨_, rfl⟩
  exact ⟨w, hw, trail_never_complete hw (fun _ _ => rfl) List.reverse_perm hk⟩

/-- The log of a pool that is created and moved on is processed to its end, from tables that know the pool, and the export of the pool
lacks its creation. -/
theorem export_lacks_creation :
    ∃ w, run Sample.owner [Sample.createPool, Sample.byOwner .progressToDd] = .ok w ∧
      (processBatch w.log Sample.withPool).2 = .ok () ∧ Unrecorded w.log Sample.withPool ∧
      ¬ TrailComplete List.reverse w (Statements.actAll Sample.withPool (processBatch w.log Sample.withPool).1) 2 := by
  refine ⟨_, rfl, by decide +kernel, fun _ _ => rfl, fun h => ?_⟩
  exact absurd (h.linked List.reverse_perm (e := ⟨⟨1, 2⟩, .poolCreated 2 [80] (List.replicate 32 0) 7 0 1000⟩)
    (by decide +kernel) rfl) (by decide +kernel)

end World

end BrineVault
