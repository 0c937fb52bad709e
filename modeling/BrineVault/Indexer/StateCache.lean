import BrineVault.Contract.StateChanges
import BrineVault.Indexer.Delivery

/-!
# The cached states of the pools

`handlePoolStateChanged` writes the state of its event over whatever the row holds. The states of the pools converge all the same,
however the log is cut into pages and wherever the process dies: once the cursor is past the last change of a pool, the row holds the
state that change leads to.
-/

namespace BrineVault

open Statements (act actAll)

/-- The cached state of a pool. -/
def Db.stateOf (db : Db) (k : ID) : Option UInt8 := (db.poolOf k).map (·.currentState)

/-- The cached state of the pool is what it was, or the pool has got its row, in the first state. -/
def Steady (k : ID) (db db' : Db) : Prop :=
  db'.stateOf k = db.stateOf k ∨ (db.stateOf k = none ∧ db'.stateOf k = some Types.poolStateDraft)

/-- A state steady over two stretches is steady over both. -/
theorem Steady.trans {k : ID} {a b c : Db} (h : Steady k a b) (h' : Steady k b c) : Steady k a c := by
  obtain h | ⟨h, hdraft⟩ := h
  · rw [Steady, ← h]
    exact h'
  · obtain h' | ⟨h', _⟩ := h'
    · exact .inr ⟨h, h'.trans hdraft⟩
    · rw [hdraft] at h'
      cases h'

/-! ## One statement -/

/-- An insert gives a pool its state, unless it has one. -/
theorem stateOf_insertPool (k : ID) (db : Db) (row : PoolRow) :
    (act db (Stmt.insertPool row)).stateOf k =
      (db.stateOf k).or (if row.suiObjectId = k then some row.currentState else none) := by
  change (Rows.find PoolRow.suiObjectId k (Rows.insertNew PoolRow.suiObjectId row db.pools)).map _ = _
  rw [Rows.find_insertNew, Db.stateOf, Db.poolOf]
  cases Rows.find PoolRow.suiObjectId k db.pools with
  | some r => rfl
  | none => split <;> rfl

/-- A change of state reaches its own pool only. -/
theorem stateOf_updatePoolState (k k' : ID) (db : Db) (state : UInt8) (digest : Nat) :
    (act db (Stmt.updatePoolState k' state digest)).stateOf k =
      (db.stateOf k).map fun old => if k = k' then state else old := by
  change (Rows.find PoolRow.suiObjectId k (Rows.updateAt PoolRow.suiObjectId k' (Stmt.setState state digest) db.pools)).map _ = _
  rw [Rows.find_updateAt (f := Stmt.setState state digest) (fun _ => rfl), Db.stateOf, Db.poolOf, Option.map_map, Option.map_map]
  congr 1
  funext r
  simp only [Function.comp_apply]
  split <;> rfl

/-- A statement that does not set the state of the pool. -/
theorem steady_act {k : ID} (db : Db) {s : Stmt} (hset : ∀ state digest, s ≠ .updatePoolState k state digest)
    (hinsert : ∀ row, s = .insertPool row → row.currentState = Types.poolStateDraft) : Steady k db (act db s) := by
  cases s with
  | insertPool row =>
    rw [Steady, stateOf_insertPool, hinsert row rfl]
    cases db.stateOf k with
    | some state => exact .inl rfl
    | none => split <;> simp
  | updatePoolState k' state digest =>
    have hne : k ≠ k' := by
      rintro rfl
      exact hset state digest rfl
    left
    rw [stateOf_updatePoolState]
    cases db.stateOf k <;> simp [hne]
  | _ => exact .inl rfl

/-- Statements of which none sets the state of the pool. -/
theorem steady_actAll {k : ID} (db : Db) {ss : List Stmt} (hset : ∀ state digest, .updatePoolState k state digest ∉ ss)
    (hinsert : ∀ row, .insertPool row ∈ ss → row.currentState = Types.poolStateDraft) : Steady k db (actAll db ss) := by
  induction ss generalizing db with
  | nil => exact .inl rfl
  | cons s ss ih =>
    refine (steady_act db ?_ ?_).trans (ih (act db s) ?_ ?_)
    · rintro state digest rfl
      exact hset state digest (List.mem_cons_self ..)
    · rintro row rfl
      exact hinsert row (List.mem_cons_self ..)
    · exact fun state digest hm => hset state digest (List.mem_cons_of_mem s hm)
    · exact fun row hm => hinsert row (List.mem_cons_of_mem s hm)

/-! ## The statements of events -/

/-- A pool is inserted in draft. -/
theorem draft_of_mem_stmtsOf {ctx : EventId} {db : Db} {e : Event} {row : PoolRow} (h : .insertPool row ∈ stmtsOf ctx db e) :
    row.currentState = Types.poolStateDraft := by
  cases e <;> simp only [stmtsOf] at h
  all_goals
    repeat' split at h
    all_goals simp only [List.mem_cons, List.mem_append, reduceCtorEq, Stmt.insertPool.injEq, List.not_mem_nil, or_false, or_self] at h
  rw [h]
  rfl

/-- The writes of events that do not move the pool keep its cached state. -/
theorem steady_writes {k : ID} {db : Db} {es : List SuiEvent} {writes : List Stmt} (hp : writes <+: stmtsOfAll db es)
    (hquiet : ∀ e ∈ es, e.event.movesPool k = none) : Steady k db (actAll db writes) := by
  refine steady_actAll db (fun state digest hm => ?_) fun row hm => ?_
  · obtain ⟨past, e, rest, _, hes, hs, _⟩ := event_of_mem hp hm
    obtain ⟨fromState, actor, t, he⟩ := poolStateChanged_of_mem_stmtsOf hs
    have := hquiet e (by rw [hes]; simp)
    simp [he, Event.movesPool] at this
  · obtain ⟨_, _, _, _, _, hs, _⟩ := event_of_mem hp hm
    exact draft_of_mem_stmtsOf hs

/-- An event that moves the pool sets the state of the row that is there. -/
theorem stateOf_afterEvent {k : ID} {db : Db} {e : SuiEvent} {state : UInt8} (he : e.event.movesPool k = some state)
    (hrow : db.stateOf k ≠ none) : (afterEvent db e).stateOf k = some state := by
  obtain ⟨ctx, event⟩ := e
  cases event with
  | poolStateChanged poolId fromState toState actor t =>
    simp only [Event.movesPool] at he
    split at he
    · rename_i hk
      cases he
      subst hk
      obtain ⟨old, hold⟩ := Option.ne_none_iff_exists'.1 hrow
      change (act db (Stmt.updatePoolState poolId state ctx.txDigest)).stateOf poolId = _
      rw [stateOf_updatePoolState, hold, Option.map_some, if_pos rfl]
    · cases he
  | _ => cases he

/-- A pool has a state exactly when it has a row. -/
theorem stateOf_ne_none_iff {k : ID} {db : Db} : db.stateOf k ≠ none ↔ Rows.has PoolRow.suiObjectId k db.pools = true := by
  rw [Rows.has_eq_isSome_find, Option.isSome_iff_ne_none, Db.stateOf, Db.poolOf, ne_eq, ne_eq, Option.map_eq_none_iff]

/-- After events the pool has a row when it had one or an event announced it. -/
theorem stateOf_afterEvents_ne_none {k : ID} {db : Db} {es : List SuiEvent}
    (h : db.stateOf k ≠ none ∨ ∃ e ∈ es, e.event.announcesPool k = true) : (afterEvents db es).stateOf k ≠ none := by
  rw [stateOf_ne_none_iff] at h ⊢
  rw [has_pools_afterEvents, Bool.or_eq_true, List.any_eq_true]
  exact h

/-! ## Delivery -/

/-- Before a change of the pool in a stream the pool announces itself. -/
def AnnouncedFirst (k : ID) (stream : List SuiEvent) : Prop :=
  ∀ past e rest, stream = past ++ e :: rest → e.event.movesPool k ≠ none → ∃ f ∈ past, f.event.announcesPool k = true

/-- What holds of the cached state of a pool between attempts: once its announcement is past, the pool has a row; and once its last
change is past, the row holds the state that the stream leads to. -/
structure Caught (k : ID) (stream : List SuiEvent) (st : IndexerState) : Prop where
  row : (∃ e ∈ stream.take st.cursor, e.event.announcesPool k = true) → st.db.stateOf k ≠ none
  state : (∀ e ∈ stream.drop st.cursor, e.event.movesPool k = none) →
    ∀ state ∈ st.db.stateOf k, state = (lastState k (stream.map (·.event))).getD Types.poolStateDraft

variable {k : ID} {stream : List SuiEvent} {st : IndexerState}

/-- Where no event moves the pool, none gives its last state. -/
theorem lastState_map_eq_none {es : List SuiEvent} (h : ∀ e ∈ es, e.event.movesPool k = none) :
    lastState k (es.map (·.event)) = none := by
  rw [lastState_eq_none_iff, List.forall_mem_map]
  exact h

/-- The last change of the pool in a part of a stream. -/
theorem exists_last_change_map {es : List SuiEvent} {state : UInt8} (h : lastState k (es.map (·.event)) = some state) :
    ∃ past e rest, es = past ++ e :: rest ∧ e.event.movesPool k = some state ∧ ∀ f ∈ rest, f.event.movesPool k = none := by
  obtain ⟨past, event, rest, hes, hmove, hrest⟩ := exists_last_change h
  obtain ⟨past, tail, rfl, rfl, htail⟩ := List.map_eq_append_iff.1 hes
  obtain ⟨e, rest, rfl, rfl, rfl⟩ := List.map_eq_cons_iff.1 htail
  exact ⟨past, e, rest, rfl, hmove, fun f hf => hrest f.event (List.mem_map_of_mem hf)⟩

/-- A pool without a row whose last change is past was never moved. -/
theorem Caught.not_moved (hc : Caught k stream st) (ha : AnnouncedFirst k stream) (hnone : st.db.stateOf k = none)
    (hrest : ∀ e ∈ stream.drop st.cursor, e.event.movesPool k = none) : lastState k (stream.map (·.event)) = none := by
  refine lastState_map_eq_none fun e he => ?_
  by_contra hmove
  rw [← List.take_append_drop st.cursor stream, List.mem_append] at he
  obtain he | he := he
  · obtain ⟨past, rest, htake⟩ := List.append_of_mem he
    obtain ⟨f, hf, hann⟩ := ha past e (rest ++ stream.drop st.cursor)
      (by rw [← List.cons_append, ← List.append_assoc, ← htake, List.take_append_drop]) hmove
    exact hc.row ⟨f, by rw [htake]; exact List.mem_append_left _ hf, hann⟩ hnone
  · exact hmove (hrest e he)

/-- Writes that do not set the state of the pool keep it caught up. -/
theorem Caught.state_of_steady (hc : Caught k stream st) (ha : AnnouncedFirst k stream) {db : Db} (hs : Steady k st.db db)
    (hrest : ∀ e ∈ stream.drop st.cursor, e.event.movesPool k = none) :
    ∀ state ∈ db.stateOf k, state = (lastState k (stream.map (·.event))).getD Types.poolStateDraft := by
  intro state hstate
  obtain hs | ⟨hnone, hdraft⟩ := hs
  · rw [hs] at hstate
    exact hc.state hrest state hstate
  · rw [hc.not_moved ha hnone hrest]
    rw [hdraft, Option.mem_def, Option.some.injEq] at hstate
    exact hstate.symm

/-- A pool that has a state keeps having one. -/
theorem grows_stateOf {db : Db} (ss : List Stmt) (h : db.stateOf k ≠ none) : (actAll db ss).stateOf k ≠ none := by
  rw [Db.stateOf, ne_eq, Option.map_eq_none_iff, ← Db.poolKey_eq_none] at h ⊢
  obtain ⟨x, hx⟩ := Option.ne_none_iff_exists'.1 h
  rw [(Stmt.grows_actAll db ss).pools hx]
  simp

/-- An attempt that is lost: the cursor stays, and what was written was of the events after it. -/
theorem Caught.lost (hc : Caught k stream st) (ha : AnnouncedFirst k stream) {a : Attempt} (hl : ¬ a.Saved stream st) :
    Caught k stream (a.run stream st) := by
  rw [Attempt.run_lost hl]
  refine ⟨fun hann => grows_stateOf _ (hc.row hann), fun hrest => ?_⟩
  have hpage : ∀ e ∈ a.page stream st, e.event.movesPool k = none := fun e he => hrest e (List.mem_of_mem_take he)
  exact hc.state_of_steady ha (steady_writes Attempt.writes_prefix hpage) hrest

/-- An attempt that is saved: the page of events is past. -/
theorem Caught.saved (hc : Caught k stream st) (ha : AnnouncedFirst k stream) {a : Attempt} (hs : a.Saved stream st) :
    Caught k stream (a.run stream st) := by
  rw [Attempt.run_saved hs]
  have hdrop : stream.drop st.cursor = a.page stream st ++ stream.drop (st.cursor + (a.page stream st).length) := by
    conv_lhs => rw [← List.take_append_drop a.pageSize (stream.drop st.cursor)]
    rw [Attempt.page, ← List.drop_drop, List.length_take, ← List.drop_eq_drop_min]
  have htake : stream.take (st.cursor + (a.page stream st).length) = stream.take st.cursor ++ a.page stream st := by
    rw [List.take_add, hdrop, List.take_left]
  refine ⟨?_, fun hrest => ?_⟩
  · rintro ⟨e, he, hann⟩
    rw [htake, List.mem_append] at he
    refine stateOf_afterEvents_ne_none ?_
    obtain he | he := he
    · exact .inl (hc.row ⟨e, he, hann⟩)
    · exact .inr ⟨e, he, hann⟩
  · cases hlast : lastState k ((a.page stream st).map (·.event)) with
    | none =>
      -- The page does not move the pool, so neither does what comes after the old cursor.
      have hpage : ∀ e ∈ a.page stream st, e.event.movesPool k = none := by
        rwa [lastState_eq_none_iff, List.forall_mem_map] at hlast
      rw [← actAll_stmtsOfAll]
      refine hc.state_of_steady ha (steady_writes (List.prefix_refl _) hpage) ?_
      rw [hdrop]
      exact fun e he => (List.mem_append.1 he).elim (hpage e) (hrest e)
    | some final =>
      obtain ⟨before, e, after, hpage, hmove, hafter⟩ := exists_last_change_map hlast
      have hfinal : lastState k (stream.map (·.event)) = some final := by
        rw [← List.take_append_drop st.cursor stream, hdrop, List.map_append, List.map_append, lastState_append,
          lastState_append, lastState_map_eq_none hrest, Option.none_or, hlast, Option.some_or]
      -- The pool announced itself before the change, so there is a row for the change to set.
      have hrow : (afterEvents st.db before).stateOf k ≠ none := by
        obtain ⟨f, hf, hann⟩ := ha (stream.take st.cursor ++ before) e
          (after ++ stream.drop (st.cursor + (a.page stream st).length))
          (by rw [List.append_assoc, ← List.cons_append, ← List.append_assoc before, ← hpage, ← hdrop, List.take_append_drop])
          (by rw [hmove]; simp)
        refine stateOf_afterEvents_ne_none ?_
        obtain hf | hf := List.mem_append.1 hf
        · exact .inl (hc.row ⟨f, hf, hann⟩)
        · exact .inr ⟨f, hf, hann⟩
      have hset := stateOf_afterEvent hmove hrow
      have hsteady : Steady k (afterEvent (afterEvents st.db before) e) (afterEvents st.db (a.page stream st)) := by
        rw [hpage, afterEvents_append, afterEvents_cons, ← actAll_stmtsOfAll _ after]
        exact steady_writes (List.prefix_refl _) hafter
      intro state hstate
      rw [hfinal, Option.getD_some]
      obtain hsame | ⟨hnone, _⟩ := hsteady
      · rw [hsame, hset, Option.mem_def, Option.some.injEq] at hstate
        exact hstate.symm
      · rw [hset] at hnone
        cases hnone

/-- Attempts in order, from the start of the stream. -/
theorem caught_deliver {db : Db} (ha : AnnouncedFirst k stream)
    (hstart : ∀ state ∈ db.stateOf k, state = Types.poolStateDraft) (attempts : List Attempt) :
    Caught k stream (deliver stream db attempts) := by
  induction attempts using List.reverseRecOn with
  | nil =>
    refine ⟨?_, fun hrest state hstate => ?_⟩
    · rintro ⟨e, he, _⟩
      simp [deliver] at he
    · rw [deliver, List.foldl_nil, List.drop_zero] at hrest
      rw [lastState_map_eq_none hrest]
      exact hstart state hstate
  | append_singleton attempts a ih =>
    rw [deliver, List.foldl_append, List.foldl_cons, List.foldl_nil, ← deliver]
    by_cases hs : a.Saved stream (deliver stream db attempts)
    · exact ih.saved ha hs
    · exact ih.lost ha hs

/-! ## The log of a run -/

/-- In the log of a run every pool is announced before it is moved. -/
theorem World.announcedFirst {publisher : Ctx} {steps : List Step} {w : World} (hr : run publisher steps = .ok w) (k : ID) :
    AnnouncedFirst k w.log := by
  intro past e rest hlog hmove
  obtain ⟨name, org, createdBy, scheme, t, hmem⟩ := (statesTold_run hr).announced (past.map (·.event)) e.event
    (rest.map (·.event)) k (by rw [events, hlog, List.map_append, List.map_cons]) hmove
  obtain ⟨f, hf, he⟩ := List.mem_map.1 hmem
  exact ⟨f, hf, by rw [he]; exact decide_eq_true rfl⟩

/-- The cached states converge: for every run of the package, from tables in which a pool of the run that has a row is in the first state,
in whatever pages the log is processed, wherever the process dies and whatever throws on the way, once the cursor is at the end of
the log every pool has a row with the state it has on chain. -/
theorem World.pool_cache_converges {publisher : Ctx} {steps : List Step} {w : World} (hr : run publisher steps = .ok w) {db : Db}
    (hstart : ∀ poolId pool, w.pools.lookup poolId = some pool → ∀ r ∈ db.poolOf poolId, r.currentState = Types.poolStateDraft)
    {attempts : List Attempt} (hend : (deliver w.log db attempts).cursor = w.log.length) :
    ∀ poolId pool, w.pools.lookup poolId = some pool →
      ∃ r, (deliver w.log db attempts).db.poolOf poolId = some r ∧ r.currentState = pool.currentState := by
  intro poolId pool hl
  have hdraft : ∀ state ∈ db.stateOf poolId, state = Types.poolStateDraft := by
    intro state hstate
    obtain ⟨r, hr, rfl⟩ := Option.map_eq_some_iff.1 hstate
    exact hstart poolId pool hl r hr
  have hc := caught_deliver (announcedFirst hr poolId) hdraft attempts
  obtain ⟨name, org, createdBy, scheme, t, hmem⟩ := poolCreated_of_lookup hr poolId pool hl
  obtain ⟨e, he, hevent⟩ := List.mem_map.1 hmem
  have hrow := hc.row ⟨e, by rw [hend, List.take_length]; exact he, by rw [hevent]; exact decide_eq_true rfl⟩
  obtain ⟨state, hstate⟩ := Option.ne_none_iff_exists'.1 hrow
  obtain ⟨r, hrow, hst⟩ := Option.map_eq_some_iff.1 hstate
  refine ⟨r, hrow, ?_⟩
  rw [hst, (statesTold_run hr).current poolId pool hl]
  exact hc.state (fun f hf => by rw [hend, List.drop_length] at hf; cases hf) state hstate

/-- A crash between the two writes of a change of state, and the next attempt makes up for it. -/
theorem World.pool_cache_converges_crash :
    ∃ w, run Sample.owner [Sample.createPool, Sample.byOwner .progressToDd] = .ok w ∧
      ∀ poolId pool, w.pools.lookup poolId = some pool →
        ∃ r, (deliver w.log Sample.withPool [⟨3, some 2⟩, ⟨9, none⟩]).db.poolOf poolId = some r ∧ r.currentState = pool.currentState := by
  refine ⟨_, rfl, @pool_cache_converges Sample.owner [Sample.createPool, Sample.byOwner .progressToDd] _ rfl Sample.withPool ?_
    [⟨3, some 2⟩, ⟨9, none⟩] (by decide +kernel)⟩
  intro poolId pool hl r hr
  obtain ⟨hmem, _⟩ := Rows.find_some hr
  simp only [Sample.withPool, List.mem_singleton] at hmem
  rw [hmem]
  rfl

end BrineVault
