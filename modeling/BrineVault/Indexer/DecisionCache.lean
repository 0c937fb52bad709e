import BrineVault.Contract.Committees
import BrineVault.Contract.DecisionEvents
import BrineVault.Indexer.Consistency
import BrineVault.Indexer.StateCache

/-!
# The cached decisions of the pools

The rows of `ic_decisions` are inserted and never written again, under the id of the pool's row and the number of the decision. In
whatever pages the log is processed, and wherever the process dies, the rows there are tell of decisions of the chain, and once the cursor
is past an event of a decision its row is there.
-/

namespace BrineVault

open Statements (act actAll)

/-- The cached decision of a pool under a number: its type and who recorded it. -/
def Db.decisionOf (db : Db) (poolId : Uuid) (index : Nat) : Option (UInt8 × Address) :=
  (Rows.find IcDecisionRow.key (poolId, index) db.icDecisions).map fun row => (row.decisionType, row.createdByAddress)

/-! ## The rows of decisions -/

/-- The rows of decisions after statements are those before, and rows that the statements insert. -/
theorem mem_icDecisions_actAll {db : Db} {ss : List Stmt} {row : IcDecisionRow} (h : row ∈ (actAll db ss).icDecisions) :
    row ∈ db.icDecisions ∨ .insertIcDecision row ∈ ss := by
  induction ss generalizing db with
  | nil => exact .inl h
  | cons s ss ih =>
    obtain h | h := @ih (act db s) h
    · cases s with
      | insertIcDecision row' =>
        obtain h | rfl := Rows.mem_insertNew h
        · exact .inl h
        · exact .inr (List.mem_cons_self ..)
      | _ => exact .inl h
    · exact .inr (List.mem_cons_of_mem s h)

/-- A decision is inserted by the event that tells of it, under the id of the row of its pool. -/
theorem decisionNote_of_mem_stmtsOf {ctx : EventId} {db : Db} {e : Event} {row : IcDecisionRow}
    (h : .insertIcDecision row ∈ stmtsOf ctx db e) :
    ∃ n r, e.decisionNote = some n ∧ db.poolOf n.poolId = some r ∧
      row = { poolId := r.id, decisionIndex := n.index, decisionType := n.decisionType, createdByAddress := n.createdBy } := by
  cases e with
  | icDecisionCreated poolId index decisionType createdBy t =>
    simp only [stmtsOf] at h
    split at h
    · cases h
    · rename_i r hr
      simp only [List.mem_cons, Stmt.insertIcDecision.injEq, reduceCtorEq, List.not_mem_nil, or_false] at h
      exact ⟨⟨poolId, index, decisionType, createdBy⟩, r, rfl, hr, h⟩
  | _ =>
    simp only [stmtsOf] at h
    repeat' split at h
    all_goals simp at h

/-- Where its pool has a row, the event of a decision inserts one for it. -/
theorem mem_stmtsOf_of_decisionNote {ctx : EventId} {db : Db} {e : Event} {n : DecisionNote} {r : PoolRow}
    (hn : e.decisionNote = some n) (hr : db.poolOf n.poolId = some r) :
    .insertIcDecision { poolId := r.id, decisionIndex := n.index, decisionType := n.decisionType, createdByAddress := n.createdBy } ∈
      stmtsOf ctx db e := by
  cases e with
  | icDecisionCreated poolId index decisionType createdBy t =>
    cases hn
    simp [stmtsOf, hr]
  | _ => cases hn

/-! ## Writes of events -/

/-- Statements that suit the tables may be cut anywhere. -/
theorem suitsAll_append {db : Db} {ss ts : List Stmt} : db.SuitsAll (ss ++ ts) ↔ db.SuitsAll ss ∧ (actAll db ss).SuitsAll ts := by
  induction ss generalizing db with
  | nil => simp [Db.SuitsAll, Statements.actAll]
  | cons s ss ih =>
    rw [List.cons_append, Db.SuitsAll, Db.SuitsAll, ih, and_assoc]
    rfl

/-- The statements of a list of events suit the tables it starts from. -/
theorem suitsAll_stmtsOfAll (db : Db) (es : List SuiEvent) : db.SuitsAll (stmtsOfAll db es) := by
  induction es generalizing db with
  | nil => trivial
  | cons e es ih =>
    rw [stmtsOfAll, suitsAll_append]
    exact ⟨suitsAll_stmtsOf e.id db e.event, ih (afterEvent db e)⟩

/-- Whatever part of the writes of some events is made, the tables stay consistent. -/
theorem Db.Consistent.writes {db : Db} {es : List SuiEvent} {writes : List Stmt} (h : db.Consistent)
    (hp : writes <+: stmtsOfAll db es) : (Statements.actAll db writes).Consistent := by
  obtain ⟨rest, hrest⟩ := hp
  have hall := suitsAll_stmtsOfAll db es
  rw [← hrest, suitsAll_append] at hall
  exact h.actAll hall.1

/-- The row of a pool keeps its id. -/
theorem Db.Grows.poolId {db db' : Db} (h : db.Grows db') {k : ID} {r : PoolRow} (hr : db.poolOf k = some r) :
    ∃ r', db'.poolOf k = some r' ∧ r'.id = r.id := by
  have hkey : db'.poolKey k = some (r.id, r.encryptionScheme) := h.pools (by rw [poolKey, hr, Option.map_some])
  obtain ⟨r', hr', he⟩ := Option.map_eq_some_iff.1 hkey
  exact ⟨r', hr', (Prod.mk.inj he).1⟩

/-! ## Delivery -/

/-- Before the event of a decision in a stream its pool announces itself. -/
def DecisionsAnnounced (stream : List SuiEvent) : Prop :=
  ∀ past e rest n, stream = past ++ e :: rest → e.event.decisionNote = some n →
    ∃ f ∈ past, f.event.announcesPool n.poolId = true

/-- The note is of a row: the row is under the id of the pool's row. -/
def DecisionNote.Of (n : DecisionNote) (db : Db) (row : IcDecisionRow) : Prop :=
  ∃ r, db.poolOf n.poolId = some r ∧
    row = { poolId := r.id, decisionIndex := n.index, decisionType := n.decisionType, createdByAddress := n.createdBy }

/-- What holds of the cached decisions between attempts: pools that were announced have their rows, decisions that were told have theirs, and
every row of a decision is of one that the stream tells. -/
structure DecisionsCaught (stream : List SuiEvent) (st : IndexerState) : Prop where
  consistent : st.db.Consistent
  rows : ∀ k, (∃ e ∈ stream.take st.cursor, e.event.announcesPool k = true) → st.db.stateOf k ≠ none
  told : ∀ e ∈ stream.take st.cursor, ∀ n ∈ e.event.decisionNote, ∃ row ∈ st.db.icDecisions, ∃ r,
    st.db.poolOf n.poolId = some r ∧ row.key = (r.id, n.index)
  sound : ∀ row ∈ st.db.icDecisions, ∃ e ∈ stream, ∃ n ∈ e.event.decisionNote, n.Of st.db row

variable {stream : List SuiEvent} {st : IndexerState}

/-- A row of the note is still one in tables that have grown. -/
theorem DecisionNote.Of.grows {n : DecisionNote} {db db' : Db} {row : IcDecisionRow} (h : n.Of db row) (hg : db.Grows db') :
    n.Of db' row := by
  obtain ⟨r, hr, rfl⟩ := h
  obtain ⟨r', hr', hid⟩ := hg.poolId hr
  exact ⟨r', hr', by rw [hid]⟩

/-- A part of the writes of a page leaves the decisions caught up as far as they were. -/
theorem DecisionsCaught.writes (hc : DecisionsCaught stream st) {page : List SuiEvent} (hpage : page ⊆ stream)
    {writes : List Stmt} (hp : writes <+: stmtsOfAll st.db page) :
    DecisionsCaught stream { db := actAll st.db writes, cursor := st.cursor } := by
  have hgrows := Stmt.grows_actAll st.db writes
  constructor
  · exact hc.consistent.writes hp
  · exact fun k hann => grows_stateOf _ (hc.rows k hann)
  · intro e he n hn
    obtain ⟨row, hrow, r, hr, hkey⟩ := hc.told e he n hn
    obtain ⟨r', hr', hid⟩ := hgrows.poolId hr
    have hhas : Stmt.settled st.db (.insertIcDecision row) = true := Rows.has_iff.2 ⟨row, hrow, rfl⟩
    obtain ⟨row', hrow', hkey'⟩ := Rows.has_iff.1 (Stmt.settled_actAll writes hhas)
    exact ⟨row', hrow', r', hr', by rw [hkey', hkey, hid]⟩
  · intro row hrow
    obtain hold | hnew := mem_icDecisions_actAll hrow
    · obtain ⟨e, he, n, hn, hof⟩ := hc.sound row hold
      exact ⟨e, he, n, hn, hof.grows hgrows⟩
    · obtain ⟨past, e, rest, tail, rfl, hs, rfl⟩ := event_of_mem hp hnew
      obtain ⟨n, r, hn, hr, hrow⟩ := decisionNote_of_mem_stmtsOf hs
      have hof : n.Of (afterEvents st.db past) row := ⟨r, hr, hrow⟩
      exact ⟨e, hpage (by simp), n, hn, hof.grows grows_afterEvents⟩

/-- A page is part of the stream. -/
theorem Attempt.page_subset {a : Attempt} : a.page stream st ⊆ stream :=
  fun _ he => List.mem_of_mem_drop (List.mem_of_mem_take he)

/-- An attempt that saves no cursor keeps what was caught. -/
theorem DecisionsCaught.lost (hc : DecisionsCaught stream st) {a : Attempt} (hl : ¬ a.Saved stream st) :
    DecisionsCaught stream (a.run stream st) := by
  rw [Attempt.run_lost hl]
  exact hc.writes Attempt.page_subset Attempt.writes_prefix

/-- An attempt that is saved: the decisions of the page are told. -/
theorem DecisionsCaught.saved (hc : DecisionsCaught stream st) (ha : DecisionsAnnounced stream) {a : Attempt}
    (hs : a.Saved stream st) : DecisionsCaught stream (a.run stream st) := by
  rw [Attempt.run_saved hs]
  have hdrop : stream.drop st.cursor = a.page stream st ++ stream.drop (st.cursor + (a.page stream st).length) := by
    conv_lhs => rw [← List.take_append_drop a.pageSize (stream.drop st.cursor)]
    rw [Attempt.page, ← List.drop_drop, List.length_take, ← List.drop_eq_drop_min]
  have htake : stream.take (st.cursor + (a.page stream st).length) = stream.take st.cursor ++ a.page stream st := by
    rw [List.take_add, hdrop, List.take_left]
  have hw := hc.writes (@Attempt.page_subset stream st a) (List.prefix_refl _)
  rw [actAll_stmtsOfAll] at hw
  refine ⟨hw.consistent, ?_, ?_, hw.sound⟩
  · rintro k ⟨e, he, hann⟩
    rw [htake, List.mem_append] at he
    refine stateOf_afterEvents_ne_none ?_
    obtain he | he := he
    · exact .inl (hc.rows k ⟨e, he, hann⟩)
    · exact .inr ⟨e, he, hann⟩
  · intro e he n hn
    rw [htake, List.mem_append] at he
    obtain he | he := he
    · exact hw.told e he n hn
    · -- The pool announced itself before the event, so it has a row when the event is processed.
      obtain ⟨before, after, hpage⟩ := List.append_of_mem he
      obtain ⟨f, hf, hann⟩ := ha (stream.take st.cursor ++ before) e
        (after ++ stream.drop (st.cursor + (a.page stream st).length)) n
        (by rw [List.append_assoc, ← List.cons_append, ← List.append_assoc before, ← hpage, ← hdrop, List.take_append_drop]) hn
      have hrow : (afterEvents st.db before).stateOf n.poolId ≠ none := by
        refine stateOf_afterEvents_ne_none ?_
        obtain hf | hf := List.mem_append.1 hf
        · exact .inl (hc.rows _ ⟨f, hf, hann⟩)
        · exact .inr ⟨f, hf, hann⟩
      obtain ⟨state, hstate⟩ := Option.ne_none_iff_exists'.1 hrow
      obtain ⟨r, hr, -⟩ := Option.map_eq_some_iff.1 hstate
      have hmem := @mem_stmtsOf_of_decisionNote e.id _ _ _ _ hn hr
      have hsplit : stmtsOfAll st.db (a.page stream st) =
          stmtsOfAll st.db before ++ (stmtsOf e.id (afterEvents st.db before) e.event ++
            stmtsOfAll (afterEvent (afterEvents st.db before) e) after) := by
        rw [hpage, stmtsOfAll_append, stmtsOfAll]
      have hsettled := @settled_of_mem st.db _ _
        (hsplit ▸ List.mem_append_right _ (List.mem_append_left _ hmem)) rfl
      rw [actAll_stmtsOfAll] at hsettled
      obtain ⟨row, hrow, hkey⟩ := Rows.has_iff.1 hsettled
      have hgrows : (afterEvents st.db before).Grows (afterEvents st.db (a.page stream st)) := by
        rw [← actAll_stmtsOfAll st.db (a.page stream st), hsplit]
        exact grows_afterEvents
      obtain ⟨r', hr', hid⟩ := hgrows.poolId hr
      exact ⟨row, hrow, r', hr', by rw [hkey, hid]; rfl⟩

/-- The last attempt works on what the others have left. -/
theorem deliver_snoc (stream : List SuiEvent) (db : Db) (attempts : List Attempt) (a : Attempt) :
    deliver stream db (attempts ++ [a]) = a.run stream (deliver stream db attempts) := by
  rw [deliver, List.foldl_append]
  rfl

/-- Attempts in order, from consistent tables without decisions. -/
theorem decisionsCaught_deliver {db : Db} (ha : DecisionsAnnounced stream) (hdb : db.Consistent) (hstart : db.icDecisions = [])
    (attempts : List Attempt) : DecisionsCaught stream (deliver stream db attempts) := by
  induction attempts using List.reverseRecOn with
  | nil =>
    refine ⟨hdb, ?_, ?_, ?_⟩
    · rintro k ⟨e, he, -⟩
      simp [deliver] at he
    · intro e he
      simp [deliver] at he
    · intro row hrow
      rw [deliver, List.foldl_nil, hstart] at hrow
      cases hrow
  | append_singleton attempts a ih =>
    rw [deliver_snoc]
    by_cases hs : a.Saved stream (deliver stream db attempts)
    · exact ih.saved ha hs
    · exact ih.lost hs

/-- No two rows are of one decision. -/
theorem decisionKeys_actAll {db : Db} (h : (db.icDecisions.map IcDecisionRow.key).Nodup) (ss : List Stmt) :
    ((actAll db ss).icDecisions.map IcDecisionRow.key).Nodup := by
  induction ss generalizing db with
  | nil => exact h
  | cons s ss ih =>
    refine ih ?_
    cases s with
    | insertIcDecision row => exact Rows.nodup_insertNew h Rows.not_mem_map_of_has
    | _ => exact h

/-- No two decisions of the table have the same pool and index. -/
theorem decisionKeys_deliver {db : Db} (hstart : db.icDecisions = []) (attempts : List Attempt) :
    ((deliver stream db attempts).db.icDecisions.map IcDecisionRow.key).Nodup := by
  induction attempts using List.reverseRecOn with
  | nil =>
    rw [deliver, List.foldl_nil, hstart]
    exact List.nodup_nil
  | append_singleton attempts a ih =>
    rw [deliver_snoc]
    by_cases hs : a.Saved stream (deliver stream db attempts)
    · rw [Attempt.run_saved hs, ← actAll_stmtsOfAll]
      exact decisionKeys_actAll ih _
    · rw [Attempt.run_lost hs]
      exact decisionKeys_actAll ih _

/-! ## The log of a run -/

/-- In the log of a run every decision comes after its pool. -/
theorem World.decisionsAnnounced {publisher : Ctx} {steps : List Step} {w : World} (hr : run publisher steps = .ok w) :
    DecisionsAnnounced w.log := by
  intro past e rest n hlog hn
  obtain ⟨name, org, createdBy, scheme, t, hmem⟩ := (decisionsTold_run hr).announced (past.map (·.event)) e.event
    (rest.map (·.event)) n (by rw [events, hlog, List.map_append, List.map_cons]) hn
  obtain ⟨f, hf, he⟩ := List.mem_map.1 hmem
  exact ⟨f, hf, by rw [he]; exact decide_eq_true rfl⟩

/-- Two pools do not share the id of a row. -/
theorem Db.Consistent.poolOf_inj {db : Db} (h : db.Consistent) {k k' : ID} {r r' : PoolRow} (hr : db.poolOf k = some r)
    (hr' : db.poolOf k' = some r') (hid : r.id = r'.id) : k = k' := by
  obtain ⟨hmem, hk⟩ := Rows.find_some hr
  obtain ⟨hmem', hk'⟩ := Rows.find_some hr'
  rw [← hk, ← hk', List.inj_on_of_nodup_map h.poolIds hmem hmem' hid]

/-- A row of a decision at the end of the log is of a decision that its pool keeps. -/
theorem DecisionsCaught.decided {publisher : Ctx} {steps : List Step} {w : World} (hr : World.run publisher steps = .ok w)
    {st : IndexerState} (hc : DecisionsCaught w.log st) {poolId : ID} {r : PoolRow} (hrow : st.db.poolOf poolId = some r)
    {i : Nat} {row : IcDecisionRow} (hfind : Rows.find IcDecisionRow.key (r.id, i) st.db.icDecisions = some row) :
    w.Decided ⟨poolId, i, row.decisionType, row.createdByAddress⟩ := by
  obtain ⟨hmem, hkey⟩ := Rows.find_some hfind
  obtain ⟨e, he, n, hn, r', hr', rfl⟩ := hc.sound row hmem
  obtain ⟨hid, rfl⟩ := Prod.mk.inj hkey
  have hpool : n.poolId = poolId := hc.consistent.poolOf_inj hr' hrow hid
  have hnote : n ∈ w.decisionNotes := List.mem_filterMap.2 ⟨e.event, List.mem_map_of_mem he, hn⟩
  rw [← hpool]
  exact ((World.decisionsTold_run hr).told n).1 hnote

/-- A decision that a pool keeps has a row at the end of the log. -/
theorem DecisionsCaught.find_of_decided {publisher : Ctx} {steps : List Step} {w : World} (hr : World.run publisher steps = .ok w)
    {st : IndexerState} (hc : DecisionsCaught w.log st) (hend : st.cursor = w.log.length) {poolId : ID} {r : PoolRow}
    (hrow : st.db.poolOf poolId = some r) {i : Nat} {d : IcDecision} (hd : w.decisionAt poolId i = some d) :
    ∃ row, Rows.find IcDecisionRow.key (r.id, i) st.db.icDecisions = some row := by
  obtain ⟨pool, hl, hd⟩ := Option.bind_eq_some_iff.1 hd
  have hnote : (⟨poolId, i, d.decisionType, d.createdBy⟩ : DecisionNote) ∈ w.decisionNotes :=
    ((World.decisionsTold_run hr).told _).2 ⟨pool, d, hl, hd, rfl, rfl⟩
  obtain ⟨event, hevent, hn⟩ := List.mem_filterMap.1 hnote
  obtain ⟨f, hf, rfl⟩ := List.mem_map.1 hevent
  obtain ⟨row, hmem, r', hr', hkey⟩ := hc.told f (by rw [hend, List.take_length]; exact hf) _ hn
  rw [hrow, Option.some.injEq] at hr'
  subst hr'
  exact Option.ne_none_iff_exists'.1 fun hnone => Rows.find_eq_none_iff.1 hnone row hmem hkey

/-- The cached decisions converge: for every run of the package, from consistent tables without decisions, in whatever pages the log is
processed, wherever the process dies and whatever throws on the way, once the cursor is at the end of the log every pool has a row, and
under its id the decisions of the pool, each with its type and who recorded it, and no other. -/
theorem World.decision_cache_converges {publisher : Ctx} {steps : List Step} {w : World} (hr : run publisher steps = .ok w) {db : Db}
    (hdb : db.Consistent) (hstart : db.icDecisions = []) {attempts : List Attempt}
    (hend : (deliver w.log db attempts).cursor = w.log.length) {poolId : ID} {pool : Pool} (hl : w.pools.lookup poolId = some pool) :
    ∃ r, (deliver w.log db attempts).db.poolOf poolId = some r ∧ ∀ i, (deliver w.log db attempts).db.decisionOf r.id i =
      (pool.icDecisions.lookup i).map fun d => (d.decisionType, d.createdBy) := by
  have hc := decisionsCaught_deliver (decisionsAnnounced hr) hdb hstart attempts
  obtain ⟨name, org, createdBy, scheme, t, hcreated⟩ := poolCreated_of_lookup hr poolId pool hl
  obtain ⟨e, he, hevent⟩ := List.mem_map.1 hcreated
  have hstate := hc.rows poolId ⟨e, by rw [hend, List.take_length]; exact he, by rw [hevent]; exact decide_eq_true rfl⟩
  obtain ⟨state, hstate⟩ := Option.ne_none_iff_exists'.1 hstate
  obtain ⟨r, hrow, -⟩ := Option.map_eq_some_iff.1 hstate
  refine ⟨r, hrow, fun i => ?_⟩
  rw [Db.decisionOf]
  cases hfind : Rows.find IcDecisionRow.key (r.id, i) (deliver w.log db attempts).db.icDecisions with
  | some row =>
    obtain ⟨pool', d, hl', hd, htype, hby⟩ := hc.decided hr hrow hfind
    rw [hl, Option.some.injEq] at hl'
    subst hl'
    rw [hd, Option.map_some, Option.map_some, htype, hby]
  | none =>
    rw [Option.map_none, eq_comm, Option.map_eq_none_iff]
    by_contra hne
    obtain ⟨d, hd⟩ := Option.ne_none_iff_exists'.1 hne
    obtain ⟨row, hrow'⟩ := hc.find_of_decided hr hend hrow (Option.bind_eq_some_iff.2 ⟨pool, hl, hd⟩)
    rw [hfind] at hrow'
    cases hrow'

/-- A process that dies before it has written the first decision. -/
theorem World.decision_cache_converges_crash :
    ∃ w pool, run Sample.owner [Sample.createPool, Sample.byOwner .progressToDd, Sample.byOwner (.progressToIcReview []),
        Sample.byOwner (.recordIcRejection Sample.decision)] = .ok w ∧ w.pools.lookup 2 = some pool ∧
      ∃ r, (deliver w.log Sample.withPool [⟨6, none⟩, ⟨4, some 1⟩, ⟨9, none⟩]).db.poolOf 2 = some r ∧
        ∀ i, (deliver w.log Sample.withPool [⟨6, none⟩, ⟨4, some 1⟩, ⟨9, none⟩]).db.decisionOf r.id i =
          (pool.icDecisions.lookup i).map fun d => (d.decisionType, d.createdBy) := by
  have hdb : Sample.withPool.Consistent := by
    constructor <;> simp [Sample.withPool, Db.empty, Db.PoolsNamed]
  refine ⟨_, _, rfl, rfl, ?_⟩
  exact @decision_cache_converges Sample.owner [Sample.createPool, Sample.byOwner .progressToDd,
    Sample.byOwner (.progressToIcReview []), Sample.byOwner (.recordIcRejection Sample.decision)] _ rfl Sample.withPool hdb rfl
    [⟨6, none⟩, ⟨4, some 1⟩, ⟨9, none⟩] (by decide +kernel) 2 _ rfl

end BrineVault
