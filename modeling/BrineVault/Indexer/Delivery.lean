import BrineVault.Indexer.Poison
import BrineVault.Indexer.Redo

/-!
# At-least-once delivery

The indexer dies between two writes, and the events after the persisted cursor are delivered again. When each attempt that is lost was
harmless, the tables at the end of the stream are those of processing every event once.
-/

namespace BrineVault

open Statements (actAll)

/-- An attempt on the page of the given size: it runs to its end, or the process dies after some number of writes (after all of them,
when it dies before the cursor is saved). -/
structure Attempt where
  pageSize : Nat
  diesAfter : Option Nat
  deriving DecidableEq, Repr

/-- The page of an attempt. -/
def Attempt.page (stream : List SuiEvent) (st : IndexerState) (a : Attempt) : List SuiEvent :=
  (stream.drop st.cursor).take a.pageSize

/-- The writes of an attempt. -/
def Attempt.writes (stream : List SuiEvent) (st : IndexerState) (a : Attempt) : List Stmt :=
  match a.diesAfter with
  | none => (processBatch (a.page stream st) st.db).1
  | some n => (processBatch (a.page stream st) st.db).1.take n

/-- The attempt is saved: it runs to its end, and no event throws. -/
def Attempt.Saved (stream : List SuiEvent) (st : IndexerState) (a : Attempt) : Prop :=
  a.diesAfter = none ∧ (processBatch (a.page stream st) st.db).2 = .ok ()

/-- The indexer after an attempt: a turn, or the writes up to the crash with the cursor where it was. -/
def Attempt.run (stream : List SuiEvent) (st : IndexerState) (a : Attempt) : IndexerState :=
  match a.diesAfter with
  | none => turn stream st a.pageSize
  | some n => { db := actAll st.db ((processBatch (a.page stream st) st.db).1.take n), cursor := st.cursor }

/-- The indexer after attempts in order, from the start of the stream. -/
def deliver (stream : List SuiEvent) (db : Db) (attempts : List Attempt) : IndexerState :=
  attempts.foldl (Attempt.run stream) { db, cursor := 0 }

/-- Writes on the events `es`, from the tables `db`, that can be made again:
no version counter has been incremented; the last write is not the insert of a new document, whose first version is still to come; and
what an event did not find has not been inserted by a later one. -/
structure Harmless (db : Db) (es : List SuiEvent) (writes : List Stmt) : Prop where
  noIncrement : ∀ k v, .updateVersionInfo k v ∉ writes
  firstVersion : ∀ before row, writes = before ++ [.insertDocument row] → (actAll db before).docOf row.suiObjectId ≠ none
  unknown : ∀ past e rest, es = past ++ e :: rest → StaysUnknown (afterEvents db past) (actAll db writes) e.event

/-- An attempt after which the events can be processed again, or need not be. -/
def Attempt.Good (stream : List SuiEvent) (st : IndexerState) (a : Attempt) : Prop :=
  a.Saved stream st ∨ Harmless st.db (a.page stream st) (a.writes stream st)

/-! ## Which writes have been made -/

/-- Some writes of events: those of whole events, and a part of those of one more. -/
theorem writes_split {db : Db} {es : List SuiEvent} {writes : List Stmt} (h : writes <+: stmtsOfAll db es) :
    ∃ past rest part, es = past ++ rest ∧ writes = stmtsOfAll db past ++ part ∧
      ((rest = [] ∧ part = []) ∨
        ∃ e rest', rest = e :: rest' ∧ part <+: stmtsOf e.id (afterEvents db past) e.event) := by
  induction es generalizing db writes with
  | nil => exact ⟨[], [], [], rfl, List.prefix_nil.1 h, .inl ⟨rfl, rfl⟩⟩
  | cons e es ih =>
    rw [stmtsOfAll] at h
    obtain hle | hle := Nat.le_total writes.length (stmtsOf e.id db e.event).length
    · exact ⟨[], e :: es, writes, rfl, rfl, .inr ⟨e, es, rfl, List.prefix_of_prefix_length_le h (List.prefix_append ..) hle⟩⟩
    · obtain ⟨tail, rfl⟩ := List.prefix_of_prefix_length_le (List.prefix_append ..) h hle
      obtain ⟨past, rest, part, rfl, rfl, hpart⟩ := ih ((List.prefix_append_right_inj _).1 h)
      exact ⟨e :: past, rest, part, rfl, by rw [stmtsOfAll, List.append_assoc], hpart⟩

/-- A statement that has been issued is of some event, and the statements of the events before it have been issued as well. -/
theorem event_of_mem {db : Db} {es : List SuiEvent} {writes : List Stmt} (h : writes <+: stmtsOfAll db es) {s : Stmt}
    (hs : s ∈ writes) :
    ∃ past e rest tail, es = past ++ e :: rest ∧ s ∈ stmtsOf e.id (afterEvents db past) e.event ∧
      writes = stmtsOfAll db past ++ tail := by
  induction es generalizing db writes with
  | nil =>
    rw [List.prefix_nil.1 h] at hs
    cases hs
  | cons e es ih =>
    rw [stmtsOfAll] at h
    obtain hle | hle := Nat.le_total writes.length (stmtsOf e.id db e.event).length
    · exact ⟨[], e, es, writes, rfl, (List.prefix_of_prefix_length_le h (List.prefix_append ..) hle).subset hs, rfl⟩
    · obtain ⟨tail, rfl⟩ := List.prefix_of_prefix_length_le (List.prefix_append ..) h hle
      obtain hs | hs := List.mem_append.1 hs
      · exact ⟨[], e, es, _, rfl, hs, rfl⟩
      · obtain ⟨past, f, rest, tail', rfl, hf, rfl⟩ := ih ((List.prefix_append_right_inj _).1 h) hs
        exact ⟨e :: past, f, rest, tail', rfl, hf, by rw [stmtsOfAll, List.append_assoc]⟩

/-- A member that a handler inserts is active. -/
theorem isActive_of_mem_stmtsOf {ctx : EventId} {db : Db} {e : Event} {row : MemberRow}
    (h : .upsertMember row ∈ stmtsOf ctx db e) : row.isActive = true := by
  cases e <;> simp only [stmtsOf] at h
  all_goals
    repeat' split at h
    all_goals simp only [List.mem_cons, List.mem_append, reduceCtorEq, Stmt.upsertMember.injEq, List.not_mem_nil, or_false,
      or_self] at h
    all_goals try (subst h; rfl)

/-- Only a change of state moves the state of a pool's row. -/
theorem poolStateChanged_of_mem_stmtsOf {ctx : EventId} {db : Db} {e : Event} {k : ID} {state : UInt8} {digest : Nat}
    (h : .updatePoolState k state digest ∈ stmtsOf ctx db e) :
    ∃ fromState actor t, e = .poolStateChanged k fromState state actor t := by
  cases e <;> simp only [stmtsOf] at h
  all_goals
    repeat' split at h
    all_goals simp only [List.mem_cons, List.mem_append, reduceCtorEq, Stmt.updatePoolState.injEq, List.not_mem_nil, or_false,
      or_self] at h
  obtain ⟨rfl, rfl, -⟩ := h
  exact ⟨_, _, _, rfl⟩

/-- An event never writes a document alone. -/
theorem stmtsOf_ne_insertDocument {ctx : EventId} {db : Db} {e : Event} (row : DocumentRow) :
    stmtsOf ctx db e ≠ [.insertDocument row] := by
  cases e <;> simp only [stmtsOf]
  all_goals
    repeat' split
    all_goals simp

/-! ## An attempt that is lost -/

/-- What has been issued leads on from the tables after any of the events it begins with. -/
theorem grows_afterEvents {db : Db} {past : List SuiEvent} {tail : List Stmt} :
    (afterEvents db past).Grows (actAll db (stmtsOfAll db past ++ tail)) := by
  rw [Statements.actAll_append, actAll_stmtsOfAll]
  exact Stmt.grows_actAll _ tail

/-- The first statements of a harmless page leave no change of state before the pool's insert. -/
theorem statesTidy_of_harmless {db : Db} {es : List SuiEvent} {writes : List Stmt} (hp : writes <+: stmtsOfAll db es)
    (h : Harmless db es writes) : StatesTidy db writes := by
  rintro before row after rfl hnew state digest hmem
  have hbefore : before <+: stmtsOfAll db es := (List.prefix_append _ _).trans hp
  obtain ⟨past, e, rest, tail, hes, hs, hb⟩ := event_of_mem hbefore hmem
  obtain ⟨fromState, actor, t, he⟩ := poolStateChanged_of_mem_stmtsOf hs
  -- The pool was not there when the event came, and it is there now.
  have hnone : (afterEvents db past).poolOf row.suiObjectId = none := by
    by_contra hn
    obtain ⟨x, hx⟩ := Option.ne_none_iff_exists'.1 fun h => hn (Db.poolKey_eq_none.1 h)
    have := (@grows_afterEvents _ _ tail).pools hx
    rw [← hb, Db.poolKey_eq_none.2 hnew] at this
    cases this
  have hgone := h.unknown past e rest hes
  rw [he] at hgone
  have hset := @settled_of_mem db (before ++ .insertPool row :: after) (.insertPool row)
    (List.mem_append_right before (List.mem_cons_self ..)) rfl
  rw [Stmt.settled, Rows.has_eq_isSome_find, ← Db.poolOf, hgone hnone] at hset
  cases hset

/-- What a page has issued so far inserts active members only. -/
theorem insertsActive_earlier {db : Db} {es : List SuiEvent} {writes : List Stmt} (hp : writes <+: stmtsOfAll db es) :
    InsertsActive writes := fun row hmem => by
  obtain ⟨past, e, rest, tail, -, hs, -⟩ := event_of_mem hp hmem
  exact isActive_of_mem_stmtsOf hs

/-- The statements of an event in tables with the view of `db'`, and all its rows. -/
theorem afterEvent_again {db db' before : Db} {e : SuiEvent} (hv : db.SameView db') (hc : Covers db db')
    (h : pending db' (stmtsOf e.id db' e.event) = pending db' (stmtsOf e.id before e.event)) :
    afterEvent db e = actAll db (stmtsOf e.id before e.event) := by
  rw [afterEvent, stmtsOf_of_agrees (hv.agrees e.event), actAll_pending hc, h, ← actAll_pending hc]

/-- The events whose statements have all been issued, again: they issue the same, up to inserts of rows that are there. -/
theorem afterEvents_again {db : Db} {es past rest : List SuiEvent} {writes part : List Stmt} (h : Harmless db es writes)
    (hes : es = past ++ rest) (hw : writes = stmtsOfAll db past ++ part) :
    afterEvents (actAll db writes) past = actAll (actAll db writes) (stmtsOfAll db past) := by
  induction past using List.reverseRecOn generalizing rest part with
  | nil => rfl
  | append_singleton past e ih =>
    rw [stmtsOfAll_append] at hw ⊢
    have hone : stmtsOfAll (afterEvents db past) [e] = stmtsOf e.id (afterEvents db past) e.event := by
      rw [stmtsOfAll, stmtsOfAll, List.append_nil]
    rw [hone] at hw ⊢
    have hpast := @ih (e :: rest) _ (by rw [hes, List.append_assoc]; rfl) (by rw [hw, List.append_assoc])
    rw [afterEvents_append, hpast, Statements.actAll_append, afterEvents_cons, afterEvents_nil]
    have hsettled : ∀ s ∈ writes, s.isInsert = true → s.settled (actAll db writes) = true := settled_of_mem
    obtain ⟨hv, hc⟩ := @sameView_actAll (actAll db writes) (actAll db writes) (Db.SameView.refl _)
      (fun _ h => h) (stmtsOfAll db past) fun s hs => hsettled s (by rw [hw]; simp [hs])
    refine afterEvent_again hv hc (pending_stmtsOf ?_ ?_ (List.prefix_refl _) ?_ (.inl rfl) ?_)
    · rw [hw, List.append_assoc]
      exact grows_afterEvents
    · exact h.unknown past e rest (by rw [hes, List.append_assoc]; rfl)
    · exact fun s hs => hsettled s (by rw [hw]; simp [hs])
    · exact fun row hrow => absurd hrow (stmtsOf_ne_insertDocument row)

/-- Events that are processed once more, after some of their writes have been made, lead where they led at first. -/
theorem afterEvents_of_harmless {db : Db} {es : List SuiEvent} {writes : List Stmt} (hp : writes <+: stmtsOfAll db es)
    (h : Harmless db es writes) : afterEvents (actAll db writes) es = afterEvents db es := by
  have hagain : actAll (actAll db writes) writes = actAll db writes :=
    actAll_again h.noIncrement (insertsActive_earlier hp) (statesTidy_of_harmless hp h)
  obtain ⟨past, rest, part, hes, hw, hcase⟩ := writes_split hp
  have hpast := afterEvents_again h hes hw
  obtain ⟨rfl, rfl⟩ | ⟨e, rest', rfl, hpart⟩ := hcase
  · rw [List.append_nil] at hes hw
    subst hes hw
    rw [hpast, hagain, actAll_stmtsOfAll]
  · -- The event that was cut: what had been issued of it counts for nothing, and the rest is issued now.
    obtain ⟨tail, htail⟩ := hpart
    have hsettled : ∀ s ∈ writes, s.isInsert = true → s.settled (actAll db writes) = true := settled_of_mem
    obtain ⟨hv, hc⟩ := @sameView_actAll (actAll db writes) (actAll db writes) (Db.SameView.refl _)
      (fun _ h => h) (stmtsOfAll db past) fun s hs => hsettled s (by rw [hw]; simp [hs])
    have hreached : actAll db writes = actAll (afterEvents db past) part := by
      rw [hw, Statements.actAll_append, actAll_stmtsOfAll]
    have hevent : afterEvent (actAll (actAll db writes) (stmtsOfAll db past)) e = afterEvent (afterEvents db past) e := by
      rw [afterEvent_again hv hc (@pending_stmtsOf _ _ _ _ part ?_ ?_ ⟨tail, htail⟩ ?_ (.inr hreached) ?_), afterEvent,
        ← htail, ← Statements.actAll_append, ← List.append_assoc, ← hw, Statements.actAll_append, hagain, hreached,
        Statements.actAll_append]
      · rw [hw]
        exact grows_afterEvents
      · exact h.unknown past e rest' hes
      · exact fun s hs => hsettled s (by rw [hw]; simp [hs])
      · rintro row rfl
        have := h.firstVersion (stmtsOfAll db past) row hw
        rwa [actAll_stmtsOfAll] at this
    rw [hes, afterEvents_append, hpast, afterEvents_cons, hevent, afterEvents_append, afterEvents_cons]

/-! ## Delivery -/

/-- A saved attempt has issued its page and moves the cursor past it. -/
theorem Attempt.run_saved {stream : List SuiEvent} {st : IndexerState} {a : Attempt} (h : a.Saved stream st) :
    a.run stream st =
      { db := afterEvents st.db (a.page stream st), cursor := st.cursor + (a.page stream st).length } := by
  obtain ⟨hd, hok⟩ := h
  rw [Attempt.run, hd]
  exact turn_of_acceptsAll ((processBatch_follows _ _).returns_iff.1 hok)

/-- A lost attempt leaves the cursor where it was. -/
theorem Attempt.run_lost {stream : List SuiEvent} {st : IndexerState} {a : Attempt} (h : ¬ a.Saved stream st) :
    a.run stream st = { db := actAll st.db (a.writes stream st), cursor := st.cursor } := by
  cases hd : a.diesAfter with
  | some n => simp only [Attempt.run, Attempt.writes, hd]
  | none =>
    have hrun : a.run stream st = turn stream st a.pageSize := by rw [Attempt.run, hd]
    have hwrites : a.writes stream st = (processBatch (a.page stream st) st.db).1 := by rw [Attempt.writes, hd]
    rw [hrun, hwrites, turn]
    split
    · rename_i hb
      exact absurd ⟨hd, congrArg Prod.snd hb⟩ h
    · rename_i hb
      rw [Attempt.page, hb]

/-- An attempt issues the first statements of its page. -/
theorem Attempt.writes_prefix {stream : List SuiEvent} {st : IndexerState} {a : Attempt} :
    a.writes stream st <+: stmtsOfAll st.db (a.page stream st) := by
  have hissued := (processBatch_follows (a.page stream st) st.db).issued
  unfold Attempt.writes
  split
  · exact hissued
  · exact (List.take_prefix _ _).trans hissued

/-- An attempt that is good leaves the stream to lead where it led. -/
theorem afterEvents_run {stream : List SuiEvent} {st : IndexerState} {a : Attempt} (h : a.Good stream st) :
    afterEvents (a.run stream st).db (stream.drop (a.run stream st).cursor) = afterEvents st.db (stream.drop st.cursor) := by
  have hsplit : stream.drop st.cursor = a.page stream st ++ (stream.drop st.cursor).drop a.pageSize :=
    (List.take_append_drop ..).symm
  by_cases hs : a.Saved stream st
  · rw [a.run_saved hs]
    have hrest : stream.drop (st.cursor + (a.page stream st).length) = (stream.drop st.cursor).drop a.pageSize := by
      rw [← List.drop_drop, Attempt.page, List.length_take, ← List.drop_eq_drop_min]
    rw [hrest, ← afterEvents_append, ← hsplit]
  · have hh := h.resolve_left hs
    rw [Attempt.run_lost hs, hsplit, afterEvents_append, afterEvents_of_harmless Attempt.writes_prefix hh,
      ← afterEvents_append]

/-- Attempts of which each is good, in the state it starts from. -/
def AllGood (stream : List SuiEvent) (db : Db) (attempts : List Attempt) : Prop :=
  ∀ past a rest, attempts = past ++ a :: rest → a.Good stream (deliver stream db past)

/-- What is still to come leads from the delivered tables to where the whole stream leads from the start. -/
theorem afterEvents_deliver {stream : List SuiEvent} {db : Db} {attempts : List Attempt} (h : AllGood stream db attempts) :
    afterEvents (deliver stream db attempts).db (stream.drop (deliver stream db attempts).cursor) = afterEvents db stream := by
  induction attempts using List.reverseRecOn with
  | nil => rfl
  | append_singleton attempts a ih =>
    have hrun : deliver stream db (attempts ++ [a]) = a.run stream (deliver stream db attempts) := by
      rw [deliver, List.foldl_append]
      rfl
    rw [hrun, afterEvents_run (h attempts a [] rfl)]
    exact ih fun past b rest he => h past b (rest ++ [a]) (by simp [he])

/-- At-least-once delivery, of any stream from any tables that process it, in any pages, with any crashes: when every attempt that is lost
was harmless, the tables at the end of the stream are those of processing every event once. -/
theorem deliver_eq_once {stream : List SuiEvent} {db : Db} (honce : (processBatch stream db).2 = .ok ())
    {attempts : List Attempt} (h : AllGood stream db attempts)
    (hend : (deliver stream db attempts).cursor = stream.length) :
    (deliver stream db attempts).db = actAll db (processBatch stream db).1 := by
  have hall := afterEvents_deliver h
  have haccepted := (processBatch_follows stream db).returns_iff.1 honce
  rw [hend, List.drop_length, afterEvents_nil] at hall
  rw [hall, (processBatch_follows stream db).ok haccepted, actAll_stmtsOfAll]

/-- A pool that is created and then moved on. -/
def Sample.poolStream : List SuiEvent :=
  [⟨⟨1, 0⟩, .poolCreated 2 [80] [] 7 0 1000⟩, ⟨⟨2, 0⟩, .poolStateChanged 2 0 1 7 2000⟩]

/-- The page that broke off after three statements is handled once more, and nothing shows of it. -/
theorem deliver_eq_once_poolStream :
    (deliver Sample.poolStream (Db.empty [.zero]) [⟨2, some 3⟩, ⟨2, none⟩]).db =
      actAll (Db.empty [.zero]) (processBatch Sample.poolStream (Db.empty [.zero])).1 := by
  refine deliver_eq_once (by decide +kernel) ?_ (by decide +kernel)
  intro past a rest h
  rcases past with _ | ⟨b, _ | ⟨c, past⟩⟩
  · -- The first attempt dies between the change of the state and its audit row.
    cases h
    have hwrites : (Attempt.writes Sample.poolStream (deliver Sample.poolStream (Db.empty [.zero]) []) ⟨2, some 3⟩).map
        (fun s => s.isInsert || s.poolOp.isSome) = [true, true, true] := by decide +kernel
    have hlast : (Attempt.writes Sample.poolStream (deliver Sample.poolStream (Db.empty [.zero]) []) ⟨2, some 3⟩).getLast? =
        some (.updatePoolState 2 1 2) := by decide +kernel
    refine .inr ⟨fun k v hmem => ?_, fun before row hw => ?_, fun past e rest hpage => ?_⟩
    · have := List.mem_map_of_mem (f := fun s => s.isInsert || s.poolOp.isSome) hmem
      rw [hwrites] at this
      simp [Stmt.isInsert, Stmt.poolOp] at this
    · rw [hw, List.getLast?_concat] at hlast
      cases hlast
    · change Sample.poolStream = past ++ e :: rest at hpage
      rcases past with _ | ⟨b, _ | ⟨c, past⟩⟩
      · cases hpage
        trivial
      · cases hpage
        exact fun hnone => absurd hnone (by decide +kernel)
      · simp [Sample.poolStream] at hpage
  · cases h
    left
    exact ⟨rfl, by decide +kernel⟩
  · simp at h

/-- A process that dies after it has incremented the version counter, and one that dies after it has inserted a new document: delivered
again, the first counts the version twice, and the second never inserts the first version. -/
theorem redelivery_not_harmless :
    ∃ w, World.run Sample.owner [Sample.createPool, Sample.createDocument, Sample.byOwner (.addVersion 5 Sample.upload)] = .ok w ∧
      (processBatch w.log Sample.withPool).2 = .ok () ∧
      (∀ n, n = 10 ∨ n = 5 → (deliver w.log Sample.withPool [⟨7, some n⟩, ⟨7, none⟩]).cursor = w.log.length ∧
        (deliver w.log Sample.withPool [⟨7, some n⟩, ⟨7, none⟩]).db ≠
          actAll Sample.withPool (processBatch w.log Sample.withPool).1) := by
  refine ⟨_, rfl, by decide +kernel, ?_⟩
  rintro n (rfl | rfl)
  · exact ⟨by decide +kernel, fun h => absurd (congrArg Db.documents h) (by decide +kernel)⟩
  · exact ⟨by decide +kernel, fun h => absurd (congrArg Db.documentVersions h) (by decide +kernel)⟩

end BrineVault
