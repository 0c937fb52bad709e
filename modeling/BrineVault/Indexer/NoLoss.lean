import BrineVault.Lib.Steps
import BrineVault.Indexer.Polling

/-!
# No event is lost

The persisted cursor never runs ahead of the handlers: whatever fails and wherever the process dies, every event up to it has been
handled.
-/

namespace BrineVault

/-! ## The cursor -/

/-- The cursor that was saved is read back. -/
theorem Cursor.ofJson_eventId (id : Sui.EventId) :
    Cursor.ofJson (.object [("txDigest".toList, .string id.txDigest.toList), ("eventSeq".toList, .string id.eventSeq.toList)]) =
      .after id := by
  have hkeys : "txDigest".toList ≠ "eventSeq".toList := by decide
  obtain ⟨hdigest, hseq⟩ := Json.member_pair hkeys (.string id.txDigest.toList) (.string id.eventSeq.toList)
  unfold Cursor.ofJson
  dsimp only
  rw [hdigest, hseq]
  simp only [Option.bind_some, Json.Value.asString, String.ofList_toList]

/-- No event id is written as an empty text. -/
theorem Sui.EventId.stringify_ne_empty (id : Sui.EventId) : id.stringify ≠ "" := by
  intro h
  have hlist := congrArg String.toList h
  rw [Sui.EventId.stringify, String.toList_ofList] at hlist
  cases hlist

/-- What has been saved is what is loaded. -/
theorem CursorManager.loadCursor_saveCursor (chainId : String) (checkpoint : Option CheckpointRow) (cursor : Sui.EventId)
    (txDigest : String) (eventSeq : Int) :
    loadCursor (some (saveCursor chainId checkpoint cursor txDigest eventSeq)) = .after cursor := by
  have hparse := @Json.parse_stringify [("txDigest".toList, cursor.txDigest.toList), ("eventSeq".toList, cursor.eventSeq.toList)]
    (List.cons_ne_nil _ _)
  have hlast : (some (saveCursor chainId checkpoint cursor txDigest eventSeq)).bind (·.lastCursor) = some cursor.stringify := rfl
  unfold loadCursor
  rw [hlast]
  dsimp only
  rw [if_neg cursor.stringify_ne_empty, Sui.EventId.stringify, String.toList_ofList, hparse]
  exact Cursor.ofJson_eventId cursor

/-! ## The chain -/

namespace Sui

/-- The events after an id, and those up to it, are all of them. -/
theorem splitAfter_spec {id : EventId} {es past tail : List Event} (h : splitAfter id es = some (past, tail)) :
    es = past ++ tail := by
  induction es generalizing past with
  | nil => cases h
  | cons e es ih =>
    rw [splitAfter] at h
    split at h
    · cases h
      rfl
    · obtain ⟨parts, hparts, heq⟩ := Option.map_eq_some_iff.1 h
      cases heq
      rw [List.cons_append, ← ih hparts]

/-- The one event of that id ends the first part. -/
theorem splitAfter_of_nodup {es past tail : List Event} {last : Event} (hnodup : (es.map (·.id)).Nodup)
    (hes : es = past ++ last :: tail) : splitAfter last.id es = some (past ++ [last], tail) := by
  induction past generalizing es with
  | nil =>
    subst hes
    simp [splitAfter]
  | cons e past ih =>
    subst hes
    have hne : e.id ≠ last.id := by
      intro h
      simp [h] at hnodup
    have hrest : splitAfter last.id (past ++ last :: tail) = some (past ++ [last], tail) :=
      ih (by simpa using (List.nodup_cons.1 hnodup).2) rfl
    rw [List.cons_append, splitAfter, if_neg hne, hrest]
    rfl

/-- Where the chain is cut, its two parts are the events. -/
theorem Chain.split_spec {chain : Chain} {cursor : Cursor} {past tail : List Event} (h : chain.split cursor = some (past, tail)) :
    chain.events = past ++ tail := by
  cases cursor with
  | null =>
    cases h
    rfl
  | after id => exact splitAfter_spec h
  | other => cases h

/-- The cursor moves past a page: what is at or before the last event of the page. -/
theorem Chain.split_last {chain : Chain} {cursor : Cursor} {past tail page : List Event} {last : Event}
    (h : chain.split cursor = some (past, tail)) (hpage : page <+: tail) (hlast : page.getLast? = some last) :
    ∃ rest, chain.split (.after last.id) = some (past ++ page, rest) := by
  obtain ⟨rest, rfl⟩ := hpage
  obtain ⟨init, rfl⟩ := List.getLast?_eq_some_iff.1 hlast
  have hevents : chain.events = (past ++ init) ++ last :: rest := by
    rw [Chain.split_spec h]
    simp
  refine ⟨rest, ?_⟩
  rw [Chain.split, splitAfter_of_nodup chain.nodup hevents, List.append_assoc]

end Sui

/-! ## The invariant -/

variable (chain : Sui.Chain) (handlerMap : String → Bool)

/-- A call of its handler has been accepted for the event. -/
def Handled (calls : List HandlerCall) (event : Sui.Event) : Prop := ∃ call ∈ calls, call.event = event ∧ call.outcome.Accepted

/-- The cursor is at an event of the chain, and the events up to it whose type has a handler have been handled; or it is at none. -/
def HandledUpTo (calls : List HandlerCall) : Cursor → Prop
  | .after id => ∃ past tail, chain.split (.after id) = some (past, tail) ∧ ∀ e ∈ past, handlerMap e.type = true → Handled calls e
  | _ => True

/-- What holds where the loop waits. -/
def Waits (calls : List HandlerCall) : Control → Prop
  | .loading => True
  | .polling cursor => HandledUpTo chain handlerMap calls cursor
  | .handling cursor result event rest =>
    HandledUpTo chain handlerMap calls cursor ∧ chain.Answers cursor result ∧
      ∃ done, result.events = done ++ event :: rest ∧ ∀ e ∈ done, handlerMap e.type = true → Handled calls e
  | .saving cursor _ nextCursor _ _ =>
    HandledUpTo chain handlerMap calls cursor ∧ HandledUpTo chain handlerMap calls (.after nextCursor)
  | .sleeping cursor => HandledUpTo chain handlerMap calls cursor
  | .ended => True

structure Indexer.Inv (st : Indexer) : Prop where
  persisted : HandledUpTo chain handlerMap st.calls (CursorManager.loadCursor st.checkpoint)
  waits : Waits chain handlerMap st.calls st.control

variable {chain handlerMap}

theorem Handled.mono {calls calls' : List HandlerCall} {event : Sui.Event} (h : Handled calls event) (hsub : calls ⊆ calls') :
    Handled calls' event := by
  obtain ⟨call, hcall, hevent⟩ := h
  exact ⟨call, hsub hcall, hevent⟩

theorem HandledUpTo.mono {calls calls' : List HandlerCall} {cursor : Cursor} (h : HandledUpTo chain handlerMap calls cursor)
    (hsub : calls ⊆ calls') : HandledUpTo chain handlerMap calls' cursor := by
  cases cursor with
  | null => trivial
  | other => trivial
  | after id =>
    obtain ⟨past, tail, hsplit, hpast⟩ := h
    refine ⟨past, tail, hsplit, ?_⟩
    intro e he htype
    exact (hpast e he htype).mono hsub

/-- Before the cursor every event with a handler was handled. -/
theorem HandledUpTo.of_split {calls : List HandlerCall} {cursor : Cursor} (h : HandledUpTo chain handlerMap calls cursor)
    {past tail : List Sui.Event} (hsplit : chain.split cursor = some (past, tail)) :
    ∀ e ∈ past, handlerMap e.type = true → Handled calls e := by
  cases cursor with
  | null =>
    cases hsplit
    simp
  | other => cases hsplit
  | after id =>
    obtain ⟨past', tail', hsplit', hpast⟩ := h
    rw [hsplit] at hsplit'
    cases hsplit'
    exact hpast

theorem Waits.mono {calls calls' : List HandlerCall} {control : Control} (h : Waits chain handlerMap calls control)
    (hsub : calls ⊆ calls') : Waits chain handlerMap calls' control := by
  cases control with
  | loading => trivial
  | polling cursor => exact HandledUpTo.mono h hsub
  | handling cursor result event rest =>
    obtain ⟨hcursor, hanswers, done, hevents, hdone⟩ := h
    refine ⟨hcursor.mono hsub, hanswers, done, hevents, ?_⟩
    intro e he htype
    exact (hdone e he htype).mono hsub
  | saving cursor result nextCursor lastEvent eventSeq => exact ⟨h.1.mono hsub, h.2.mono hsub⟩
  | sleeping cursor => exact HandledUpTo.mono h hsub
  | ended => trivial

/-- A page whose events have been handled takes the cursor on. -/
theorem HandledUpTo.page {calls : List HandlerCall} {cursor : Cursor} {result : Sui.PollResult} {nextCursor : Sui.EventId}
    {lastEvent : Sui.Event} (h : HandledUpTo chain handlerMap calls cursor) (hanswers : chain.Answers cursor result)
    (hall : ∀ e ∈ result.events, handlerMap e.type = true → Handled calls e) (hnext : result.nextCursor = some nextCursor)
    (hlast : result.events.getLast? = some lastEvent) : HandledUpTo chain handlerMap calls (.after nextCursor) := by
  obtain ⟨⟨⟨past, tail⟩, hsplit, hpage⟩, hid⟩ := hanswers
  have hlastId : lastEvent.id = nextCursor := hid nextCursor hnext lastEvent hlast
  obtain ⟨rest, hrest⟩ := Sui.Chain.split_last hsplit hpage hlast
  rw [hlastId] at hrest
  refine ⟨past ++ result.events, rest, hrest, ?_⟩
  intro e he
  rcases List.mem_append.1 he with he | he
  · exact h.of_split hsplit e he
  · exact hall e he

namespace Indexer

variable {st : Indexer} {cursor : Cursor} {result : Sui.PollResult}

/-- Going to sleep keeps the invariant. -/
theorem Inv.sleep (h : st.Inv chain handlerMap) (hcursor : HandledUpTo chain handlerMap st.calls cursor) :
    Inv chain handlerMap { st with control := .sleeping cursor } :=
  ⟨h.persisted, hcursor⟩

theorem Inv.loopHead (h : st.Inv chain handlerMap) (hcursor : HandledUpTo chain handlerMap st.calls cursor) :
    (st.loopHead cursor).Inv chain handlerMap := by
  refine ⟨h.persisted, ?_⟩
  unfold Indexer.loopHead
  by_cases hrunning : st.running = true
  · rw [if_pos hrunning]
    exact hcursor
  · rw [if_neg hrunning]
    trivial

theorem Inv.endTurn (h : st.Inv chain handlerMap) (hcursor : HandledUpTo chain handlerMap st.calls cursor) (hasNextPage : Bool) :
    (st.endTurn cursor hasNextPage).Inv chain handlerMap := by
  unfold Indexer.endTurn
  split
  · exact h.loopHead hcursor
  · exact h.sleep hcursor

/-- Coming out of a batch that was handled keeps the invariant. -/
theorem Inv.afterBatch (h : st.Inv chain handlerMap) (hcursor : HandledUpTo chain handlerMap st.calls cursor)
    (hanswers : chain.Answers cursor result) (hall : ∀ e ∈ result.events, handlerMap e.type = true → Handled st.calls e) :
    (st.afterBatch cursor result).Inv chain handlerMap := by
  unfold Indexer.afterBatch
  split
  · rename_i nextCursor lastEvent hnext hlast
    split
    · exact ⟨h.persisted, hcursor, hcursor.page hanswers hall hnext hlast⟩
    · exact h.sleep hcursor
  · exact h.endTurn hcursor _

/-- The batch goes on from where its events have been handled. -/
theorem Inv.processBatch (h : st.Inv chain handlerMap) (hcursor : HandledUpTo chain handlerMap st.calls cursor)
    (hanswers : chain.Answers cursor result) {done rest : List Sui.Event} (hevents : result.events = done ++ rest)
    (hdone : ∀ e ∈ done, handlerMap e.type = true → Handled st.calls e) :
    (st.processBatch handlerMap cursor result rest).Inv chain handlerMap := by
  induction rest generalizing done with
  | nil =>
    have hall : ∀ e ∈ result.events, handlerMap e.type = true → Handled st.calls e := by
      rw [hevents, List.append_nil]
      exact hdone
    exact h.afterBatch hcursor hanswers hall
  | cons event rest ih =>
    unfold Indexer.processBatch
    by_cases htype : handlerMap event.type = true
    · rw [if_pos htype]
      split
      · exact ⟨h.persisted, hcursor, hanswers, done, hevents, hdone⟩
      · exact h.sleep hcursor
    · rw [if_neg htype]
      have hskipped : result.events = (done ++ [event]) ++ rest := by simp [hevents]
      refine ih hskipped ?_
      intro e he hhandler
      rcases List.mem_append.1 he with he | he
      · exact hdone e he hhandler
      · rw [List.mem_singleton.1 he] at hhandler
        exact absurd hhandler htype

variable {chainId : String}

/-- Saving a cursor up to which everything was handled keeps the invariant. -/
theorem Inv.save (h : st.Inv chain handlerMap) {nextCursor : Sui.EventId}
    (hnext : HandledUpTo chain handlerMap st.calls (.after nextCursor)) (txDigest : String) (eventSeq : Int) :
    Inv chain handlerMap
      { st with checkpoint := some (CursorManager.saveCursor chainId st.checkpoint nextCursor txDigest eventSeq) } := by
  refine ⟨?_, h.waits⟩
  rw [CursorManager.loadCursor_saveCursor]
  exact hnext

/-- More calls take nothing back. -/
theorem Inv.called (h : st.Inv chain handlerMap) (call : HandlerCall) :
    Inv chain handlerMap { st with calls := st.calls ++ [call] } :=
  ⟨h.persisted.mono (List.subset_append_left _ _), h.waits.mono (List.subset_append_left _ _)⟩

/-- The call of the handler settles, and the batch goes on where it is accepted. -/
theorem Inv.settled {event : Sui.Event} {rest : List Sui.Event} (h : st.Inv chain handlerMap)
    (hcontrol : st.control = .handling cursor result event rest) {outcome : Settlement} (haccepted : outcome.Accepted) :
    (Indexer.processBatch handlerMap cursor result rest { st with calls := st.calls ++ [⟨event, outcome⟩] }).Inv chain handlerMap := by
  have hcalled := h.called ⟨event, outcome⟩
  have hwaits := hcalled.waits
  rw [hcontrol] at hwaits
  obtain ⟨hcursor, hanswers, done, hevents, hdone⟩ := hwaits
  have hhandled : result.events = (done ++ [event]) ++ rest := by simp [hevents]
  refine hcalled.processBatch hcursor hanswers hhandled ?_
  intro e he htype
  rcases List.mem_append.1 he with he | he
  · exact hdone e he htype
  · refine ⟨⟨event, outcome⟩, List.mem_append_right _ (List.mem_singleton.2 rfl), ?_, haccepted⟩
    exact (List.mem_singleton.1 he).symm

/-- Every step of the indexer keeps the invariant. -/
theorem inv_step {st' : Indexer} {input : Input} (h : st.Inv chain handlerMap) (hstep : step chain handlerMap chainId st input = .ok st') :
    st'.Inv chain handlerMap := by
  have hwaits := h.waits
  unfold step at hstep
  cases input with
  | stop =>
    cases hstep
    exact ⟨h.persisted, h.waits⟩
  | crash =>
    cases hstep
    exact ⟨h.persisted, trivial⟩
  | damaged checkpoint =>
    dsimp only at hstep
    split at hstep
    · rename_i hnone
      cases hstep
      refine ⟨?_, h.waits⟩
      rcases hnone with hnone | hnone <;> rw [hnone] <;> trivial
    · cases hstep
  | loaded =>
    cases hcontrol : st.control <;> rw [hcontrol] at hstep hwaits <;> cases hstep
    exact h.loopHead h.persisted
  | loadFailed =>
    cases hcontrol : st.control <;> rw [hcontrol] at hstep hwaits <;> cases hstep
    exact ⟨h.persisted, trivial⟩
  | polled result =>
    cases hcontrol : st.control <;> rw [hcontrol] at hstep hwaits <;> try cases hstep
    dsimp only at hstep
    split at hstep
    · rename_i hanswers
      split at hstep
      · cases hstep
        exact h.endTurn hwaits _
      · cases hstep
        exact h.processBatch hwaits hanswers (List.nil_append _).symm (by simp)
    · cases hstep
  | pollFailed =>
    cases hcontrol : st.control <;> rw [hcontrol] at hstep hwaits <;> cases hstep
    exact h.sleep hwaits
  | settled outcome =>
    cases hcontrol : st.control <;> rw [hcontrol] at hstep hwaits <;> try cases hstep
    dsimp only at hstep
    split at hstep
    · rename_i haccepted
      cases hstep
      have hsettled := h.settled hcontrol haccepted
      rw [hcontrol] at hsettled
      exact hsettled
    · cases hstep
      exact (h.called _).sleep (hwaits.1.mono (List.subset_append_left _ _))
  | saved =>
    cases hcontrol : st.control <;> rw [hcontrol] at hstep hwaits <;> cases hstep
    exact (h.save hwaits.2 _ _).endTurn hwaits.2 _
  | saveFailed written =>
    cases hcontrol : st.control <;> rw [hcontrol] at hstep hwaits <;> cases hstep
    cases written with
    | true => exact (h.save hwaits.2 _ _).sleep hwaits.1
    | false => exact h.sleep hwaits.1
  | woken =>
    cases hcontrol : st.control <;> rw [hcontrol] at hstep hwaits <;> cases hstep
    exact h.loopHead hwaits

/-- The invariant holds of the indexer that starts. -/
theorem inv_start : start.Inv chain handlerMap := ⟨trivial, trivial⟩

end Indexer

/-- No event is lost: whatever fails, wherever the process dies and is started again, the persisted cursor is at an event of the chain,
and every event up to it whose type has a handler has been passed to the handler, which returned or failed with what counts as a
duplicate. -/
theorem no_event_lost {chainId : String} {inputs : List Indexer.Input} {st : Indexer}
    (h : Steps.run (Indexer.step chain handlerMap chainId) Indexer.start inputs = .ok st) {id : Sui.EventId}
    (hcursor : CursorManager.loadCursor st.checkpoint = .after id) :
    ∃ past tail, chain.split (.after id) = some (past, tail) ∧ ∀ e ∈ past, handlerMap e.type = true →
      ∃ call ∈ st.calls, call.event = e ∧ call.outcome.Accepted := by
  have hinv : st.Inv chain handlerMap :=
    Steps.run_preserves _ (fun _ _ _ hst hstep => Indexer.inv_step hst hstep) h Indexer.inv_start
  have hpersisted := hinv.persisted
  rw [hcursor] at hpersisted
  exact hpersisted

/-- Three events, of which the second has no handler. -/
def Sample.threeEvents : Sui.Chain where
  events := [⟨⟨"tx1", "0"⟩, "PoolCreated"⟩, ⟨⟨"tx1", "1"⟩, "FolderCreated"⟩, ⟨⟨"tx2", "0"⟩, "PoolStateChanged"⟩]
  nodup := by decide

/-- The node fails, a handler fails and is called again, the write of the cursor is reported as failed although it was made, the process
dies, and the row is damaged before the next turn. -/
def Sample.inputs : List Indexer.Input :=
  let page : Sui.PollResult := ⟨Sample.threeEvents.events.take 2, some ⟨"tx1", "1"⟩, true⟩
  [.loaded, .pollFailed, .woken, .polled page, .settled (.threw "connection refused"), .woken, .polled page, .settled .returned,
    .saveFailed true, .crash, .damaged (some ⟨"sui:testnet", some "not-valid-json", none, 0⟩), .loaded, .polled page,
    .settled (.threw "duplicate key value"), .saved]

/-- The cursor is after the second event, and the first has been passed to its handler three times. -/
def Sample.afterInputs : Indexer where
  checkpoint := some (CursorManager.saveCursor "sui:testnet" none ⟨"tx1", "1"⟩ "tx1" 1)
  running := true
  control := .polling (.after ⟨"tx1", "1"⟩)
  calls := [.threw "connection refused", .returned, .threw "duplicate key value"].map fun outcome =>
    ⟨⟨⟨"tx1", "0"⟩, "PoolCreated"⟩, outcome⟩

/-- Three events of the sample, two of them handled before the saved cursor. -/
theorem no_event_lost_sample :
    ∃ past tail, Sample.threeEvents.split (.after ⟨"tx1", "1"⟩) = some (past, tail) ∧
      ∀ e ∈ past, decide (e.type ≠ "FolderCreated") = true →
        ∃ call ∈ Sample.afterInputs.calls, call.event = e ∧ call.outcome.Accepted := by
  have hrun : Steps.run (Indexer.step Sample.threeEvents (fun type => type ≠ "FolderCreated") "sui:testnet") Indexer.start
      Sample.inputs = .ok Sample.afterInputs := by decide +kernel
  exact no_event_lost hrun (CursorManager.loadCursor_saveCursor _ _ _ _ _)

end BrineVault
