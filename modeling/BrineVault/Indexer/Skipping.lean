import BrineVault.Indexer.Poison
import BrineVault.Indexer.Polling

/-!
# Which failures are skipped

A handler can fail at any of its writes, with any text: the database refuses a statement, the connection is lost, the cache does not answer
after the last write. `processBatch` goes on where the text has one of two words in it. The audit row of an event is the last of its writes, so
it is what tells whether the event is recorded.
-/

namespace BrineVault

open Script (fail recover Follows)
open Statements (act actAll)

/-- A failure that comes from outside: the call of a handler throws after the first of its writes, an error by what `String(err)` gives. -/
structure Fault where
  writes : Nat
  text : String
  deriving DecidableEq, Repr

namespace Faulty

/-- A call of a handler, cut off by the fault if there is one. -/
def call (handler : DbM Unit) (fault : Option Fault) : Script Stmt Db String Unit := fun db =>
  match fault with
  | none => ((handler db).1, (handler db).2.mapError DbError.message)
  | some fault => ((handler db).1.take fault.writes, .error fault.text)

/-- The handler for the type of an event, where there is one. -/
def handle (e : SuiEvent) (fault : Option Fault) : Script Stmt Db String Unit :=
  match handlerOf e.id e.event with
  | none => return ()
  | some handler => call handler fault

def processEvent (e : SuiEvent) (fault : Option Fault) : Script Stmt Db String Unit :=
  recover (handle e fault) fun err => if isDuplicate err then return () else fail err

def processBatch : List (SuiEvent × Option Fault) → Script Stmt Db String Unit
  | [] => return ()
  | (e, fault) :: es => do
    processEvent e fault
    processBatch es

/-- The page of events after the cursor, one for each call, with the fault of the call. -/
def page (stream : List SuiEvent) (st : IndexerState) (faults : List (Option Fault)) : List (SuiEvent × Option Fault) :=
  (stream.drop st.cursor).zip faults

/-- One turn of `Indexer.start`, in which the calls of the handlers meet the faults. -/
def turn (stream : List SuiEvent) (st : IndexerState) (faults : List (Option Fault)) : IndexerState :=
  match processBatch (page stream st faults) st.db with
  | (ws, .ok ()) => { db := actAll st.db ws, cursor := st.cursor + (page stream st faults).length }
  | (ws, .error _) => { db := actAll st.db ws, cursor := st.cursor }

/-! ## Without faults -/

/-- Without a fault this is the handling of an event. -/
theorem processEvent_none (e : SuiEvent) (db : Db) :
    processEvent e none db = ((BrineVault.processEvent e db).1, (BrineVault.processEvent e db).2.mapError DbError.message) := by
  unfold processEvent BrineVault.processEvent handle
  cases handlerOf e.id e.event with
  | none => rfl
  | some handler =>
    cases hh : handler db with
    | mk ws r =>
      cases r with
      | ok => simp [recover, call, hh, Except.mapError]
      | error err =>
        have hd : isDuplicate err.message = false := DbError.not_isDuplicate err
        simp [recover, call, hh, Except.mapError, hd, DbError.not_isDuplicate]

/-- Without faults a batch is processed as it is. -/
theorem processBatch_none (es : List SuiEvent) (db : Db) :
    processBatch (es.map fun e => (e, none)) db =
      ((BrineVault.processBatch es db).1, (BrineVault.processBatch es db).2.mapError DbError.message) := by
  induction es generalizing db with
  | nil => rfl
  | cons e es ih =>
    rw [List.map_cons, processBatch, BrineVault.processBatch]
    cases hp : BrineVault.processEvent e db with
    | mk ws r =>
      have he : processEvent e none db = (ws, r.mapError DbError.message) := by rw [processEvent_none, hp]
      cases r with
      | ok =>
        rw [Script.bind_of_ok he, Script.bind_of_ok hp, ih]
      | error err => rw [Script.bind_of_error he, Script.bind_of_error hp]; rfl

/-- Without faults a turn is a turn. -/
theorem turn_none (stream : List SuiEvent) (st : IndexerState) (n : Nat) :
    turn stream st (List.replicate n none) = BrineVault.turn stream st n := by
  have hpage : page stream st (List.replicate n none) = ((stream.drop st.cursor).take n).map fun e => (e, none) := by
    rw [page]
    generalize stream.drop st.cursor = es
    induction es generalizing n with
    | nil => simp
    | cons e es ih =>
      cases n with
      | zero => simp
      | succ n => rw [List.replicate_succ, List.zip_cons_cons, ih, List.take_succ_cons, List.map_cons]
  rw [turn, BrineVault.turn, hpage, processBatch_none, List.length_map]
  cases hb : BrineVault.processBatch ((stream.drop st.cursor).take n) st.db with
  | mk ws r => cases r <;> simp [Except.mapError]

/-! ## The audit row is the last write -/

/-- An event writes nothing, or its audit row after everything else. -/
theorem audit_last (ctx : EventId) (db : Db) (e : Event) :
    stmtsOf ctx db e = [] ∨ ∃ others row, stmtsOf ctx db e = others ++ [.insertAudit row] ∧ row.eventId = ctx ∧
      ∀ r, .insertAudit r ∉ others := by
  have hlast : ∀ (others : List Stmt) (poolId : Option Uuid) (eventType : AuditType) (actor : Address) (target : Option Nat)
      (metadata : Metadata), (∀ r, .insertAudit r ∉ others) →
        ∃ others' row, others ++ [.insertAudit (auditRow ctx poolId eventType actor target metadata)] =
          others' ++ [.insertAudit row] ∧ row.eventId = ctx ∧ ∀ r, .insertAudit r ∉ others' :=
    fun others _ _ _ _ _ h => ⟨others, _, rfl, rfl, h⟩
  cases e with
  | poolCreated => exact .inr (hlast [_] _ _ _ _ _ (by simp))
  | poolStateChanged => exact .inr (hlast [_] _ _ _ _ _ (by simp))
  | dataRoomCreated => exact .inr (hlast [_] _ _ _ _ _ (by simp))
  | auditEvent => exact .inr (hlast [] _ _ _ _ _ (by simp))
  | memberAdded | memberRemoved | memberRoleUpdated | documentReviewed | icDecisionCreated =>
    simp only [stmtsOf]
    split
    · exact .inl rfl
    · exact .inr (hlast [_] _ _ _ _ _ (by simp))
  | documentVersionAdded =>
    simp only [stmtsOf]
    split
    · exact .inl rfl
    · exact .inr (hlast [_, _] _ _ _ _ _ (by simp))
  | documentCreated =>
    simp only [stmtsOf]
    split
    · exact .inl rfl
    · split
      · exact .inl rfl
      · split
        · exact .inr (hlast [_, _] _ _ _ _ _ (by simp))
        · exact .inr (hlast [_] _ _ _ _ _ (by simp))
  | _ => exact .inl rfl

/-- Statements other than the audit row add no audit row. -/
theorem auditEvents_actAll {db : Db} {ss : List Stmt} (h : ∀ r, .insertAudit r ∉ ss) :
    (actAll db ss).auditEvents = db.auditEvents := by
  induction ss generalizing db with
  | nil => rfl
  | cons s ss ih =>
    have hs : (act db s).auditEvents = db.auditEvents := by
      cases s with
      | insertAudit row => exact absurd (List.mem_cons_self ..) (h row)
      | _ => rfl
    exact (ih fun r hr => h r (List.mem_cons_of_mem s hr)).trans hs

/-- After some of its writes an event has its audit row exactly when it had it, or these were all of the writes. -/
theorem has_audit_iff {ctx : EventId} {db : Db} {e : Event} {ws : List Stmt} (h : ws <+: stmtsOf ctx db e) :
    Rows.has AuditRow.eventId ctx (actAll db ws).auditEvents = true ↔
      Rows.has AuditRow.eventId ctx db.auditEvents = true ∨ (ws = stmtsOf ctx db e ∧ stmtsOf ctx db e ≠ []) := by
  obtain hnil | ⟨others, row, hs, hid, hno⟩ := audit_last ctx db e
  · rw [hnil, List.prefix_nil] at h
    rw [h, hnil]
    simp
  · rw [hs] at h ⊢
    obtain h | h := List.prefix_concat_iff.1 h
    · rw [h, Statements.actAll_append]
      change Rows.has AuditRow.eventId ctx (Rows.insertNew AuditRow.eventId row (actAll db others).auditEvents) = true ↔ _
      rw [Rows.has_insertNew, hid, decide_eq_true rfl, Bool.or_true]
      simp
    · have hpart : ∀ r, .insertAudit r ∉ ws := fun r hr => hno r (h.subset hr)
      rw [auditEvents_actAll hpart]
      refine ⟨.inl, fun h' => h'.resolve_right fun hall => ?_⟩
      exact hpart row (by rw [hall.1]; simp)

/-! ## What is skipped -/

/-- What an event writes on the tables it meets is in the tables: it writes nothing, or its audit row is there. -/
def Recorded (e : SuiEvent) (before after : Db) : Prop :=
  stmtsOf e.id before e.event = [] ∨ Rows.has AuditRow.eventId e.id after.auditEvents = true

/-- The tables after a part of a batch. -/
def tablesAfter (batch : List (SuiEvent × Option Fault)) (db : Db) : Db := actAll db (processBatch batch db).1

/-- In this turn an event whose handler throws is passed over only where it is recorded; a failure of any other stops the batch and
leaves the cursor, so that the event is delivered again. -/
def OnlyDuplicatesSkipped (stream : List SuiEvent) (st : IndexerState) (faults : List (Option Fault)) : Prop :=
  ∀ past e fault rest, page stream st faults = past ++ (e, fault) :: rest → (processBatch past st.db).2 = .ok () →
    ∀ ws err, handle e fault (tablesAfter past st.db) = (ws, .error err) →
      ((processEvent e fault (tablesAfter past st.db)).2 = .ok () →
        Recorded e (tablesAfter past st.db) (actAll (tablesAfter past st.db) ws)) ∧
      (¬ Recorded e (tablesAfter past st.db) (actAll (tablesAfter past st.db) ws) →
        (∃ err', (processBatch (page stream st faults) st.db).2 = .error err') ∧ (turn stream st faults).cursor = st.cursor)

section Skipping

variable {e : SuiEvent} {fault : Option Fault} {db : Db} {ws : List Stmt} {err : String}

/-- Whatever happens, a handler writes nothing but what the event writes. -/
theorem handle_issued (e : SuiEvent) (fault : Option Fault) (db : Db) : (handle e fault db).1 <+: stmtsOf e.id db e.event := by
  unfold handle
  cases hh : handlerOf e.id e.event with
  | none => exact List.nil_prefix
  | some handler =>
    have hfollows : Follows handler db (Accepts e.id db e.event) (stmtsOf e.id db e.event) () := handlerOf_follows hh
    cases fault with
    | none => exact hfollows.issued
    | some fault => exact (List.take_prefix ..).trans hfollows.issued

/-- A call that meets a fault throws its text. -/
theorem text_of_some {fault : Fault} (h : handle e (some fault) db = (ws, .error err)) : err = fault.text := by
  unfold handle at h
  cases hh : handlerOf e.id e.event with
  | none =>
    rw [hh] at h
    cases h
  | some handler =>
    rw [hh] at h
    exact (Except.error.inj (Prod.mk.inj h).2).symm

/-- An error of the database itself is never taken for a duplicate. -/
theorem not_isDuplicate_of_none (h : handle e none db = (ws, .error err)) : isDuplicate err = false := by
  unfold handle at h
  cases hh : handlerOf e.id e.event with
  | none =>
    rw [hh] at h
    cases h
  | some handler =>
    rw [hh] at h
    have herr := (Prod.mk.inj h).2
    cases hr : (handler db).2 with
    | ok =>
      rw [hr] at herr
      cases herr
    | error dbErr =>
      rw [hr] at herr
      cases herr
      exact DbError.not_isDuplicate dbErr

/-- A handler that throws: a duplicate is passed over, everything else thrown on. -/
theorem processEvent_of_error (h : handle e fault db = (ws, .error err)) :
    processEvent e fault db = (ws, if isDuplicate err then .ok () else .error err) := by
  simp only [processEvent, recover, h]
  split <;> simp

/-- A batch stops at the first event whose error is thrown on. -/
theorem processBatch_append_of_error {past rest : List (SuiEvent × Option Fault)} (hpast : (processBatch past db).2 = .ok ())
    (h : (processEvent e fault (tablesAfter past db)).2 = .error err) :
    (processBatch (past ++ (e, fault) :: rest) db).2 = .error err := by
  induction past generalizing db with
  | nil =>
    have hp : processEvent e fault db = ((processEvent e fault db).1, .error err) := Prod.ext rfl h
    rw [List.nil_append, processBatch, Script.bind_of_error hp]
  | cons a past ih =>
    rw [List.cons_append, processBatch]
    rw [tablesAfter, processBatch] at h
    rw [processBatch] at hpast
    cases ha : processEvent a.1 a.2 db with
    | mk ws r =>
      cases r with
      | ok =>
        rw [Script.bind_of_ok ha] at hpast h ⊢
        rw [Statements.actAll_append] at h
        exact ih hpast h
      | error err' =>
        rw [Script.bind_of_error ha] at hpast
        cases hpast

/-- What is recorded when a handler has thrown: the event was recorded before, or the handler had made all the writes. -/
theorem recorded_iff (h : handle e fault db = (ws, .error err)) :
    Recorded e db (actAll db ws) ↔
      Rows.has AuditRow.eventId e.id db.auditEvents = true ∨ ws = stmtsOf e.id db e.event := by
  have hissued : ws <+: stmtsOf e.id db e.event := by
    have := handle_issued e fault db
    rwa [h] at this
  rw [Recorded, has_audit_iff hissued]
  by_cases hnil : stmtsOf e.id db e.event = []
  · rw [hnil, List.prefix_nil] at hissued
    simp [hnil, hissued]
  · simp [hnil]

end Skipping

/-- Only true duplicates are skipped in a turn exactly when every fault with one of the two words in its text comes after the last
write of its event, or at an event that has its audit row already. -/
theorem only_duplicates_skipped_iff (stream : List SuiEvent) (st : IndexerState) (faults : List (Option Fault)) :
    OnlyDuplicatesSkipped stream st faults ↔
      ∀ past e fault rest, page stream st faults = past ++ (e, some fault) :: rest → (processBatch past st.db).2 = .ok () →
        isDuplicate fault.text = true →
          Rows.has AuditRow.eventId e.id (tablesAfter past st.db).auditEvents = true ∨
            (handle e (some fault) (tablesAfter past st.db)).1 = stmtsOf e.id (tablesAfter past st.db) e.event := by
  constructor
  · intro h past e fault rest hpage hpast hdup
    cases hh : handlerOf e.id e.event with
    | none =>
      have hnil : stmtsOf e.id (tablesAfter past st.db) e.event = [] := (handlerOf_none hh).2
      refine .inr ?_
      rw [hnil, handle, hh]
      rfl
    | some handler =>
      have hthrows : handle e (some fault) (tablesAfter past st.db) =
          ((handle e (some fault) (tablesAfter past st.db)).1, .error fault.text) := by
        rw [handle, hh]
        rfl
      have hskip : (processEvent e (some fault) (tablesAfter past st.db)).2 = .ok () := by
        rw [processEvent_of_error hthrows, if_pos hdup]
      exact (recorded_iff hthrows).1 ((h past e (some fault) rest hpage hpast _ _ hthrows).1 hskip)
  · intro h past e fault rest hpage hpast ws err hthrows
    have hresult := processEvent_of_error hthrows
    -- Where the text is that of a duplicate the error is the fault's, so the condition speaks of it.
    have hrecorded : isDuplicate err = true → Recorded e (tablesAfter past st.db) (actAll (tablesAfter past st.db) ws) := by
      intro hdup
      cases fault with
      | none =>
        rw [not_isDuplicate_of_none hthrows] at hdup
        cases hdup
      | some fault =>
        rw [recorded_iff hthrows]
        rw [text_of_some hthrows] at hdup
        have hsafe := h past e fault rest hpage hpast hdup
        rwa [hthrows] at hsafe
    refine ⟨fun hskip => hrecorded ?_, fun hlost => ?_⟩
    · rw [hresult] at hskip
      by_contra hdup
      rw [if_neg hdup] at hskip
      cases hskip
    · have hdup : ¬ isDuplicate err = true := fun hdup => hlost (hrecorded hdup)
      have hstops : (processBatch (page stream st faults) st.db).2 = .error err := by
        rw [hpage]
        refine processBatch_append_of_error hpast ?_
        rw [hresult, if_neg hdup]
      refine ⟨⟨err, hstops⟩, ?_⟩
      rw [turn]
      cases hb : processBatch (page stream st faults) st.db with
      | mk us r =>
        rw [hb] at hstops
        cases r with
        | ok => cases hstops
        | error => rfl

/-- The database has lost the index that the upsert of a review names. -/
def noIndex : Fault :=
  { writes := 0, text := "PostgresError: there is no unique or exclusion constraint matching the ON CONFLICT specification" }

/-- A review of a document that has its row. -/
def review : SuiEvent := ⟨⟨4, 0⟩, .documentReviewed 2 5 8 Types.reviewApproved 2000⟩

def withDocument : Db :=
  { Sample.withPool with
    datarooms := [{ id := .dataroom 3, suiObjectId := 3, poolId := .given 0, ownerAddress := 7 }]
    documents := [{ id := .document 5, suiObjectId := 5, poolId := .given 0, dataroomId := .dataroom 3, folderId := 0, docType := 0,
                    title := [84], currentVersion := 1, versionCount := 1, encryptionScheme := 0 }] }

/-- The upsert of the review fails, the cursor passes the review, and there is no review in the tables. -/
theorem review_skipped :
    turn [review] ⟨withDocument, 0⟩ [some noIndex] = ⟨withDocument, 1⟩ ∧ withDocument.documentReviews = [] ∧
      ¬ OnlyDuplicatesSkipped [review] ⟨withDocument, 0⟩ [some noIndex] := by
  have hbatch : processBatch (page [review] ⟨withDocument, 0⟩ [some noIndex]) withDocument = ([], .ok ()) := by decide +kernel
  have hturn : turn [review] ⟨withDocument, 0⟩ [some noIndex] = ⟨withDocument, 1⟩ := by
    rw [turn, hbatch]
    rfl
  refine ⟨hturn, rfl, fun h => ?_⟩
  obtain ⟨hskipped, _⟩ := h [] review (some noIndex) [] rfl rfl [] noIndex.text rfl
  obtain hnil | haudit := hskipped (by decide +kernel)
  · cases hnil
  · cases haudit

end Faulty

end BrineVault
