import BrineVault.Indexer.Effects
import BrineVault.Lib.Replay

/-!
# Processing events again

A part of the statements of some events has been issued when the process dies, and the events are processed once more. What the tables
then hold is what they hold after the events were processed once, under the conditions of `Harmless`: no version counter was
incremented, no new document was left without its first version, and no event finds a row now that it did not find the first time.
-/

namespace BrineVault

open Statements (actAll)

/-! ## What the statements of an event depend on -/

namespace Db

/-- What the handlers read of a pool. -/
def poolKey (db : Db) (k : ID) : Option (Uuid × UInt8) := (db.poolOf k).map fun r => (r.id, r.encryptionScheme)

/-- What the handlers read of a document. -/
def docKey (db : Db) (k : ID) : Option (Uuid × Uuid) := (db.docOf k).map fun r => (r.id, r.poolId)

/-- The handlers read the same from both. -/
structure SameView (db db' : Db) : Prop where
  pools : ∀ k, db.poolKey k = db'.poolKey k
  rooms : db.datarooms = db'.datarooms
  docs : ∀ k, db.docKey k = db'.docKey k

/-- The handlers find in the second what they find in the first. -/
structure Grows (db db' : Db) : Prop where
  pools : ∀ {k x}, db.poolKey k = some x → db'.poolKey k = some x
  rooms : ∀ {k r}, db.roomOf k = some r → db'.roomOf k = some r
  roomsOfPool : ∀ {id r}, db.roomOfPool id = some r → db'.roomOfPool id = some r
  docs : ∀ {k x}, db.docKey k = some x → db'.docKey k = some x

/-- No pool has been read exactly when there is none. -/
theorem poolKey_eq_none {db : Db} {k : ID} : db.poolKey k = none ↔ db.poolOf k = none := Option.map_eq_none_iff

/-- No document has been read exactly when there is none. -/
theorem docKey_eq_none {db : Db} {k : ID} : db.docKey k = none ↔ db.docOf k = none := Option.map_eq_none_iff

theorem SameView.refl (db : Db) : SameView db db := ⟨fun _ => rfl, rfl, fun _ => rfl⟩

theorem SameView.trans {a b c : Db} (h : SameView a b) (h' : SameView b c) : SameView a c :=
  ⟨fun k => (h.pools k).trans (h'.pools k), h.rooms.trans h'.rooms, fun k => (h.docs k).trans (h'.docs k)⟩

theorem SameView.symm {a b : Db} (h : SameView a b) : SameView b a :=
  ⟨fun k => (h.pools k).symm, h.rooms.symm, fun k => (h.docs k).symm⟩

theorem Grows.refl (db : Db) : Grows db db := ⟨id, id, id, id⟩

theorem Grows.trans {a b c : Db} (h : Grows a b) (h' : Grows b c) : Grows a c :=
  ⟨fun h₀ => h'.pools (h.pools h₀), fun h₀ => h'.rooms (h.rooms h₀), fun h₀ => h'.roomsOfPool (h.roomsOfPool h₀),
    fun h₀ => h'.docs (h.docs h₀)⟩

/-- Tables that are read alike have grown. -/
theorem SameView.grows {db db' : Db} (h : SameView db db') : Grows db db' :=
  ⟨fun h₀ => (h.pools _).symm.trans h₀, fun h₀ => by rwa [roomOf, ← h.rooms], fun h₀ => by rwa [roomOfPool, ← h.rooms],
    fun h₀ => (h.docs _).symm.trans h₀⟩

end Db

/-- The statement inserts a row, and does nothing where the row is there. -/
def Stmt.isInsert : Stmt → Bool
  | .insertPool _ | .insertDataroom _ | .insertDocument _ | .insertVersion _ | .insertIcDecision _ | .insertAudit _ => true
  | _ => false

/-- The row the statement inserts is there. -/
def Stmt.settled (db : Db) : Stmt → Bool
  | .insertPool row => Rows.has PoolRow.suiObjectId row.suiObjectId db.pools
  | .insertDataroom row => Rows.has DataroomRow.suiObjectId row.suiObjectId db.datarooms
  | .insertDocument row => Rows.has DocumentRow.suiObjectId row.suiObjectId db.documents
  | .insertVersion row => Rows.has VersionRow.key row.key db.documentVersions
  | .insertIcDecision row => Rows.has IcDecisionRow.key row.key db.icDecisions
  | .insertAudit row => Rows.has AuditRow.eventId row.eventId db.auditEvents
  | _ => false

namespace Stmt

/-- An insert of a row that is there does nothing. -/
theorem act_of_settled {db : Db} {s : Stmt} (h : s.settled db = true) : act db s = db := by
  cases s <;> first | cases h | (simp only [act, Rows.insertNew, settled] at h ⊢; rw [if_pos h])

/-- An insert leaves its row there. -/
theorem settled_act_self {db : Db} {s : Stmt} (h : s.isInsert = true) : s.settled (act db s) = true := by
  cases s <;> simp_all [isInsert, settled, act, Rows.has_insertNew]

/-- What is there stays. -/
theorem settled_act {db : Db} {s : Stmt} (t : Stmt) (h : s.settled db = true) : s.settled (act db t) = true := by
  cases s with
  | insertPool row =>
    cases t with
    | insertPool => simp_all [settled, act, Rows.has_insertNew]
    | updatePoolState k state digest => exact (Rows.has_updateAt (f := setState state digest) (fun _ => rfl) ..).trans h
    | _ => exact h
  | insertDocument row =>
    cases t with
    | insertDocument => simp_all [settled, act, Rows.has_insertNew]
    | updateVersionInfo k version => exact (Rows.has_updateAt (f := setVersionInfo version) (fun _ => rfl) ..).trans h
    | _ => exact h
  | insertDataroom | insertVersion | insertIcDecision | insertAudit =>
    cases t <;> first | exact h | simp_all [settled, act, Rows.has_insertNew]
  | _ => cases h

/-- A settled statement stays settled. -/
theorem settled_actAll {db : Db} {s : Stmt} (ts : List Stmt) (h : s.settled db = true) :
    s.settled (actAll db ts) = true := by
  induction ts generalizing db with
  | nil => exact h
  | cons t ts ih => exact ih (settled_act t h)

/-- An update changes nothing that the handlers read. -/
theorem sameView_act {db : Db} {s : Stmt} (h : s.isInsert = false) : Db.SameView (act db s) db := by
  cases s with
  | updatePoolState k state digest =>
    refine ⟨fun k' => ?_, rfl, fun _ => rfl⟩
    rw [Db.poolKey, Db.poolOf, act, Rows.find_updateAt (f := setState state digest) (fun _ => rfl), Option.map_map]
    refine congrArg (Option.map · _) (funext fun r => ?_)
    simp only [Function.comp_apply]
    split <;> rfl
  | updateVersionInfo k version =>
    refine ⟨fun _ => rfl, rfl, fun k' => ?_⟩
    rw [Db.docKey, Db.docOf, act, Rows.find_updateAt (f := setVersionInfo version) (fun _ => rfl), Option.map_map]
    refine congrArg (Option.map · _) (funext fun r => ?_)
    simp only [Function.comp_apply]
    split <;> rfl
  | upsertMember | deactivateMember | updateMemberRole | upsertReview => exact ⟨fun _ => rfl, rfl, fun _ => rfl⟩
  | _ => cases h

/-- No statement takes away what the handlers find. -/
theorem grows_act (db : Db) (s : Stmt) : Db.Grows db (act db s) := by
  cases s with
  | insertPool row =>
    refine ⟨fun {k x} h => ?_, id, id, id⟩
    obtain ⟨r, hr, hx⟩ := Option.map_eq_some_iff.1 h
    exact Option.map_eq_some_iff.2 ⟨r, Rows.find_insertNew_of_some hr, hx⟩
  | insertDataroom row =>
    refine ⟨id, Rows.find_insertNew_of_some, fun {id r} h => ?_, id⟩
    rw [Db.roomOfPool] at h ⊢
    simp only [act, Rows.insertNew]
    split
    · exact h
    · rw [List.find?_append, h, Option.some_or]
  | insertDocument row =>
    refine ⟨id, id, id, fun {k x} h => ?_⟩
    obtain ⟨r, hr, hx⟩ := Option.map_eq_some_iff.1 h
    exact Option.map_eq_some_iff.2 ⟨r, Rows.find_insertNew_of_some hr, hx⟩
  | insertVersion | insertIcDecision | insertAudit => exact ⟨id, id, id, id⟩
  | _ => exact (sameView_act rfl).symm.grows

/-- Statements only make the tables grow. -/
theorem grows_actAll (db : Db) (ss : List Stmt) : Db.Grows db (actAll db ss) := by
  induction ss generalizing db with
  | nil => exact Db.Grows.refl db
  | cons s ss ih => exact (grows_act db s).trans (ih _)

end Stmt

/-- The lookups of an event have the same results in both. -/
def Agrees (db db' : Db) : Event → Prop
  | .dataRoomCreated poolId _ _ _ | .icDecisionCreated poolId _ _ _ _ | .auditEvent poolId _ _ _ _ _ =>
    db.poolKey poolId = db'.poolKey poolId
  | .memberAdded room _ _ _ _ | .memberRemoved room _ _ _ | .memberRoleUpdated room _ _ _ _ _ => db.roomOf room = db'.roomOf room
  | .documentCreated poolId docId _ _ _ _ _ _ _ _ =>
    db.poolKey poolId = db'.poolKey poolId ∧
      ∀ id scheme, db.poolKey poolId = some (id, scheme) →
        db.roomOfPool id = db'.roomOfPool id ∧ (db.docOf docId = none ↔ db'.docOf docId = none)
  | .documentVersionAdded _ docId _ _ _ _ _ | .documentReviewed _ docId _ _ _ => db.docKey docId = db'.docKey docId
  | _ => True

/-- Whatever the event, tables that are read alike agree on it. -/
theorem Db.SameView.agrees {db db' : Db} (h : db.SameView db') (e : Event) : Agrees db db' e := by
  have hroom : ∀ k, db.roomOf k = db'.roomOf k := fun k => by rw [Db.roomOf, Db.roomOf, h.rooms]
  cases e with
  | dataRoomCreated | icDecisionCreated | auditEvent => exact h.pools _
  | memberAdded | memberRemoved | memberRoleUpdated => exact hroom _
  | documentCreated =>
    refine ⟨h.pools _, fun id scheme _ => ⟨by rw [Db.roomOfPool, Db.roomOfPool, h.rooms], ?_⟩⟩
    rw [← Db.docKey_eq_none, h.docs, Db.docKey_eq_none]
  | documentVersionAdded | documentReviewed => exact h.docs _
  | _ => trivial

/-- The statements of an event depend on its lookups alone. -/
theorem stmtsOf_of_agrees {db db' : Db} {e : Event} (h : Agrees db db' e) (ctx : EventId) :
    stmtsOf ctx db e = stmtsOf ctx db' e := by
  have pool : ∀ {k}, db.poolKey k = db'.poolKey k →
      (db.poolOf k = none ∧ db'.poolOf k = none) ∨
        ∃ r r', db.poolOf k = some r ∧ db'.poolOf k = some r' ∧ r.id = r'.id ∧ r.encryptionScheme = r'.encryptionScheme := by
    intro k hk
    rw [Db.poolKey, Db.poolKey] at hk
    cases h1 : db.poolOf k <;> cases h2 : db'.poolOf k <;> simp_all
  have doc : ∀ {k}, db.docKey k = db'.docKey k →
      (db.docOf k = none ∧ db'.docOf k = none) ∨
        ∃ r r', db.docOf k = some r ∧ db'.docOf k = some r' ∧ r.id = r'.id ∧ r.poolId = r'.poolId := by
    intro k hk
    rw [Db.docKey, Db.docKey] at hk
    cases h1 : db.docOf k <;> cases h2 : db'.docOf k <;> simp_all
  cases e with
  | dataRoomCreated poolId | auditEvent poolId =>
    obtain ⟨h1, h2⟩ | ⟨r, r', h1, h2, hid, -⟩ := pool h
    · simp only [stmtsOf, h1, h2]
    · simp only [stmtsOf, h1, h2, Option.map_some, hid]
  | icDecisionCreated poolId =>
    obtain ⟨h1, h2⟩ | ⟨r, r', h1, h2, hid, -⟩ := pool h
    · simp only [stmtsOf, h1, h2]
    · simp only [stmtsOf, h1, h2, hid]
  | memberAdded room | memberRemoved room | memberRoleUpdated room =>
    rw [Agrees] at h
    simp only [stmtsOf, h]
  | documentCreated poolId docId =>
    obtain ⟨hp, hrest⟩ := h
    obtain ⟨h1, h2⟩ | ⟨r, r', h1, h2, hid, hscheme⟩ := pool hp
    · simp only [stmtsOf, h1, h2]
    · obtain ⟨hroom, hdoc⟩ := hrest r.id r.encryptionScheme (by rw [Db.poolKey, h1]; rfl)
      rw [hid] at hroom
      simp only [stmtsOf, h1, h2, hid, hroom, hdoc, documentRow, hscheme]
  | documentVersionAdded poolId docId | documentReviewed poolId docId =>
    obtain ⟨h1, h2⟩ | ⟨r, r', h1, h2, hid, hpool⟩ := doc h
    · simp only [stmtsOf, h1, h2]
    · simp only [stmtsOf, h1, h2, hid, hpool]
  | _ => rfl

/-! ## One event again -/

/-- Every row that is inserted in the second is there in the first: `db` has at least the rows of `db'`. -/
def Covers (db db' : Db) : Prop := ∀ s : Stmt, s.settled db' = true → s.settled db = true

/-- The statements without the inserts of rows that are there. -/
def pending (db : Db) (ss : List Stmt) : List Stmt := ss.filter fun s => !s.settled db

/-- A settled statement is not pending. -/
theorem pending_cons_of_settled {db : Db} {s : Stmt} (h : s.settled db = true) (ss : List Stmt) :
    pending db (s :: ss) = pending db ss := by
  rw [pending, List.filter_cons_of_neg (by simp [h]), pending]

theorem pending_eq_nil {db : Db} {ss : List Stmt} (h : ∀ s ∈ ss, s.settled db = true) : pending db ss = [] :=
  List.filter_eq_nil_iff.2 fun s hs => by simp [h s hs]

/-- Inserts of rows that are there do not count. -/
theorem actAll_pending {db db' : Db} (h : Covers db db') (ss : List Stmt) :
    actAll db ss = actAll db (pending db' ss) := by
  induction ss generalizing db with
  | nil => rfl
  | cons s ss ih =>
    rw [pending, List.filter_cons]
    split
    · exact ih fun t ht => Stmt.settled_act s (h t ht)
    · rename_i hs
      rw [Bool.not_eq_true, Bool.not_eq_false'] at hs
      change actAll (Stmt.act db s) ss = _
      rw [Stmt.act_of_settled (h s hs)]
      exact ih h

/-- Statements whose inserts are of rows that are there keep the view. -/
theorem sameView_actAll {db db' : Db} (hv : db.SameView db') (hc : Covers db db') {ss : List Stmt}
    (hs : ∀ s ∈ ss, s.isInsert = true → s.settled db' = true) :
    (actAll db ss).SameView db' ∧ Covers (actAll db ss) db' := by
  induction ss generalizing db with
  | nil => exact ⟨hv, hc⟩
  | cons s ss ih =>
    refine ih ?_ (fun t ht => Stmt.settled_act s (hc t ht)) fun t ht => hs t (List.mem_cons_of_mem s ht)
    cases hi : s.isInsert
    · exact (Stmt.sameView_act hi).trans hv
    · change (Stmt.act db s).SameView db'
      rw [Stmt.act_of_settled (hc s (hs s (List.mem_cons_self ..) hi))]
      exact hv

/-- What the event did not find in the first, where what it finds matters to more than an audit row and an insert, it does not find in
the second. -/
def StaysUnknown (db db' : Db) : Event → Prop
  | .poolStateChanged poolId _ _ _ _ | .icDecisionCreated poolId _ _ _ _ => db.poolOf poolId = none → db'.poolOf poolId = none
  | .memberAdded room _ _ _ _ | .memberRemoved room _ _ _ | .memberRoleUpdated room _ _ _ _ _ =>
    db.roomOf room = none → db'.roomOf room = none
  | .documentCreated poolId _ _ _ _ _ _ _ _ _ =>
    (db.poolOf poolId = none → db'.poolOf poolId = none) ∧
      ∀ pool ∈ db.poolOf poolId, db.roomOfPool pool.id = none → db'.roomOfPool pool.id = none
  | .documentVersionAdded _ docId _ _ _ _ _ | .documentReviewed _ docId _ _ _ => db.docOf docId = none → db'.docOf docId = none
  | _ => True

/-- Two results agree if the second has what the first has and lacks what it lacks. -/
theorem eq_of_grows {α : Type} {o o' : Option α} (hsome : ∀ {x}, o = some x → o' = some x) (hnone : o = none → o' = none) :
    o = o' := by
  cases o with
  | none => exact (hnone rfl).symm
  | some x => exact (hsome rfl).symm

/-- A pool is read alike after growth, if it has not newly come. -/
theorem poolKey_eq_of_grows {db db' : Db} {k : ID} (hg : db.Grows db') (h : db.poolOf k = none → db'.poolOf k = none) :
    db.poolKey k = db'.poolKey k :=
  eq_of_grows hg.pools (by rwa [Db.poolKey_eq_none, Db.poolKey_eq_none])

theorem docKey_eq_of_grows {db db' : Db} {k : ID} (hg : db.Grows db') (h : db.docOf k = none → db'.docOf k = none) :
    db.docKey k = db'.docKey k :=
  eq_of_grows hg.docs (by rwa [Db.docKey_eq_none, Db.docKey_eq_none])

/-- The first elements of a pair. -/
theorem prefix_pair {α : Type} {l : List α} {a b : α} (h : l <+: [a, b]) : l = [] ∨ l = [a] ∨ l = [a, b] := by
  rcases l with _ | ⟨x, _ | ⟨y, l⟩⟩ <;> simp_all [List.cons_prefix_cons]

/-- A document is found exactly when a row has its object id. -/
theorem docOf_ne_none {db : Db} {docId : ID} :
    db.docOf docId ≠ none ↔ Rows.has DocumentRow.suiObjectId docId db.documents = true := by
  rw [ne_eq, docOf_eq_none, Bool.not_eq_false]

/-- The document that is new in the first and there in the second: its first version is there too. -/
theorem pending_documentCreated {db db' : Db} {row : DocumentRow} {version : VersionRow} {audit : AuditRow} {done : List Stmt}
    (hnew : db.docOf row.suiObjectId = none) (hold : db'.docOf row.suiObjectId ≠ none)
    (hp : done <+: [.insertDocument row, .insertVersion version, .insertAudit audit])
    (hd : ∀ s ∈ done, s.isInsert = true → s.settled db' = true)
    (hcut : done = [.insertDocument row, .insertVersion version, .insertAudit audit] ∨ db' = actAll db done)
    (hfirst : ∀ row, done = [.insertDocument row] → db.docOf row.suiObjectId ≠ none) (row' : DocumentRow)
    (hrow : row'.suiObjectId = row.suiObjectId) :
    pending db' [.insertDocument row', .insertAudit audit] =
      pending db' [.insertDocument row, .insertVersion version, .insertAudit audit] := by
  have hdoc : Stmt.settled db' (.insertDocument row) = true := docOf_ne_none.1 hold
  have hdoc' : Stmt.settled db' (.insertDocument row') = true := by rwa [Stmt.settled, hrow]
  have hver : Stmt.settled db' (.insertVersion version) = true := by
    refine hd _ ?_ rfl
    rcases done with _ | ⟨s, _ | ⟨t, done⟩⟩
    · obtain h | rfl := hcut
      · cases h
      · exact absurd hnew hold
    · rw [List.cons_prefix_cons] at hp
      exact absurd hnew (hfirst row (by rw [hp.1]))
    · rw [List.cons_prefix_cons, List.cons_prefix_cons] at hp
      simp [hp.2.1]
  rw [pending_cons_of_settled hdoc', pending_cons_of_settled hdoc, pending_cons_of_settled hver]

/-- The statements of an event that `done` has been issued of, seen from the tables `db'` that were reached: up to inserts of rows that
are there, they are the statements that the event had in `db`. -/
theorem pending_stmtsOf {db db' : Db} {ctx : EventId} {e : Event} {done : List Stmt} (hg : db.Grows db')
    (hu : StaysUnknown db db' e) (hp : done <+: stmtsOf ctx db e) (hd : ∀ s ∈ done, s.isInsert = true → s.settled db' = true)
    (hcut : done = stmtsOf ctx db e ∨ db' = actAll db done)
    (hfirst : ∀ row, done = [.insertDocument row] → db.docOf row.suiObjectId ≠ none) :
    pending db' (stmtsOf ctx db' e) = pending db' (stmtsOf ctx db e) := by
  have agreed : Agrees db db' e → pending db' (stmtsOf ctx db' e) = pending db' (stmtsOf ctx db e) := fun h => by
    rw [stmtsOf_of_agrees h]
  cases e with
  | dataRoomCreated poolId room owner t =>
    obtain rfl | rfl := hcut
    · -- Both inserts have been made, so none counts.
      simp only [stmtsOf, List.forall_mem_cons] at hd
      obtain ⟨h1, h2, -⟩ := hd
      rw [@pending_eq_nil _ (stmtsOf ..), pending_eq_nil]
      · exact List.forall_mem_cons.2 ⟨h1 rfl, List.forall_mem_singleton.2 (h2 rfl)⟩
      · exact List.forall_mem_cons.2 ⟨h1 rfl, List.forall_mem_singleton.2 (h2 rfl)⟩
    · -- What has been made is no pool.
      refine agreed ?_
      obtain rfl | rfl | rfl := prefix_pair hp <;> rfl
  | auditEvent poolId actor actionType targetId t metadataHash =>
    obtain rfl | rfl := hcut
    · simp only [stmtsOf, List.forall_mem_singleton] at hd
      rw [@pending_eq_nil _ (stmtsOf ..), pending_eq_nil]
      · exact List.forall_mem_singleton.2 (hd rfl)
      · exact List.forall_mem_singleton.2 (hd rfl)
    · refine agreed ?_
      rcases done with _ | ⟨s, _ | ⟨s', done⟩⟩ <;> simp [stmtsOf, List.cons_prefix_cons] at hp
      · rfl
      · subst hp
        rfl
  | icDecisionCreated => exact agreed (poolKey_eq_of_grows hg hu)
  | memberAdded | memberRemoved | memberRoleUpdated => exact agreed (eq_of_grows hg.rooms hu)
  | documentVersionAdded | documentReviewed => exact agreed (docKey_eq_of_grows hg hu)
  | documentCreated poolId docId folderId docType title version blobId hash uploader t =>
    obtain ⟨hup, hur⟩ := hu
    have hpk := poolKey_eq_of_grows hg hup
    cases hpool : db.poolOf poolId with
    | none => exact agreed ⟨hpk, fun id scheme h => by simp [Db.poolKey, hpool] at h⟩
    | some pool =>
      obtain ⟨pool', hpool', hid, -⟩ : ∃ pool', db'.poolOf poolId = some pool' ∧ pool'.id = pool.id ∧
          pool'.encryptionScheme = pool.encryptionScheme := by
        rw [Db.poolKey, Db.poolKey, hpool, Option.map_some, eq_comm, Option.map_eq_some_iff] at hpk
        simpa using hpk
      have hroom : db.roomOfPool pool.id = db'.roomOfPool pool.id := eq_of_grows hg.roomsOfPool (hur pool hpool)
      cases hr : db.roomOfPool pool.id with
      | none =>
        rw [hr] at hroom
        simp only [stmtsOf, hpool, hpool', hid, hr, ← hroom]
      | some room =>
        by_cases hdoc : db.docOf docId = none ↔ db'.docOf docId = none
        · refine agreed ⟨hpk, fun id scheme h => ?_⟩
          rw [Db.poolKey, hpool, Option.map_some, Option.some.injEq, Prod.mk.injEq] at h
          exact ⟨h.1 ▸ hroom, hdoc⟩
        · have hnew : db.docOf docId = none := by
            by_contra hn
            obtain ⟨x, hx⟩ := Option.ne_none_iff_exists'.1 fun h => hn (Db.docKey_eq_none.1 h)
            exact hdoc (iff_of_false hn fun h => by simpa [Db.docKey_eq_none.2 h] using hg.docs hx)
          have hold : db'.docOf docId ≠ none := fun h => hdoc (iff_of_true hnew h)
          rw [hr] at hroom
          simp only [stmtsOf, hpool, hr, hnew, if_true, List.singleton_append] at hp hcut
          simp only [stmtsOf, hpool, hpool', hid, hr, ← hroom, hnew, hold, if_true, if_false, List.nil_append,
            List.singleton_append]
          exact @pending_documentCreated _ _ (documentRow pool room docId folderId docType title version) _ _ _ hnew hold hp hd
            hcut hfirst _ rfl
  | _ => rfl

/-! ## The statements again -/

/-- The operation of a statement on the pools, where it has one. -/
def Stmt.poolOp : Stmt → Option (Rows.Op PoolRow ID)
  | .insertPool row => some (.insert row)
  | .updatePoolState k state digest => some (.update k (setState state digest))
  | _ => none

/-- The operation of a statement on the members. -/
def Stmt.memberOp : Stmt → Option (Rows.Op MemberRow (Uuid × Address))
  | .upsertMember row => some (.upsert row (setMember row.role row.addedByAddress))
  | .deactivateMember room a => some (.update (room, a) fun r => { r with isActive := false })
  | .updateMemberRole room a role => some (.update (room, a) fun r => { r with role })
  | _ => none

/-- The operation of a statement on the reviews. -/
def Stmt.reviewOp : Stmt → Option (Rows.Op ReviewRow (Uuid × Address))
  | .upsertReview row => some (.upsert row fun r => { r with status := row.status })
  | _ => none

/-- The pools after statements are those after their operations on pools. -/
theorem pools_actAll (db : Db) (ss : List Stmt) :
    (actAll db ss).pools = Rows.applyAll PoolRow.suiObjectId (ss.filterMap Stmt.poolOp) db.pools := by
  induction ss generalizing db with
  | nil => rfl
  | cons s ss ih => cases s <;> exact ih _

theorem members_actAll_eq (db : Db) (ss : List Stmt) :
    (actAll db ss).members = Rows.applyAll MemberRow.key (ss.filterMap Stmt.memberOp) db.members := by
  induction ss generalizing db with
  | nil => rfl
  | cons s ss ih => cases s <;> exact ih _

theorem reviews_actAll (db : Db) (ss : List Stmt) :
    (actAll db ss).documentReviews = Rows.applyAll ReviewRow.key (ss.filterMap Stmt.reviewOp) db.documentReviews := by
  induction ss generalizing db with
  | nil => rfl
  | cons s ss ih => cases s <;> exact ih _

/-- The updates of a pool. -/
inductive PoolUpdate : (PoolRow → PoolRow) → Prop where
  | state (state : UInt8) (digest : Nat) : PoolUpdate (Stmt.setState state digest)

/-- The updates of a member. -/
inductive MemberUpdate : (MemberRow → MemberRow) → Prop where
  | set (role : UInt8) (addedBy : Address) : MemberUpdate (Stmt.setMember role addedBy)
  | deactivate : MemberUpdate fun r => { r with isActive := false }
  | role (role : UInt8) : MemberUpdate fun r => { r with role }

/-- The updates of a review. -/
inductive ReviewUpdate : (ReviewRow → ReviewRow) → Prop where
  | status (status : UInt8) : ReviewUpdate fun r => { r with status }

/-- The updates of a pool assign: they keep the key, and the last one counts. -/
theorem poolUpdate_assignments : Rows.Assignments PoolRow.suiObjectId PoolUpdate where
  key := by rintro _ ⟨⟩ r; rfl
  again := by rintro _ ⟨⟩ r; rfl
  after := by rintro _ _ ⟨⟩ ⟨⟩ r; rfl

theorem memberUpdate_assignments : Rows.Assignments MemberRow.key MemberUpdate where
  key := by rintro _ ⟨⟩ r <;> rfl
  again := by rintro _ ⟨⟩ r <;> rfl
  after := by rintro _ _ ⟨⟩ ⟨⟩ r <;> rfl

theorem reviewUpdate_assignments : Rows.Assignments ReviewRow.key ReviewUpdate where
  key := by rintro _ ⟨⟩ r; rfl
  again := by rintro _ ⟨⟩ r; rfl
  after := by rintro _ _ ⟨⟩ ⟨⟩ r; rfl

/-- A member that is inserted is active. -/
def InsertsActive (ss : List Stmt) : Prop := ∀ row, .upsertMember row ∈ ss → row.isActive = true

/-- Where inserted members are active, an insert leaves the row as its update would. -/
theorem tidy_members {ss : List Stmt} (h : InsertsActive ss) (rows : List MemberRow) :
    Rows.Tidy MemberRow.key MemberUpdate rows (ss.filterMap Stmt.memberOp) := by
  intro before op after he
  obtain ⟨s, hs, hop⟩ := List.mem_filterMap.1 (he ▸ List.mem_append_right before (List.mem_cons_self ..))
  cases s with
  | upsertMember row =>
    cases hop
    refine ⟨.set _ _, ?_, ?_⟩
    · rw [Stmt.setMember, ← h row hs]
    · rintro _ ⟨⟩ x <;> rfl
  | deactivateMember =>
    cases hop
    exact .deactivate
  | updateMemberRole =>
    cases hop
    exact .role _
  | _ => cases hop

/-- For reviews that is always so. -/
theorem tidy_reviews (ss : List Stmt) (rows : List ReviewRow) :
    Rows.Tidy ReviewRow.key ReviewUpdate rows (ss.filterMap Stmt.reviewOp) := by
  intro before op after he
  obtain ⟨s, -, hop⟩ := List.mem_filterMap.1 (he ▸ List.mem_append_right before (List.mem_cons_self ..))
  cases s with
  | upsertReview row =>
    cases hop
    refine ⟨.status _, rfl, ?_⟩
    rintro _ ⟨⟩ x
    rfl
  | _ => cases hop

/-- No change of a pool's state comes before the insert that creates its row. -/
def StatesTidy (db : Db) (ss : List Stmt) : Prop :=
  ∀ before row after, ss = before ++ .insertPool row :: after → (actAll db before).poolOf row.suiObjectId = none →
    ∀ state digest, .updatePoolState row.suiObjectId state digest ∉ before

/-- For pools it is, where no state is changed before the insert. -/
theorem tidy_pools {db : Db} {ss : List Stmt} (h : StatesTidy db ss) :
    Rows.Tidy PoolRow.suiObjectId PoolUpdate db.pools (ss.filterMap Stmt.poolOp) := by
  intro before op after he
  obtain ⟨ss₁, ss₂, rfl, rfl, he₂⟩ := List.filterMap_eq_append_iff.1 he
  obtain ⟨ss₃, s, ss₄, rfl, hnone, hop, -⟩ := List.filterMap_eq_cons_iff.1 he₂
  cases s with
  | insertPool row =>
    cases hop
    intro hnew x
    have hsame : (ss₁ ++ ss₃).filterMap Stmt.poolOp = ss₁.filterMap Stmt.poolOp := by
      rw [List.filterMap_append, List.filterMap_eq_nil_iff.2 hnone, List.append_nil]
    have hno := h (ss₁ ++ ss₃) row ss₄ (by simp) (by
      rw [Db.poolOf, pools_actAll, hsame, Rows.find_eq_none_iff]
      exact Rows.has_eq_false_iff.1 hnew)
    refine Rows.effect_eq_self fun op hop => ?_
    obtain ⟨s, hs, hsop⟩ := List.mem_filterMap.1 hop
    cases s with
    | insertPool =>
      cases hsop
      rfl
    | updatePoolState k state digest =>
      cases hsop
      refine if_neg fun hk => ?_
      exact hno state digest (hk ▸ List.mem_append_left _ hs)
    | _ => cases hsop
  | updatePoolState =>
    cases hop
    exact .state _ _
  | _ => cases hop

/-- The tables that no update reaches, when no version counter is incremented. -/
def Db.insertOnly (db : Db) :
    List Uuid × List DataroomRow × List DocumentRow × List VersionRow × List IcDecisionRow × List AuditRow × (MoveString → Nat) :=
  (db.organizations, db.datarooms, db.documents, db.documentVersions, db.icDecisions, db.auditEvents, db.blobEntrySize)

/-- Tables are the same if each of them is. -/
theorem Db.eq_of_tables {a b : Db} (h : a.insertOnly = b.insertOnly) (hp : a.pools = b.pools) (hm : a.members = b.members)
    (hr : a.documentReviews = b.documentReviews) : a = b := by
  cases a
  cases b
  simp only [insertOnly, Prod.mk.injEq] at h
  simp_all

/-- Statements whose inserts are of rows that are there, and that increment no version counter, leave the other tables alone. -/
theorem insertOnly_actAll {db db' : Db} (hc : Covers db db') {ss : List Stmt}
    (hs : ∀ s ∈ ss, s.isInsert = true → s.settled db' = true) (hv : ∀ k v, .updateVersionInfo k v ∉ ss) :
    (actAll db ss).insertOnly = db.insertOnly := by
  induction ss generalizing db with
  | nil => rfl
  | cons s ss ih =>
    have hrest := ih (fun t ht => Stmt.settled_act s (hc t ht)) (fun t ht => hs t (List.mem_cons_of_mem s ht))
      fun k v hm => hv k v (List.mem_cons_of_mem s hm)
    refine hrest.trans ?_
    have hset : s.isInsert = true → Stmt.act db s = db := fun hi =>
      Stmt.act_of_settled (hc s (hs s (List.mem_cons_self ..) hi))
    cases s with
    | updateVersionInfo k v => exact absurd (List.mem_cons_self ..) (hv k v)
    | insertPool | insertDataroom | insertDocument | insertVersion | insertIcDecision | insertAudit =>
      exact congrArg Db.insertOnly (hset rfl)
    | _ => rfl

/-- After statements have been issued, every row they insert is there. -/
theorem settled_of_mem {db : Db} {ss : List Stmt} : ∀ s ∈ ss, s.isInsert = true → s.settled (actAll db ss) = true := by
  intro s hs hi
  obtain ⟨before, after, rfl⟩ := List.append_of_mem hs
  rw [Statements.actAll_append]
  exact Stmt.settled_actAll after (Stmt.settled_act_self hi)

/-- Statements that are issued again, without an increment, change nothing. -/
theorem actAll_again {db : Db} {ss : List Stmt} (hv : ∀ k v, .updateVersionInfo k v ∉ ss) (ha : InsertsActive ss)
    (hp : StatesTidy db ss) : actAll (actAll db ss) ss = actAll db ss := by
  refine Db.eq_of_tables (insertOnly_actAll (fun _ h => h) settled_of_mem hv) ?_ ?_ ?_
  · simp only [pools_actAll]
    exact Rows.applyAll_again poolUpdate_assignments (tidy_pools hp)
  · simp only [members_actAll_eq]
    exact Rows.applyAll_again memberUpdate_assignments (tidy_members ha _)
  · simp only [reviews_actAll]
    exact Rows.applyAll_again reviewUpdate_assignments (tidy_reviews ss _)

end BrineVault
