import BrineVault.Contract.Emitted
import BrineVault.Indexer.Effects

/-!
# Batches that never get through

Which streams the indexer processes to the end, from tables that keep the schema. A batch that throws is polled again for ever, so one
event that the tables do not accept stops the indexer.
-/

namespace BrineVault

open Script (Follows follows_pure)

/-! ## Cutting a stream into batches -/

/-- Batches in order, up to the first that throws. -/
def processBatches : List (List SuiEvent) → DbM Unit
  | [] => return ()
  | batch :: batches => do
    processBatch batch
    processBatches batches

/-- No cut of the stream has a batch that throws. -/
def NeverThrows (stream : List SuiEvent) (db : Db) : Prop :=
  ∀ batches : List (List SuiEvent), batches.flatten = stream → (processBatches batches db).2 = .ok ()

/-- The indexer after turns with pages of the given sizes, from the start of the stream. -/
def turns (stream : List SuiEvent) (db : Db) (pageSizes : List Nat) : IndexerState :=
  pageSizes.foldl (turn stream) { db, cursor := 0 }

/-- Whatever pages have been polled, the next turn moves the cursor past its page. -/
def AlwaysAdvances (stream : List SuiEvent) (db : Db) : Prop :=
  ∀ (pageSizes : List Nat) (n : Nat),
    (turn stream (turns stream db pageSizes) n).cursor =
      (turns stream db pageSizes).cursor + ((stream.drop (turns stream db pageSizes).cursor).take n).length

/-- Batches in turn are the events of all of them. -/
theorem processBatches_follows (batches : List (List SuiEvent)) (db : Db) :
    Follows (processBatches batches) db (AcceptsAll db batches.flatten) (stmtsOfAll db batches.flatten) () := by
  induction batches generalizing db with
  | nil => exact follows_pure () db
  | cons batch batches ih =>
    rw [List.flatten_cons, stmtsOfAll_append]
    refine ((processBatch_follows batch db).bind fun _ => ?_).congr acceptsAll_append.symm
    rw [actAll_stmtsOfAll]
    exact ih _

/-- A turn whose page is accepted processes it and moves past it. -/
theorem turn_of_acceptsAll {stream : List SuiEvent} {st : IndexerState} {n : Nat}
    (h : AcceptsAll st.db ((stream.drop st.cursor).take n)) :
    turn stream st n =
      { db := afterEvents st.db ((stream.drop st.cursor).take n),
        cursor := st.cursor + ((stream.drop st.cursor).take n).length } := by
  simp only [turn, (processBatch_follows _ _).ok h, actAll_stmtsOfAll]

/-- The pages of a stream that is accepted are accepted, whatever the pages before were. -/
theorem turns_of_acceptsAll {stream : List SuiEvent} {db : Db} (h : AcceptsAll db stream) (pageSizes : List Nat) :
    ∃ past rest, stream = past ++ rest ∧
      turns stream db pageSizes = { db := afterEvents db past, cursor := past.length } := by
  unfold turns
  induction pageSizes using List.reverseRecOn with
  | nil => exact ⟨[], stream, rfl, rfl⟩
  | append_singleton sizes n ih =>
    obtain ⟨past, rest, hs, hst⟩ := ih
    rw [List.foldl_append, hst, List.foldl_cons, List.foldl_nil]
    have hdrop : stream.drop past.length = rest := by rw [hs, List.drop_left]
    have hsplit : stream = (past ++ rest.take n) ++ rest.drop n := by
      rw [List.append_assoc, List.take_append_drop, hs]
    have ha := (acceptsAll_append.1 (acceptsAll_append.1 (hsplit ▸ h)).1).2
    refine ⟨past ++ rest.take n, rest.drop n, hsplit, ?_⟩
    rw [turn_of_acceptsAll (by simpa only [hdrop] using ha), hdrop, afterEvents_append, List.length_append]

/-- The indexer gets through every cut of a stream, and past every page of it, exactly where its events are accepted in turn. -/
theorem progress_iff_acceptsAll {stream : List SuiEvent} {db : Db} :
    NeverThrows stream db ∧ AlwaysAdvances stream db ↔ AcceptsAll db stream := by
  constructor
  · rintro ⟨h, -⟩
    simpa using (processBatches_follows _ _).returns_iff.1 (h [stream] (by simp))
  · intro h
    refine ⟨fun batches hb => (processBatches_follows _ _).returns_iff.2 (hb ▸ h), ?_⟩
    intro sizes n
    obtain ⟨past, rest, hs, hst⟩ := turns_of_acceptsAll h sizes
    have hdrop : stream.drop past.length = rest := by rw [hs, List.drop_left]
    have ha : AcceptsAll (afterEvents db past) (rest.take n) := by
      have := (acceptsAll_append.1 (hs ▸ h)).2
      rw [← List.take_append_drop n rest] at this
      exact (acceptsAll_append.1 this).1
    rw [hst, turn_of_acceptsAll (by simpa only [hdrop] using ha)]

/-! ## The schema -/

namespace Db

/-- What the schema promises of tables that the indexer starts from, with the organisation of the sentinel and without a pool under
its id: the references of rooms and documents to their pool, and the check on the scheme of a pool. -/
structure Schema (db : Db) : Prop where
  sentinel : .zero ∈ db.organizations
  noZeroPool : db.hasPoolId .zero = false
  scheme : ∀ r ∈ db.pools, r.encryptionScheme ≤ 1
  dataroomsPool : ∀ r ∈ db.datarooms, db.hasPoolId r.poolId = true
  documentsPool : ∀ r ∈ db.documents, db.hasPoolId r.poolId = true

/-- What a statement has to bring so that the schema stays. -/
def Keeps (db : Db) : Stmt → Prop
  | .insertPool row => row.id ≠ .zero ∧ row.encryptionScheme ≤ 1
  | .insertDataroom row =>
    Rows.has DataroomRow.suiObjectId row.suiObjectId db.datarooms = false → db.hasPoolId row.poolId = true
  | .insertDocument row => db.hasPoolId row.poolId = true
  | _ => True

/-- A pool is there for a foreign key exactly when a row has its id. -/
theorem hasPoolId_iff {db : Db} {id : Uuid} : db.hasPoolId id = true ↔ ∃ r ∈ db.pools, r.id = id := by
  simp [hasPoolId]

/-- An insert leaves the pools that are there. -/
theorem hasPoolId_insertPool {db : Db} {row : PoolRow} {id : Uuid} (h : db.hasPoolId id = true) :
    (Stmt.act db (.insertPool row)).hasPoolId id = true := by
  rw [hasPoolId_iff] at h ⊢
  obtain ⟨r, hr, hid⟩ := h
  exact ⟨r, Rows.subset_insertNew _ hr, hid⟩

/-- A change of state adds and removes no pool. -/
theorem hasPoolId_updatePoolState {db : Db} {k : ID} {state : UInt8} {digest : Nat} (id : Uuid) :
    (Stmt.act db (.updatePoolState k state digest)).hasPoolId id = db.hasPoolId id := by
  simp only [hasPoolId, Stmt.act, Rows.updateAt, List.any_map]
  congr 1
  funext r
  simp only [Function.comp_apply]
  split <;> rfl

/-- A statement that keeps the schema keeps it. -/
theorem Schema.act {db : Db} {stmt : Stmt} (h : Schema db) (hk : db.Keeps stmt) : Schema (Stmt.act db stmt) := by
  cases stmt with
  | insertPool row =>
    refine ⟨h.sentinel, ?_, ?_, fun r hr => hasPoolId_insertPool (h.dataroomsPool r hr),
      fun r hr => hasPoolId_insertPool (h.documentsPool r hr)⟩
    · rw [← Bool.not_eq_true, hasPoolId_iff]
      rintro ⟨r, hr, hid⟩
      obtain hr | rfl := Rows.mem_insertNew hr
      · have := hasPoolId_iff.2 ⟨r, hr, hid⟩
        rw [h.noZeroPool] at this
        cases this
      · exact hk.1 hid
    · intro r hr
      obtain hr | rfl := Rows.mem_insertNew hr
      · exact h.scheme r hr
      · exact hk.2
  | updatePoolState k state digest =>
    refine ⟨h.sentinel, (hasPoolId_updatePoolState _).trans h.noZeroPool, ?_,
      fun r hr => (hasPoolId_updatePoolState _).trans (h.dataroomsPool r hr),
      fun r hr => (hasPoolId_updatePoolState _).trans (h.documentsPool r hr)⟩
    intro r hr
    obtain ⟨r₀, hr₀, rfl⟩ := List.mem_map.1 hr
    have := h.scheme r₀ hr₀
    split <;> exact this
  | insertDataroom row =>
    refine ⟨h.sentinel, h.noZeroPool, h.scheme, fun r hr => ?_, h.documentsPool⟩
    by_cases hh : Rows.has DataroomRow.suiObjectId row.suiObjectId db.datarooms = true
    · rw [Stmt.act, Rows.insertNew, if_pos hh] at hr
      exact h.dataroomsPool r hr
    · obtain hr | rfl := Rows.mem_insertNew hr
      · exact h.dataroomsPool r hr
      · exact hk (Bool.eq_false_iff.2 hh)
  | insertDocument row =>
    refine ⟨h.sentinel, h.noZeroPool, h.scheme, h.dataroomsPool, fun r hr => ?_⟩
    obtain hr | rfl := Rows.mem_insertNew hr
    · exact h.documentsPool r hr
    · exact hk
  | updateVersionInfo k version =>
    refine ⟨h.sentinel, h.noZeroPool, h.scheme, h.dataroomsPool, fun r hr => ?_⟩
    obtain ⟨r₀, hr₀, rfl⟩ := List.mem_map.1 hr
    have := h.documentsPool r₀ hr₀
    split <;> exact this
  | upsertMember | deactivateMember | updateMemberRole | insertVersion | upsertReview | insertIcDecision | insertAudit =>
    exact ⟨h.sentinel, h.noZeroPool, h.scheme, h.dataroomsPool, h.documentsPool⟩

/-- Each of several statements brings what the schema asks for. -/
def KeepsAll (db : Db) : List Stmt → Prop
  | [] => True
  | stmt :: stmts => db.Keeps stmt ∧ KeepsAll (Stmt.act db stmt) stmts

theorem Schema.actAll {db : Db} {stmts : List Stmt} (h : Schema db) (hk : db.KeepsAll stmts) :
    Schema (Statements.actAll db stmts) := by
  induction stmts generalizing db with
  | nil => exact h
  | cons stmt stmts ih => exact ih (h.act hk.1) hk.2

end Db

/-! ## The streams of the package -/

/-- The texts and the numbers of an event fit the columns they are written to, and a blob id its index, where the tables make it write
them. -/
def Fits (db : Db) : Event → Prop
  | .poolCreated _ name _ _ _ _ => 0 ∉ name
  | .documentCreated poolId docId folderId _ title version blobId _ _ _ =>
    ∀ pool ∈ db.poolOf poolId, ∀ _r ∈ db.roomOfPool pool.id,
      inBigint folderId ∧ 0 ∉ title ∧ (db.docOf docId = none → 0 ∉ blobId ∧ BlobFits db (.document docId) version blobId)
  | .documentVersionAdded _ docId version blobId _ _ _ => ∀ doc ∈ db.docOf docId,
    inInteger version ∧ 0 ∉ blobId ∧ BlobFits db doc.id version blobId ∧ ∀ r ∈ db.documents, r.suiObjectId = docId → inInteger (r.versionCount + 1)
  | .icDecisionCreated poolId index _ _ _ => ∀ _pool ∈ db.poolOf poolId, inInteger index
  | _ => True

/-- A data room that is announced is known to the tables, or its pool is. -/
def Resolves (db : Db) : Event → Prop
  | .dataRoomCreated poolId room _ _ =>
    Rows.has PoolRow.suiObjectId poolId db.pools = true ∨ Rows.has DataroomRow.suiObjectId room db.datarooms = true
  | _ => True

/-- Tables that keep the schema accept an event of the package exactly where it fits them and resolves. -/
theorem accepts_iff {ctx : EventId} {db : Db} {e : Event} (hs : db.Schema) (hv : e.Valid) :
    Accepts ctx db e ↔ Fits db e ∧ Resolves db e := by
  have room : ∀ {k r}, db.roomOf k = some r → db.hasPoolId r.poolId = true := fun h =>
    hs.dataroomsPool _ (Rows.find_some h).1
  have doc : ∀ {k r}, db.docOf k = some r → db.hasPoolId r.poolId = true := fun h =>
    hs.documentsPool _ (Rows.find_some h).1
  cases e with
  | poolCreated poolId name org createdBy scheme t =>
    simp only [Accepts, Fits, Resolves, and_true]
    exact and_iff_left ⟨hv, fun _ => hs.sentinel⟩
  | poolStateChanged poolId fromState toState actor t =>
    simp only [Accepts, Fits, Resolves, and_true, iff_true]
    exact fun _ => hv
  | dataRoomCreated poolId dataroomId owner t =>
    simp only [Accepts, Fits, Resolves, true_and]
    rw [@Rows.has_eq_isSome_find _ _ _ PoolRow.suiObjectId]
    cases hp : db.poolOf poolId with
    | none =>
      rw [Db.poolOf] at hp
      simp [hp, hs.noZeroPool]
    | some r =>
      have hp' := hp
      rw [Db.poolOf] at hp'
      simp [hp', Db.hasPoolId_of_poolOf hp]
  | memberAdded dataroomId member role addedBy t =>
    simp only [Accepts, Fits, Resolves, and_true, iff_true]
    exact fun r hr => ⟨hv, .inr (room hr), auditOk_of_hasPoolId (room hr)⟩
  | memberRemoved dataroomId member removedBy t =>
    simp only [Accepts, Fits, Resolves, and_true, iff_true]
    exact fun r hr => auditOk_of_hasPoolId (room hr)
  | memberRoleUpdated dataroomId member oldRole newRole actor t =>
    simp only [Accepts, Fits, Resolves, and_true, iff_true]
    exact fun r hr => ⟨fun _ => hv, auditOk_of_hasPoolId (room hr)⟩
  | documentCreated poolId docId folderId docType title version blobId contentHash uploader t =>
    simp only [Accepts, Fits, Resolves, and_true]
    refine forall₂_congr fun pool hp => forall₂_congr fun r _ => ?_
    have h1 : inInteger version ∧ 0 < version := by rw [hv]; decide
    have h2 := hs.scheme pool (Rows.find_some hp).1
    simp only [h1.1, h1.2, h2, true_and]
  | documentVersionAdded poolId docId version blobId contentHash uploader t =>
    simp only [Accepts, Fits, Resolves, and_true]
    refine forall₂_congr fun d hd => ?_
    have h1 : 0 < version := hv
    simp only [h1, true_and, auditOk_of_hasPoolId (doc hd), and_true]
  | documentReviewed poolId docId reviewer status t =>
    simp only [Accepts, Fits, Resolves, and_true, iff_true]
    exact fun d hd => ⟨hv, auditOk_of_hasPoolId (doc hd)⟩
  | icDecisionCreated poolId index decisionType createdBy t =>
    simp only [Accepts, Fits, Resolves, and_true]
  | _ => simp only [Accepts, Fits, Resolves, and_true]

/-- Each statement of an event that is accepted brings what the schema asks for. -/
theorem keepsAll_stmtsOf {db : Db} {e : SuiEvent} (hv : e.event.Valid) (ha : Accepts e.id db e.event) :
    db.KeepsAll (stmtsOf e.id db e.event) := by
  obtain ⟨ctx, e⟩ := e
  cases e with
  | poolCreated => exact ⟨⟨by simp, hv⟩, trivial, trivial⟩
  | poolStateChanged => exact ⟨trivial, trivial, trivial⟩
  | dataRoomCreated => exact ⟨ha, trivial, trivial⟩
  | memberAdded dataroomId | memberRemoved dataroomId | memberRoleUpdated dataroomId =>
    simp only [stmtsOf]
    cases db.roomOf dataroomId with
    | none => trivial
    | some r => exact ⟨trivial, trivial, trivial⟩
  | documentCreated poolId docId =>
    simp only [stmtsOf]
    cases hp : db.poolOf poolId with
    | none => trivial
    | some pool =>
      dsimp only
      cases db.roomOfPool pool.id with
      | none => trivial
      | some room =>
        refine ⟨Db.hasPoolId_of_poolOf hp, ?_⟩
        split
        · exact ⟨trivial, trivial, trivial⟩
        · exact ⟨trivial, trivial⟩
  | documentVersionAdded poolId docId =>
    simp only [stmtsOf]
    cases db.docOf docId with
    | none => trivial
    | some doc => exact ⟨trivial, trivial, trivial, trivial⟩
  | documentReviewed poolId docId =>
    simp only [stmtsOf]
    cases db.docOf docId with
    | none => trivial
    | some doc => exact ⟨trivial, trivial, trivial⟩
  | icDecisionCreated poolId =>
    simp only [stmtsOf]
    cases db.poolOf poolId with
    | none => trivial
    | some pool => exact ⟨trivial, trivial, trivial⟩
  | auditEvent => exact ⟨trivial, trivial⟩
  | _ => trivial

/-- An event of the package that is accepted keeps the schema. -/
theorem Db.Schema.afterEvent {db : Db} {e : SuiEvent} (hs : db.Schema) (hv : e.event.Valid)
    (ha : Accepts e.id db e.event) : (afterEvent db e).Schema :=
  hs.actAll (keepsAll_stmtsOf hv ha)

/-- Accepted events of the package keep the schema. -/
theorem Db.Schema.afterEvents {db : Db} {es : List SuiEvent} (hs : db.Schema) (hv : ∀ e ∈ es, e.event.Valid)
    (ha : AcceptsAll db es) : (afterEvents db es).Schema := by
  induction es generalizing db with
  | nil => exact hs
  | cons e es ih =>
    exact ih (hs.afterEvent (hv e (List.mem_cons_self ..)) ha.1) (fun f hf => hv f (List.mem_cons_of_mem _ hf)) ha.2

/-- Valid events are accepted in turn exactly where each fits and resolves in the tables it meets. -/
theorem acceptsAll_iff_fits {db : Db} {es : List SuiEvent} (hs : db.Schema) (hv : ∀ e ∈ es, e.event.Valid) :
    AcceptsAll db es ↔
      ∀ past e rest, es = past ++ e :: rest → Fits (afterEvents db past) e.event ∧ Resolves (afterEvents db past) e.event := by
  induction es generalizing db with
  | nil => simp [AcceptsAll]
  | cons e es ih =>
    have hve := hv e (List.mem_cons_self ..)
    have hves := fun f hf => hv f (List.mem_cons_of_mem e hf)
    rw [AcceptsAll]
    constructor
    · rintro ⟨ha, has⟩ past f rest he
      have hrest := (ih (hs.afterEvent hve ha) hves).1 has
      cases past with
      | nil =>
        cases he
        exact (accepts_iff hs hve).1 ha
      | cons g past =>
        rw [List.cons_append, List.cons.injEq] at he
        obtain ⟨rfl, he⟩ := he
        exact hrest past f rest he
    · intro h
      have ha := (@accepts_iff e.id _ _ hs hve).2 (h [] e es rfl)
      exact ⟨ha, (ih (hs.afterEvent hve ha) hves).2 fun past f rest he => h (e :: past) f rest (by rw [he]; rfl)⟩

/-! ### Which pools and rooms the tables know -/

/-- The event announces the pool. -/
def Event.announcesPool (k : ID) : Event → Bool
  | .poolCreated poolId _ _ _ _ _ => poolId = k
  | _ => false

/-- The event announces the data room. -/
def Event.announcesRoom (k : ID) : Event → Bool
  | .dataRoomCreated _ room _ _ => room = k
  | _ => false

/-- What comes before the announcement of a room announces neither the room nor its pool. -/
theorem Event.Before.not_announces {a : Event} {poolId room : ID} {owner : Address} {t : Nat}
    (h : a.Before (.dataRoomCreated poolId room owner t)) :
    a.announcesPool poolId = false ∧ a.announcesRoom room = false := by
  cases a with
  | poolCreated => exact ⟨decide_eq_false h, rfl⟩
  | dataRoomCreated => exact ⟨rfl, decide_eq_false h⟩
  | _ => exact ⟨rfl, rfl⟩

/-- A pool has a row after an event if it had one, or the event announces it. -/
theorem has_pools_afterEvent (k : ID) (db : Db) (e : SuiEvent) :
    Rows.has PoolRow.suiObjectId k (afterEvent db e).pools =
      (Rows.has PoolRow.suiObjectId k db.pools || e.event.announcesPool k) := by
  obtain ⟨ctx, e⟩ := e
  unfold afterEvent
  cases e with
  | poolCreated => exact Rows.has_insertNew k _ _
  | poolStateChanged poolId fromState toState =>
    exact (Rows.has_updateAt (f := Stmt.setState toState ctx.txDigest) (fun _ => rfl) k _ _).trans (Bool.or_false _).symm
  | _ =>
    simp only [stmtsOf]
    repeat' split
    all_goals exact (Bool.or_false _).symm

/-- And after a list, if it had one or some event announces it. -/
theorem has_pools_afterEvents (k : ID) (db : Db) (es : List SuiEvent) :
    Rows.has PoolRow.suiObjectId k (afterEvents db es).pools =
      (Rows.has PoolRow.suiObjectId k db.pools || es.any fun e => e.event.announcesPool k) := by
  induction es generalizing db with
  | nil => rw [afterEvents_nil, List.any_nil, Bool.or_false]
  | cons e es ih => rw [afterEvents_cons, ih, has_pools_afterEvent, List.any_cons, Bool.or_assoc]

/-- A room has a row after an event if it had one, or the event announces it. -/
theorem has_datarooms_afterEvent (k : ID) (db : Db) (e : SuiEvent) :
    Rows.has DataroomRow.suiObjectId k (afterEvent db e).datarooms =
      (Rows.has DataroomRow.suiObjectId k db.datarooms || e.event.announcesRoom k) := by
  obtain ⟨ctx, e⟩ := e
  unfold afterEvent
  cases e with
  | dataRoomCreated => exact Rows.has_insertNew k _ _
  | _ =>
    simp only [stmtsOf]
    repeat' split
    all_goals exact (Bool.or_false _).symm

/-- And after a list, if it had one or some event announces it. -/
theorem has_datarooms_afterEvents (k : ID) (db : Db) (es : List SuiEvent) :
    Rows.has DataroomRow.suiObjectId k (afterEvents db es).datarooms =
      (Rows.has DataroomRow.suiObjectId k db.datarooms || es.any fun e => e.event.announcesRoom k) := by
  induction es generalizing db with
  | nil => rw [afterEvents_nil, List.any_nil, Bool.or_false]
  | cons e es ih => rw [afterEvents_cons, ih, has_datarooms_afterEvent, List.any_cons, Bool.or_assoc]

/-- Before the announcement of a room, and of its pool, the tables know of the two what they knew at the start. -/
theorem resolves_afterEvents {db : Db} {past : List SuiEvent} {e : Event}
    (ho : ∀ a ∈ past, Event.Before a.event e) : Resolves (afterEvents db past) e ↔ Resolves db e := by
  induction past using List.reverseRecOn with
  | nil => rfl
  | append_singleton past a ih =>
    rw [← ih fun b hb => ho b (by simp [hb]), afterEvents_append, afterEvents_cons, afterEvents_nil]
    have hb := ho a (by simp)
    cases e with
    | dataRoomCreated poolId room owner t =>
      obtain ⟨h1, h2⟩ := hb.not_announces
      rw [Resolves, has_pools_afterEvent, has_datarooms_afterEvent, h1, h2, Bool.or_false, Bool.or_false, Resolves]
    | _ => exact Iff.rfl

/-- What an indexer gets through, of the streams the package emits: from tables that keep the schema, no cut of the log has a batch
that throws and every turn advances, exactly where each data room that is announced, or its pool, has a row before the stream is
processed, and each event fits the columns it is written to when it is processed. -/
theorem World.indexed_iff {publisher : Ctx} {steps : List Step} {w : World} (hr : run publisher steps = .ok w) {db : Db}
    (hs : db.Schema) :
    NeverThrows w.log db ∧ AlwaysAdvances w.log db ↔
      (∀ e ∈ w.events, Resolves db e) ∧
        ∀ past e rest, w.log = past ++ e :: rest → Fits (afterEvents db past) e.event := by
  have hv : ∀ e ∈ w.log, e.event.Valid := fun e he => events_valid hr _ (List.mem_map_of_mem he)
  have ho : ∀ past e rest, w.log = past ++ e :: rest → ∀ a ∈ past, Event.Before a.event e.event := by
    intro past e rest he a ha
    have := (events_ordered hr).1
    rw [events, he, List.map_append, List.pairwise_append] at this
    exact this.2.2 _ (List.mem_map_of_mem ha) _ (by simp)
  rw [progress_iff_acceptsAll, acceptsAll_iff_fits hs hv]
  constructor
  · intro h
    refine ⟨fun e he => ?_, fun past e rest hl => (h past e rest hl).1⟩
    rw [events, List.mem_map] at he
    obtain ⟨e, he, rfl⟩ := he
    obtain ⟨past, rest, hl⟩ := List.append_of_mem he
    exact (resolves_afterEvents (ho past e rest hl)).1 (h past e rest hl).2
  · rintro ⟨hres, hfit⟩ past e rest hl
    refine ⟨hfit past e rest hl, (resolves_afterEvents (ho past e rest hl)).2 (hres _ ?_)⟩
    rw [events, hl]
    simp

/-- The tables with a row for the first pool, and no row for its room. -/
def Sample.withPool : Db :=
  { Db.empty [.zero] with
    pools := [{ id := .given 0, suiObjectId := 2, orgId := .zero, name := [80], currentState := 0, encryptionScheme := 0,
                createdByAddress := 7, suiTxDigest := none }] }

/-- The sample tables with one pool meet the schema. -/
theorem Sample.withPool_schema : Sample.withPool.Schema := by
  constructor <;> decide

/-- The condition at one pool and its first document. -/
theorem World.indexed_iff_withPool :
    ∃ w, run Sample.owner [Sample.createPool, Sample.createDocument] = .ok w ∧
      (NeverThrows w.log Sample.withPool ∧ AlwaysAdvances w.log Sample.withPool ↔
        (∀ e ∈ w.events, Resolves Sample.withPool e) ∧
          ∀ past e rest, w.log = past ++ e :: rest → Fits (afterEvents Sample.withPool past) e.event) := by
  obtain ⟨w, hw⟩ := Move.exists_ok_of_returns (x := run Sample.owner [Sample.createPool, Sample.createDocument]) rfl
  exact ⟨w, hw, indexed_iff hw Sample.withPool_schema⟩

/-- The first pool that is created stops an indexer that starts from empty tables: its room is announced before it. -/
theorem World.first_pool_never_indexed :
    ∃ w, run Sample.owner [Sample.createPool] = .ok w ∧ (Db.empty [.zero]).Schema ∧
      ¬ NeverThrows w.log (Db.empty [.zero]) ∧ ¬ AlwaysAdvances w.log (Db.empty [.zero]) := by
  refine ⟨_, rfl, by constructor <;> decide, fun h => ?_, fun h => ?_⟩
  · exact absurd (h [_] (List.append_nil _)) (by decide +kernel)
  · exact absurd (h [] 1) (by decide +kernel)

end BrineVault
