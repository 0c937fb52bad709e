import BrineVault.Contract.Ledger
import BrineVault.Indexer.Poison

/-!
# The members table against the chain

What the indexer writes of the members of a pool, from tables that hold no rooms and no members. The events that add a member carry the
id of the pool in the field of the room's id, so the lookup of the room finds nothing and the handler writes nothing.
-/

namespace BrineVault

/-- `findActiveByPoolId`. -/
def MembersRepository.findActiveByPoolId (db : Db) (poolId : Uuid) : List MemberRow :=
  db.members.filter fun r => r.poolId = poolId ∧ r.isActive = true

/-- The active rows that are reached from the row of each pool, in the tables that the processing of the log leaves, are the active
members of the pool's room with their roles. -/
def MemberCacheMatches (db : Db) (w : World) : Prop :=
  ∀ poolId pool, w.pools.lookup poolId = some pool →
    ∃ row, (Statements.actAll db (processBatch w.log db).1).poolOf poolId = some row ∧
      ∀ addr role,
        (∃ r ∈ MembersRepository.findActiveByPoolId (Statements.actAll db (processBatch w.log db).1) row.id,
          r.memberAddress = addr ∧ r.role = role) ↔ pool.dataroom.roster addr = some (role, true)

/-! ## Whose ids the events carry -/

/-- The ids that an announcement and an addition carry: those of a pool and its room, and that of a pool. -/
def Event.NamesPool (w : World) : Event → Prop
  | .dataRoomCreated poolId room _ _ => ∃ pool, w.pools.lookup poolId = some pool ∧ pool.dataroom.id = room
  | .memberAdded dataroomId _ _ _ _ => ∃ pool, w.pools.lookup dataroomId = some pool
  | _ => True

namespace World

/-- A pool keeps the id of its room. -/
theorem step_room_id {w w' : World} {s : Step} (hw : Wf w) (h : w.step s = .ok w') {poolId : ID} {pool : Pool}
    (hk : w.pools.lookup poolId = some pool) :
    ∃ pool', w'.pools.lookup poolId = some pool' ∧ pool'.dataroom.id = pool.dataroom.id := by
  obtain ⟨evs, hd, _⟩ := step_does h
  cases hd with
  | admin _ _ hp => exact ⟨pool, by rw [hp, hk], rfl⟩
  | createPool _ _ hp =>
    exact ⟨pool, by rw [hp, Move.Table.lookup_insert, if_neg (hw.ne_idsCreated hk), hk], rfl⟩
  | @onPool poolId₀ call pool₀ pool' _ hl h hp =>
    by_cases he : poolId = poolId₀
    · rw [he, hl, Option.some.injEq] at hk
      exact ⟨pool', by rw [hp, Move.Table.lookup_insert, if_pos he], by rw [← hk, (PoolCall.exec_frame h).2.1]⟩
    · exact ⟨pool, by rw [hp, Move.Table.lookup_insert, if_neg he, hk], rfl⟩

/-- An event that names a pool of the world names one after a step. -/
theorem namesPool_step {w w' : World} {s : Step} (hw : Wf w) (h : w.step s = .ok w') {e : Event}
    (he : e.NamesPool w) : e.NamesPool w' := by
  cases e with
  | dataRoomCreated =>
    obtain ⟨pool, hk, hr⟩ := he
    obtain ⟨pool', hk', hr'⟩ := step_room_id hw h hk
    exact ⟨pool', hk', hr'.trans hr⟩
  | memberAdded =>
    obtain ⟨pool, hk⟩ := he
    obtain ⟨pool', hk', _⟩ := step_room_id hw h hk
    exact ⟨pool', hk'⟩
  | _ => trivial

/-- Only events of members name a room. -/
theorem namesPool_of_not_membership {w : World} {e : Event} (h : e.isMembership = false) : e.NamesPool w := by
  cases e <;> trivial

/-- The events of a log name the pools and rooms of the state. -/
theorem events_name {publisher : Ctx} {steps : List Step} {w : World} (hr : run publisher steps = .ok w) :
    ∀ e ∈ w.events, e.NamesPool w := by
  refine Steps.run_invariant step (fun _ m => ∀ e ∈ m.events, e.NamesPool m) (by simp [events, genesis]) ?_ hr
  intro past m s m' hm ih h
  have hw := wf_run hm
  obtain ⟨evs, hd, he⟩ := step_events h
  rw [he, List.forall_mem_append]
  refine ⟨fun e hmem => namesPool_step hw h (ih e hmem), fun e hmem => ?_⟩
  -- Only an event about members has to name a pool.
  by_cases hme : e.isMembership = true
  · have hfilter : e ∈ evs.filter Event.isMembership := List.mem_filter.2 ⟨hmem, hme⟩
    cases hd with
    | admin _ h =>
      rw [admin_membership h] at hfilter
      cases hfilter
    | @createPool _ pool _ h hp =>
      obtain ⟨_, _, _, _, hroom, _, _, _, _, _, rfl⟩ := Pool.createPool_ok h
      have hk : m'.pools.lookup m.idsCreated = some pool := by rw [hp, Move.Table.lookup_insert, if_pos rfl]
      simp only [List.mem_cons, List.not_mem_nil, or_false] at hmem
      rcases hmem with rfl | rfl | rfl
      · exact ⟨_, hk, hroom⟩
      · exact ⟨_, hk⟩
      · trivial
    | @onPool poolId _ _ pool' _ hl h hp =>
      obtain ⟨_, hf⟩ | ⟨e', hen, hf⟩ := PoolCall.exec_members h
      · rw [hf] at hfilter
        cases hfilter
      · rw [hf, List.mem_singleton] at hfilter
        subst hfilter
        generalize pool'.dataroom.roster = R at hen
        cases hen with
        | addMember => exact ⟨pool', by rw [(hw.ids hl).2, hp, Move.Table.lookup_insert, if_pos rfl]⟩
        | _ => trivial
  · exact namesPool_of_not_membership (Bool.eq_false_iff.2 hme)

end World

/-! ## What the indexer writes -/

/-- The statement can insert a member. -/
def Stmt.addsMember : Stmt → Bool
  | .upsertMember _ => true
  | _ => false

/-- The event adds a member to the room with this id, as the handler reads it. -/
def Event.addsMemberTo (k : ID) : Event → Bool
  | .memberAdded dataroomId _ _ _ _ => dataroomId = k
  | _ => false

/-- Statements that add no member leave an empty table empty. -/
theorem members_actAll {db : Db} {stmts : List Stmt} (hs : ∀ s ∈ stmts, s.addsMember = false) (h : db.members = []) :
    (Statements.actAll db stmts).members = [] := by
  induction stmts generalizing db with
  | nil => exact h
  | cons s stmts ih =>
    refine ih (fun s' hs' => hs s' (List.mem_cons_of_mem s hs')) ?_
    have hs := hs s (List.mem_cons_self ..)
    cases s with
    | upsertMember => cases hs
    | deactivateMember | updateMemberRole =>
      change Rows.updateAt _ _ _ db.members = []
      rw [h]
      rfl
    | _ => exact h

/-- A member is inserted only for a room that is known. -/
theorem stmtsOf_addsMember {ctx : EventId} {db : Db} {e : Event}
    (h : ∀ r ∈ db.datarooms, e.addsMemberTo r.suiObjectId = false) : ∀ s ∈ stmtsOf ctx db e, s.addsMember = false := by
  cases e with
  | memberAdded dataroomId =>
    have hn : db.roomOf dataroomId = none := Rows.find_eq_none_iff.2 fun r hr he => by
      have := h r hr
      simp [Event.addsMemberTo, he] at this
    simp [stmtsOf, hn]
  | _ =>
    simp only [stmtsOf]
    repeat' split
    all_goals simp [Stmt.addsMember]

/-- A room was there before, or the event announces it. -/
theorem mem_datarooms_afterEvent {db : Db} {e : SuiEvent} {r : DataroomRow} (h : r ∈ (afterEvent db e).datarooms) :
    r ∈ db.datarooms ∨ e.event.announcesRoom r.suiObjectId = true := by
  obtain ⟨ctx, e⟩ := e
  unfold afterEvent at h
  cases e with
  | dataRoomCreated =>
    obtain h | rfl := Rows.mem_insertNew h
    · exact .inl h
    · exact .inr (decide_eq_true rfl)
  | _ =>
    simp only [stmtsOf] at h
    repeat' split at h
    all_goals exact .inl h

/-- Where no addition names a room that is known or announced, no member is ever inserted. -/
theorem stmtsOfAll_addsMember {es : List SuiEvent} {db : Db}
    (hk : ∀ r ∈ db.datarooms, ∀ e ∈ es, e.event.addsMemberTo r.suiObjectId = false)
    (ha : ∀ a ∈ es, ∀ room, a.event.announcesRoom room = true → ∀ e ∈ es, e.event.addsMemberTo room = false) :
    ∀ s ∈ stmtsOfAll db es, s.addsMember = false := by
  induction es generalizing db with
  | nil =>
    intro _ hs
    cases hs
  | cons e es ih =>
    rw [stmtsOfAll, List.forall_mem_append]
    refine ⟨stmtsOf_addsMember fun r hr => hk r hr e (List.mem_cons_self ..), ih ?_ ?_⟩
    · intro r hr f hf
      obtain hr | hr := mem_datarooms_afterEvent hr
      · exact hk r hr f (List.mem_cons_of_mem e hf)
      · exact ha e (List.mem_cons_self ..) _ hr f (List.mem_cons_of_mem e hf)
    · exact fun a hma room har f hf => ha a (List.mem_cons_of_mem e hma) room har f (List.mem_cons_of_mem e hf)

namespace World

/-- An addition of the package never names a room. -/
theorem addsMemberTo_of_announcesRoom {publisher : Ctx} {steps : List Step} {w : World} (hr : run publisher steps = .ok w)
    {a e : Event} (ha : a ∈ w.events) (he : e ∈ w.events) {room : ID} (h : a.announcesRoom room = true) :
    e.addsMemberTo room = false := by
  have hna := events_name hr a ha
  have hne := events_name hr e he
  cases a with
  | dataRoomCreated poolId dataroomId =>
    obtain ⟨pool, hk, hroom⟩ := hna
    cases e with
    | memberAdded k =>
      obtain ⟨pool', hk'⟩ := hne
      refine decide_eq_false fun he => (wf_run hr).apart hk hk' ?_
      rw [hroom, he]
      exact of_decide_eq_true h
    | _ => rfl
  | _ => cases h

/-- Over tables without rooms and members, the log leaves no member. -/
theorem members_of_log {publisher : Ctx} {steps : List Step} {w : World} (hr : run publisher steps = .ok w) {db : Db}
    (hd : db.datarooms = []) (hm : db.members = []) :
    (Statements.actAll db (processBatch w.log db).1).members = [] := by
  refine members_actAll (fun s hs => ?_) hm
  refine @stmtsOfAll_addsMember w.log db (by simp [hd]) ?_ s
    ((processBatch_follows w.log db).issued.subset hs)
  intro a ha room har e he
  exact addsMemberTo_of_announcesRoom hr (List.mem_map_of_mem ha) (List.mem_map_of_mem he) har

/-- The members table matches the chain exactly for the runs that create no pool: the owner of a pool is an active member of its room,
and no row tells of it. The tables may hold rows of pools when the log is processed, or be empty. -/
theorem member_cache_matches_iff {publisher : Ctx} {steps : List Step} {w : World} (hr : run publisher steps = .ok w)
    {db : Db} (hd : db.datarooms = []) (hm : db.members = []) :
    MemberCacheMatches db w ↔ ∀ s ∈ steps, ∀ p, s.call ≠ .createPool p := by
  rw [← pools_eq_none_iff hr]
  constructor
  · intro h poolId
    by_contra hn
    obtain ⟨pool, hk⟩ := Option.ne_none_iff_exists'.1 hn
    obtain ⟨row, _, hmatch⟩ := h poolId pool hk
    obtain ⟨⟨role, howner⟩, _⟩ := (ownerTold_run hr).1 poolId pool hk
    obtain ⟨r, hmem, _⟩ := (hmatch _ role).2 howner
    rw [MembersRepository.findActiveByPoolId, members_of_log hr hd hm] at hmem
    cases hmem
  · intro h poolId pool hk
    rw [h poolId] at hk
    cases hk

/-- A run that creates a pool is one of those where the members differ. -/
theorem member_cache_matches_iff_withPool :
    ∃ w, run Sample.owner [Sample.createPool, Sample.byOwner (.addMember 8 Types.roleReviewer [])] = .ok w ∧
      (MemberCacheMatches Sample.withPool w ↔
        ∀ s ∈ [Sample.createPool, Sample.byOwner (.addMember 8 Types.roleReviewer [])], ∀ p, s.call ≠ .createPool p) := by
  obtain ⟨w, hw⟩ := Move.exists_ok_of_returns (x := run Sample.owner [Sample.createPool,
    Sample.byOwner (.addMember 8 Types.roleReviewer [])]) rfl
  exact ⟨w, hw, member_cache_matches_iff hw rfl rfl⟩

/-- The owner of the first pool is in no row: from empty tables, where the processing throws, and from tables that know the pool,
where it returns. -/
theorem owner_never_cached :
    ∃ w, run Sample.owner [Sample.createPool] = .ok w ∧ ¬ MemberCacheMatches (Db.empty [.zero]) w ∧
      (processBatch w.log Sample.withPool).2 = .ok () ∧ ¬ MemberCacheMatches Sample.withPool w := by
  refine ⟨_, rfl, fun h => ?_, by decide +kernel, fun h => ?_⟩
  · obtain ⟨row, hrow, _⟩ := h 2 _ rfl
    exact absurd (Option.isSome_of_eq_some hrow) (by decide +kernel)
  · obtain ⟨row, hrow, hmatch⟩ := h 2 _ rfl
    obtain ⟨r, hmem, _⟩ := (hmatch 7 Types.roleOwner).2 rfl
    exact List.ne_nil_of_mem (List.mem_filter.1 hmem).1 (by decide +kernel)

end World

end BrineVault
