import BrineVault.Contract.World

/-!
# The members as the event log tells of them

A consumer of the log folds the four membership events into a table for each `dataroom_id` they carry. Three of them are emitted
with the id of the pool in that field; only `MemberRoleUpdated` carries the id of the room.
-/

namespace BrineVault

open Move

/-- The members of one room: the role of an address and whether it is active. -/
abbrev Roster := Address → Option (UInt8 × Bool)

/-- A roster for each id that occurs as a `dataroom_id`. -/
abbrev Ledger := ID → Roster

namespace Ledger

/-- What a consumer takes from a `DataRoomCreated` event: the roster it opens, given the owner the event names. -/
abbrev Opening := Address → Roster

/-- The event opens an empty roster; the owner is to come with an event of its own. -/
def opensEmpty : Opening := fun _ _ => none

/-- The event opens a roster with the owner in it. -/
def opensWithOwner : Opening := fun owner => Function.update (fun _ => none) owner (some (Types.roleOwner, true))

/-- Write the entry of an address in the roster of one room. -/
def set (L : Ledger) (room : ID) (addr : Address) (entry : Option (UInt8 × Bool)) : Ledger :=
  Function.update L room (Function.update (L room) addr entry)

/-- Fold one event: an addition writes the entry, a removal clears the active flag, a role update changes the role. -/
def apply (opening : Opening) (L : Ledger) : Event → Ledger
  | .dataRoomCreated _ room owner _ => Function.update L room (opening owner)
  | .memberAdded room addr role _ _ => L.set room addr (some (role, true))
  | .memberRemoved room addr _ _ => L.set room addr ((L room addr).map fun e => (e.1, false))
  | .memberRoleUpdated room addr _ role _ _ => L.set room addr ((L room addr).map fun e => (role, e.2))
  | _ => L

/-- Fold a log. -/
def ofEvents (opening : Opening) (evs : List Event) : Ledger := evs.foldl (apply opening) fun _ _ => none

theorem ofEvents_append (opening : Opening) (evs new : List Event) :
    ofEvents opening (evs ++ new) = new.foldl (apply opening) (ofEvents opening evs) := List.foldl_append

/-- Events that tell of no member do not count. -/
theorem foldl_apply_filter (opening : Opening) (L : Ledger) (evs : List Event) :
    evs.foldl (apply opening) L = (evs.filter Event.isMembership).foldl (apply opening) L := by
  induction evs generalizing L with
  | nil => rfl
  | cons e evs ih =>
    by_cases he : e.isMembership = true
    · rw [List.filter_cons_of_pos he, List.foldl_cons, List.foldl_cons, ih]
    · rw [List.filter_cons_of_neg he, List.foldl_cons, ih]
      congr 1
      cases e <;> first | rfl | exact absurd rfl he

/-- An entry is made in its own room. -/
theorem set_room (L : Ledger) (room : ID) (addr : Address) (entry : Option (UInt8 × Bool)) :
    L.set room addr entry room = Function.update (L room) addr entry := Function.update_self ..

/-- Another room is left as it is. -/
theorem set_other (L : Ledger) {room other : ID} (addr : Address) (entry : Option (UInt8 × Bool)) (h : other ≠ room) :
    L.set room addr entry other = L other := Function.update_of_ne h ..

end Ledger

namespace World

/-- The log tells of the members of every room what the chain holds. -/
def LedgerMatches (opening : Ledger.Opening) (w : World) : Prop :=
  ∀ poolId pool, w.pools.lookup poolId = some pool →
    Ledger.ofEvents opening w.events pool.dataroom.id = pool.dataroom.roster

/-- What a step does to the room of the pool `poolId`: to the roster `R` folded from the log under the id of the room, and to the
roster on chain. -/
inductive RoomStep (opening : Ledger.Opening) (w : World) (s : Step) (poolId : ID) (dr : DataRoom) (R : Roster) : Prop where
  | created {p : Pool.Params} (hc : s.call = .createPool p) (hR : R = opening dr.owner)
      (hr : dr.roster = Ledger.opensWithOwner dr.owner)
  | kept {pool : Pool} (hl : w.pools.lookup poolId = some pool) (ho : dr.owner = pool.dataroom.owner)
      (hR : R = Ledger.ofEvents opening w.events pool.dataroom.id) (hr : dr.roster = pool.dataroom.roster)
      (hc : ∀ addr role tags, s.call ≠ .onPool poolId (.addMember addr role tags))
  | added {pool : Pool} {addr : Address} {role : UInt8} {tags : List MoveString} (hl : w.pools.lookup poolId = some pool)
      (ho : dr.owner = pool.dataroom.owner) (hc : s.call = .onPool poolId (.addMember addr role tags))
      (hn : pool.dataroom.isActiveMember addr = false) (hR : R = Ledger.ofEvents opening w.events pool.dataroom.id)
      (hr : dr.roster = Function.update pool.dataroom.roster addr (some (role, true)))
  | removed {pool : Pool} {addr : Address} {role : UInt8} (hl : w.pools.lookup poolId = some pool)
      (ho : dr.owner = pool.dataroom.owner) (hc : s.call = .onPool poolId (.removeMember addr))
      (hn : addr ≠ pool.dataroom.owner) (hm : pool.dataroom.roster addr = some (role, true))
      (hR : R = Ledger.ofEvents opening w.events pool.dataroom.id)
      (hr : dr.roster = Function.update pool.dataroom.roster addr (some (role, false)))
  | updated {pool : Pool} {addr : Address} {role newRole : UInt8} (hl : w.pools.lookup poolId = some pool)
      (ho : dr.owner = pool.dataroom.owner) (hc : s.call = .onPool poolId (.updateMemberRole addr newRole))
      (hm : pool.dataroom.roster addr = some (role, true))
      (hR : R = Function.update (Ledger.ofEvents opening w.events pool.dataroom.id) addr
        ((Ledger.ofEvents opening w.events pool.dataroom.id addr).map fun e => (newRole, e.2)))
      (hr : dr.roster = Function.update pool.dataroom.roster addr (some (newRole, true)))

/-- The events of an administrator tell of no member. -/
theorem admin_membership {call : AdminCall} {config config' : AdminConfig} {ctx : Ctx} {evs : List Event}
    (h : call.exec config ctx = .ok (config', evs)) : evs.filter Event.isMembership = [] := by
  obtain ⟨_, _, _, _, rfl⟩ | ⟨_, _, rfl⟩ := AdminCall.exec_ok h
  · rfl
  · rfl

/-- The event of a call on one room leaves the roster under another id alone. -/
theorem apply_enrols_other {opening : Ledger.Opening} {L : Ledger} {ctx : Ctx} {dr : DataRoom} {call : PoolCall} {R : Roster}
    {e : Event} (h : call.Enrols ctx dr R e) {other : ID} (hp : other ≠ dr.poolId) (hi : other ≠ dr.id) :
    Ledger.apply opening L e other = L other := by
  cases h with
  | addMember => exact Ledger.set_other _ _ _ hp
  | removeMember => exact Ledger.set_other _ _ _ hp
  | updateMemberRole => exact Ledger.set_other _ _ _ hi

/-- What a step does to a room and to its ledger. -/
theorem step_room {w w' : World} {s : Step} (opening : Ledger.Opening) (hw : Wf w) (h : w.step s = .ok w') {poolId : ID}
    {pool : Pool} (hk : w'.pools.lookup poolId = some pool) :
    RoomStep opening w s poolId pool.dataroom (Ledger.ofEvents opening w'.events pool.dataroom.id) := by
  obtain ⟨evs, hd, he⟩ := step_events h
  rw [he, Ledger.ofEvents_append, Ledger.foldl_apply_filter]
  cases hd with
  | admin hc h hp =>
    rw [hp] at hk
    rw [admin_membership h]
    exact .kept hk rfl rfl rfl (by simp [hc])
  | createPool hc h hp =>
    obtain ⟨_, _, _, _, hi, _, ho, _, _, hm, rfl⟩ := Pool.createPool_ok h
    rw [hp, Table.lookup_insert] at hk
    split at hk
    · cases hk
      -- The room is opened under its own id, and the owner is added under the id of the pool.
      refine .created hc ?_ ?_
      · rw [hi, ho]
        exact (Ledger.set_other _ _ _ (by grind)).trans (Function.update_self ..)
      · funext a
        simp only [DataRoom.roster, hm, Table.lookup_insert, ho, Ledger.opensWithOwner, Function.update_apply]
        split <;> rfl
    · have := hw.fresh hk
      refine .kept hk rfl ?_ rfl (by simp [hc])
      exact (Ledger.set_other _ _ _ (by grind)).trans (Function.update_of_ne (by grind) ..)
  | @onPool poolId₀ call pool₀ pool' hc hl h hp =>
    obtain ⟨_, fi, _, fo⟩ := PoolCall.exec_frame h
    rw [hp, Table.lookup_insert] at hk
    split at hk
    · rename_i hkk
      subst hkk
      cases hk
      rw [fi]
      have hne : pool₀.dataroom.id ≠ pool₀.dataroom.poolId := (hw.ids hl).2 ▸ hw.apart hl hl
      obtain ⟨hr, hf⟩ | ⟨e, hen, hf⟩ := PoolCall.exec_members h
      · rw [hf]
        refine .kept hl fo rfl hr fun addr role tags hc' => ?_
        rw [hc, Call.onPool.injEq] at hc'
        obtain ⟨_, rfl⟩ := hc'
        obtain ⟨_, _, rfl⟩ := Pool.addMember_ok h
        cases hf
      · rw [hf, List.foldl_cons, List.foldl_nil]
        generalize hR : pool.dataroom.roster = R at hen
        cases hen with
        | addMember hn => exact .added hl fo hc hn (Ledger.set_other _ _ _ hne) hR
        | removeMember hm ho => exact .removed hl fo hc ho hm (Ledger.set_other _ _ _ hne) hR
        | updateMemberRole hm => exact .updated hl fo hc hm (Ledger.set_room ..) hR
    · rename_i hkk
      refine .kept hk rfl ?_ rfl fun addr role tags hc' => ?_
      · obtain ⟨_, hf⟩ | ⟨e, hen, hf⟩ := PoolCall.exec_members h
        · rw [hf]
          rfl
        · rw [hf]
          exact apply_enrols_other hen ((hw.ids hl).2 ▸ hw.apart hk hl) fun hid => hkk (hw.rooms hk hl hid)
      · rw [hc, Call.onPool.injEq] at hc'
        exact hkk hc'.1.symm

/-! ## Pools and entries are never taken away -/

/-- A call that enrols takes nobody out of the roster. -/
theorem roster_of_enrols {ctx : Ctx} {dr : DataRoom} {call : PoolCall} {R : Roster} {e : Event} (h : call.Enrols ctx dr R e)
    {addr : Address} (ha : dr.roster addr ≠ none) : R addr ≠ none := by
  have entered : ∀ {changed : Address} {entry : UInt8 × Bool}, Function.update dr.roster changed (some entry) addr ≠ none := by
    intro changed entry
    rw [Function.update_apply]
    split
    · exact Option.some_ne_none entry
    · exact ha
  cases h with
  | addMember => exact entered
  | removeMember => exact entered
  | updateMemberRole => exact entered

/-- A pool stays, with the owner of its room, and no entry of the roster is taken out. -/
theorem step_roster {w w' : World} {s : Step} (hw : Wf w) (h : w.step s = .ok w') {poolId : ID} {pool : Pool}
    (hl : w.pools.lookup poolId = some pool) :
    ∃ pool', w'.pools.lookup poolId = some pool' ∧ pool'.dataroom.owner = pool.dataroom.owner ∧
      ∀ addr, pool.dataroom.roster addr ≠ none → pool'.dataroom.roster addr ≠ none := by
  obtain ⟨evs, hd, _⟩ := step_does h
  cases hd with
  | admin _ _ hp => exact ⟨pool, by rw [hp, hl], rfl, fun _ => id⟩
  | createPool _ _ hp =>
    exact ⟨pool, by rw [hp, Table.lookup_insert, if_neg (hw.ne_idsCreated hl), hl], rfl, fun _ => id⟩
  | @onPool poolId₀ _ pool₀ pool' _ hl₀ hx hp =>
    by_cases hk : poolId = poolId₀
    · subst hk
      rw [hl, Option.some.injEq] at hl₀
      subst hl₀
      refine ⟨pool', by rw [hp, Table.lookup_insert, if_pos rfl], (PoolCall.exec_frame hx).2.2.2, ?_⟩
      intro addr ha
      obtain ⟨hr, -⟩ | ⟨e, hen, -⟩ := PoolCall.exec_members hx
      · rw [hr]
        exact ha
      · exact roster_of_enrols hen ha
    · exact ⟨pool, by rw [hp, Table.lookup_insert, if_neg hk, hl], rfl, fun _ => id⟩

/-! ## The event opens an empty roster -/

/-- Nothing is told under the id of any room, and every room has a member. -/
def NothingTold (w : World) : Prop :=
  ∀ poolId pool, w.pools.lookup poolId = some pool →
    Ledger.ofEvents Ledger.opensEmpty w.events pool.dataroom.id = (fun _ => none) ∧ ∃ addr, pool.dataroom.roster addr ≠ none

/-- A step keeps that nothing is told and every room has a member. -/
theorem nothingTold_step {w w' : World} {s : Step} (hw : Wf w) (hn : NothingTold w) (h : w.step s = .ok w') :
    NothingTold w' := by
  intro poolId pool hk
  cases step_room Ledger.opensEmpty hw h hk with
  | created hc hR hr => exact ⟨hR, pool.dataroom.owner, by rw [hr, Ledger.opensWithOwner, Function.update_self]; simp⟩
  | kept hl _ hR hr => exact ⟨hR.trans (hn _ _ hl).1, by rw [hr]; exact (hn _ _ hl).2⟩
  | @added _ addr _ _ hl _ _ _ hR hr =>
    exact ⟨hR.trans (hn _ _ hl).1, addr, by rw [hr, Function.update_self]; simp⟩
  | @removed _ addr _ hl _ _ _ _ hR hr =>
    exact ⟨hR.trans (hn _ _ hl).1, addr, by rw [hr, Function.update_self]; simp⟩
  | @updated _ addr _ _ hl _ _ _ hR hr =>
    refine ⟨?_, addr, by rw [hr, Function.update_self]; simp⟩
    rw [hR, (hn _ _ hl).1]
    exact Function.update_eq_self ..

/-- Pools exist exactly when the run has created one. -/
theorem pools_eq_none_iff {publisher : Ctx} {steps : List Step} {w : World} (hr : run publisher steps = .ok w) :
    (∀ poolId, w.pools.lookup poolId = none) ↔ ∀ s ∈ steps, ∀ p, s.call ≠ .createPool p := by
  refine Steps.run_invariant step (fun past (m : World) => (∀ poolId, m.pools.lookup poolId = none) ↔
    ∀ s ∈ past, ∀ p, s.call ≠ .createPool p) (by simp [genesis]) ?_ hr
  intro past m s m' hm ih h
  simp only [List.forall_mem_append, List.forall_mem_singleton, ← ih]
  obtain ⟨evs, hd, _⟩ := step_does h
  cases hd with
  | admin hc _ hp => simp [hp, hc]
  | createPool hc _ hp =>
    simp only [hp, hc, Table.lookup_insert, ne_eq, Call.createPool.injEq, forall_eq', and_false, iff_false, not_forall]
    exact ⟨m.idsCreated, by simp⟩
  | @onPool poolId _ _ _ hc hl _ hp =>
    constructor
    · intro hn
      have := hn poolId
      simp [hp] at this
    · intro hn
      rw [hn.1] at hl
      cases hl

/-! ## The event opens a roster with the owner in it -/

/-- Under the id of a room the owner is told of, as on chain, and nobody else; and the owner is an active member. -/
def OwnerTold (w : World) : Prop :=
  ∀ poolId pool, w.pools.lookup poolId = some pool →
    (∃ role, pool.dataroom.roster pool.dataroom.owner = some (role, true)) ∧
      Ledger.ofEvents Ledger.opensWithOwner w.events pool.dataroom.id =
        Function.update (fun _ => none) pool.dataroom.owner (pool.dataroom.roster pool.dataroom.owner)

/-- Some room has a member besides its owner, active or not. -/
def HasMembers (w : World) : Prop :=
  ∃ poolId pool addr, w.pools.lookup poolId = some pool ∧ addr ≠ pool.dataroom.owner ∧ pool.dataroom.roster addr ≠ none

/-- The step adds a member. -/
def AddsMember (s : Step) : Prop := ∃ poolId addr role tags, s.call = .onPool poolId (.addMember addr role tags)

/-- Whoever is not an active member is not the owner. -/
theorem ne_owner_of_inactive {dr : DataRoom} {addr : Address} {role : UInt8} (ho : dr.roster dr.owner = some (role, true))
    (hn : dr.isActiveMember addr = false) : addr ≠ dr.owner := by
  rintro rfl
  unfold DataRoom.roster at ho
  unfold DataRoom.isActiveMember at hn
  cases hl : dr.members.lookup dr.owner <;> simp_all

/-- A step keeps that the owner alone is told of. -/
theorem ownerTold_step {w w' : World} {s : Step} (hw : Wf w) (ho : OwnerTold w) (h : w.step s = .ok w') : OwnerTold w' := by
  intro poolId pool hk
  cases step_room Ledger.opensWithOwner hw h hk with
  | created hc hR hr =>
    have hown : pool.dataroom.roster pool.dataroom.owner = some (Types.roleOwner, true) := by
      rw [hr, Ledger.opensWithOwner, Function.update_self]
    exact ⟨⟨_, hown⟩, by rw [hR, hown]; rfl⟩
  | kept hl ho' hR hr => rw [ho', hR, hr]; exact ho _ _ hl
  | added hl ho' _ hn hR hr =>
    obtain ⟨⟨role, hown⟩, ht⟩ := ho _ _ hl
    rw [ho', hR, hr, Function.update_of_ne (ne_owner_of_inactive hown hn).symm]
    exact ⟨⟨role, hown⟩, ht⟩
  | removed hl ho' _ hn _ hR hr =>
    rw [ho', hR, hr, Function.update_of_ne hn.symm]
    exact ho _ _ hl
  | @updated pool₀ addr role newRole hl ho' _ hm hR hr =>
    obtain ⟨⟨role', hown⟩, ht⟩ := ho _ _ hl
    rw [ho', hR, hr, ht]
    by_cases ha : addr = pool₀.dataroom.owner
    · subst ha
      rw [Function.update_self, Function.update_self, hown]
      exact ⟨⟨newRole, rfl⟩, Function.update_idem ..⟩
    · have hnone : (Function.update (fun _ => none) pool₀.dataroom.owner
          (pool₀.dataroom.roster pool₀.dataroom.owner) : Roster) addr = none := Function.update_of_ne ha ..
      rw [hnone, Function.update_of_ne (Ne.symm ha)]
      exact ⟨⟨role', hown⟩, Function.update_eq_iff.2 ⟨hnone.symm, fun _ _ => rfl⟩⟩

/-- A room has members besides its owner after a step when one had some before, or the step adds one. -/
theorem hasMembers_step {w w' : World} {s : Step} (hw : Wf w) (ho : OwnerTold w) (h : w.step s = .ok w') :
    HasMembers w' ↔ HasMembers w ∨ AddsMember s := by
  constructor
  · rintro ⟨poolId, pool, addr, hk, hne, hr'⟩
    cases step_room Ledger.opensWithOwner hw h hk with
    | created _ _ hr =>
      rw [hr, Ledger.opensWithOwner, Function.update_of_ne hne] at hr'
      exact absurd rfl hr'
    | kept hl ho' _ hr => exact .inl ⟨_, _, addr, hl, ho' ▸ hne, hr ▸ hr'⟩
    | added _ _ hc => exact .inr ⟨_, _, _, _, hc⟩
    | @removed _ removed _ hl _ _ hn hm => exact .inl ⟨_, _, removed, hl, hn, by simp [hm]⟩
    | @updated _ changed _ _ hl ho' _ hm _ hr =>
      refine .inl ⟨_, _, addr, hl, ho' ▸ hne, fun hnone => ?_⟩
      by_cases ha : addr = changed
      · rw [ha, hm] at hnone
        cases hnone
      · rw [hr, Function.update_of_ne ha] at hr'
        exact hr' hnone
  · rintro (⟨poolId, pool, addr, hl, hne, hr'⟩ | ⟨poolId, addr, role, tags, hc⟩)
    · obtain ⟨pool', hl', howner, hentries⟩ := step_roster hw h hl
      exact ⟨poolId, pool', addr, hl', howner ▸ hne, hentries addr hr'⟩
    · obtain ⟨pool, pool', _, hl, hl', hx⟩ := step_onPool h hc
      obtain ⟨_, ⟨dr, hd, he⟩, _⟩ := Pool.addMember_ok hx
      obtain ⟨hn, ⟨m, _, _, _, hdr⟩, _⟩ := Pool.addOrReactivate_ok hd
      obtain ⟨⟨_, hown⟩, _⟩ := ho _ _ hl
      have hne : addr ≠ pool.dataroom.owner := ne_owner_of_inactive hown hn
      refine ⟨poolId, pool', addr, hl', ?_⟩
      rw [he, hdr]
      refine ⟨hne, ?_⟩
      rw [DataRoom.roster_insert, Function.update_self]
      simp

/-- Where only owners are told of, the log matches the chain exactly when no room has another member. -/
theorem OwnerTold.ledgerMatches_iff {w : World} (ho : OwnerTold w) :
    LedgerMatches Ledger.opensWithOwner w ↔ ¬ HasMembers w := by
  constructor
  · rintro hm ⟨poolId, pool, addr, hl, hne, hr⟩
    have := hm poolId pool hl
    rw [(ho _ _ hl).2] at this
    rw [← this, Function.update_of_ne hne] at hr
    exact hr rfl
  · intro hm poolId pool hl
    rw [(ho _ _ hl).2]
    refine Function.update_eq_iff.2 ⟨rfl, fun addr hne => ?_⟩
    by_contra hr
    exact hm ⟨poolId, pool, addr, hl, hne, fun h => hr h.symm⟩

/-! ## The result -/

/-- After every run the owner alone is told of, and some room has another member exactly when one was added. -/
theorem ownerTold_run {publisher : Ctx} {steps : List Step} {w : World} (hr : run publisher steps = .ok w) :
    OwnerTold w ∧ (HasMembers w ↔ ∃ s ∈ steps, AddsMember s) := by
  refine Steps.run_invariant step (fun past (m : World) => OwnerTold m ∧ (HasMembers m ↔ ∃ s ∈ past, AddsMember s)) ?_ ?_ hr
  · refine ⟨fun _ _ hl => (by cases hl), ?_⟩
    simp [HasMembers, genesis]
  · rintro past m s m' hm ⟨ho, hi⟩ h
    refine ⟨ownerTold_step (wf_run hm) ho h, ?_⟩
    rw [hasMembers_step (wf_run hm) ho h, hi]
    simp [or_and_right, exists_or]

/-- After a run, the log folded by `dataroom_id` gives the members of every room, in the first reading of `DataRoomCreated` if
and only if the run creates no pool, in the second if and only if it adds no member. -/
theorem ledger_matches_iff {publisher : Ctx} {steps : List Step} {w : World} (hr : run publisher steps = .ok w) :
    (LedgerMatches Ledger.opensEmpty w ↔ ∀ s ∈ steps, ∀ p, s.call ≠ .createPool p) ∧
      (LedgerMatches Ledger.opensWithOwner w ↔ ∀ s ∈ steps, ¬ AddsMember s) := by
  constructor
  · have hn : NothingTold w := Steps.run_invariant step (fun _ m => NothingTold m) (fun _ _ hl => by cases hl)
      (fun _ _ _ _ hm hn h => nothingTold_step (wf_run hm) hn h) hr
    rw [← pools_eq_none_iff hr]
    constructor
    · intro hm poolId
      by_contra hne
      obtain ⟨pool, hl⟩ := Option.ne_none_iff_exists'.1 hne
      obtain ⟨hR, addr, ha⟩ := hn _ _ hl
      rw [← hm _ _ hl, hR] at ha
      exact ha rfl
    · intro hnone poolId pool hl
      rw [hnone] at hl
      cases hl
  · obtain ⟨ho, hm⟩ := ownerTold_run hr
    rw [ho.ledgerMatches_iff, hm]
    simp

/-- A run with a pool and a changed role of its owner. -/
theorem ledger_matches_iff_sample :
    ∃ w, run Sample.owner [Sample.createPool, Sample.byOwner (.updateMemberRole 7 Types.roleAll)] = .ok w ∧
      ((LedgerMatches Ledger.opensEmpty w ↔ ∀ s ∈ [Sample.createPool, Sample.byOwner (.updateMemberRole 7 Types.roleAll)],
          ∀ p, s.call ≠ .createPool p) ∧
        (LedgerMatches Ledger.opensWithOwner w ↔
          ∀ s ∈ [Sample.createPool, Sample.byOwner (.updateMemberRole 7 Types.roleAll)], ¬ AddsMember s)) := by
  obtain ⟨w, hw⟩ := exists_ok_of_returns (x := run Sample.owner [Sample.createPool,
    Sample.byOwner (.updateMemberRole 7 Types.roleAll)]) rfl
  exact ⟨w, hw, ledger_matches_iff hw⟩

/-- One pool with one added member: the member is in the room and not in the log, in either reading. -/
theorem ledger_misses_member :
    ∃ w, run Sample.owner [Sample.createPool, Sample.byOwner (.addMember 8 Types.roleReviewer [])] = .ok w ∧
      ¬ LedgerMatches Ledger.opensEmpty w ∧ ¬ LedgerMatches Ledger.opensWithOwner w := by
  refine ⟨_, rfl, fun h => ?_, fun h => ?_⟩
  · exact absurd (congrFun (h 2 _ rfl) 8) (by decide +kernel)
  · exact absurd (congrFun (h 2 _ rfl) 8) (by decide +kernel)

end World

end BrineVault
