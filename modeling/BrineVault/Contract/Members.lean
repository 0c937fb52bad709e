import BrineVault.Contract.World

/-!
# The members of a data room

The counter of members is the number of active entries, an entry has a role and a time of revocation exactly when it is not active,
and the owner is an active member whose role has the OWNER bit, whatever the others and the owner do. The limit on members holds back
new addresses only.
-/

namespace BrineVault

open Move

/-- A role with the OWNER bit passes every check for owners and administrators. -/
theorem Types.hasRole_ownerUp {role : UInt8} (h : Types.hasRole role Types.roleOwner = true) :
    Types.hasRole role Types.roleOwnerUp = true := by
  have hmask : Types.roleOwnerUp = Types.roleOwner ||| Types.roleOrgAdmin := rfl
  rw [hmask, Types.hasRole_or, h, Bool.true_or]

/-- The books of the members of a room. -/
structure DataRoom.Bookkept (dr : DataRoom) : Prop where
  count : dr.memberCount = Table.count Membership.isActive dr.members
  entries : ∀ a m, dr.members.lookup a = some m → (0 < m.role ∧ m.role ≤ 63) ∧ (m.revokedAt = none ↔ m.isActive = true)
  owner : ∃ m, dr.members.lookup dr.owner = some m ∧ m.isActive = true ∧ Types.hasRole m.role Types.roleOwner = true

namespace DataRoom

/-- The books of a new room are right. -/
theorem Bookkept.new {config : AdminConfig} {id dataroomId : ID} {p : Pool.Params} {ctx : Ctx} {pool : Pool} {evs : List Event}
    (h : Pool.createPool config id dataroomId p ctx = .ok (pool, evs)) : pool.dataroom.Bookkept := by
  obtain ⟨_, _, _, _, _, _, howner, hcount, _, hmem, _⟩ := Pool.createPool_ok h
  constructor
  · rw [hcount, hmem, Table.count_insert_new _ _ rfl]
    rfl
  · intro a m hl
    rw [hmem, Table.lookup_insert] at hl
    split at hl
    · cases hl
      have hrole : 0 < Types.roleOwner ∧ Types.roleOwner ≤ 63 := by decide
      exact ⟨hrole, by simp⟩
    · cases hl
  · rw [howner, hmem]
    have hrole : Types.hasRole Types.roleOwner Types.roleOwner = true := by decide
    exact ⟨_, AList.lookup_insert _, rfl, hrole⟩

/-- The books are about the members, their number and the owner only. -/
theorem Bookkept.congr {dr dr' : DataRoom} (hb : dr.Bookkept) (hm : dr'.members = dr.members)
    (hc : dr'.memberCount = dr.memberCount) (ho : dr'.owner = dr.owner) : dr'.Bookkept := by
  constructor
  · rw [hc, hm]
    exact hb.count
  · rw [hm]
    exact hb.entries
  · rw [hm, ho]
    exact hb.owner

/-- An active entry for an address that had none, active or not: one more. -/
theorem Bookkept.enrol {dr : DataRoom} (hb : dr.Bookkept) {addr : Address} {m : Membership} (t : Nat)
    (hn : dr.isActiveMember addr = false) (ha : m.isActive = true) (hr : m.revokedAt = none)
    (hv : 0 < m.role ∧ m.role ≤ 63) :
    Bookkept { dr with members := dr.members.insert addr m, memberCount := dr.memberCount + 1, lastUpdatedAt := t } := by
  constructor
  · have hc := hb.count
    cases hl : dr.members.lookup addr with
    | none =>
      rw [Table.count_insert_new _ _ hl, ha, if_pos rfl, hc]
    | some m₀ =>
      have hinactive : m₀.isActive = false := by simpa only [isActiveMember, hl] using hn
      have := Table.count_insert_over Membership.isActive m hl
      simp only [hinactive, ha, Bool.false_eq_true, if_false, if_true] at this
      simp only
      omega
  · intro a m' hl
    rw [Table.lookup_insert] at hl
    split at hl
    · cases hl
      exact ⟨hv, by simp [ha, hr]⟩
    · exact hb.entries a m' hl
  · obtain ⟨m₀, hl, hact, hrole⟩ := hb.owner
    have hne : dr.owner ≠ addr := by
      rintro rfl
      simp only [isActiveMember, hl, hact] at hn
      cases hn
    exact ⟨m₀, by rw [Table.lookup_insert, if_neg hne, hl], hact, hrole⟩

/-- Revoking a member other than the owner: one less. -/
theorem Bookkept.revoke {dr : DataRoom} (hb : dr.Bookkept) {addr : Address} {m : Membership} (t : Nat)
    (hl : dr.members.lookup addr = some m) (ha : m.isActive = true) (ho : addr ≠ dr.owner) :
    Bookkept { dr with
      members := dr.members.insert addr { m with isActive := false, revokedAt := some t }
      memberCount := dr.memberCount - 1
      lastUpdatedAt := t } := by
  constructor
  · have hc := hb.count
    have := Table.count_insert_over Membership.isActive { m with isActive := false, revokedAt := some t } hl
    simp only [ha, if_true, Bool.false_eq_true, if_false] at this
    simp only
    omega
  · intro a m' hl'
    rw [Table.lookup_insert] at hl'
    split at hl'
    · cases hl'
      exact ⟨(hb.entries addr m hl).1, by simp⟩
    · exact hb.entries a m' hl'
  · obtain ⟨m₀, hl₀, hact, hrole⟩ := hb.owner
    exact ⟨m₀, by rw [Table.lookup_insert, if_neg ho.symm, hl₀], hact, hrole⟩

/-- A new role for an active member, which keeps the OWNER bit where the member is the owner. -/
theorem Bookkept.update {dr : DataRoom} (hb : dr.Bookkept) {addr : Address} {m : Membership} {newRole : UInt8} (t : Nat)
    (hl : dr.members.lookup addr = some m) (ha : m.isActive = true) (hv : 0 < newRole ∧ newRole ≤ 63)
    (ho : addr = dr.owner → Types.hasRole newRole Types.roleOwner = true) :
    Bookkept { dr with members := dr.members.insert addr { m with role := newRole }, lastUpdatedAt := t } := by
  constructor
  · have hc := hb.count
    have := Table.count_insert_over Membership.isActive { m with role := newRole } hl
    simp only at this ⊢
    omega
  · intro a m' hl'
    rw [Table.lookup_insert] at hl'
    split at hl'
    · cases hl'
      exact ⟨hv, (hb.entries addr m hl).2⟩
    · exact hb.entries a m' hl'
  · by_cases hown : addr = dr.owner
    · exact ⟨{ m with role := newRole }, by rw [Table.lookup_insert, if_pos hown.symm], ha, ho hown⟩
    · obtain ⟨m₀, hl₀, hact, hrole⟩ := hb.owner
      exact ⟨m₀, by rw [Table.lookup_insert, if_neg fun h => hown h.symm, hl₀], hact, hrole⟩

/-- Every call keeps them right. -/
theorem Bookkept.exec {config : AdminConfig} {freshId : ID} {ctx : Ctx} {call : PoolCall} {pool pool' : Pool}
    {evs : List Event} (hb : pool.dataroom.Bookkept) (h : call.exec config freshId ctx pool = .ok (pool', evs)) :
    pool'.dataroom.Bookkept := by
  by_cases hc : call.onMembers = false
  · obtain ⟨hm, hn⟩ := PoolCall.exec_onMembers h hc
    exact hb.congr hm hn (PoolCall.exec_frame h).2.2.2
  · cases call with
    | addMember addr role tags =>
      obtain ⟨hv, ⟨dr, hd, rfl⟩, _⟩ := Pool.addMember_ok h
      obtain ⟨hn, ⟨m, rfl, ha, hr, rfl⟩, _⟩ := Pool.addOrReactivate_ok hd
      exact hb.enrol _ hn ha hr (Types.isValidRole_iff.1 hv)
    | removeMember addr =>
      obtain ⟨ho, ⟨dr, hd, rfl⟩, _⟩ := Pool.removeMember_ok h
      obtain ⟨m, hl, ha, _, rfl, _⟩ := DataRoom.revokeMember_ok hd
      exact hb.revoke _ hl ha ho
    | updateMemberRole addr role =>
      obtain ⟨hv, ho, m, hl, ha, rfl, _⟩ := Pool.updateMemberRole_ok h
      exact hb.update _ hl ha (Types.isValidRole_iff.1 hv) ho
    | _ => exact absurd rfl hc

/-- Where the books are kept, revoking a member never counts down from zero. -/
theorem Bookkept.revokeMember_arithmetic {dr : DataRoom} (hb : dr.Bookkept) (addr removedBy : Address) (ctx : Ctx) :
    dr.revokeMember addr removedBy ctx ≠ .error .arithmetic := by
  intro h
  simp only [revokeMember, bind_eq_error, assert_ne_arithmetic, false_or, Table.borrow_eq_ok] at h
  obtain ⟨_, _, h | ⟨m, hl, _, ha, h | ⟨_, _, h⟩⟩⟩ := h
  · unfold Table.borrow at h
    split at h <;> cases h
  · -- The member is active, so it is counted.
    have hactive : m.isActive = true := assert_eq_ok.1 ha
    have hpos : 0 < Table.count Membership.isActive dr.members := (Table.count_pos_iff _ _).2 ⟨addr, m, hl, hactive⟩
    have hc := hb.count
    have hok : subU64 dr.memberCount 1 = .ok (dr.memberCount - 1) := subU64_eq_ok.2 ⟨by omega, rfl⟩
    rw [hok] at h
    cases h
  · cases h

end DataRoom

namespace World

/-- In every run they are right. -/
theorem bookkept_run {publisher : Ctx} {steps : List Step} {w : World} (hr : run publisher steps = .ok w) {poolId : ID}
    {pool : Pool} (hl : w.pools.lookup poolId = some pool) : pool.dataroom.Bookkept :=
  pools_run (P := fun pool => pool.dataroom.Bookkept) (fun _ _ _ _ _ _ _ => DataRoom.Bookkept.new)
    (fun _ _ _ _ _ _ _ => DataRoom.Bookkept.exec) hr hl

/-- The owner of a room is locked in: whatever is called by whom, the owner is an active member with the OWNER bit, and passes
the check of the functions for owners and administrators. -/
theorem owner_locked_in {publisher : Ctx} {steps : List Step} {w : World} (hr : run publisher steps = .ok w) {poolId : ID}
    {pool : Pool} (hl : w.pools.lookup poolId = some pool) :
    (∃ m, pool.dataroom.members.lookup pool.dataroom.owner = some m ∧ m.isActive = true ∧
        Types.hasRole m.role Types.roleOwner = true) ∧
      pool.dataroom.assertMemberRole pool.dataroom.owner Types.roleOwnerUp = .ok () := by
  obtain ⟨m, hm, ha, hrole⟩ := (bookkept_run hr hl).owner
  exact ⟨⟨m, hm, ha, hrole⟩, DataRoom.assertMemberRole_ok.2 ⟨m, hm, ha, Types.hasRole_ownerUp hrole⟩⟩

/-- A room in which an administrator was added, and took the owner's other roles away. -/
theorem owner_locked_in_sample :
    ∃ w pool, run Sample.owner [Sample.createPool, Sample.byOwner (.addMember 8 Types.roleOrgAdmin []),
        { tx := some Sample.reviewer, call := .onPool 2 (.updateMemberRole 7 Types.roleOwner) }] = .ok w ∧
      w.pools.lookup 2 = some pool ∧
      (∃ m, pool.dataroom.members.lookup pool.dataroom.owner = some m ∧ m.isActive = true ∧
        Types.hasRole m.role Types.roleOwner = true) ∧
      pool.dataroom.assertMemberRole pool.dataroom.owner Types.roleOwnerUp = .ok () := by
  refine ⟨_, _, rfl, rfl, ?_⟩
  exact @owner_locked_in Sample.owner [Sample.createPool, Sample.byOwner (.addMember 8 Types.roleOrgAdmin []),
    { tx := some Sample.reviewer, call := .onPool 2 (.updateMemberRole 7 Types.roleOwner) }] _ rfl 2 _ rfl

/-- The books of a room are right in every state: the counter is the number of active entries, an entry has a role and is revoked
exactly when it is not active, and revoking a member never counts down from zero. -/
theorem members_bookkept {publisher : Ctx} {steps : List Step} {w : World} (hr : run publisher steps = .ok w) {poolId : ID}
    {pool : Pool} (hl : w.pools.lookup poolId = some pool) :
    pool.dataroom.memberCount = Table.count Membership.isActive pool.dataroom.members ∧
      (∀ a m, pool.dataroom.members.lookup a = some m →
        (0 < m.role ∧ m.role ≤ 63) ∧ (m.revokedAt = none ↔ m.isActive = true)) ∧
      ∀ addr removedBy ctx, pool.dataroom.revokeMember addr removedBy ctx ≠ .error .arithmetic := by
  have hb := bookkept_run hr hl
  exact ⟨hb.count, hb.entries, hb.revokeMember_arithmetic⟩

/-- A room in which a member was added, revoked and reactivated. -/
theorem members_bookkept_sample :
    ∃ w pool, run Sample.owner [Sample.createPool, Sample.byOwner (.addMember 8 Types.roleReviewer []),
        Sample.byOwner (.removeMember 8), Sample.byOwner (.addMember 8 Types.roleEditor [])] = .ok w ∧
      w.pools.lookup 2 = some pool ∧
      pool.dataroom.memberCount = Table.count Membership.isActive pool.dataroom.members ∧
      (∀ a m, pool.dataroom.members.lookup a = some m →
        (0 < m.role ∧ m.role ≤ 63) ∧ (m.revokedAt = none ↔ m.isActive = true)) ∧
      ∀ addr removedBy ctx, pool.dataroom.revokeMember addr removedBy ctx ≠ .error .arithmetic := by
  refine ⟨_, _, rfl, rfl, ?_⟩
  exact @members_bookkept Sample.owner [Sample.createPool, Sample.byOwner (.addMember 8 Types.roleReviewer []),
    Sample.byOwner (.removeMember 8), Sample.byOwner (.addMember 8 Types.roleEditor [])] _ rfl 2 _ rfl

end World

/-! ## The limit on members -/

namespace Pool

/-- An address without an entry is added below the limit. -/
theorem addOrReactivate_limit {config : AdminConfig} {dr dr' : DataRoom} {addr : Address} {role : UInt8}
    {tags : List MoveString} {ctx : Ctx} {evs : List Event}
    (h : addOrReactivate config dr addr role tags ctx = .ok (dr', evs)) (hn : dr.hasMember addr = false) :
    dr.memberCount < config.maxMembersPerRoom := by
  rw [addOrReactivate, if_neg (by rw [hn]; decide)] at h
  simp only [bind_eq_ok, assert_eq_ok] at h
  obtain ⟨_, hlt, _⟩ := h
  exact hlt

/-- After a member is added the room is within the limit exactly when the address had no entry or the room was below the limit. -/
theorem addMember_within_limit_iff {config : AdminConfig} {pool pool' : Pool} {addr : Address} {role : UInt8}
    {tags : List MoveString} {ctx : Ctx} {evs : List Event} (h : pool.addMember config addr role tags ctx = .ok (pool', evs)) :
    pool'.dataroom.memberCount ≤ config.maxMembersPerRoom ↔
      pool.dataroom.hasMember addr = false ∨ pool.dataroom.memberCount < config.maxMembersPerRoom := by
  obtain ⟨_, ⟨dr, hd, rfl⟩, _⟩ := addMember_ok h
  have hlimit := addOrReactivate_limit hd
  obtain ⟨_, ⟨_, _, _, _, rfl⟩, _⟩ := addOrReactivate_ok hd
  constructor
  · exact fun hle => .inr hle
  · rintro (hn | hlt)
    · exact hlimit hn
    · exact hlt

/-- The condition at the second member of a room. -/
theorem addMember_within_limit_iff_sample :
    ∃ w pool pool' evs, World.run Sample.owner [Sample.createPool] = .ok w ∧ w.pools.lookup 2 = some pool ∧
      pool.addMember w.adminConfig 8 Types.roleReviewer [] Sample.owner = .ok (pool', evs) ∧
      (pool'.dataroom.memberCount ≤ w.adminConfig.maxMembersPerRoom ↔
        pool.dataroom.hasMember 8 = false ∨ pool.dataroom.memberCount < w.adminConfig.maxMembersPerRoom) := by
  have hadded : ∃ w pool, World.run Sample.owner [Sample.createPool] = .ok w ∧ w.pools.lookup 2 = some pool ∧
      returns (pool.addMember w.adminConfig 8 Types.roleReviewer [] Sample.owner) = true := ⟨_, _, rfl, rfl, rfl⟩
  obtain ⟨w, pool, hr, hl, hok⟩ := hadded
  obtain ⟨⟨pool', evs⟩, h⟩ := exists_ok_of_returns hok
  exact ⟨w, pool, pool', evs, hr, hl, h, addMember_within_limit_iff h⟩

/-- A room with a limit of two: a member is revoked, the place is taken by another one, and the first is added again. -/
theorem reactivated_over_limit :
    ∃ w pool, World.run Sample.owner [Sample.createPool, ⟨none, .admin (.updateConfig 2 500 7 7)⟩,
        Sample.byOwner (.addMember 8 Types.roleReviewer []), Sample.byOwner (.removeMember 8),
        Sample.byOwner (.addMember 9 Types.roleReviewer []), Sample.byOwner (.addMember 8 Types.roleReviewer [])] = .ok w ∧
      w.pools.lookup 2 = some pool ∧ w.adminConfig.maxMembersPerRoom = 2 ∧ pool.dataroom.memberCount = 3 :=
  ⟨_, _, rfl, rfl, rfl, rfl⟩

end Pool

end BrineVault
