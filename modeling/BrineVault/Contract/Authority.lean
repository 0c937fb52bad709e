import BrineVault.Contract.Provenance

/-!
# Who comes to rule a pool

The rulers of a pool are the active members whose role meets the mask of owners and administrators: they make members, change roles
and move the pool on. Nobody rules a pool but who created it or was given the role by a ruler, so a set of addresses keeps a pool to
itself exactly as long as no one in it gives the role away.
-/

namespace BrineVault

open Move

/-- The address rules the pool. -/
def Pool.Rules (pool : Pool) (addr : Address) : Prop :=
  ∃ m, pool.dataroom.members.lookup addr = some m ∧ m.isActive = true ∧ Types.hasRole m.role Types.roleOwnerUp = true

namespace PoolCall

/-- Whom a call gives the role of an owner or an administrator. -/
def grantee : PoolCall → Option Address
  | .addMember addr role _ => if Types.hasRole role Types.roleOwnerUp then some addr else none
  | .updateMemberRole addr newRole => if Types.hasRole newRole Types.roleOwnerUp then some addr else none
  | _ => none

section Exec

variable {config : AdminConfig} {freshId : ID} {ctx : Ctx} {call : PoolCall} {pool pool' : Pool} {evs : List Event} {addr : Address}

/-- A ruler after a call was one before, or a ruler gave it the role in this call. -/
theorem exec_rules (h : call.exec config freshId ctx pool = .ok (pool', evs)) (hr : pool'.Rules addr) :
    pool.Rules addr ∨ (call.grantee = some addr ∧ pool.Rules ctx.sender) := by
  obtain ⟨m, hl, ha, hrole⟩ := hr
  obtain ⟨-, hsender⟩ := exec_authorised h
  obtain hkept | hw := exec_keeps (r := .member addr m) h hl
  · exact .inl ⟨m, hkept, ha, hrole⟩
  · right
    cases hw with
    | addMember => exact ⟨if_pos hrole, hsender⟩
    | reactivateMember => exact ⟨if_pos hrole, hsender⟩
    | updateMemberRole => exact ⟨if_pos hrole, hsender⟩
    | removeMember => cases ha

/-- Who is given the role rules the pool. -/
theorem exec_grantee (h : call.exec config freshId ctx pool = .ok (pool', evs)) (hg : call.grantee = some addr) :
    pool'.Rules addr := by
  cases call with
  | addMember a role tags =>
    rw [grantee, Option.ite_none_right_eq_some, Option.some.injEq] at hg
    obtain ⟨hrole, rfl⟩ := hg
    obtain ⟨_, ⟨dr, hd, rfl⟩, _⟩ := Pool.addMember_ok h
    obtain ⟨_, ⟨m, rfl, ha, _, rfl⟩, _⟩ := Pool.addOrReactivate_ok hd
    exact ⟨m, AList.lookup_insert _, ha, hrole⟩
  | updateMemberRole a newRole =>
    rw [grantee, Option.ite_none_right_eq_some, Option.some.injEq] at hg
    obtain ⟨hrole, rfl⟩ := hg
    obtain ⟨_, _, m, _, ha, rfl, _⟩ := Pool.updateMemberRole_ok h
    exact ⟨_, AList.lookup_insert _, ha, hrole⟩
  | _ => cases hg

end Exec

end PoolCall

/-- The creator rules a new pool, and nobody else does. -/
theorem Pool.createPool_rules {config : AdminConfig} {id dataroomId : ID} {p : Params} {ctx : Ctx} {pool : Pool} {evs : List Event}
    (h : createPool config id dataroomId p ctx = .ok (pool, evs)) {addr : Address} : pool.Rules addr ↔ addr = ctx.sender := by
  obtain ⟨_, _, _, _, _, _, _, _, _, hmembers, _⟩ := createPool_ok h
  rw [Rules, hmembers]
  constructor
  · rintro ⟨m, hl, -⟩
    obtain ⟨rfl, -⟩ | hl := Table.lookup_insert_cases hl
    · rfl
    · cases hl
  · rintro rfl
    have hrole : Types.hasRole Types.roleOwner Types.roleOwnerUp = true := by decide
    exact ⟨_, AList.lookup_insert _, rfl, hrole⟩

namespace World

/-- The rulers of the pool, where it exists, are in the set. -/
def RuledWithin (S : Set Address) (poolId : ID) (w : World) : Prop :=
  ∀ pool, w.pools.lookup poolId = some pool → ∀ addr, pool.Rules addr → addr ∈ S

/-- A step in which the pool is not created by somebody outside of the set, and nobody in the set gives the role of an owner or an
administrator to somebody outside of it. What those outside do is not restricted. -/
structure Entrusts (S : Set Address) (poolId : ID) (w : World) (s : Step) : Prop where
  founder : ∀ p, s.call = .createPool p → w.idsCreated = poolId → (w.ctxOf s).sender ∈ S
  grantee : ∀ call addr, s.call = .onPool poolId call → call.grantee = some addr → (w.ctxOf s).sender ∈ S → addr ∈ S

/-- A step that entrusts nobody else keeps the pool ruled within the set. -/
theorem RuledWithin.step {S : Set Address} {poolId : ID} {w w' : World} {s : Step} (hr : RuledWithin S poolId w)
    (hg : Entrusts S poolId w s) (h : w.step s = .ok w') : RuledWithin S poolId w' := by
  intro pool' hl' addr hrules
  obtain ⟨evs, hd, _⟩ := step_does h
  cases hd with
  | admin _ _ hp =>
    rw [hp] at hl'
    exact hr pool' hl' addr hrules
  | createPool hc hnew hp =>
    rw [hp] at hl'
    obtain ⟨hid, rfl⟩ | hl' := Table.lookup_insert_cases hl'
    · rw [(Pool.createPool_rules hnew).1 hrules]
      exact hg.founder _ hc hid.symm
    · exact hr pool' hl' addr hrules
  | @onPool _ call pool _ hc hl hx hp =>
    rw [hp] at hl'
    obtain ⟨rfl, rfl⟩ | hl' := Table.lookup_insert_cases hl'
    · obtain hbefore | ⟨hgrant, hsender⟩ := PoolCall.exec_rules hx hrules
      · exact hr pool hl addr hbefore
      · exact hg.grantee call addr hc hgrant (hr pool hl _ hsender)
    · exact hr pool' hl' addr hrules

/-- A step that entrusts the pool to somebody outside of the set, and succeeds, makes that address a ruler. -/
theorem Entrusts.of_step {S : Set Address} {poolId : ID} {w w' : World} {s : Step} (h : w.step s = .ok w')
    (hr : RuledWithin S poolId w') : Entrusts S poolId w s := by
  obtain ⟨evs, hd, _⟩ := step_does h
  constructor
  · rintro p hc rfl
    cases hd with
    | admin hc' | onPool hc' =>
      rw [hc] at hc'
      cases hc'
    | createPool hc' hnew hp =>
      exact hr _ (by rw [hp, Table.lookup_insert, if_pos rfl]) _ ((Pool.createPool_rules hnew).2 rfl)
  · intro call addr hc hgrant _
    obtain ⟨pool, pool', evs, _, hl', hx⟩ := step_onPool h hc
    exact hr pool' hl' addr (PoolCall.exec_grantee hx hgrant)

/-- From any state in which the rulers of a pool are in a set, they are in the set in every state of a run exactly when no step of the
run lets somebody outside create the pool, or has somebody in the set give the role away to somebody outside: whatever those outside
call, they never come to rule the pool by themselves. -/
theorem ruled_within_iff {w₀ w : World} {steps : List Step} (S : Set Address) (poolId : ID) (h : Steps.run step w₀ steps = .ok w)
    (h0 : RuledWithin S poolId w₀) :
    (∀ past rest m, steps = past ++ rest → Steps.run step w₀ past = .ok m → RuledWithin S poolId m) ↔
      Steps.AllSteps step (Entrusts S poolId) w₀ steps := by
  refine Steps.always_iff_allSteps step (fun _ => RuledWithin S poolId) (fun _ => RuledWithin S poolId) h0 ?_ ?_ ?_ h
  · exact fun _ m s m' _ hm hg hs => hm.step hg hs
  · exact fun _ _ _ hm => hm
  · exact fun _ m s m' _ _ hbad hs hr => hbad (.of_step hs hr)

/-- The owner alone rules the pool, although a reviewer is added and calls, and a stranger creates a pool. -/
theorem ruled_within_iff_sample :
    ∃ w, run Sample.owner [Sample.createPool, Sample.createDocument, Sample.byOwner (.addMember 8 Types.roleReviewer []),
        Sample.approve] = .ok w ∧ RuledWithin {7} 2 (genesis Sample.owner) ∧
      ((∀ past rest m, [Sample.createPool, Sample.createDocument, Sample.byOwner (.addMember 8 Types.roleReviewer []),
          Sample.approve] = past ++ rest → Steps.run step (genesis Sample.owner) past = .ok m → RuledWithin {7} 2 m) ↔
        Steps.AllSteps step (Entrusts {7} 2) (genesis Sample.owner)
          [Sample.createPool, Sample.createDocument, Sample.byOwner (.addMember 8 Types.roleReviewer []), Sample.approve]) := by
  have h0 : RuledWithin {7} 2 (genesis Sample.owner) := fun pool hl => by cases hl
  refine ⟨_, rfl, h0, ?_⟩
  exact @ruled_within_iff (genesis Sample.owner) _ [Sample.createPool, Sample.createDocument,
    Sample.byOwner (.addMember 8 Types.roleReviewer []), Sample.approve] {7} 2 rfl h0

end World

end BrineVault
