import BrineVault.Api.Joining

/-!
# Organisations and their founders

Any number of calls of `createOrg` and `joinOrg` over one database. `createOrg` tests that its user has no organisation, inserts the row and
moves the user, in three statements. Another call of the same user that has passed its test before moves the user once more, and what
was founded in between has nobody left.
-/

namespace BrineVault

open Interleaving

/-! ## The calls -/

/-- A call of `createOrg`, with the id that its row is given. -/
structure CreateCall where
  orgId : Uuid
  userId : Uuid
  dto : CreateOrgDto
  deriving DecidableEq, Repr

/-- The row that the call inserts. -/
def CreateCall.row (c : CreateCall) : OrganizationRow :=
  { id := c.orgId, name := c.dto.name, legalName := c.dto.legalName, createdByUserId := some c.userId }

inductive OrgCall where
  | create (c : CreateCall)
  | join (c : JoinCall)
  deriving DecidableEq, Repr

/-- The program of a call, with the answer of either service. -/
def OrgCall.program : OrgCall → Api (OrganizationRow ⊕ JoinedOrg)
  | create c => do return .inl (← OrgsService.createOrg c.orgId c.userId c.dto)
  | join c => do return .inr (← OrgsService.joinOrg c.userId c.dto)

/-- Calls of `createOrg` and `joinOrg` side by side. -/
def founding (b : Backend) (calls : List OrgCall) : ApiPool (OrganizationRow ⊕ JoinedOrg) :=
  { store := b, threads := calls.map OrgCall.program }

/-- The id that a call draws. -/
def OrgCall.draws : OrgCall → Option Uuid
  | create c => some c.orgId
  | join _ => none

/-- The ids that the calls draw. -/
def drawnIds (calls : List OrgCall) : List Uuid := calls.filterMap OrgCall.draws

/-- What `gen_random_uuid()` and the foreign keys promise: the ids that are drawn are all different, and no row has one of them or refers to
it. -/
structure FreshIds (b : Backend) (calls : List OrgCall) : Prop where
  nodup : (drawnIds calls).Nodup
  organizations : ∀ row ∈ b.accounts.organizations, row.id ∉ drawnIds calls
  users : ∀ row ∈ b.accounts.users, ∀ id ∈ row.orgId, id ∉ drawnIds calls
  invites : ∀ row ∈ b.accounts.inviteCodes, row.orgId ∉ drawnIds calls

/-! ## Where the calls are -/

/-- Where a call of `createOrg` is: before each of its commands, and at its ends. -/
inductive CreateStage where
  | findUser
  | insertOrg
  | moveUser
  | created
  | refused (e : HttpException)

namespace CreateStage

/-- What is left of the call. -/
def program (c : CreateCall) : CreateStage → Api OrganizationRow
  | findUser => OrgsService.createOrg c.orgId c.userId c.dto
  | insertOrg => do
    organizationsCreate c.row
    usersUpdate c.userId (some c.orgId) Roles.orgAdmin
    return c.row
  | moveUser => do
    usersUpdate c.userId (some c.orgId) Roles.orgAdmin
    return c.row
  | created => .ret c.row
  | refused e => .throw e

/-- Where the call is after its next command. -/
def next (c : CreateCall) (b : Backend) : CreateStage → CreateStage
  | findUser =>
    match b.accounts.userById c.userId with
    | none => refused (NotFoundException "USER_NOT_FOUND" "User not found")
    | some user =>
      if user.orgId ≠ none then refused (ConflictException "ALREADY_IN_ORG" "User already belongs to an organization")
      else insertOrg
  | insertOrg => moveUser
  | moveUser => created
  | s => s

/-- A command of the call leads to its next stage. -/
theorem program_next {c : CreateCall} {s : CreateStage} {b : Backend} {cmd : Command} {k : cmd.Reply → Api OrganizationRow}
    (h : s.program c = .call cmd k) : k (b.exec cmd).1 = (s.next c b).program c := by
  cases s with
  | findUser =>
    cases h
    cases hu : b.accounts.userById c.userId with
    | none =>
      simp only [next, Backend.exec, Accounts.exec, hu]
      rfl
    | some user =>
      simp only [next, Backend.exec, Accounts.exec, hu]
      by_cases ho : user.orgId = none
      · rw [if_neg (not_not.2 ho)]
        change (if user.orgId ≠ none then _ else _) = _
        rw [if_neg (not_not.2 ho)]
        rfl
      · rw [if_pos ho]
        change (if user.orgId ≠ none then _ else _) = _
        rw [if_pos ho]
        rfl
  | insertOrg =>
    cases h
    rfl
  | moveUser =>
    cases h
    rfl
  | created => cases h
  | refused => cases h

/-- The call has inserted its row. -/
def hasRow : CreateStage → Bool
  | moveUser | created => true
  | _ => false

/-- The call has found its user. -/
def hasUser : CreateStage → Bool
  | insertOrg | moveUser => true
  | _ => false

/-- The call has moved its user. -/
def isFounded : CreateStage → Bool
  | created => true
  | _ => false

end CreateStage

/-- A call, with the stage it is at. -/
inductive OrgStage where
  | create (c : CreateCall) (s : CreateStage)
  | join (c : JoinCall) (s : JoinStage)

namespace OrgStage

def call : OrgStage → OrgCall
  | create c _ => .create c
  | join c _ => .join c

/-- Where a call starts. -/
def start : OrgCall → OrgStage
  | .create c => create c .findUser
  | .join c => join c .findUser

def program : OrgStage → Api (OrganizationRow ⊕ JoinedOrg)
  | create c s => do return .inl (← s.program c)
  | join c s => do return .inr (← s.program c)

def next (b : Backend) : OrgStage → OrgStage
  | create c s => .create c (s.next c b)
  | join c s => .join c (s.next c b)

/-- The command that a call sends next is that of its service. -/
theorem call_of_bind {α β : Type} {p : Api α} {f : α → β} {cmd : Command} {k : cmd.Reply → Api β}
    (h : (p >>= fun a => pure (f a)) = .call cmd k) :
    ∃ k₀, p = .call cmd k₀ ∧ ∀ r, k r = (k₀ r >>= fun a => pure (f a)) := by
  cases p with
  | ret a => cases h
  | throw e => cases h
  | call c k₀ =>
    rw [Prog.call_bind] at h
    cases h
    exact ⟨k₀, rfl, fun _ => rfl⟩

/-- A command of any call of an organisation leads to its next stage. -/
theorem program_next {l : OrgStage} {b : Backend} {cmd : Command} {k : cmd.Reply → Api (OrganizationRow ⊕ JoinedOrg)}
    (h : l.program = .call cmd k) : k (b.exec cmd).1 = (l.next b).program := by
  cases l with
  | create c s =>
    obtain ⟨k₀, hp, hk⟩ := call_of_bind h
    rw [hk, CreateStage.program_next hp]
    rfl
  | join c s =>
    obtain ⟨k₀, hp, hk⟩ := call_of_bind h
    rw [hk, JoinStage.program_next hp]
    rfl

end OrgStage

/-! ## Founders who are moved away -/

/-- Every organisation that has been created since the state `b` has a user who is its administrator. -/
def EveryOrgHasAdmin (b b' : Backend) : Prop :=
  ∀ row ∈ b'.accounts.organizations, row ∉ b.accounts.organizations →
    ∃ user ∈ b'.accounts.users, user.orgId = some row.id ∧ Roles.hasRole user.roleInOrg Roles.orgAdmin = true

/-- In the turn a call moves a user who is in the organisation. -/
def TakesFrom (o : Uuid) (m : ApiPool (OrganizationRow ⊕ JoinedOrg)) (t : Turn Nat) : Prop :=
  ∃ i userId orgId role k, t = .thread i ∧ m.threads[i]? = some (.call (.sql (.usersUpdate userId orgId role)) k) ∧
    m.store.orgOf userId = some (some o)

/-- In the turn a call moves a user who is in an organisation that one of the calls has created. -/
def TakesFounder (calls : List OrgCall) (m : ApiPool (OrganizationRow ⊕ JoinedOrg)) (t : Turn Nat) : Prop :=
  ∃ o ∈ drawnIds calls, TakesFrom o m t

/-- No user is in the organisation. -/
def Backend.Deserted (b : Backend) (o : Uuid) : Prop := ∀ row ∈ b.accounts.users, row.orgId ≠ some o

/-- What a stage of `createOrg` says about the tables, where `lost` says whether its founder has been moved away. -/
structure CreateStage.At (b : Backend) (lost : Prop) (c : CreateCall) (s : CreateStage) : Prop where
  founder : ∀ row ∈ b.accounts.users, row.orgId = some c.orgId → row.id = c.userId ∧ row.roleInOrg = Roles.orgAdmin
  before : s.isFounded = false → b.Deserted c.orgId ∧ ¬ lost
  kept : s.isFounded = true → ¬ lost → b.orgOf c.userId = some (some c.orgId)
  gone : s.isFounded = true → lost → b.Deserted c.orgId
  user : s.hasUser = true → b.orgOf c.userId ≠ none
  row : s.hasRow = true → c.row ∈ b.accounts.organizations

/-- The row that `orgOf` reads. -/
theorem exists_of_orgOf {b : Backend} {id : Uuid} {o : Option Uuid} (h : b.orgOf id = some o) :
    ∃ row ∈ b.accounts.users, row.id = id ∧ row.orgId = o := by
  obtain ⟨row, hrow, ho⟩ := Option.map_eq_some_iff.1 h
  obtain ⟨hm, hid⟩ := @Rows.find_some _ _ _ UserRow.id _ _ _ hrow
  exact ⟨row, hm, hid, ho⟩

/-- The rows of users after an update: those with the id have the new values, the others are as they were. -/
theorem mem_usersUpdate {b : Backend} {id : Uuid} {orgId : Option Uuid} {role : Nat} {row : UserRow}
    (h : row ∈ (b.exec (.sql (.usersUpdate id orgId role))).2.accounts.users) :
    (row.id = id ∧ row.orgId = orgId ∧ row.roleInOrg = role) ∨ (row.id ≠ id ∧ row ∈ b.accounts.users) := by
  obtain ⟨old, hold, rfl⟩ := List.mem_map.1 h
  split
  · rename_i hid
    exact .inl ⟨hid, rfl, rfl⟩
  · rename_i hid
    exact .inr ⟨hid, hold⟩

namespace CreateStage

variable {b b' : Backend} {lost lost' : Prop} {c : CreateCall} {s s' : CreateStage}

/-- Tables with the same users and no fewer organisations. -/
theorem At.congr (h : s.At b lost c) (husers : b'.accounts.users = b.accounts.users)
    (horgs : ∀ row ∈ b.accounts.organizations, row ∈ b'.accounts.organizations) (hlost : lost' ↔ lost) : s.At b' lost' c := by
  have horg : b'.orgOf c.userId = b.orgOf c.userId := by
    rw [Backend.orgOf, Accounts.userById, husers]
    rfl
  refine ⟨by rw [husers]; exact h.founder, fun hs => ?_, fun hs hl => ?_, fun hs hl => ?_, ?_, fun hs => horgs _ (h.row hs)⟩
  · obtain ⟨hd, hn⟩ := h.before hs
    exact ⟨by rw [Backend.Deserted, husers]; exact hd, by rwa [hlost]⟩
  · rw [horg]
    exact h.kept hs fun hl' => hl (hlost.2 hl')
  · rw [Backend.Deserted, husers]
    exact h.gone hs (hlost.1 hl)
  · rw [horg]
    exact h.user

/-- A user who is moved by another call, to another organisation. -/
theorem At.usersUpdate (h : s.At b lost c) {id o : Uuid} {role : Nat} (ho : o ≠ c.orgId) :
    s.At (b.exec (.sql (.usersUpdate id (some o) role))).2 (lost ∨ b.orgOf id = some (some c.orgId)) c := by
  have hrows : ∀ row ∈ (b.exec (.sql (.usersUpdate id (some o) role))).2.accounts.users, row.orgId = some c.orgId →
      row.id ≠ id ∧ row ∈ b.accounts.users := by
    intro row hrow horg
    obtain ⟨_, hmoved, _⟩ | hold := mem_usersUpdate hrow
    · rw [hmoved, Option.some.injEq] at horg
      exact absurd horg ho
    · exact hold
  have hdeserted : b.Deserted c.orgId → (b.exec (.sql (.usersUpdate id (some o) role))).2.Deserted c.orgId :=
    fun hd row hrow horg => hd row (hrows row hrow horg).2 horg
  have hfounder : b.orgOf id = some (some c.orgId) → id = c.userId := by
    intro hid
    obtain ⟨row, hm, rfl, horg⟩ := exists_of_orgOf hid
    exact (h.founder row hm horg).1
  refine ⟨fun row hrow horg => h.founder row (hrows row hrow horg).2 horg, fun hs => ?_, fun hs hl => ?_, fun hs hl => ?_,
    fun hs => ?_, h.row⟩
  · obtain ⟨hd, hn⟩ := h.before hs
    refine ⟨hdeserted hd, ?_⟩
    rintro (hl | hid)
    · exact hn hl
    · obtain ⟨row, hm, _, horg⟩ := exists_of_orgOf hid
      exact hd row hm horg
  · obtain ⟨hl, hid⟩ := not_or.1 hl
    have hkept := h.kept hs hl
    have hne : c.userId ≠ id := by
      rintro rfl
      exact hid hkept
    rw [orgOf_usersUpdate, if_neg hne, hkept]
  · obtain hl | hid := hl
    · exact hdeserted (h.gone hs hl)
    · -- The founder is the user who is moved, and nobody else was in the organisation.
      intro row hrow horg
      obtain ⟨hne, hm⟩ := hrows row hrow horg
      exact hne ((h.founder row hm horg).1.trans (hfounder hid).symm)
  · rw [orgOf_usersUpdate]
    split
    · rw [ne_eq, Option.map_eq_none_iff]
      exact h.user hs
    · exact h.user hs

/-- The call moves its own user. -/
theorem At.found (h : moveUser.At b lost c) :
    created.At (b.exec (.sql (.usersUpdate c.userId (some c.orgId) Roles.orgAdmin))).2
      (lost ∨ b.orgOf c.userId = some (some c.orgId)) c := by
  obtain ⟨hd, hn⟩ := h.before rfl
  refine ⟨fun row hrow horg => ?_, (fun hs => by cases hs), fun _ _ => ?_, fun _ hl => ?_, (fun hs => by cases hs), fun _ => h.row rfl⟩
  · obtain ⟨hid, _, hrole⟩ | ⟨_, hm⟩ := mem_usersUpdate hrow
    · exact ⟨hid, hrole⟩
    · exact absurd horg (hd row hm)
  · obtain ⟨o, ho⟩ := Option.ne_none_iff_exists'.1 (h.user rfl)
    rw [orgOf_usersUpdate, if_pos rfl, ho, Option.map_some]
  · obtain hl | hid := hl
    · exact absurd hl hn
    · obtain ⟨row, hm, _, horg⟩ := exists_of_orgOf hid
      exact absurd horg (hd row hm)

end CreateStage

/-! ## The state of the calls -/

/-- The pool, with the stage of each call; `lost` says which organisations have lost their founder. -/
structure OrgState (b : Backend) (calls : List OrgCall) (ls : List OrgStage) (lost : Uuid → Prop)
    (m : ApiPool (OrganizationRow ⊕ JoinedOrg)) : Prop where
  ofCalls : ls.map OrgStage.call = calls
  labelled : m.Labelled OrgStage.program ls
  creates : ∀ c s, .create c s ∈ ls → s.At m.store (lost c.orgId) c
  joins : ∀ c s, .join c s ∈ ls → ∀ invite, s.held = some invite → invite.orgId ∉ drawnIds calls
  invites : ∀ row ∈ m.store.accounts.inviteCodes, row.orgId ∉ drawnIds calls
  rows : ∀ row ∈ m.store.accounts.organizations, row ∈ b.accounts.organizations ∨
    ∃ c s, .create c s ∈ ls ∧ s.hasRow = true ∧ c.row = row

/-- The drawn ids are those of the calls that create. -/
theorem mem_drawnIds {calls : List OrgCall} {o : Uuid} : o ∈ drawnIds calls ↔ ∃ c, .create c ∈ calls ∧ c.orgId = o := by
  rw [drawnIds, List.mem_filterMap]
  constructor
  · rintro ⟨call, hm, hd⟩
    cases call with
    | create c => exact ⟨c, hm, Option.some.inj hd⟩
    | join c => cases hd
  · rintro ⟨c, hm, rfl⟩
    exact ⟨.create c, hm, rfl⟩

variable {b : Backend} {calls : List OrgCall} {ls : List OrgStage} {lost lost' : Uuid → Prop}
  {m n : ApiPool (OrganizationRow ⊕ JoinedOrg)}

/-- The state at the start. -/
theorem orgState_start (hfresh : FreshIds b calls) :
    OrgState b calls (calls.map OrgStage.start) (fun _ => False) (founding b calls) := by
  refine ⟨?_, ?_, ?_, ?_, hfresh.invites, fun row hrow => .inl hrow⟩
  · rw [List.map_map]
    refine (List.map_congr_left fun call _ => ?_).trans (List.map_id calls)
    cases call <;> rfl
  · rw [Pool.Labelled, List.map_map]
    refine List.map_congr_left fun call _ => ?_
    cases call <;> rfl
  · intro c s hm
    obtain ⟨call, hcall, heq⟩ := List.mem_map.1 hm
    cases call with
    | join => cases heq
    | create c' =>
      cases heq
      have hd : b.Deserted c.orgId := fun row hrow ho => hfresh.users row hrow c.orgId ho (mem_drawnIds.2 ⟨c, hcall, rfl⟩)
      refine ⟨fun row hrow ho => absurd ho (hd row hrow), fun _ => ⟨hd, not_false⟩, ?_, ?_, ?_, ?_⟩ <;> intro hs <;> cases hs
  · intro c s hm invite hheld
    obtain ⟨call, _, heq⟩ := List.mem_map.1 hm
    cases call with
    | create => cases heq
    | join c' =>
      cases heq
      cases hheld

namespace OrgState

/-- Two calls draw two ids. -/
theorem orgId_ne (h : OrgState b calls ls lost m) (hfresh : FreshIds b calls) {i j : Nat} {l : OrgStage} {o : Uuid} {c : CreateCall}
    {s : CreateStage} (hi : ls[i]? = some l) (hl : l.call.draws = some o) (hj : ls[j]? = some (.create c s)) (hij : j ≠ i) :
    o ≠ c.orgId := by
  have hpairs : (ls.map OrgStage.call).Pairwise fun a a' => ∀ x ∈ a.draws, ∀ x' ∈ a'.draws, x ≠ x' := by
    rw [h.ofCalls]
    exact List.pairwise_filterMap.1 hfresh.nodup
  rw [List.pairwise_map, List.pairwise_iff_getElem] at hpairs
  obtain ⟨hilt, higet⟩ := List.getElem?_eq_some_iff.1 hi
  obtain ⟨hjlt, hjget⟩ := List.getElem?_eq_some_iff.1 hj
  have hdraws : c.orgId ∈ (ls[j].call).draws := by
    rw [hjget]
    rfl
  rw [← higet] at hl
  obtain hlt | hlt := Nat.lt_or_gt_of_ne hij
  · exact (hpairs j i hjlt hilt hlt _ hdraws _ hl).symm
  · exact hpairs i j hilt hjlt hlt _ hl _ hdraws

/-- One call takes a turn. -/
theorem set (h : OrgState b calls ls lost m) {i : Nat} {l l' : OrgStage} (hi : ls[i]? = some l) (hcall : l'.call = l.call)
    (hlab : n.Labelled OrgStage.program (ls.set i l'))
    (hothers : ∀ j c s, j ≠ i → ls[j]? = some (.create c s) → s.At n.store (lost' c.orgId) c)
    (hown : ∀ c s, l' = .create c s → s.At n.store (lost' c.orgId) c)
    (hjoin : ∀ c s, l' = .join c s → ∀ invite, s.held = some invite → invite.orgId ∉ drawnIds calls)
    (hinvites : ∀ row ∈ n.store.accounts.inviteCodes, row.orgId ∉ drawnIds calls)
    (hrows : ∀ row ∈ n.store.accounts.organizations, row ∈ m.store.accounts.organizations ∨
      ∃ c s, l' = .create c s ∧ s.hasRow = true ∧ c.row = row)
    (hkeeps : ∀ c s, l = .create c s → s.hasRow = true → ∃ s', l' = .create c s' ∧ s'.hasRow = true) :
    OrgState b calls (ls.set i l') lost' n := by
  have hlt : i < ls.length := (List.getElem?_eq_some_iff.1 hi).1
  refine ⟨?_, hlab, ?_, ?_, hinvites, ?_⟩
  · rw [map_set_of_eq hi hcall]
    exact h.ofCalls
  · intro c s hm
    rcases mem_set_cases hm with heq | ⟨j, hij, hj⟩
    · exact hown c s heq.symm
    · exact hothers j c s hij hj
  · intro c s hm
    rcases mem_set_cases hm with heq | ⟨j, _, hj⟩
    · exact hjoin c s heq.symm
    · exact h.joins c s (List.mem_of_getElem? hj)
  · intro row hrow
    have hset : l' ∈ ls.set i l' := List.mem_set hlt l'
    obtain hold | ⟨c, s, heq, hs, hc⟩ := hrows row hrow
    · obtain hb | ⟨c, s, hm, hs, hc⟩ := h.rows row hold
      · exact .inl hb
      · obtain ⟨j, hj⟩ := List.mem_iff_getElem?.1 hm
        by_cases hij : j = i
        · rw [hij, hi, Option.some.injEq] at hj
          obtain ⟨s', heq, hs'⟩ := hkeeps c s hj hs
          exact .inr ⟨c, s', heq ▸ hset, hs', hc⟩
        · refine .inr ⟨c, s, ?_, hs, hc⟩
          exact List.mem_of_getElem? (by rw [List.getElem?_set_ne (Ne.symm hij), hj])
    · exact .inr ⟨c, s, heq ▸ hset, hs, hc⟩

/-- The turn of a call moves a user out of the organisation when the next command of the call is the update of a user who is in it. -/
theorem takesFrom_iff (h : OrgState b calls ls lost m) {i : Nat} {l : OrgStage} {cmd : Command}
    {k : cmd.Reply → Api (OrganizationRow ⊕ JoinedOrg)} (hi : ls[i]? = some l) (hp : l.program = .call cmd k) {o : Uuid} :
    TakesFrom o m (.thread i) ↔
      ∃ userId orgId role, cmd = .sql (.usersUpdate userId orgId role) ∧ m.store.orgOf userId = some (some o) := by
  have hthread : m.threads[i]? = some (.call cmd k) := by
    rw [show m.threads = ls.map OrgStage.program from h.labelled, List.getElem?_map, hi, Option.map_some, hp]
  constructor
  · rintro ⟨j, userId, orgId, role, k', ht, hj, ho⟩
    cases ht
    rw [hthread, Option.some.injEq, Prog.call.injEq] at hj
    exact ⟨userId, orgId, role, hj.1, ho⟩
  · rintro ⟨userId, orgId, role, rfl, ho⟩
    exact ⟨i, userId, orgId, role, k, rfl, hthread, ho⟩

/-- A turn that moves no user and creates no organisation. -/
theorem read (h : OrgState b calls ls lost m) {i : Nat} {l l' : OrgStage} {cmd : Command}
    {k : cmd.Reply → Api (OrganizationRow ⊕ JoinedOrg)} (hi : ls[i]? = some l) (hp : l.program = .call cmd k)
    (hno : ∀ userId orgId role, cmd ≠ .sql (.usersUpdate userId orgId role)) (hcall : l'.call = l.call)
    (hlab : n.Labelled OrgStage.program (ls.set i l')) (husers : n.store.accounts.users = m.store.accounts.users)
    (horgs : n.store.accounts.organizations = m.store.accounts.organizations)
    (hinvites : ∀ row ∈ n.store.accounts.inviteCodes, row.orgId ∉ drawnIds calls)
    (hown : ∀ c s, l' = .create c s → s.At m.store (lost c.orgId) c)
    (hjoin : ∀ c s, l' = .join c s → ∀ invite, s.held = some invite → invite.orgId ∉ drawnIds calls)
    (hkeeps : ∀ c s, l = .create c s → s.hasRow = false) :
    OrgState b calls (ls.set i l') (fun o => lost o ∨ TakesFrom o m (.thread i)) n := by
  have hlost : ∀ o, (lost o ∨ TakesFrom o m (.thread i)) ↔ lost o := by
    intro o
    refine or_iff_left fun ht => ?_
    obtain ⟨userId, orgId, role, hc, _⟩ := (h.takesFrom_iff hi hp).1 ht
    exact hno userId orgId role hc
  refine h.set hi hcall hlab (fun j c s _ hj => ?_) (fun c s hl' => ?_) hjoin hinvites (fun row hrow => .inl ?_) fun c s hl hs => ?_
  · exact (h.creates c s (List.mem_of_getElem? hj)).congr husers (fun row hrow => by rwa [horgs]) (hlost _)
  · exact (hown c s hl').congr husers (fun row hrow => by rwa [horgs]) (hlost _)
  · rwa [horgs] at hrow
  · rw [hkeeps c s hl] at hs
    cases hs

/-- The turn in which a call moves its user into an organisation that it has drawn, or that none has. -/
theorem update (h : OrgState b calls ls lost m) {i : Nat} {l l' : OrgStage} {userId o : Uuid} {role : Nat}
    {k : Unit → Api (OrganizationRow ⊕ JoinedOrg)} (hi : ls[i]? = some l)
    (hp : l.program = .call (.sql (.usersUpdate userId (some o) role)) k) (hcall : l'.call = l.call)
    (hlab : n.Labelled OrgStage.program (ls.set i l'))
    (hstore : n.store = (m.store.exec (.sql (.usersUpdate userId (some o) role))).2)
    (hne : ∀ j c s, j ≠ i → ls[j]? = some (.create c s) → o ≠ c.orgId)
    (hown : ∀ c s, l' = .create c s → s.At n.store (lost c.orgId ∨ m.store.orgOf userId = some (some c.orgId)) c)
    (hjoin : ∀ c s, l' = .join c s → ∀ invite, s.held = some invite → invite.orgId ∉ drawnIds calls)
    (hkeeps : ∀ c s, l = .create c s → s.hasRow = true → ∃ s', l' = .create c s' ∧ s'.hasRow = true) :
    OrgState b calls (ls.set i l') (fun o => lost o ∨ TakesFrom o m (.thread i)) n := by
  have hlost : ∀ x, (lost x ∨ TakesFrom x m (.thread i)) ↔ (lost x ∨ m.store.orgOf userId = some (some x)) := by
    intro x
    rw [h.takesFrom_iff hi hp]
    refine or_congr_right ⟨?_, fun hx => ⟨userId, some o, role, rfl, hx⟩⟩
    rintro ⟨_, _, _, heq, hx⟩
    cases heq
    exact hx
  refine h.set hi hcall hlab (fun j c s hij hj => ?_) (fun c s hl' => ?_) hjoin ?_ (fun row hrow => .inl ?_) hkeeps
  · rw [hstore]
    refine ((h.creates c s (List.mem_of_getElem? hj)).usersUpdate (hne j c s hij hj)).congr rfl (fun row hrow => hrow) (hlost _)
  · exact (hown c s hl').congr rfl (fun row hrow => hrow) (hlost _)
  · rw [hstore]
    exact h.invites
  · rw [hstore] at hrow
    exact hrow

/-- The turn of a call of `createOrg`. -/
theorem create (h : OrgState b calls ls lost m) (hfresh : FreshIds b calls) {i : Nat} {c : CreateCall} {s : CreateStage}
    {cmd : Command} {k : cmd.Reply → Api (OrganizationRow ⊕ JoinedOrg)} (hi : ls[i]? = some (.create c s))
    (hp : (OrgStage.create c s).program = .call cmd k) (hstore : n.store = (m.store.exec cmd).2)
    (hlab : n.Labelled OrgStage.program (ls.set i (.create c (s.next c m.store)))) :
    OrgState b calls (ls.set i (.create c (s.next c m.store))) (fun o => lost o ∨ TakesFrom o m (.thread i)) n := by
  have hat := h.creates c s (List.mem_of_getElem? hi)
  cases s with
  | findUser =>
    obtain ⟨hd, hn⟩ := hat.before rfl
    have hread : ∀ s' : CreateStage, s'.isFounded = false → s'.hasRow = false →
        (s'.hasUser = true → m.store.orgOf c.userId ≠ none) → s'.At m.store (lost c.orgId) c := by
      intro s' hf hr hu
      exact ⟨hat.founder, fun _ => ⟨hd, hn⟩, fun hs => absurd hs (by simp [hf]), fun hs => absurd hs (by simp [hf]), hu,
        fun hs => absurd hs (by simp [hr])⟩
    cases hp
    refine h.read hi rfl ?_ rfl hlab (by rw [hstore]; rfl) (by rw [hstore]; rfl) ?_ ?_ ?_ ?_
    · intro _ _ _ heq
      cases heq
    · rw [hstore]
      exact h.invites
    rotate_left
    · intro _ _ heq
      cases heq
    · intro c' s' heq
      cases heq
      rfl
    intro c' s' heq
    cases heq
    cases hu : m.store.accounts.userById c.userId with
    | none =>
      simp only [CreateStage.next, hu]
      exact hread _ rfl rfl fun hs => by cases hs
    | some user =>
      simp only [CreateStage.next, hu]
      split
      · exact hread _ rfl rfl fun hs => by cases hs
      · refine hread _ rfl rfl fun _ => ?_
        rw [Backend.orgOf, hu]
        simp
  | insertOrg =>
    cases hp
    have husers : n.store.accounts.users = m.store.accounts.users := by
      rw [hstore]
      rfl
    have horgs : n.store.accounts.organizations = m.store.accounts.organizations ++ [c.row] := by
      rw [hstore]
      rfl
    have hmono : ∀ row ∈ m.store.accounts.organizations, row ∈ n.store.accounts.organizations := by
      intro row hrow
      rw [horgs]
      exact List.mem_append_left _ hrow
    have hlost : ∀ o, (lost o ∨ TakesFrom o m (.thread i)) ↔ lost o := by
      refine fun o => or_iff_left fun ht => ?_
      obtain ⟨_, _, _, heq, _⟩ := (h.takesFrom_iff hi rfl).1 ht
      cases heq
    refine h.set hi rfl hlab (fun j c' s' _ hj => ?_) (fun c' s' heq => ?_) ?_ ?_ (fun row hrow => ?_) fun c' s' heq hs => ?_
    · exact (h.creates c' s' (List.mem_of_getElem? hj)).congr husers hmono (hlost _)
    · cases heq
      obtain ⟨hd, hn⟩ := hat.before rfl
      refine ⟨by rw [husers]; exact hat.founder, fun _ => ⟨by rw [Backend.Deserted, husers]; exact hd, by rwa [hlost]⟩,
        (fun hs => by cases hs), (fun hs => by cases hs), fun _ => ?_, fun _ => ?_⟩
      · have horg : n.store.orgOf c.userId = m.store.orgOf c.userId := by
          rw [Backend.orgOf, Accounts.userById, husers]
          rfl
        rw [horg]
        exact hat.user rfl
      · rw [horgs]
        exact List.mem_append_right _ (List.mem_singleton_self _)
    · intro _ _ heq
      cases heq
    · rw [hstore]
      exact h.invites
    · rw [horgs, List.mem_append, List.mem_singleton] at hrow
      exact hrow.imp id fun heq => ⟨c, .moveUser, rfl, rfl, heq.symm⟩
    · cases heq
      cases hs
  | moveUser =>
    cases hp
    refine h.update hi rfl rfl hlab hstore (fun j c' s' hij hj => h.orgId_ne hfresh hi rfl hj hij) (fun c' s' heq => ?_)
      (fun _ _ heq => by cases heq) fun c' s' heq _ => ⟨.created, by cases heq; rfl, rfl⟩
    cases heq
    rw [hstore]
    exact hat.found
  | created => cases hp
  | refused => cases hp

/-- The turn of a call of `joinOrg`. -/
theorem join (h : OrgState b calls ls lost m) {i : Nat} {c : JoinCall} {s : JoinStage}
    {cmd : Command} {k : cmd.Reply → Api (OrganizationRow ⊕ JoinedOrg)} (hi : ls[i]? = some (.join c s))
    (hp : (OrgStage.join c s).program = .call cmd k) (hstore : n.store = (m.store.exec cmd).2)
    (hlab : n.Labelled OrgStage.program (ls.set i (.join c (s.next c m.store)))) :
    OrgState b calls (ls.set i (.join c (s.next c m.store))) (fun o => lost o ∨ TakesFrom o m (.thread i)) n := by
  have hheld := h.joins c s (List.mem_of_getElem? hi)
  have hnext : ∀ invite, (s.next c m.store).held = some invite → invite.orgId ∉ drawnIds calls := by
    intro invite hinvite
    rcases JoinStage.held_next hinvite with hinvite | hinvite
    · exact hheld invite hinvite
    · exact h.invites invite (List.mem_of_find?_eq_some hinvite)
  -- All commands but one leave the users, the organisations, and the organisations of the invites as they are.
  have hquiet : (∀ userId orgId role, cmd ≠ .sql (.usersUpdate userId orgId role)) →
      n.store.accounts.users = m.store.accounts.users → n.store.accounts.organizations = m.store.accounts.organizations →
      (∀ row ∈ n.store.accounts.inviteCodes, row.orgId ∉ drawnIds calls) →
      OrgState b calls (ls.set i (.join c (s.next c m.store))) (fun o => lost o ∨ TakesFrom o m (.thread i)) n := by
    intro hno husers horgs hinvites
    refine h.read hi hp hno rfl hlab husers horgs hinvites ?_ ?_ ?_
    · intro _ _ heq
      cases heq
    · intro c' s' heq
      cases heq
      exact hnext
    · intro _ _ heq
      cases heq
  have hread : (∀ userId orgId role, cmd ≠ .sql (.usersUpdate userId orgId role)) → n.store.accounts = m.store.accounts →
      OrgState b calls (ls.set i (.join c (s.next c m.store))) (fun o => lost o ∨ TakesFrom o m (.thread i)) n := by
    intro hno haccounts
    exact hquiet hno (by rw [haccounts]) (by rw [haccounts]) (by rw [haccounts]; exact h.invites)
  cases s with
  | findUser | findInvite | testInvite | findOrg | readClock =>
    cases hp
    refine hread ?_ (by rw [hstore]; rfl)
    intro _ _ _ heq
    cases heq
  | moveUser row =>
    cases hp
    refine h.update hi rfl rfl hlab hstore (fun j c' s' _ hj heq => ?_) ?_ ?_ ?_
    · refine hheld row rfl (heq ▸ mem_drawnIds.2 ⟨c', ?_, rfl⟩)
      rw [← h.ofCalls]
      exact List.mem_map.2 ⟨_, List.mem_of_getElem? hj, rfl⟩
    · intro _ _ heq
      cases heq
    · intro c' s' heq
      cases heq
      exact hheld
    · intro _ _ heq
      cases heq
  | countUse row =>
    cases hp
    have hno : ∀ userId orgId role, Command.sql (.inviteCodesIncrementUses row.id) ≠ .sql (.usersUpdate userId orgId role) := by
      intro _ _ _ heq
      cases heq
    cases hc : JoinStage.countable m.store row.id with
    | true =>
      have hacc := exec_increment hc
      refine hquiet hno (by rw [hstore, hacc]) (by rw [hstore, hacc]) ?_
      rw [hstore, hacc]
      intro r hr
      obtain ⟨old, hold, rfl⟩ := List.mem_map.1 hr
      rw [(InviteCodeRow.of_terms (countIn_terms row.id old)).2.1]
      exact h.invites old hold
    | false => exact hread hno (by rw [hstore, exec_increment_refused hc])
  | joined => cases hp
  | refused => cases hp
  | uncounted => cases hp

/-- A turn of the pool. -/
theorem step (h : OrgState b calls ls lost m) (hfresh : FreshIds b calls) {t : Turn Nat}
    (ht : Interleaving.step Backend.exec Backend.elapse m t = .ok n) :
    ∃ ls', OrgState b calls ls' (fun o => lost o ∨ TakesFrom o m t) n := by
  obtain ⟨ms, rfl, hstore, hlab⟩ | ⟨i, l, cmd, k, rfl, hi, hp, hstore, hlab⟩ := labelled_step h.labelled ht
  · have hlost : ∀ o, (lost o ∨ TakesFrom o m (.event ms)) ↔ lost o := by
      refine fun o => or_iff_left ?_
      rintro ⟨_, _, _, _, _, heq, _⟩
      cases heq
    have hacc : n.store.accounts = m.store.accounts := by
      rw [hstore]
      rfl
    refine ⟨ls, h.ofCalls, hlab, fun c s hm => ?_, h.joins, by rw [hacc]; exact h.invites, by rw [hacc]; exact h.rows⟩
    exact (h.creates c s hm).congr (by rw [hacc]) (fun row hrow => by rwa [hacc]) (hlost _)
  · have hnext := hlab (l.next m.store) (OrgStage.program_next hp).symm
    cases l with
    | create c s => exact ⟨_, h.create hfresh hi hp hstore hnext⟩
    | join c s => exact ⟨_, h.join hi hp hstore hnext⟩

/-- What has been lost, said in another way. -/
theorem congr (h : OrgState b calls ls lost m) (hlost : ∀ o, lost' o ↔ lost o) : OrgState b calls ls lost' m :=
  ⟨h.ofCalls, h.labelled, fun c s hm => (h.creates c s hm).congr rfl (fun _ hrow => hrow) (hlost _), h.joins, h.invites, h.rows⟩

end OrgState

/-! ## Runs -/

/-- Every state of a run has the calls in some stages, and the organisations that have lost their founder are those from which a turn of the
run has taken a user. -/
theorem orgState_run (hfresh : FreshIds b calls) {ts : Schedule}
    (hr : Steps.run (step Backend.exec Backend.elapse) (founding b calls) ts = .ok m) :
    ∃ ls, OrgState b calls ls
      (fun o => Steps.SomeStep (step Backend.exec Backend.elapse) (TakesFrom o) (founding b calls) ts) m := by
  refine Steps.run_invariant (step Backend.exec Backend.elapse) (fun ts m => ∃ ls, OrgState b calls ls
    (fun o => Steps.SomeStep (step Backend.exec Backend.elapse) (TakesFrom o) (founding b calls) ts) m) ?_ ?_ hr
  · exact ⟨_, (orgState_start hfresh).congr fun o => iff_false_intro (Steps.not_someStep_nil _)⟩
  · rintro ts m t n hr ⟨ls, h⟩ ht
    obtain ⟨ls', h'⟩ := h.step hfresh ht
    exact ⟨ls', h'.congr fun o => Steps.someStep_snoc _ hr⟩

/-- At the end a call of `createOrg` that has inserted its row has moved its user. -/
theorem OrgState.founded (h : OrgState b calls ls lost m) (hf : m.Finished) {c : CreateCall} {s : CreateStage}
    (hm : .create c s ∈ ls) (hs : s.hasRow = true) : s.isFounded = true := by
  have hthread : (OrgStage.create c s).program ∈ m.threads := by
    rw [show m.threads = ls.map OrgStage.program from h.labelled]
    exact List.mem_map_of_mem hm
  have hdone := hf _ hthread
  cases s with
  | created => rfl
  | moveUser => cases hdone
  | _ => cases hs

/-- An organisation from which a user has been taken was created by its call. -/
theorem OrgState.founded_of_lost (h : OrgState b calls ls lost m) {c : CreateCall} (hc : .create c ∈ calls) (hl : lost c.orgId) :
    ∃ s, .create c s ∈ ls ∧ s.isFounded = true := by
  rw [← h.ofCalls] at hc
  obtain ⟨l, hm, hcall⟩ := List.mem_map.1 hc
  cases l with
  | join => cases hcall
  | create c' s =>
    cases hcall
    refine ⟨s, hm, ?_⟩
    by_contra hs
    exact ((h.creates c s hm).before (by simpa using hs)).2 hl

/-- When all calls have finished, every organisation that they have created has an administrator exactly when no turn moved a user out of one
of these organisations. -/
theorem every_org_has_admin_iff (hfresh : FreshIds b calls) {ts : Schedule}
    (hr : Steps.run (step Backend.exec Backend.elapse) (founding b calls) ts = .ok m) (hf : m.Finished) :
    EveryOrgHasAdmin b m.store ↔
      Steps.AllSteps (step Backend.exec Backend.elapse) (fun m t => ¬ TakesFounder calls m t) (founding b calls) ts := by
  obtain ⟨ls, h⟩ := orgState_run hfresh hr
  constructor
  · rintro hall past t rest m' hts hm' ⟨o, ho, htakes⟩
    obtain ⟨c, hc, rfl⟩ := mem_drawnIds.1 ho
    have hlost : Steps.SomeStep (step Backend.exec Backend.elapse) (TakesFrom c.orgId) (founding b calls) ts :=
      ⟨past, t, rest, m', hts, hm', htakes⟩
    obtain ⟨s, hm, hs⟩ := h.founded_of_lost hc hlost
    have hat := h.creates c s hm
    have hnew : c.row ∉ b.accounts.organizations := fun hold => hfresh.organizations _ hold ho
    have hrow : s.hasRow = true := by
      cases s with
      | created => rfl
      | _ => cases hs
    obtain ⟨user, huser, horg, -⟩ := hall c.row (hat.row hrow) hnew
    exact hat.gone hs hlost user huser horg
  · intro hall row hrow hnew
    obtain hold | ⟨c, s, hm, hs, rfl⟩ := h.rows row hrow
    · exact absurd hold hnew
    · have hat := h.creates c s hm
      have hdrawn : c.orgId ∈ drawnIds calls := by
        rw [← h.ofCalls]
        exact mem_drawnIds.2 ⟨c, List.mem_map_of_mem hm, rfl⟩
      have hkept := hat.kept (h.founded hf hm hs) fun ⟨past, t, rest, m', hts, hm', htakes⟩ =>
        hall past t rest m' hts hm' ⟨_, hdrawn, htakes⟩
      obtain ⟨user, huser, _, horg⟩ := exists_of_orgOf hkept
      refine ⟨user, huser, horg, ?_⟩
      rw [(hat.founder user huser horg).2]
      rfl

namespace Sample

/-- A user without an organisation. -/
def newcomer : Backend :=
  { backend with accounts := { users := [Accounts.newUser (.given 7) "0x7"], organizations := [], inviteCodes := [] } }

/-- The user, with two requests for an organisation. -/
def foundingCalls : List OrgCall :=
  [.create ⟨.given 1, .given 7, ⟨"A", none⟩⟩, .create ⟨.given 2, .given 7, ⟨"B", none⟩⟩]

/-- The newcomer's id is new. -/
theorem freshIds_newcomer : FreshIds newcomer foundingCalls :=
  ⟨by decide, by decide, by decide, by decide⟩

end Sample

/-- Two calls of a user, one after the other: the second is refused. -/
theorem every_org_has_admin_iff_sample :
    ∃ m, (founding Sample.newcomer Sample.foundingCalls).run (Sample.turnsOf 0 3 ++ Sample.turnsOf 1 1) = .ok m ∧ m.Finished ∧
      (EveryOrgHasAdmin Sample.newcomer m.store ↔
        Steps.AllSteps (step Backend.exec Backend.elapse) (fun m t => ¬ TakesFounder Sample.foundingCalls m t)
          (founding Sample.newcomer Sample.foundingCalls) (Sample.turnsOf 0 3 ++ Sample.turnsOf 1 1)) :=
  ⟨_, rfl, by decide +kernel, every_org_has_admin_iff Sample.freshIds_newcomer rfl (by decide +kernel)⟩

/-- Both calls test the user before either moves it: the first organisation is left without a user. -/
theorem org_without_admin :
    ∃ m, (founding Sample.newcomer Sample.foundingCalls).run
        (Sample.turnsOf 0 1 ++ Sample.turnsOf 1 1 ++ Sample.turnsOf 0 2 ++ Sample.turnsOf 1 2) = .ok m ∧ m.Finished ∧
      (∃ row ∈ m.store.accounts.organizations, row.id = .given 1 ∧ ∀ user ∈ m.store.accounts.users, user.orgId ≠ some row.id) ∧
      ¬ EveryOrgHasAdmin Sample.newcomer m.store := by
  have hleft : ∀ user ∈ [({ Accounts.newUser (.given 7) "0x7" with orgId := some (.given 2), roleInOrg := Roles.orgAdmin } : UserRow)],
      user.orgId ≠ some (.given 1) := by
    decide
  refine ⟨_, rfl, by decide +kernel, ⟨_, List.mem_cons_self .., rfl, hleft⟩, fun h => ?_⟩
  obtain ⟨user, huser, horg, _⟩ := h _ (List.mem_cons_self ..) (List.not_mem_nil)
  exact hleft user huser horg

end BrineVault
