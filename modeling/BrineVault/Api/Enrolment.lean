import BrineVault.Api.Service

/-!
# The users and their organisations

The table of the users keeps one row for each id, and no row is without a role. The requests that write organisations and invites leave
the sessions alone.
-/

namespace BrineVault

open Interleaving

/-! ## The accounts -/

namespace Accounts

/-- No two users have one id, and every user has a role. -/
structure WellFormed (db : Accounts) : Prop where
  ids : (db.users.map (·.id)).Nodup
  roles : ∀ row ∈ db.users, row.roleInOrg ≠ 0

variable {db : Accounts}

/-- A new user has a role. -/
theorem roles_upsert (h : ∀ row ∈ db.users, row.roleInOrg ≠ 0) (id : Uuid) (address : String) :
    ∀ row ∈ (db.exec (.usersUpsertByWallet id address)).2.users, row.roleInOrg ≠ 0 := by
  unfold exec
  dsimp only
  split
  · exact h
  · intro row hrow
    rcases List.mem_append.1 hrow with hrow | hrow
    · exact h row hrow
    · obtain rfl := List.mem_singleton.1 hrow
      exact Nat.one_ne_zero

/-- An update to a role of an organisation leaves no user with role 0. -/
theorem roles_update (h : ∀ row ∈ db.users, row.roleInOrg ≠ 0) (id : Uuid) (orgId : Option Uuid) {roleInOrg : Nat} (hrole : roleInOrg ≠ 0) :
    ∀ row ∈ (db.exec (.usersUpdate id orgId roleInOrg)).2.users, row.roleInOrg ≠ 0 := by
  intro row hrow
  obtain ⟨old, hold, rfl⟩ := List.mem_map.1 hrow
  split
  · exact hrole
  · exact h old hold

/-- An upsert under a new id keeps the accounts well formed. -/
theorem WellFormed.upsert (h : db.WellFormed) {id : Uuid} (hid : ∀ row ∈ db.users, row.id ≠ id) (address : String) :
    (db.exec (.usersUpsertByWallet id address)).2.WellFormed := by
  refine ⟨?_, roles_upsert h.roles id address⟩
  unfold exec
  dsimp only
  split
  · exact h.ids
  · have hnew : id ∉ db.users.map (·.id) := by
      intro hmem
      obtain ⟨row, hrow, rfl⟩ := List.mem_map.1 hmem
      exact hid row hrow rfl
    rw [List.map_append]
    exact List.Nodup.append h.ids (List.nodup_singleton _) (List.disjoint_singleton.2 hnew)

/-- An update leaves every id as it is. -/
theorem ids_update (db : Accounts) (id : Uuid) (orgId : Option Uuid) (roleInOrg : Nat) :
    (db.exec (.usersUpdate id orgId roleInOrg)).2.users.map (·.id) = db.users.map (·.id) := by
  simp only [exec, List.map_map]
  refine List.map_congr_left ?_
  intro row _
  simp only [Function.comp_apply]
  split <;> rfl

/-- An update to a role of an organisation keeps the accounts well formed. -/
theorem WellFormed.update (h : db.WellFormed) (id : Uuid) (orgId : Option Uuid) {roleInOrg : Nat} (hrole : roleInOrg ≠ 0) :
    (db.exec (.usersUpdate id orgId roleInOrg)).2.WellFormed := by
  refine ⟨?_, roles_update h.roles id orgId hrole⟩
  rw [ids_update]
  exact h.ids

/-- The row that a login takes is the row of its id. -/
theorem WellFormed.userById_of_mem (h : db.WellFormed) {row : UserRow} (hrow : row ∈ db.users) : db.userById row.id = some row := by
  have hsome : (db.users.find? fun r => r.id = row.id).isSome = true := by
    rw [List.find?_isSome]
    exact ⟨row, hrow, by simp⟩
  obtain ⟨found, hfound⟩ := Option.isSome_iff_exists.1 hsome
  have hid : found.id = row.id := by simpa using List.find?_some hfound
  have heq : found = row := List.inj_on_of_nodup_map h.ids (List.mem_of_find?_eq_some hfound) hrow hid
  rw [userById, hfound, heq]

/-- The user that is upserted is among the users. -/
theorem mem_upsert (db : Accounts) (id : Uuid) (address : String) :
    (db.exec (.usersUpsertByWallet id address)).1 ∈ (db.exec (.usersUpsertByWallet id address)).2.users := by
  unfold exec
  dsimp only
  split
  · rename_i row hrow
    exact List.mem_of_find?_eq_some hrow
  · simp

end Accounts

/-- Time has passed, no session has been written, and the accounts are still well formed. -/
structure Backend.Enrolled (b b' : Backend) : Prop where
  now : b.now ≤ b'.now
  sessions : b'.sessions = b.sessions
  accounts : b.accounts.WellFormed → b'.accounts.WellFormed

/-- The command writes no session and no key of the blacklist, inserts no user, and takes no user's role away. -/
def Command.Enrols : Command → Prop
  | .session (.set _ _ _) | .session (.del _) => False
  | .blacklist (.set _ _ _) | .blacklist (.del _) => False
  | .sql (.usersUpsertByWallet _ _) => False
  | .sql (.usersUpdate _ _ roleInOrg) => roleInOrg ≠ 0
  | _ => True

/-- A command that enrols keeps what was enrolled before. -/
theorem Backend.Enrolled.exec {b b' : Backend} (h : b.Enrolled b') {c : Command} (hc : c.Enrols) : b.Enrolled (b'.exec c).2 := by
  obtain ⟨hn, hs, ha⟩ := h
  refine ⟨by rwa [Backend.exec_now], ?_, ?_⟩
  · cases c with
    | session c =>
      cases c with
      | set => exact hc.elim
      | del => exact hc.elim
      | _ => exact hs
    | _ => exact hs
  · intro hb
    cases c with
    | sql c =>
      cases c with
      | usersUpsertByWallet => exact hc.elim
      | usersUpdate id orgId roleInOrg => exact (ha hb).update id orgId hc
      | inviteCodesCreate row =>
        have := ha hb
        simp only [Backend.exec, Accounts.exec]
        split
        · exact ⟨this.ids, this.roles⟩
        · exact this
      | inviteCodesIncrementUses id =>
        have := ha hb
        simp only [Backend.exec, Accounts.exec]
        split
        · exact ⟨this.ids, this.roles⟩
        · exact this
      | _ => exact ⟨(ha hb).ids, (ha hb).roles⟩
    | _ => exact ha hb

/-- A program that only enrols ends with the store so enrolled. -/
theorem ends_of_enrols {α : Type} {p : Api α} {post : Except HttpException α → Prop} {b b₁ : Backend} (hb : b.Enrolled b₁)
    (hp : Keeps (allowing Command.Enrols) (fun _ => post) () p) : Ends p (fun r b' => post r ∧ b.Enrolled b') b₁ := by
  refine wp_of_keeps hp ?_ ?_ hb
  · intro b' c hc hb'
    exact hb'.exec hc
  · intro b' ms hb'
    exact ⟨Nat.le_trans hb'.now (Nat.le_add_right _ _), hb'.sessions, hb'.accounts⟩

/-- Founding an organisation sends only what enrols. -/
theorem enrols_createOrg (id userId : Uuid) (dto : CreateOrgDto) :
    Keeps (allowing Command.Enrols) (fun _ _ => True) () (OrgsService.createOrg id userId dto) := by
  refine ⟨trivial, ?_⟩
  intro user
  cases user with
  | none => trivial
  | some user =>
    change Keeps _ _ _ (if _ then _ else _)
    split
    · trivial
    · refine ⟨trivial, ?_⟩
      intro _
      refine ⟨(by decide : Roles.orgAdmin ≠ 0), ?_⟩
      intro _
      trivial

theorem enrols_generateInvite (drawn : DrawnInvite) (orgId userId : Uuid) (userOrgId : Option Uuid) (userOrgRole : Nat)
    (dto : GenerateInviteDto) :
    Keeps (allowing Command.Enrols) (fun _ _ => True) ()
      (OrgsService.generateInvite drawn orgId userId userOrgId userOrgRole dto) := by
  unfold OrgsService.generateInvite
  split
  · trivial
  · split
    · trivial
    · refine ⟨trivial, ?_⟩
      intro org
      cases org with
      | none => trivial
      | some org =>
        refine ⟨trivial, ?_⟩
        intro now
        refine ⟨trivial, ?_⟩
        intro created
        cases created with
        | true => trivial
        | false => trivial

theorem enrols_joinOrg (userId : Uuid) (dto : JoinOrgDto) :
    Keeps (allowing Command.Enrols) (fun _ _ => True) () (OrgsService.joinOrg userId dto) := by
  refine ⟨trivial, ?_⟩
  intro user
  cases user with
  | none => trivial
  | some user =>
    change Keeps _ _ _ (if _ then _ else _)
    split
    · trivial
    · refine ⟨trivial, ?_⟩
      intro invite
      cases invite with
      | none => trivial
      | some invite =>
        refine ⟨trivial, ?_⟩
        intro now
        change Keeps _ _ _ (if _ then _ else _)
        split
        · trivial
        · split
          · trivial
          · refine ⟨(by decide : Roles.viewer ≠ 0), ?_⟩
            intro _
            refine ⟨trivial, ?_⟩
            intro counted
            cases counted with
            | true => exact ⟨trivial, fun org => ⟨trivial, fun joined => trivial⟩⟩
            | false => trivial

end BrineVault
