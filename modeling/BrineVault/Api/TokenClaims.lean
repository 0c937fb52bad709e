import BrineVault.Api.History
import BrineVault.Api.SideBySide
import BrineVault.Lib.Move

/-!
# The claims of an access token

A login signs the organisation and the role of the row that its `upsert` has answered, two commands later; what others make of the row in
between is not in the token. A refresh signs the organisation that the session had when it was opened, and the role 0, which no row has.
-/

namespace BrineVault

open Interleaving
open SessionService JwtService

/-- The token says what the table of the users says of its user. -/
def TracksUser (db : Accounts) (payload : JwtPayload) : Prop :=
  ∃ row, db.userById payload.sub = some row ∧ payload.orgId = row.orgId ∧ payload.orgRole = row.roleInOrg

/-! ## One request after the other -/

/-- The row that a login takes is there when its token is signed. -/
theorem Opened.tracksUser {x : Crypto} {drawn : Drawn} {b b' : Backend} {a : AuthResult} (h : Opened x drawn b a b')
    (hwf : b'.accounts.WellFormed) : TracksUser b'.accounts a.accessToken := by
  obtain ⟨address, user, hexec, hsub, horg, hrole⟩ := h.accounts
  have hmem := b.accounts.mem_upsert drawn.userId address
  rw [hexec] at hmem
  refine ⟨user, ?_, horg, hrole⟩
  rw [hsub]
  exact hwf.userById_of_mem hmem

/-- No row has the role that a refresh signs. -/
theorem Refreshed.not_tracksUser {x : Crypto} {drawn : Drawn} {token : String} {b b' : Backend} {a : AuthResult}
    (h : Refreshed x drawn token b a b') (hwf : b'.accounts.WellFormed) : ¬ TracksUser b'.accounts a.accessToken := by
  rintro ⟨row, hrow, -, hrole⟩
  rw [h.orgRole] at hrole
  exact hwf.roles row (List.mem_of_find?_eq_some hrow) hrole.symm

/-- When nothing comes between the commands of a request, the token says what the row says exactly when the request is a login. -/
theorem tracksUser_iff_isLogin {x : Crypto} {now : Nat} {past : List Served} {st st' : Service} {t : Served} {a : AuthResult}
    (hr : (Service.start now).run x past = .ok st) (hs : st.step x t = .ok st') (ha : st.answer x t = .ok (.tokens a)) :
    TracksUser st'.backend.accounts a.accessToken ↔ t.request.IsLogin := by
  have hsound : st'.Sound x := (Service.sound_of_run hr).step hs
  obtain ⟨-, rfl⟩ := Service.step_ok.1 hs
  have heffect := Service.effect x st t
  rw [ha] at heffect
  generalize hb : (st.after x t).backend = b' at heffect
  have hwf : b'.accounts.WellFormed := hb ▸ hsound.accounts
  cases heffect with
  | opened login _ opened => exact iff_of_true (opened.tracksUser hwf) login
  | renewed own refreshed =>
    rw [own]
    exact iff_of_false (refreshed.not_tracksUser hwf) id
  | deleted none => exact absurd rfl (none a)
  | kept none => exact absurd rfl (none a)

/-! ## What is signed -/

/-- The claims are those of the row. -/
structure JwtPayload.Signs (payload : JwtPayload) (row : UserRow) : Prop where
  sub : payload.sub = row.id
  orgId : payload.orgId = row.orgId
  orgRole : payload.orgRole = row.roleInOrg

/-- The reply is the row of a user that a login has looked for, and `φ` tells of it. -/
def upserts (φ : UserRow → Prop) : (c : Command) → c.Reply → Prop
  | .sql (.usersUpsertByWallet _ _), row => φ row
  | _, _ => False

section Programs

variable {φ : UserRow → Prop} {q : Prop} {x : Crypto}

/-- A login that is answered has signed the one row it has been told of. -/
def SignsUpserted (φ : UserRow → Prop) (q : Prop) : Except HttpException AuthResult → Prop
  | .ok a => ∃ row, a.accessToken.Signs row ∧ (q ↔ φ row)
  | .error _ => True

/-- Opening a session signs the claims of the user it is given. -/
theorem signs_openSession (drawn : Drawn) {user : UserRow} (address ip userAgent : String) (hq : q ↔ φ user) :
    Keeps (listening (upserts φ)) (SignsUpserted φ) q (AuthService.openSession x drawn user address ip userAgent) := by
  refine ⟨trivial, fun _ => ⟨trivial, fun _ => ⟨trivial, fun now => ⟨user, ⟨rfl, rfl, rfl⟩, ?_⟩⟩⟩⟩
  simpa [listening, upserts] using hq

/-- A login signs the claims of the row its upsert has answered. -/
theorem signs_login (drawn : Drawn) (address ip userAgent : String) (hq : ¬ q) :
    Keeps (listening (upserts φ)) (SignsUpserted φ) q
      (do let user ← usersUpsertByWallet drawn.userId address; AuthService.openSession x drawn user address ip userAgent) :=
  ⟨trivial, fun _ => signs_openSession drawn address ip userAgent (or_iff_right hq)⟩

theorem signs_verifyAndLogin (drawn : Drawn) (dto : VerifyDto) (ip userAgent : String) :
    Keeps (listening (upserts φ)) (SignsUpserted φ) False (AuthService.verifyAndLogin x drawn dto ip userAgent) := by
  have hconsume : Keeps (listening (upserts φ)) (fun q _ => ¬ q) False (consumeChallenge dto.nonce) :=
    ⟨trivial, fun _ => ⟨trivial, fun _ h => h.elim (fun h => h.elim id id) id⟩⟩
  refine hconsume.bind ?_ fun _ _ _ => trivial
  intro q value hq
  cases value with
  | none => trivial
  | some challengeData =>
    dsimp only
    split
    · trivial
    · split
      · trivial
      · exact signs_login drawn dto.address ip userAgent hq

theorem signs_verifyZkLogin (drawn : Drawn) (currentEpoch : Nat) (dto : ZkLoginDto) (ip userAgent : String) :
    Keeps (listening (upserts φ)) (SignsUpserted φ) False (AuthService.verifyZkLogin x drawn currentEpoch dto ip userAgent) := by
  unfold AuthService.verifyZkLogin
  split
  · trivial
  · split
    · trivial
    · dsimp only
      split
      · trivial
      · split
        · trivial
        · split
          · trivial
          · exact signs_login drawn _ ip userAgent id

/-- What a request signs: a login the row it has been told of, and any other nothing, or the role 0. -/
def Issues (request : Request) (φ : UserRow → Prop) (q : Prop) : Except HttpException Response → Prop
  | .ok (.tokens a) => request.IsLogin ∧ (∃ row, a.accessToken.Signs row ∧ (q ↔ φ row)) ∨ ¬ request.IsLogin ∧ a.accessToken.orgRole = 0
  | _ => True

/-- The tokens of a session that has been refreshed have the role 0. -/
theorem zero_renew (sid : Sid) (hash : String) (drawn : Drawn) (session : SessionData) :
    Keeps (listening (upserts φ)) (fun _ r => ∀ a, r = .ok a → a.accessToken.orgRole = 0) q
      (do updateSession sid hash; AuthService.renewedTokens drawn sid session) := by
  refine (keeps_listening (updateSession sid hash)).bind ?_ ?_
  · intro _ _ _
    refine ⟨trivial, fun now => ⟨trivial, fun user => ?_⟩⟩
    rintro a ⟨⟩
    rfl
  · rintro _ _ _ a ⟨⟩

/-- A refresh signs role 0, whatever it has seen. -/
theorem zero_refresh (drawn : Drawn) (scan : Scan) (cookie authorization : Option String) :
    Keeps (listening (upserts φ)) (fun _ r => ∀ a, r = .ok a → a.accessToken.orgRole = 0) q
      (AuthController.refresh x drawn scan cookie authorization) := by
  unfold AuthController.refresh
  split
  · rintro a ⟨⟩
  · split
    · refine ⟨trivial, fun session => ?_⟩
      cases session with
      | none => rintro a ⟨⟩
      | some session =>
        change Keeps _ _ _ (if _ then _ else _)
        split
        · exact ⟨trivial, fun _ => by rintro a ⟨⟩⟩
        · exact zero_renew _ _ drawn session
    · refine (keeps_listening _).bind ?_ ?_
      · intro _ found _
        cases found with
        | none => rintro a ⟨⟩
        | some found => exact zero_renew found.1 _ drawn found.2
      · rintro _ _ _ a ⟨⟩

/-- What every request issues: a login the claims of the row, a refresh role 0. -/
theorem issues_program (request : Request) : Keeps (listening (upserts φ)) (Issues request φ) False (request.program x) := by
  have other : ∀ {α : Type} {q : Prop} {p : Api α} {response : α → Response}, (∀ a r, response r ≠ .tokens a) →
      Keeps (listening (upserts φ)) (Issues request φ) q (do return response (← p)) := by
    intro α q p response hne
    refine (keeps_listening p).bind ?_ fun _ _ _ => trivial
    intro q' r _
    change Issues request φ q' (.ok (response r))
    unfold Issues
    split
    · rename_i a ha
      exact absurd (Except.ok.inj ha) (hne a r)
    · trivial
  have route : ∀ {α : Type} {authorization : Option String} {handler : JwtPayload → Api α} {response : α → Response},
      (∀ a r, response r ≠ .tokens a) → Keeps (listening (upserts φ)) (Issues request φ) False
        (do let user ← AuthGuard.canActivate x authorization; return response (← handler user)) :=
    fun hne => (keeps_listening _).bind (fun _ _ _ => other hne) fun _ _ _ => trivial
  cases request with
  | challenge nonce ip => exact other (by simp)
  | verify drawn dto ip userAgent =>
    refine (signs_verifyAndLogin drawn dto ip userAgent).bind ?_ fun _ _ _ => trivial
    intro q a ha
    exact .inl ⟨trivial, ha⟩
  | verifyZkLogin drawn currentEpoch dto ip userAgent =>
    refine (signs_verifyZkLogin drawn currentEpoch dto ip userAgent).bind ?_ fun _ _ _ => trivial
    intro q a ha
    exact .inl ⟨trivial, ha⟩
  | refresh drawn scan cookie authorization =>
    refine (zero_refresh drawn scan cookie authorization).bind ?_ fun _ _ _ => trivial
    intro q a ha
    exact .inr ⟨id, ha a rfl⟩
  | access authorization => exact other (by simp)
  | logout authorization =>
    refine (keeps_listening _).bind (fun _ user _ => ?_) fun _ _ _ => trivial
    exact (keeps_listening _).bind (fun _ _ _ => trivial) fun _ _ _ => trivial
  | createOrg authorization id dto => exact route (by simp)
  | generateInvite authorization drawn orgId dto => exact route (by simp)
  | joinOrg authorization dto => exact route (by simp)

end Programs

/-! ## What becomes of a row -/

/-- The organisation and the role that the command writes into the row of the user. -/
def Command.updateOf (id : Uuid) : Command → Option (Option Uuid × Nat)
  | .sql (.usersUpdate k orgId roleInOrg) => if k = id then some (orgId, roleInOrg) else none
  | _ => none

/-- The last organisation and role that the calls write into the row of the user in the turns. -/
def lastUpdate (id : Uuid) (m : ApiPool Response) (turns : Schedule) : Option (Option Uuid × Nat) :=
  ((sent Backend.exec Backend.elapse m turns).filterMap (Command.updateOf id)).getLast?

/-- The row with an organisation and a role written into it. -/
def UserRow.updated (row : UserRow) : Option (Option Uuid × Nat) → UserRow
  | some (orgId, roleInOrg) => { row with orgId, roleInOrg }
  | none => row

/-- The last update leaves the claims as they were exactly when it sets the same organisation and role. -/
theorem UserRow.updated_eq_iff {row : UserRow} {u : Option (Option Uuid × Nat)} :
    row.orgId = (row.updated u).orgId ∧ row.roleInOrg = (row.updated u).roleInOrg ↔
      ∀ last, u = some last → last = (row.orgId, row.roleInOrg) := by
  cases u with
  | none => simp [updated]
  | some last =>
    simp only [updated, Option.some.injEq, forall_eq']
    rw [Prod.ext_iff]
    exact and_congr eq_comm eq_comm

section Rows

variable {b : Backend} {m n : ApiPool Response} {turns : Schedule} {id : Uuid} {row : UserRow}

/-- A command leaves a user's row, or updates it. -/
theorem userById_exec (h : b.accounts.userById id = some row) (c : Command) :
    (b.exec c).2.accounts.userById id = some (row.updated (c.updateOf id)) := by
  cases c with
  | sql c =>
    cases c with
    | usersUpdate k orgId roleInOrg =>
      have hsame : ((fun r : UserRow => decide (r.id = id)) ∘ fun r => if r.id = k then { r with orgId, roleInOrg } else r) =
          fun r => decide (r.id = id) := by
        funext r
        simp only [Function.comp_apply]
        split <;> rfl
      have hid : row.id = id := by simpa using List.find?_some h
      simp only [Backend.exec, Accounts.exec, Accounts.userById, List.find?_map, hsame]
      change (b.accounts.userById id).map _ = _
      subst hid
      rw [h, Option.map_some]
      by_cases hk : k = row.id
      · simp [Command.updateOf, hk, UserRow.updated]
      · simp [Command.updateOf, hk, Ne.symm hk, UserRow.updated]
    | usersUpsertByWallet k address =>
      simp only [Backend.exec, Accounts.exec]
      split
      · exact h
      · simp only [Accounts.userById, List.find?_append]
        rw [show b.accounts.users.find? (fun r => r.id = id) = some row from h]
        rfl
    | inviteCodesCreate =>
      simp only [Backend.exec, Accounts.exec]
      split <;> exact h
    | inviteCodesIncrementUses =>
      simp only [Backend.exec, Accounts.exec]
      split <;> exact h
    | _ => exact h
  | _ => exact h

/-- A row after a run is what the last update has made of it. -/
theorem userById_run (h : m.store.accounts.userById id = some row) (hr : m.run turns = .ok n) :
    n.store.accounts.userById id = some (row.updated (lastUpdate id m turns)) := by
  refine Steps.run_invariant (step Backend.exec Backend.elapse)
    (fun past n => n.store.accounts.userById id = some (row.updated (lastUpdate id m past))) h ?_ hr
  intro past n t n' hn ih ht
  obtain ⟨ms, rfl, rfl⟩ | ⟨i, c, k, rfl, hi, rfl⟩ := step_cases ht
  · rw [lastUpdate, sent_snoc_event ms hn]
    exact ih
  · refine (userById_exec ih c).trans ?_
    rw [lastUpdate, lastUpdate, sent_snoc_thread hn hi, List.filterMap_append]
    cases hc : c.updateOf id with
    | none => simp [hc, UserRow.updated]
    | some u =>
      simp only [List.filterMap_cons, hc, List.filterMap_nil, List.getLast?_append, List.getLast?_singleton, Option.some_or]
      cases ((sent Backend.exec Backend.elapse m past).filterMap (Command.updateOf id)).getLast? <;> rfl

/-- No command takes a row away, or changes its id. -/
theorem ids_exec (b : Backend) (c : Command) : b.accounts.users.map (·.id) <+: (b.exec c).2.accounts.users.map (·.id) := by
  cases c with
  | sql c =>
    cases c with
    | usersUpdate k orgId roleInOrg =>
      have hids : (b.exec (.sql (.usersUpdate k orgId roleInOrg))).2.accounts.users.map (·.id) = b.accounts.users.map (·.id) :=
        Accounts.ids_update b.accounts k orgId roleInOrg
      exact hids.symm ▸ List.prefix_rfl
    | usersUpsertByWallet k address =>
      simp only [Backend.exec, Accounts.exec]
      split
      · exact List.prefix_rfl
      · simp
    | inviteCodesCreate =>
      simp only [Backend.exec, Accounts.exec]
      split <;> exact List.prefix_rfl
    | inviteCodesIncrementUses =>
      simp only [Backend.exec, Accounts.exec]
      split <;> exact List.prefix_rfl
    | _ => exact List.prefix_rfl
  | _ => exact List.prefix_rfl

/-- Users are only added, after those that are there. -/
theorem ids_run (hr : m.run turns = .ok n) : m.store.accounts.users.map (·.id) <+: n.store.accounts.users.map (·.id) :=
  Steps.run_preserves _ (P := fun n : ApiPool Response => m.store.accounts.users.map (·.id) <+: n.store.accounts.users.map (·.id))
    (fun n' t n'' hn ht => by
      obtain ⟨ms, -, rfl⟩ | ⟨i, c, k, -, -, rfl⟩ := step_cases ht
      · exact hn
      · exact hn.trans (ids_exec n'.store c)) hr List.prefix_rfl

/-- A command that keeps roles leaves no user with role 0. -/
theorem roles_exec {c : Command} (hc : c.KeepsRoles) (h : ∀ row ∈ b.accounts.users, row.roleInOrg ≠ 0) :
    ∀ row ∈ (b.exec c).2.accounts.users, row.roleInOrg ≠ 0 := by
  cases c with
  | sql c =>
    cases c with
    | usersUpdate id orgId roleInOrg => exact Accounts.roles_update h id orgId hc
    | usersUpsertByWallet id address => exact Accounts.roles_upsert h id address
    | inviteCodesCreate =>
      simp only [Backend.exec, Accounts.exec]
      split <;> exact h
    | inviteCodesIncrementUses =>
      simp only [Backend.exec, Accounts.exec]
      split <;> exact h
    | _ => exact h
  | _ => exact h

/-- When every row has a role at the start, every row has one after every run. -/
theorem roles_run (hm : Kept (allowing Command.KeepsRoles) (fun _ _ => True) m) (h : ∀ row ∈ m.store.accounts.users, row.roleInOrg ≠ 0)
    (hr : m.run turns = .ok n) : ∀ row ∈ n.store.accounts.users, row.roleInOrg ≠ 0 :=
  (Steps.run_preserves _ (P := fun n => Kept (allowing Command.KeepsRoles) (fun _ _ => True) n ∧
      ∀ row ∈ n.store.accounts.users, row.roleInOrg ≠ 0)
    (fun n' t n'' hn ht => by
      refine ⟨kept_step hn.1 ht, ?_⟩
      obtain ⟨ms, -, rfl⟩ | ⟨i, c, k, -, hi, rfl⟩ := step_cases ht
      · exact hn.2
      · obtain ⟨q, hc, -⟩ := hn.1 _ (List.mem_of_getElem? hi)
        exact roles_exec hc hn.2) hr ⟨hm, h⟩).2

end Rows

/-! ## Requests side by side -/

/-- The request with number `i` has been told the row of its user in a turn of the schedule: the pool after that turn, and the turns since. -/
def TakesRow (m : ApiPool Response) (turns : Schedule) (i : Nat) (row : UserRow) (m' : ApiPool Response) (since : Schedule) : Prop :=
  ∃ past n, turns = past ++ .thread i :: since ∧ m.run past = .ok n ∧ Hears Backend.exec (upserts fun r => r = row) n i ∧
    step Backend.exec Backend.elapse n (.thread i) = .ok m'

/-- The last update of the row in the turns, if there is one, writes the organisation and the role that it has. -/
def LeavesRow (row : UserRow) (m : ApiPool Response) (turns : Schedule) : Prop :=
  ∀ last, lastUpdate row.id m turns = some last → last = (row.orgId, row.roleInOrg)

section Pool

variable {x : Crypto} {b : Backend} {requests : List Request} {turns since : Schedule} {m n : ApiPool Response} {row : UserRow} {i : Nat}

/-- At the start every request keeps the users' roles. -/
theorem kept_sideBySide (x : Crypto) (b : Backend) (requests : List Request) :
    Kept (allowing Command.KeepsRoles) (fun _ _ => True) (sideBySide x b requests) := by
  intro p hp
  obtain ⟨request, -, rfl⟩ := List.mem_map.1 hp
  exact ⟨(), keepsRoles_program x request⟩

/-- A row that an upsert answers is the row of its id then, and what updates make of it later. -/
theorem userById_of_takesRow (hroles : ∀ row ∈ b.accounts.users, row.roleInOrg ≠ 0)
    (ht : TakesRow (sideBySide x b requests) turns i row m since) (hr : (sideBySide x b requests).run turns = .ok n)
    (hids : (n.store.accounts.users.map (·.id)).Nodup) :
    n.store.accounts.userById row.id = some (row.updated (lastUpdate row.id m since)) := by
  obtain ⟨past, n', rfl, hn', ⟨c, k, hi, hrow⟩, hs⟩ := ht
  have hm : (sideBySide x b requests).run (past ++ [.thread i]) = .ok m :=
    (Steps.run_append_ok _).2 ⟨n', hn', (Steps.run_cons_ok _).2 ⟨m, hs, rfl⟩⟩
  obtain ⟨m', hm', hrest⟩ := (Steps.run_append_ok _).1 (show (sideBySide x b requests).run ((past ++ [.thread i]) ++ since) = .ok n by simpa using hr)
  obtain rfl : m = m' := Except.ok.inj (hm.symm.trans hm')
  have hwf : m.store.accounts.WellFormed := ⟨hids.sublist (ids_run hrest).sublist, roles_run (kept_sideBySide x b requests) hroles hm⟩
  refine userById_run (hwf.userById_of_mem ?_) hrest
  rw [step_thread hi] at hs
  cases hs
  cases c with
  | sql c =>
    cases c with
    | usersUpsertByWallet id address =>
      obtain rfl := hrow
      exact n'.store.accounts.mem_upsert id address
    | _ => exact hrow.elim
  | _ => exact hrow.elim

/-- What a request that has been answered has signed. -/
theorem issues_of_answer (hr : (sideBySide x b requests).run turns = .ok n) {request : Request} (hi : requests[i]? = some request)
    {a : AuthResult} (ha : n.answer i = some (.ok (.tokens a))) (φ : UserRow → Prop) :
    Issues request φ (Heard Backend.exec Backend.elapse (upserts φ) (sideBySide x b requests) turns i) (.ok (.tokens a)) := by
  have hthread : (sideBySide x b requests).threads[i]? = some (request.program x) := by
    simp [sideBySide, hi]
  obtain ⟨p, hp, hk⟩ := keeps_run hthread (issues_program request) hr
  obtain rfl : Prog.ret (Response.tokens a) = p := Option.some.inj ((ApiPool.thread_of_answer ha).symm.trans hp)
  exact hk

/-- A login that has heard an upsert has taken a row. -/
theorem takesRow_of_heard {φ : UserRow → Prop} (hr : (sideBySide x b requests).run turns = .ok n)
    (h : Heard Backend.exec Backend.elapse (upserts φ) (sideBySide x b requests) turns i) :
    ∃ row m since, φ row ∧ TakesRow (sideBySide x b requests) turns i row m since := by
  obtain ⟨past, since, n', rfl, hn', c, k, hi, hrow⟩ := h
  obtain ⟨n'', hpast, hrest⟩ := (Steps.run_append_ok _).1 hr
  obtain rfl : n' = n'' := Except.ok.inj (hn'.symm.trans hpast)
  obtain ⟨m, hs, -⟩ := (Steps.run_cons_ok _).1 hrest
  cases c with
  | sql c =>
    cases c with
    | usersUpsertByWallet id address => exact ⟨_, m, since, hrow, past, n', rfl, hn', ⟨_, k, hi, rfl⟩, hs⟩
    | _ => exact hrow.elim
  | _ => exact hrow.elim

/-- A token with the claims of a row says what the row says as long as the last update of the row writes what it had. -/
theorem tracksUser_iff_updated {db : Accounts} {payload : JwtPayload} {u : Option (Option Uuid × Nat)} (hsigns : payload.Signs row)
    (h : db.userById row.id = some (row.updated u)) :
    TracksUser db payload ↔ ∀ last, u = some last → last = (row.orgId, row.roleInOrg) := by
  rw [TracksUser, hsigns.sub, hsigns.orgId, hsigns.orgRole, h, ← UserRow.updated_eq_iff]
  simp

/-- A token that a request issues, while others are served side by side with it, says what the row of its user says in the turn in which it
is issued, exactly when the request is a login and the last update of the row since the login has read it, if there is one, writes what
the row had. -/
theorem tracksUser_iff_leavesRow (hroles : ∀ row ∈ b.accounts.users, row.roleInOrg ≠ 0) {past : Schedule}
    (hm : (sideBySide x b requests).run past = .ok m) (hs : step Backend.exec Backend.elapse m (.thread i) = .ok n)
    (hids : (n.store.accounts.users.map (·.id)).Nodup) {request : Request} (hi : requests[i]? = some request) {a : AuthResult}
    (ha : n.answer i = some (.ok (.tokens a))) :
    TracksUser n.store.accounts a.accessToken ↔
      request.IsLogin ∧ ∃ row m' since, TakesRow (sideBySide x b requests) (past ++ [.thread i]) i row m' since ∧ LeavesRow row m' since := by
  have hr : (sideBySide x b requests).run (past ++ [.thread i]) = .ok n :=
    (Steps.run_append_ok _).2 ⟨m, hm, (Steps.run_cons_ok _).2 ⟨n, hs, rfl⟩⟩
  -- Whatever row a login has read, its token has the claims of that row, which is there with the updates since.
  have tracks : ∀ {row m' since}, TakesRow (sideBySide x b requests) (past ++ [.thread i]) i row m' since → request.IsLogin →
      (TracksUser n.store.accounts a.accessToken ↔ LeavesRow row m' since) := by
    intro row m' since htakes hlogin
    obtain ⟨first, n', hts, hn', hears, -⟩ := id htakes
    rcases issues_of_answer hr hi ha (fun r => r = row) with ⟨-, row₀, hsigns, hiff⟩ | ⟨hnot, -⟩
    · obtain rfl : row₀ = row := hiff.1 ⟨first, since, n', hts, hn', hears⟩
      exact tracksUser_iff_updated hsigns (userById_of_takesRow hroles htakes hr hids)
    · exact absurd hlogin hnot
  constructor
  · intro htracks
    rcases issues_of_answer hr hi ha a.accessToken.Signs with ⟨hlogin, row₀, hrow₀, hheard⟩ | ⟨-, hzero⟩
    · obtain ⟨row, m', since, -, htakes⟩ := takesRow_of_heard hr (hheard.2 hrow₀)
      exact ⟨hlogin, row, m', since, htakes, (tracks htakes hlogin).1 htracks⟩
    · obtain ⟨current, hcurrent, -, hrole⟩ := htracks
      rw [hzero] at hrole
      exact absurd hrole.symm (roles_run (kept_sideBySide x b requests) hroles hr current (List.mem_of_find?_eq_some hcurrent))
  · rintro ⟨hlogin, row, m', since, htakes, hleaves⟩
    exact (tracks htakes hlogin).2 hleaves

end Pool

namespace Sample

def founderAddress : String := "0x0000000000000000000000000000000000000000000000000000000000000007"

/-- The access token of the session `s`, which a user without an organisation has. -/
def founderPayload : JwtPayload :=
  { sub := .given 7, address := founderAddress, orgId := none, orgRole := 1, sid := "s", jti := "j0", iat := 1700000000, exp := 1700000900 }

def founderCrypto : Crypto := { zkCrypto with signedPayload := fun token => if token = "access" then some founderPayload else none }

/-- The user of the session `s`, who is a viewer of no organisation. -/
def founderBackend : Backend :=
  { backend with accounts := { users := [Accounts.newUser (.given 7) founderAddress], organizations := [], inviteCodes := [] } }

/-- The user signs in anew while a request of the same user founds an organisation. -/
def founding : List Request := [signIn.request, .createOrg (some "Bearer access") (.given 9) { name := "Brine", legalName := none }]

/-- The login, up to its signature: the organisation is founded right after its `upsert`. -/
def foundingPast : Schedule := turnsOf 0 1 ++ turnsOf 1 6 ++ turnsOf 0 2

/-- What the login is answered with: a viewer of no organisation. -/
def founderTokens : AuthResult where
  accessToken := { founderPayload with sid := "s1", jti := "j1" }
  refreshToken := "1"
  user := { id := .given 7, address := founderAddress, displayName := none, orgId := none, roleInOrg := 1 }

end Sample

/-- The token has neither the organisation that the user has founded meanwhile nor the role in it. -/
theorem tracksUser_iff_leavesRow_overtaken :
    ∃ m n : ApiPool Response, (sideBySide Sample.founderCrypto Sample.founderBackend Sample.founding).run Sample.foundingPast = .ok m ∧
      step Backend.exec Backend.elapse m (.thread 0) = .ok n ∧ n.answer 0 = some (.ok (.tokens Sample.founderTokens)) ∧
      (TracksUser n.store.accounts Sample.founderTokens.accessToken ↔
        Sample.signIn.request.IsLogin ∧ ∃ row m' since,
          TakesRow (sideBySide Sample.founderCrypto Sample.founderBackend Sample.founding) (Sample.foundingPast ++ [.thread 0]) 0 row m' since ∧
            LeavesRow row m' since) := by
  obtain ⟨m, hm, hsigned⟩ := Move.exists_ok_of_any
    (x := (sideBySide Sample.founderCrypto Sample.founderBackend Sample.founding).run Sample.foundingPast)
    (P := fun m => (step Backend.exec Backend.elapse m (.thread 0)).toOption.any fun n : ApiPool Response =>
      decide (n.answer 0 = some (.ok (.tokens Sample.founderTokens)) ∧ (n.store.accounts.users.map (·.id)).Nodup)) (by decide +kernel)
  obtain ⟨n, hn, hanswer, hids⟩ := Move.exists_ok_of_any hsigned
  exact ⟨m, n, hm, hn, hanswer, tracksUser_iff_leavesRow (by decide) hm hn hids rfl hanswer⟩

/-- The refresh is answered with a token that has the role 0, and the user is a viewer. -/
theorem refreshed_claims_stale :
    ∃ (m n : ApiPool Response) (a : AuthResult), (sideBySide Sample.zkCrypto (Service.start 1700000000000).backend [Sample.signIn.request, (Sample.refreshing "1" "2").request]).run
        (Sample.turnsOf 0 4 ++ Sample.turnsOf 1 7) = .ok m ∧
      step Backend.exec Backend.elapse m (.thread 1) = .ok n ∧ n.answer 1 = some (.ok (.tokens a)) ∧
      ¬ TracksUser n.store.accounts a.accessToken := by
  refine ⟨_, _, _, rfl, rfl, rfl, ?_⟩
  rintro ⟨row, hrow, -, hrole⟩
  obtain rfl := Option.some.inj hrow
  exact absurd hrole (by decide)

end BrineVault
