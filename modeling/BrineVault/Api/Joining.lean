import BrineVault.Api.Calls
import BrineVault.Api.Orgs

/-!
# Users who join side by side

Any number of calls of `joinOrg` over one database. A call is at one of the stages of its program, and what has become of its user and of the
uses of an invite can be read off the stages.
-/

namespace BrineVault

open Interleaving

/-- A call of `joinOrg`. -/
structure JoinCall where
  userId : Uuid
  dto : JoinOrgDto
  deriving DecidableEq, Repr

/-- Calls of `joinOrg` side by side. -/
def joining (b : Backend) (calls : List JoinCall) : ApiPool JoinedOrg :=
  { store := b, threads := calls.map fun c => OrgsService.joinOrg c.userId c.dto }

/-- The invite with a code. -/
def Backend.invite (b : Backend) (code : String) : Option InviteCodeRow := b.accounts.inviteCodes.find? fun r => r.code = code

/-- The organisation of a user, when the user exists. -/
def Backend.orgOf (b : Backend) (userId : Uuid) : Option (Option Uuid) := (b.accounts.userById userId).map (·.orgId)

/-! ## Where the calls are -/

namespace JoinOrg

/-- What is left of `joinOrg` at the reading of the time of joining. -/
def readClock (invite : InviteCodeRow) (org : Option OrganizationRow) : Api JoinedOrg := do
  let joined ← dateNow
  return { orgId := invite.orgId, orgName := org.map (·.name), role := Roles.viewer, joinedAt := IsoDate.toISOString joined }

/-- What is left at the reading of the organisation. -/
def findOrg (invite : InviteCodeRow) : Api JoinedOrg := do
  let org ← organizationsFindById invite.orgId
  readClock invite org

/-- What is left at the count of the use. -/
def countUse (invite : InviteCodeRow) : Api JoinedOrg := do
  if ← inviteCodesIncrementUses invite.id then findOrg invite else .throw internalError

/-- What is left at the update of the user. -/
def moveUser (c : JoinCall) (invite : InviteCodeRow) : Api JoinedOrg := do
  usersUpdate c.userId (some invite.orgId) Roles.viewer
  countUse invite

/-- What is left at the test of the invite. -/
def testInvite (c : JoinCall) (invite : InviteCodeRow) : Api JoinedOrg := do
  let now ← dateNow
  if invite.expiresAt ≤ now then
    .throw (NotFoundException "INVITE_CODE_EXPIRED" "Invite code has expired")
  else if invite.currentUses ≥ invite.maxUses then
    .throw (NotFoundException "INVITE_CODE_EXPIRED" "Invite code has been fully used")
  else moveUser c invite

/-- What is left at the reading of the invite. -/
def findInvite (c : JoinCall) : Api JoinedOrg := do
  let some invite ← inviteCodesFindByCode c.dto.inviteCode
    | .throw (NotFoundException "INVALID_INVITE_CODE" "Invalid invite code")
  testInvite c invite

end JoinOrg

/-- Where a call is: before each of its commands, with what it holds, and at its ends. -/
inductive JoinStage where
  | findUser
  | findInvite
  | testInvite (invite : InviteCodeRow)
  | moveUser (invite : InviteCodeRow)
  | countUse (invite : InviteCodeRow)
  | findOrg (invite : InviteCodeRow)
  | readClock (invite : InviteCodeRow) (org : Option OrganizationRow)
  | joined (result : JoinedOrg)
  | refused (e : HttpException)
  | uncounted

namespace JoinStage

/-- What is left of the call. -/
def program (c : JoinCall) : JoinStage → Api JoinedOrg
  | findUser => OrgsService.joinOrg c.userId c.dto
  | findInvite => JoinOrg.findInvite c
  | testInvite invite => JoinOrg.testInvite c invite
  | moveUser invite => JoinOrg.moveUser c invite
  | countUse invite => JoinOrg.countUse invite
  | findOrg invite => JoinOrg.findOrg invite
  | readClock invite org => JoinOrg.readClock invite org
  | joined result => .ret result
  | refused e => .throw e
  | uncounted => .throw internalError

/-- The statement that counts a use is let through by the constraint. -/
def countable (b : Backend) (inviteId : Uuid) : Bool := (b.accounts.exec (.inviteCodesIncrementUses inviteId)).1

/-- Where the call is after its next command. -/
def next (c : JoinCall) (b : Backend) : JoinStage → JoinStage
  | findUser =>
    match b.accounts.userById c.userId with
    | none => refused (NotFoundException "USER_NOT_FOUND" "User not found")
    | some user =>
      if user.orgId ≠ none then refused (ConflictException "ALREADY_IN_ORG" "User already belongs to an organization")
      else findInvite
  | findInvite =>
    match b.invite c.dto.inviteCode with
    | none => refused (NotFoundException "INVALID_INVITE_CODE" "Invalid invite code")
    | some invite => testInvite invite
  | testInvite invite =>
    if invite.expiresAt ≤ b.now then refused (NotFoundException "INVITE_CODE_EXPIRED" "Invite code has expired")
    else if invite.currentUses ≥ invite.maxUses then
      refused (NotFoundException "INVITE_CODE_EXPIRED" "Invite code has been fully used")
    else moveUser invite
  | moveUser invite => countUse invite
  | countUse invite => if countable b invite.id then findOrg invite else uncounted
  | findOrg invite => readClock invite (b.accounts.organizations.find? fun r => r.id = invite.orgId)
  | readClock invite org =>
    joined { orgId := invite.orgId, orgName := org.map (·.name), role := Roles.viewer,
             joinedAt := IsoDate.toISOString b.now }
  | s => s

/-- A command of the call leads to its next stage. -/
theorem program_next {c : JoinCall} {s : JoinStage} {b : Backend} {cmd : Command} {k : cmd.Reply → Api JoinedOrg}
    (h : s.program c = .call cmd k) : k (b.exec cmd).1 = (s.next c b).program c := by
  cases s with
  | findUser =>
    cases h
    cases hu : b.accounts.userById c.userId with
    | none =>
      simp only [next, Backend.exec, Accounts.exec, hu]
      rfl
    | some user =>
      simp only [next, Backend.exec, Accounts.exec, hu]
      by_cases ho : user.orgId = none
      · rw [if_neg (not_not.2 ho)]
        change (if user.orgId ≠ none then _ else _) = _
        rw [if_neg (not_not.2 ho)]
        rfl
      · rw [if_pos ho]
        change (if user.orgId ≠ none then _ else _) = _
        rw [if_pos ho]
        rfl
  | findInvite =>
    cases h
    cases hi : b.invite c.dto.inviteCode with
    | none =>
      have hfind : b.accounts.inviteCodes.find? (fun r => r.code = c.dto.inviteCode) = none := hi
      simp only [next, Backend.exec, Accounts.exec, hi, hfind]
      rfl
    | some invite =>
      have hfind : b.accounts.inviteCodes.find? (fun r => r.code = c.dto.inviteCode) = some invite := hi
      simp only [next, Backend.exec, Accounts.exec, hi, hfind]
      rfl
  | testInvite invite =>
    cases h
    simp only [next, Backend.exec]
    change (if invite.expiresAt ≤ b.now then _ else if invite.currentUses ≥ invite.maxUses then _ else _) = _
    split
    · rfl
    · split <;> rfl
  | moveUser invite =>
    cases h
    rfl
  | countUse invite =>
    cases h
    simp only [next]
    change (if countable b invite.id = true then _ else _) = _
    split <;> rfl
  | findOrg invite =>
    cases h
    rfl
  | readClock invite org =>
    cases h
    rfl
  | joined => cases h
  | refused => cases h
  | uncounted => cases h

/-- The call has passed the test and has not counted yet. -/
def awaits : JoinStage → Bool
  | moveUser _ | countUse _ => true
  | _ => false

/-- The call has moved its user. -/
def isJoined : JoinStage → Bool
  | countUse _ | findOrg _ | readClock _ _ | joined _ | uncounted => true
  | _ => false

/-- The call has counted its use. -/
def isCounted : JoinStage → Bool
  | findOrg _ | readClock _ _ | joined _ => true
  | _ => false

/-- The call has found its user without an organisation. -/
def isFree : JoinStage → Bool
  | findUser | refused _ => false
  | _ => true

/-- The row of the invite that the call goes by. -/
def held : JoinStage → Option InviteCodeRow
  | testInvite invite | moveUser invite | countUse invite => some invite
  | _ => none

/-- A call holds the row of an invite that it held before, or that it has just read. -/
theorem held_next {c : JoinCall} {b : Backend} {s : JoinStage} {invite : InviteCodeRow} (h : (s.next c b).held = some invite) :
    s.held = some invite ∨ b.invite c.dto.inviteCode = some invite := by
  cases s with
  | findUser =>
    simp only [next] at h
    split at h
    · cases h
    · split at h <;> cases h
  | findInvite =>
    cases hf : b.invite c.dto.inviteCode with
    | none =>
      simp only [next, hf] at h
      cases h
    | some row =>
      simp only [next, hf] at h
      exact .inr h
  | testInvite row =>
    simp only [next] at h
    split at h
    · cases h
    · split at h
      · cases h
      · exact .inl h
  | countUse row =>
    simp only [next] at h
    split at h <;> cases h
  | moveUser => exact .inl h
  | findOrg | readClock | joined | refused | uncounted => cases h

/-- A call that has moved its user had found it without an organisation. -/
theorem isFree_of_isJoined {s : JoinStage} (h : s.isJoined = true) : s.isFree = true := by
  cases s with
  | findUser => cases h
  | refused => cases h
  | _ => rfl

end JoinStage

/-- What no statement of a call changes in an invite. -/
def InviteCodeRow.terms (r : InviteCodeRow) : InviteCodeRow := { r with currentUses := 0 }

/-- Rows with the same terms have the same id, organisation and limit. -/
theorem InviteCodeRow.of_terms {r r' : InviteCodeRow} (h : r.terms = r'.terms) :
    r.id = r'.id ∧ r.orgId = r'.orgId ∧ r.maxUses = r'.maxUses := by
  simp only [terms, InviteCodeRow.mk.injEq] at h
  obtain ⟨hid, horg, _, _, hmax, _, _⟩ := h
  exact ⟨hid, horg, hmax⟩

/-- What a stage of a call says about its user, since the state `b`, and about the row it holds. -/
structure JoinStage.At (b b' : Backend) (c : JoinCall) (s : JoinStage) : Prop where
  free : s.isFree = true → b.orgOf c.userId = some none
  untouched : s.isJoined = false → b'.orgOf c.userId = b.orgOf c.userId
  moved : s.isJoined = true → ∃ row, b.invite c.dto.inviteCode = some row ∧ b'.orgOf c.userId = some (some row.orgId)
  held : ∀ invite, s.held = some invite → ∃ row, b.invite c.dto.inviteCode = some row ∧ invite.terms = row.terms

/-! ## What the statements do -/

/-- An update of a user moves that user only. -/
theorem orgOf_usersUpdate (b : Backend) (id id' : Uuid) (orgId : Option Uuid) (role : Nat) :
    (b.exec (.sql (.usersUpdate id orgId role))).2.orgOf id' = if id' = id then (b.orgOf id').map fun _ => orgId else b.orgOf id' := by
  have hfind := @Rows.find_updateAt _ _ _ UserRow.id (fun r => { r with orgId, roleInOrg := role }) (fun _ => rfl) id' id
    b.accounts.users
  change ((Rows.find UserRow.id id' (Rows.updateAt UserRow.id id _ b.accounts.users)).map (·.orgId)) = _
  rw [hfind, Backend.orgOf, Accounts.userById, ← Rows.find]
  cases Rows.find UserRow.id id' b.accounts.users with
  | none => simp
  | some row => by_cases h : id' = id <;> simp [h]

/-- One more use of the rows with an id. -/
def countIn (id : Uuid) (r : InviteCodeRow) : InviteCodeRow := if r.id = id then { r with currentUses := r.currentUses + 1 } else r

/-- Counting a use leaves the terms of an invite. -/
theorem countIn_terms (id : Uuid) (r : InviteCodeRow) : (countIn id r).terms = r.terms := by
  unfold countIn InviteCodeRow.terms
  split <;> rfl

theorem countIn_code (id : Uuid) (r : InviteCodeRow) : (countIn id r).code = r.code := by
  unfold countIn
  split <;> rfl

/-- A use may be counted exactly when every row with the id has one left. -/
theorem countable_iff {b : Backend} {id : Uuid} :
    JoinStage.countable b id = true ↔ ∀ r ∈ b.accounts.inviteCodes, r.id = id → r.currentUses + 1 ≤ r.maxUses := by
  simp only [JoinStage.countable, Accounts.exec]
  split
  · rename_i hall
    exact ⟨fun _ => hall, fun _ => rfl⟩
  · rename_i hnot
    exact ⟨fun h => (Bool.false_ne_true h).elim, fun hall => absurd hall hnot⟩

/-- A count that the constraint lets through counts in the rows with the id. -/
theorem exec_increment {b : Backend} {id : Uuid} (h : JoinStage.countable b id = true) :
    (b.exec (.sql (.inviteCodesIncrementUses id))).2.accounts =
      { b.accounts with inviteCodes := b.accounts.inviteCodes.map (countIn id) } := by
  simp only [Backend.exec, Accounts.exec, if_pos (countable_iff.1 h)]
  rfl

/-- A count that the constraint refuses changes nothing. -/
theorem exec_increment_refused {b : Backend} {id : Uuid} (h : JoinStage.countable b id = false) :
    (b.exec (.sql (.inviteCodesIncrementUses id))).2 = b := by
  have hnot : ¬ ∀ r ∈ b.accounts.inviteCodes, r.id = id → r.currentUses + 1 ≤ r.maxUses := by
    rw [← countable_iff, h]
    exact Bool.false_ne_true
  simp only [Backend.exec, Accounts.exec, if_neg hnot]

/-- The invite with a code has the same terms as at first. -/
theorem invite_terms {b b' : Backend}
    (h : b'.accounts.inviteCodes.map InviteCodeRow.terms = b.accounts.inviteCodes.map InviteCodeRow.terms) (code : String) :
    (b'.invite code).map InviteCodeRow.terms = (b.invite code).map InviteCodeRow.terms := by
  have hfind : ∀ rows : List InviteCodeRow, (rows.find? fun r => r.code = code).map InviteCodeRow.terms =
      (rows.map InviteCodeRow.terms).find? fun r => r.code = code := by
    intro rows
    rw [List.find?_map]
    rfl
  rw [Backend.invite, Backend.invite, hfind, hfind, h]

/-! ## The state of the calls -/

/-- The call is with the code of the invite. -/
def OfInvite (invite : InviteCodeRow) (flag : JoinStage → Bool) (l : JoinCall × JoinStage) : Bool :=
  decide (l.1.dto.inviteCode = invite.code) && flag l.2

/-- The pool, with the stage of each call: the uses of the invite are those that were counted. -/
structure JoinState (b : Backend) (invite : InviteCodeRow) (calls : List JoinCall) (ls : List (JoinCall × JoinStage))
    (m : ApiPool JoinedOrg) : Prop where
  calls : ls.map Prod.fst = calls
  labelled : m.Labelled (fun l => l.2.program l.1) ls
  terms : m.store.accounts.inviteCodes.map InviteCodeRow.terms = b.accounts.inviteCodes.map InviteCodeRow.terms
  uses : ∃ row, m.store.invite invite.code = some row ∧
    row.currentUses = invite.currentUses + ls.countP (OfInvite invite JoinStage.isCounted)
  stages : ∀ l ∈ ls, l.2.At b m.store l.1

variable {b : Backend} {invite : InviteCodeRow} {calls : List JoinCall} {ls : List (JoinCall × JoinStage)}
  {m n : ApiPool JoinedOrg}

/-- The state at the start. -/
theorem joinState_start (hinv : b.invite invite.code = some invite) :
    JoinState b invite calls (calls.map fun c => (c, .findUser)) (joining b calls) := by
  have hnone : (calls.map fun c => (c, JoinStage.findUser)).countP (OfInvite invite JoinStage.isCounted) = 0 := by
    rw [List.countP_eq_zero]
    intro l hl
    obtain ⟨c, _, rfl⟩ := List.mem_map.1 hl
    simp [OfInvite, JoinStage.isCounted]
  refine ⟨?_, ?_, rfl, ⟨invite, hinv, by rw [hnone]; rfl⟩, ?_⟩
  · rw [List.map_map]
    exact List.map_id _
  · rw [Pool.Labelled, List.map_map]
    rfl
  · intro l hl
    obtain ⟨c, _, rfl⟩ := List.mem_map.1 hl
    refine ⟨?_, fun _ => rfl, ?_, ?_⟩
    · intro h
      cases h
    · intro h
      cases h
    · intro row h
      cases h

/-- The row of the invite has the terms it had. -/
theorem JoinState.row_terms (h : JoinState b invite calls ls m) (hinv : b.invite invite.code = some invite) {row : InviteCodeRow}
    (hrow : m.store.invite invite.code = some row) : row.terms = invite.terms := by
  have hterms := invite_terms h.terms invite.code
  rw [hrow, hinv, Option.map_some, Option.map_some, Option.some.injEq] at hterms
  exact hterms

/-- Two calls of the list are of different users. -/
theorem userId_ne {i j : Nat} {l l' : JoinCall × JoinStage} (hnd : ((ls.map Prod.fst).map JoinCall.userId).Nodup)
    (hi : ls[i]? = some l) (hj : ls[j]? = some l') (hij : j ≠ i) : l'.1.userId ≠ l.1.userId := by
  intro he
  have hi' : ((ls.map Prod.fst).map JoinCall.userId)[i]? = some l.1.userId := by simp [hi]
  have hj' : ((ls.map Prod.fst).map JoinCall.userId)[j]? = some l.1.userId := by simp [hj, he]
  have hlt : j < ((ls.map Prod.fst).map JoinCall.userId).length := (List.getElem?_eq_some_iff.1 hj').1
  exact hij ((List.getElem?_inj hlt hnd).1 (hj'.trans hi'.symm))

/-- One call takes a turn: the others' users stay, the terms stay, and the uses change by what the stage of the call says. -/
theorem JoinState.set (h : JoinState b invite calls ls m) (hnd : (calls.map JoinCall.userId).Nodup) {i : Nat} {c : JoinCall}
    {s s' : JoinStage} (hi : ls[i]? = some (c, s)) (hlab : n.Labelled (fun l => l.2.program l.1) (ls.set i (c, s')))
    (hother : ∀ id, id ≠ c.userId → n.store.orgOf id = m.store.orgOf id)
    (hterms : n.store.accounts.inviteCodes.map InviteCodeRow.terms = m.store.accounts.inviteCodes.map InviteCodeRow.terms)
    (huses : ∀ row, m.store.invite invite.code = some row → ∃ row', n.store.invite invite.code = some row' ∧
      row'.currentUses + (if OfInvite invite JoinStage.isCounted (c, s) then 1 else 0) =
        row.currentUses + (if OfInvite invite JoinStage.isCounted (c, s') then 1 else 0))
    (hat : s'.At b n.store c) : JoinState b invite calls (ls.set i (c, s')) n := by
  refine ⟨?_, hlab, hterms.trans h.terms, ?_, ?_⟩
  · have hcall : Prod.fst (c, s') = Prod.fst (c, s) := rfl
    exact (map_set_of_eq hi hcall).trans h.calls
  · obtain ⟨row, hrow, huse⟩ := h.uses
    obtain ⟨row', hrow', huse'⟩ := huses row hrow
    have hcount := countP_set (OfInvite invite JoinStage.isCounted) hi (c, s')
    exact ⟨row', hrow', by omega⟩
  · intro l hl
    rcases mem_set_cases hl with rfl | ⟨j, hij, hj⟩
    · exact hat
    · have hne : l.1.userId ≠ c.userId := userId_ne (h.calls ▸ hnd) hi hj hij
      have hold := h.stages l (List.mem_of_getElem? hj)
      have hsame := hother l.1.userId hne
      exact ⟨hold.free, fun hf => hsame.trans (hold.untouched hf), fun hm => hsame ▸ hold.moved hm, hold.held⟩

/-- A turn that only reads. -/
theorem JoinState.read (h : JoinState b invite calls ls m) (hnd : (calls.map JoinCall.userId).Nodup) {i : Nat} {c : JoinCall}
    {s s' : JoinStage} (hi : ls[i]? = some (c, s)) (hlab : n.Labelled (fun l => l.2.program l.1) (ls.set i (c, s')))
    (hstore : n.store = m.store) (hjoined : s'.isJoined = s.isJoined) (hcounted : s'.isCounted = s.isCounted)
    (hfree : s'.isFree = true → b.orgOf c.userId = some none)
    (hheld : ∀ row, s'.held = some row → ∃ row₀, b.invite c.dto.inviteCode = some row₀ ∧ row.terms = row₀.terms) :
    JoinState b invite calls (ls.set i (c, s')) n := by
  have hold := h.stages _ (List.mem_of_getElem? hi)
  refine h.set hnd hi hlab (fun id _ => by rw [hstore]) (by rw [hstore]) ?_ ?_
  · intro row hrow
    refine ⟨row, by rw [hstore, hrow], ?_⟩
    simp only [OfInvite, hcounted]
    rfl
  · refine ⟨hfree, ?_, ?_, hheld⟩
    · intro hf
      rw [hstore]
      exact hold.untouched (hjoined ▸ hf)
    · intro ht
      rw [hstore]
      exact hold.moved (hjoined ▸ ht)

/-- The row with the id of the invite is the invite's. -/
theorem JoinState.row_unique (h : JoinState b invite calls ls m) (hids : (b.accounts.inviteCodes.map InviteCodeRow.id).Nodup)
    (hinv : b.invite invite.code = some invite) {row r : InviteCodeRow} (hrow : m.store.invite invite.code = some row)
    (hr : r ∈ m.store.accounts.inviteCodes) (hid : r.id = invite.id) : r = row := by
  have hmap : m.store.accounts.inviteCodes.map InviteCodeRow.id = b.accounts.inviteCodes.map InviteCodeRow.id := by
    have := congrArg (List.map InviteCodeRow.id) h.terms
    rw [List.map_map, List.map_map] at this
    exact this
  have hrowid : row.id = invite.id := (InviteCodeRow.of_terms (h.row_terms hinv hrow)).1
  exact List.inj_on_of_nodup_map (hmap ▸ hids) hr (List.mem_of_find?_eq_some hrow) (hid.trans hrowid.symm)

/-- Two codes have two invites, with two ids. -/
theorem invite_id_ne (hids : (b.accounts.inviteCodes.map InviteCodeRow.id).Nodup) (hinv : b.invite invite.code = some invite)
    {code : String} {row : InviteCodeRow} (hrow : b.invite code = some row) (hne : code ≠ invite.code) : row.id ≠ invite.id := by
  intro hid
  have hcode : row.code = code := by simpa using List.find?_some hrow
  have hsame : row = invite :=
    List.inj_on_of_nodup_map hids (List.mem_of_find?_eq_some hrow) (List.mem_of_find?_eq_some hinv) hid
  exact hne (by rw [← hcode, hsame])

/-- What a count does to the row of the invite: one use more, when it is a count for this invite. -/
theorem JoinState.invite_increment (h : JoinState b invite calls ls m) (hids : (b.accounts.inviteCodes.map InviteCodeRow.id).Nodup)
    (hinv : b.invite invite.code = some invite) {c : JoinCall} {held row : InviteCodeRow}
    (hheld : ∃ row₀, b.invite c.dto.inviteCode = some row₀ ∧ held.terms = row₀.terms)
    (hrow : m.store.invite invite.code = some row) :
    ∃ row', ((m.store.accounts.inviteCodes.map (countIn held.id)).find? fun r => r.code = invite.code) = some row' ∧
      row'.currentUses = row.currentUses + if c.dto.inviteCode = invite.code then 1 else 0 := by
  obtain ⟨row₀, hrow₀, hterms⟩ := hheld
  have hid : held.id = row₀.id := (InviteCodeRow.of_terms hterms).1
  have hrowid : row.id = invite.id := (InviteCodeRow.of_terms (h.row_terms hinv hrow)).1
  refine ⟨countIn held.id row, ?_, ?_⟩
  · have hcode : ((fun r : InviteCodeRow => decide (r.code = invite.code)) ∘ countIn held.id) =
        fun r : InviteCodeRow => decide (r.code = invite.code) := by
      funext r
      simp only [Function.comp_apply, countIn_code]
    have hfind : m.store.accounts.inviteCodes.find? (fun r => r.code = invite.code) = some row := hrow
    rw [List.find?_map, hcode, hfind]
    rfl
  · unfold countIn
    by_cases hc : c.dto.inviteCode = invite.code
    · rw [hc, hinv, Option.some.injEq] at hrow₀
      have heq : row.id = held.id := by rw [hid, ← hrow₀, hrowid]
      rw [if_pos heq, if_pos hc]
    · have hne : row.id ≠ held.id := by
        rw [hid, hrowid]
        exact (invite_id_ne hids hinv hrow₀ hc).symm
      rw [if_neg hne, if_neg hc, Nat.add_zero]

/-- The turn in which a call moves its user into the organisation of the invite that it holds. -/
theorem JoinState.moveUser (h : JoinState b invite calls ls m) (hnd : (calls.map JoinCall.userId).Nodup) {i : Nat} {c : JoinCall}
    {row : InviteCodeRow} (hi : ls[i]? = some (c, .moveUser row))
    (hstore : n.store = (m.store.exec (.sql (.usersUpdate c.userId (some row.orgId) Roles.viewer))).2)
    (hlab : n.Labelled (fun l => l.2.program l.1) (ls.set i (c, .countUse row))) :
    JoinState b invite calls (ls.set i (c, .countUse row)) n := by
  have hold := h.stages _ (List.mem_of_getElem? hi)
  have horg : ∀ id, n.store.orgOf id = if id = c.userId then (m.store.orgOf id).map fun _ => some row.orgId
      else m.store.orgOf id := by
    intro id
    rw [hstore]
    exact orgOf_usersUpdate m.store c.userId id (some row.orgId) Roles.viewer
  refine h.set hnd hi hlab ?_ (by rw [hstore]; rfl) ?_ ?_
  · intro id hne
    rw [horg, if_neg hne]
  · intro row' hrow'
    exact ⟨row', by rw [hstore]; exact hrow', rfl⟩
  · refine ⟨fun _ => hold.free rfl, (fun hf => by cases hf), fun _ => ?_, fun row' hf => hold.held row' hf⟩
    obtain ⟨row₀, hrow₀, hterms⟩ := hold.held row rfl
    have hone : row.orgId = row₀.orgId := (InviteCodeRow.of_terms hterms).2.1
    refine ⟨row₀, hrow₀, ?_⟩
    rw [horg, if_pos rfl, hold.untouched rfl, hold.free rfl, Option.map_some, hone]

/-- The turn in which a call counts a use, and the constraint lets the count through. -/
theorem JoinState.countUse (h : JoinState b invite calls ls m) (hnd : (calls.map JoinCall.userId).Nodup)
    (hids : (b.accounts.inviteCodes.map InviteCodeRow.id).Nodup) (hinv : b.invite invite.code = some invite) {i : Nat}
    {c : JoinCall} {row : InviteCodeRow} (hi : ls[i]? = some (c, .countUse row))
    (hc : JoinStage.countable m.store row.id = true)
    (hstore : n.store = (m.store.exec (.sql (.inviteCodesIncrementUses row.id))).2)
    (hlab : n.Labelled (fun l => l.2.program l.1) (ls.set i (c, .findOrg row))) :
    JoinState b invite calls (ls.set i (c, .findOrg row)) n := by
  have hold := h.stages _ (List.mem_of_getElem? hi)
  have hacc := exec_increment hc
  have horg : ∀ id, n.store.orgOf id = m.store.orgOf id := by
    intro id
    rw [hstore, Backend.orgOf, hacc]
    rfl
  refine h.set hnd hi hlab (fun id _ => horg id) ?_ ?_ ?_
  · rw [hstore, hacc, List.map_map]
    exact List.map_congr_left fun r _ => countIn_terms row.id r
  · intro row' hrow'
    obtain ⟨row₁, hrow₁, huse⟩ := h.invite_increment hids hinv (hold.held row rfl) hrow'
    refine ⟨row₁, ?_, ?_⟩
    · rw [Backend.invite, hstore, hacc]
      exact hrow₁
    · simp [OfInvite, JoinStage.isCounted, huse]
  · refine ⟨fun _ => hold.free rfl, (fun hf => by cases hf), fun _ => ?_, (fun _ hf => by cases hf)⟩
    rw [horg]
    exact hold.moved rfl

/-- The turn of a call. -/
theorem JoinState.thread (h : JoinState b invite calls ls m) (hnd : (calls.map JoinCall.userId).Nodup)
    (hids : (b.accounts.inviteCodes.map InviteCodeRow.id).Nodup) (hinv : b.invite invite.code = some invite) {i : Nat}
    {c : JoinCall} {s : JoinStage} {cmd : Command} {k : cmd.Reply → Api JoinedOrg} (hi : ls[i]? = some (c, s))
    (hp : s.program c = .call cmd k) (hstore : n.store = (m.store.exec cmd).2)
    (hlab : n.Labelled (fun l => l.2.program l.1) (ls.set i (c, s.next c m.store))) :
    JoinState b invite calls (ls.set i (c, s.next c m.store)) n := by
  have hold := h.stages _ (List.mem_of_getElem? hi)
  cases s with
  | findUser =>
    cases hp
    have hsame : m.store.orgOf c.userId = b.orgOf c.userId := hold.untouched rfl
    cases hu : m.store.accounts.userById c.userId with
    | none =>
      simp only [JoinStage.next, hu] at hlab ⊢
      exact h.read hnd hi hlab hstore rfl rfl (fun hf => by cases hf) (fun _ hf => by cases hf)
    | some user =>
      simp only [JoinStage.next, hu] at hlab ⊢
      by_cases ho : user.orgId = none
      · rw [if_neg (not_not.2 ho)] at hlab ⊢
        refine h.read hnd hi hlab hstore rfl rfl (fun _ => ?_) (fun _ hf => by cases hf)
        rw [← hsame, Backend.orgOf, hu, Option.map_some, ho]
      · rw [if_pos ho] at hlab ⊢
        exact h.read hnd hi hlab hstore rfl rfl (fun hf => by cases hf) (fun _ hf => by cases hf)
  | findInvite =>
    cases hp
    cases hf : m.store.invite c.dto.inviteCode with
    | none =>
      simp only [JoinStage.next, hf] at hlab ⊢
      exact h.read hnd hi hlab hstore rfl rfl (fun hf => by cases hf) (fun _ hf => by cases hf)
    | some row =>
      simp only [JoinStage.next, hf] at hlab ⊢
      refine h.read hnd hi hlab hstore rfl rfl (fun _ => hold.free rfl) ?_
      intro row' hrow'
      cases hrow'
      have hterms := invite_terms h.terms c.dto.inviteCode
      rw [hf, Option.map_some] at hterms
      obtain ⟨row₀, hrow₀, heq⟩ := Option.map_eq_some_iff.1 hterms.symm
      exact ⟨row₀, hrow₀, heq.symm⟩
  | testInvite row =>
    cases hp
    simp only [JoinStage.next] at hlab ⊢
    split at hlab
    · rw [if_pos (by assumption)]
      exact h.read hnd hi hlab hstore rfl rfl (fun hf => by cases hf) (fun _ hf => by cases hf)
    · rw [if_neg (by assumption)]
      split at hlab
      · rw [if_pos (by assumption)]
        exact h.read hnd hi hlab hstore rfl rfl (fun hf => by cases hf) (fun _ hf => by cases hf)
      · rw [if_neg (by assumption)]
        exact h.read hnd hi hlab hstore rfl rfl (fun _ => hold.free rfl) (fun row' hf => hold.held row' hf)
  | moveUser row =>
    cases hp
    exact h.moveUser hnd hi hstore hlab
  | countUse row =>
    cases hp
    cases hc : JoinStage.countable m.store row.id with
    | true =>
      simp only [JoinStage.next, hc, if_true] at hlab ⊢
      exact h.countUse hnd hids hinv hi hc hstore hlab
    | false =>
      have hsame := exec_increment_refused hc
      simp only [JoinStage.next, hc, Bool.false_eq_true, if_false] at hlab ⊢
      exact h.read hnd hi hlab (hstore.trans hsame) rfl rfl (fun _ => hold.free rfl) (fun _ hf => by cases hf)
  | findOrg row =>
    cases hp
    exact h.read hnd hi hlab hstore rfl rfl (fun _ => hold.free rfl) (fun _ hf => by cases hf)
  | readClock row org =>
    cases hp
    exact h.read hnd hi hlab hstore rfl rfl (fun _ => hold.free rfl) (fun _ hf => by cases hf)
  | joined => cases hp
  | refused => cases hp
  | uncounted => cases hp

/-- Time passes. -/
theorem JoinState.event (h : JoinState b invite calls ls m) {ms : Nat} (hstore : n.store = m.store.elapse ms)
    (hlab : n.Labelled (fun l => l.2.program l.1) ls) : JoinState b invite calls ls n := by
  have hacc : n.store.accounts = m.store.accounts := by rw [hstore]; rfl
  have horg : ∀ id, n.store.orgOf id = m.store.orgOf id := by
    intro id
    rw [Backend.orgOf, hacc, Backend.orgOf]
  refine ⟨h.calls, hlab, by rw [hacc, h.terms], ?_, ?_⟩
  · obtain ⟨row, hrow, huse⟩ := h.uses
    exact ⟨row, by rw [Backend.invite, hacc]; exact hrow, huse⟩
  · intro l hl
    have hold := h.stages l hl
    exact ⟨hold.free, fun hf => (horg _).trans (hold.untouched hf), fun ht => by rw [horg]; exact hold.moved ht, hold.held⟩

/-- A turn leaves the stages as they are, or takes one call to its next stage. -/
theorem JoinState.step (h : JoinState b invite calls ls m) (hnd : (calls.map JoinCall.userId).Nodup)
    (hids : (b.accounts.inviteCodes.map InviteCodeRow.id).Nodup) (hinv : b.invite invite.code = some invite) {t : Turn Nat}
    (ht : Interleaving.step Backend.exec Backend.elapse m t = .ok n) :
    JoinState b invite calls ls n ∨
      ∃ i c s, t = .thread i ∧ ls[i]? = some (c, s) ∧ (s.program c).result = none ∧
        JoinState b invite calls (ls.set i (c, s.next c m.store)) n := by
  rcases labelled_step h.labelled ht with ⟨ms, rfl, hstore, hlab⟩ | ⟨i, l, cmd, k, rfl, hi, hp, hstore, hlab⟩
  · exact .inl (h.event hstore hlab)
  · obtain ⟨c, s⟩ := l
    have hnext := hlab (c, s.next c m.store) (JoinStage.program_next hp).symm
    have hp' : s.program c = .call cmd k := hp
    exact .inr ⟨i, c, s, rfl, hi, by rw [hp']; rfl, h.thread hnd hids hinv hi hp hstore hnext⟩

end BrineVault
