import BrineVault.Api.Joining

/-!
# The capacity of an invite

`joinOrg` tests the uses of an invite on the row it has read, moves the user, and counts the use in a statement of its own. Between the
test and the count any number of other calls pass the same test. The database refuses the count that would exceed the capacity, but by
then the user has been moved.
-/

namespace BrineVault

open Interleaving

/-- The call is with the code of the invite, and its user, who had no organisation at first, now has that of the invite. -/
def JoinedThrough (b b' : Backend) (invite : InviteCodeRow) (c : JoinCall) : Prop :=
  c.dto.inviteCode = invite.code ∧ b.orgOf c.userId = some none ∧ b'.orgOf c.userId = some (some invite.orgId)

instance (b b' : Backend) (invite : InviteCodeRow) (c : JoinCall) : Decidable (JoinedThrough b b' invite c) :=
  inferInstanceAs (Decidable (_ ∧ _ ∧ _))

/-- The number of users who have joined through the invite since the state `b`. -/
def joinedCount (b : Backend) (invite : InviteCodeRow) (calls : List JoinCall) (b' : Backend) : Nat :=
  calls.countP fun c => JoinedThrough b b' invite c

/-- The command a program sends next. -/
def nextCommand {α : Type} : Api α → Option Command
  | .call c _ => some c
  | _ => none

/-- The statement that moves a user. -/
def Command.movesUser : Command → Bool
  | .sql (.usersUpdate ..) => true
  | _ => false

/-- The statement that counts a use. -/
def Command.countsUse : Command → Bool
  | .sql (.inviteCodesIncrementUses _) => true
  | _ => false

/-- The call has passed the test and is yet to move its user, or to count the use. -/
def awaitsCount (p : Api JoinedOrg) : Bool := (nextCommand p).any fun c => c.movesUser || c.countsUse

/-- The number of calls with the code that have passed the test and have not counted yet. -/
def awaitingCount (invite : InviteCodeRow) (calls : List JoinCall) (m : ApiPool JoinedOrg) : Nat :=
  (calls.zip m.threads).countP fun x => decide (x.1.dto.inviteCode = invite.code) && awaitsCount x.2

/-- In its next turn the call with number `i` reads the clock, and so passes the test of the invite. -/
def PassesTest (invite : InviteCodeRow) (calls : List JoinCall) (m : ApiPool JoinedOrg) (i : Nat) : Prop :=
  ∃ c k, calls[i]? = some c ∧ c.dto.inviteCode = invite.code ∧ m.threads[i]? = some (.call .dateNow k) ∧
    (nextCommand (k m.store.now)).any Command.movesUser = true

/-- The turn passes no call through the test of the invite while the calls that have passed it already use up what is left. -/
def WithinCapacity (invite : InviteCodeRow) (calls : List JoinCall) (m : ApiPool JoinedOrg) (t : Turn Nat) : Prop :=
  ∀ i, t = .thread i → PassesTest invite calls m i →
    ∀ row, m.store.invite invite.code = some row → row.currentUses + awaitingCount invite calls m < row.maxUses

/-- A call is about to count exactly when its stage is. -/
theorem JoinStage.awaitsCount_program (c : JoinCall) (s : JoinStage) : awaitsCount (s.program c) = s.awaits := by
  cases s <;> rfl

variable {b : Backend} {invite : InviteCodeRow} {calls : List JoinCall} {ls : List (JoinCall × JoinStage)}
  {m n : ApiPool JoinedOrg}

/-! ## The counts -/

/-- As many calls are about to count a use as stages are. -/
theorem JoinState.awaitingCount_eq (h : JoinState b invite calls ls m) :
    awaitingCount invite calls m = ls.countP (OfInvite invite JoinStage.awaits) := by
  have hzip : calls.zip m.threads = ls.map fun l => (l.1, l.2.program l.1) := by
    rw [← h.calls, show m.threads = ls.map fun l => l.2.program l.1 from h.labelled, List.zip_map']
  rw [awaitingCount, hzip, List.countP_map]
  congr 1
  funext l
  simp only [Function.comp_apply, OfInvite, JoinStage.awaitsCount_program]

/-- A user has joined exactly when the call has moved it. -/
theorem JoinState.joinedCount_eq (h : JoinState b invite calls ls m) (hinv : b.invite invite.code = some invite) :
    joinedCount b invite calls m.store = ls.countP (OfInvite invite JoinStage.isJoined) := by
  have hiff : ∀ l ∈ ls, JoinedThrough b m.store invite l.1 ↔ l.1.dto.inviteCode = invite.code ∧ l.2.isJoined = true := by
    intro l hl
    have hat := h.stages l hl
    constructor
    · rintro ⟨hc, hfree, hmoved⟩
      refine ⟨hc, ?_⟩
      by_contra hj
      have hsame := hat.untouched (by simpa using hj)
      rw [hsame, hfree] at hmoved
      cases hmoved
    · rintro ⟨hc, hj⟩
      obtain ⟨row, hrow, hmoved⟩ := hat.moved hj
      rw [hc, hinv, Option.some.injEq] at hrow
      exact ⟨hc, hat.free (JoinStage.isFree_of_isJoined hj), hrow ▸ hmoved⟩
  rw [joinedCount, ← h.calls, List.countP_map]
  refine List.countP_congr fun l hl => ?_
  rw [Function.comp_apply, decide_eq_true_eq, hiff l hl, OfInvite, Bool.and_eq_true, decide_eq_true_eq]

/-- Only the test of an invite leads to the statements that move its user and count the use, when the row that was read passes it. -/
theorem JoinStage.eq_testInvite_of_awaits_next {c : JoinCall} {b : Backend} {s : JoinStage} (hno : s.awaits = false)
    (hyes : (s.next c b).awaits = true) :
    ∃ row, s = .testInvite row ∧ ¬ row.expiresAt ≤ b.now ∧ ¬ row.currentUses ≥ row.maxUses := by
  cases s with
  | testInvite row =>
    simp only [JoinStage.next] at hyes
    split at hyes
    · cases hyes
    · rename_i hexp
      split at hyes
      · cases hyes
      · rename_i huse
        exact ⟨row, rfl, hexp, huse⟩
  | findUser =>
    simp only [JoinStage.next] at hyes
    split at hyes
    · cases hyes
    · split at hyes <;> cases hyes
  | findInvite =>
    simp only [JoinStage.next] at hyes
    split at hyes <;> cases hyes
  | moveUser => cases hno
  | countUse => cases hno
  | findOrg => cases hyes
  | readClock => cases hyes
  | joined => cases hyes
  | refused => cases hyes
  | uncounted => cases hyes

/-- The test is passed in the turn that takes a call to the statements that move its user and count the use. -/
theorem JoinState.passesTest_iff (h : JoinState b invite calls ls m) {i : Nat} {c : JoinCall} {s : JoinStage}
    (hi : ls[i]? = some (c, s)) : PassesTest invite calls m i ↔
      c.dto.inviteCode = invite.code ∧ s.awaits = false ∧ (s.next c m.store).awaits = true := by
  have hcall : calls[i]? = some c := by
    rw [← h.calls, List.getElem?_map, hi]
    rfl
  have hthread : m.threads[i]? = some (s.program c) := by
    rw [show m.threads = ls.map fun l => l.2.program l.1 from h.labelled, List.getElem?_map, hi]
    rfl
  constructor
  · rintro ⟨c', k, hc', hcode, hk, hmoves⟩
    rw [hcall, Option.some.injEq] at hc'
    subst hc'
    rw [hthread, Option.some.injEq] at hk
    have hnext : k m.store.now = (s.next c m.store).program c := JoinStage.program_next (b := m.store) hk
    refine ⟨hcode, ?_, ?_⟩
    · rw [← JoinStage.awaitsCount_program c, hk]
      rfl
    · rw [← JoinStage.awaitsCount_program c, ← hnext, awaitsCount]
      cases hcmd : nextCommand (k m.store.now) with
      | none =>
        rw [hcmd] at hmoves
        cases hmoves
      | some cmd =>
        rw [hcmd, Option.any_some] at hmoves
        rw [Option.any_some, hmoves, Bool.true_or]
  · rintro ⟨hcode, hno, hyes⟩
    obtain ⟨row, rfl, hexp, huse⟩ := JoinStage.eq_testInvite_of_awaits_next hno hyes
    refine ⟨c, _, hcall, hcode, hthread, ?_⟩
    change (nextCommand (if row.expiresAt ≤ m.store.now then _ else if row.currentUses ≥ row.maxUses then _ else _)).any
      Command.movesUser = true
    rw [if_neg hexp, if_neg huse]
    rfl

/-! ## Within the capacity -/

/-- The call has moved its user, or will. -/
def JoinStage.isBound : JoinStage → Bool
  | moveUser _ => true
  | s => s.isJoined

/-- The state of the calls while the capacity is kept: no count was refused, and what is left covers the calls that await theirs. -/
structure KeptState (b : Backend) (invite : InviteCodeRow) (calls : List JoinCall) (ls : List (JoinCall × JoinStage))
    (m : ApiPool JoinedOrg) : Prop extends JoinState b invite calls ls m where
  counted : ∀ l ∈ ls, l.1.dto.inviteCode = invite.code → l.2 ≠ .uncounted
  covered : invite.currentUses + ls.countP (OfInvite invite JoinStage.isCounted) +
    ls.countP (OfInvite invite JoinStage.awaits) ≤ invite.maxUses

/-- A turn counts a use for a call that awaits it, or a call comes to await its count, or neither. -/
theorem JoinStage.next_flags (c : JoinCall) (b : Backend) {s : JoinStage} (h : (s.program c).result = none) :
    ((s.next c b).isCounted = s.isCounted ∧ (s.next c b).awaits = s.awaits) ∨
      (s.isCounted = false ∧ s.awaits = true ∧ (s.next c b).awaits = false ∧
        ((s.next c b).isCounted = true ∨ s.next c b = .uncounted)) ∨
      (s.awaits = false ∧ (s.next c b).awaits = true ∧ (s.next c b).isCounted = s.isCounted ∧ s.isBound = false) := by
  cases s with
  | findUser =>
    simp only [next]
    split
    · exact .inl ⟨rfl, rfl⟩
    · split <;> exact .inl ⟨rfl, rfl⟩
  | findInvite =>
    simp only [next]
    split <;> exact .inl ⟨rfl, rfl⟩
  | testInvite row =>
    simp only [next]
    split
    · exact .inl ⟨rfl, rfl⟩
    · split
      · exact .inl ⟨rfl, rfl⟩
      · exact .inr (.inr ⟨rfl, rfl, rfl, rfl⟩)
  | moveUser row => exact .inl ⟨rfl, rfl⟩
  | countUse row =>
    simp only [next]
    split
    · exact .inr (.inl ⟨rfl, rfl, rfl, .inl rfl⟩)
    · exact .inr (.inl ⟨rfl, rfl, rfl, .inr rfl⟩)
  | findOrg => exact .inl ⟨rfl, rfl⟩
  | readClock => exact .inl ⟨rfl, rfl⟩
  | joined => cases h
  | refused => cases h
  | uncounted => cases h

/-- A call that is bound to join stays so. -/
theorem JoinStage.isBound_next (c : JoinCall) (b : Backend) {s : JoinStage} (h : s.isBound = true) :
    (s.next c b).isBound = true := by
  cases s with
  | moveUser => rfl
  | countUse row =>
    simp only [next]
    split <;> rfl
  | findOrg => rfl
  | readClock => rfl
  | joined => rfl
  | uncounted => rfl
  | findUser => cases h
  | findInvite => cases h
  | testInvite => cases h
  | refused => cases h

/-- A call about to count has moved its user. -/
theorem JoinStage.isBound_of_awaits {s : JoinStage} (h : s.awaits = true) : s.isBound = true := by
  cases s with
  | moveUser => rfl
  | countUse => rfl
  | _ => cases h

/-- While what is left covers the calls that await their count, no count of theirs is refused. -/
theorem KeptState.countable (h : KeptState b invite calls ls m) (hids : (b.accounts.inviteCodes.map InviteCodeRow.id).Nodup)
    (hinv : b.invite invite.code = some invite) {i : Nat} {c : JoinCall} {held : InviteCodeRow}
    (hi : ls[i]? = some (c, .countUse held)) (hc : c.dto.inviteCode = invite.code) :
    JoinStage.countable m.store held.id = true := by
  obtain ⟨row, hrow, huse⟩ := h.uses
  obtain ⟨row₀, hrow₀, hterms⟩ := (h.stages _ (List.mem_of_getElem? hi)).held held rfl
  rw [hc, hinv, Option.some.injEq] at hrow₀
  subst hrow₀
  have hmax : row.maxUses = invite.maxUses := (InviteCodeRow.of_terms (h.row_terms hinv hrow)).2.2
  have hone : 0 < ls.countP (OfInvite invite JoinStage.awaits) := by
    refine List.countP_pos_iff.2 ⟨_, List.mem_of_getElem? hi, ?_⟩
    simp [OfInvite, JoinStage.awaits, hc]
  have hcovered := h.covered
  refine countable_iff.2 fun r hr hid => ?_
  have hsame := h.row_unique hids hinv hrow hr (hid.trans (InviteCodeRow.of_terms hterms).1)
  rw [hsame]
  omega

/-- A turn that passes no call beyond the capacity keeps it. -/
theorem KeptState.thread (h : KeptState b invite calls ls m) (hids : (b.accounts.inviteCodes.map InviteCodeRow.id).Nodup)
    (hinv : b.invite invite.code = some invite) {i : Nat} {c : JoinCall} {s : JoinStage} (hi : ls[i]? = some (c, s))
    (hres : (s.program c).result = none) (hgood : WithinCapacity invite calls m (.thread i))
    (hn : JoinState b invite calls (ls.set i (c, s.next c m.store)) n) :
    KeptState b invite calls (ls.set i (c, s.next c m.store)) n := by
  refine ⟨hn, ?_, ?_⟩
  · intro l hl hc hun
    rcases List.mem_or_eq_of_mem_set hl with hl | rfl
    · exact h.counted l hl hc hun
    · cases s with
      | countUse held =>
        have hok := h.countable hids hinv hi hc
        simp only [JoinStage.next, hok, if_true] at hun
        cases hun
      | findUser =>
        simp only [JoinStage.next] at hun
        split at hun
        · cases hun
        · split at hun <;> cases hun
      | findInvite =>
        simp only [JoinStage.next] at hun
        split at hun <;> cases hun
      | testInvite row =>
        simp only [JoinStage.next] at hun
        split at hun
        · cases hun
        · split at hun <;> cases hun
      | moveUser => cases hun
      | findOrg => cases hun
      | readClock => cases hun
      | joined => cases hres
      | refused => cases hres
      | uncounted => cases hres
  · have hcovered := h.covered
    have hcounted := countP_set (OfInvite invite JoinStage.isCounted) hi (c, s.next c m.store)
    have hawaits := countP_set (OfInvite invite JoinStage.awaits) hi (c, s.next c m.store)
    by_cases hc : c.dto.inviteCode = invite.code
    · simp only [OfInvite, hc, decide_true, Bool.true_and] at hcounted hawaits
      rcases JoinStage.next_flags c m.store hres with ⟨h1, h2⟩ | ⟨h1, h2, h3, h4⟩ | ⟨h1, h2, h3, -⟩
      · rw [h1] at hcounted
        rw [h2] at hawaits
        omega
      · -- The call leaves those that await their count, whether it is let through or not.
        rw [h1] at hcounted
        rw [h2, h3] at hawaits
        have hle : (if (s.next c m.store).isCounted = true then 1 else 0) ≤ 1 := by split <;> omega
        simp only [Bool.false_eq_true, if_false, if_true] at hcounted hawaits
        omega
      · -- The call passes the test.
        obtain ⟨row, hrow, huse⟩ := h.uses
        have hlt := hgood i rfl ((h.passesTest_iff hi).2 ⟨hc, h1, h2⟩) row hrow
        rw [h.awaitingCount_eq, (InviteCodeRow.of_terms (h.row_terms hinv hrow)).2.2, huse] at hlt
        rw [h3] at hcounted
        rw [h1, h2] at hawaits
        simp only [Bool.false_eq_true, if_false, if_true] at hcounted hawaits
        omega
    · simp only [OfInvite, hc, decide_false, Bool.false_and, Bool.false_eq_true, if_false] at hcounted hawaits
      omega

/-! ## Runs -/

/-- The capacity of the invite is kept: the uses there were and the users who have joined are no more than it, and the uses are these
when all calls have finished. -/
def CapacityKept (b : Backend) (invite : InviteCodeRow) (calls : List JoinCall) (m : ApiPool JoinedOrg) : Prop :=
  invite.currentUses + joinedCount b invite calls m.store ≤ invite.maxUses ∧
    (m.Finished → ∃ row, m.store.invite invite.code = some row ∧
      row.currentUses = invite.currentUses + joinedCount b invite calls m.store)

/-- At the end no call awaits its count, and the calls that are bound to join have joined. -/
theorem JoinState.finished (h : JoinState b invite calls ls m) (hf : m.Finished) {l : JoinCall × JoinStage} (hl : l ∈ ls) :
    l.2.awaits = false ∧ l.2.isBound = l.2.isJoined ∧ (l.2 ≠ .uncounted → l.2.isJoined = l.2.isCounted) := by
  obtain ⟨c, s⟩ := l
  have hmem : s.program c ∈ m.threads := by
    rw [show m.threads = ls.map fun l => l.2.program l.1 from h.labelled]
    exact List.mem_map.2 ⟨(c, s), hl, rfl⟩
  have hdone := hf _ hmem
  cases s with
  | joined => exact ⟨rfl, rfl, fun _ => rfl⟩
  | refused => exact ⟨rfl, rfl, fun _ => rfl⟩
  | uncounted => exact ⟨rfl, rfl, fun hne => absurd rfl hne⟩
  | _ => cases hdone

/-- In a state where the counts are kept the capacity is. -/
theorem KeptState.capacityKept (h : KeptState b invite calls ls m) (hinv : b.invite invite.code = some invite) :
    CapacityKept b invite calls m := by
  have hjoined := h.joinedCount_eq hinv
  constructor
  · have hle : ls.countP (OfInvite invite JoinStage.isJoined) ≤
        ls.countP (OfInvite invite JoinStage.isCounted) + ls.countP (OfInvite invite JoinStage.awaits) := by
      refine countP_le_add fun l hl hj => ?_
      simp only [OfInvite, Bool.and_eq_true, decide_eq_true_eq] at hj ⊢
      have hun := h.counted l hl hj.1
      obtain ⟨c, s⟩ := l
      cases s with
      | countUse => exact .inr ⟨hj.1, rfl⟩
      | findOrg => exact .inl ⟨hj.1, rfl⟩
      | readClock => exact .inl ⟨hj.1, rfl⟩
      | joined => exact .inl ⟨hj.1, rfl⟩
      | uncounted => exact absurd rfl hun
      | _ => cases hj.2
    have hcovered := h.covered
    omega
  · intro hf
    obtain ⟨row, hrow, huse⟩ := h.uses
    refine ⟨row, hrow, ?_⟩
    rw [huse, hjoined]
    congr 1
    refine List.countP_congr fun l hl => ?_
    simp only [OfInvite, Bool.and_eq_true, decide_eq_true_eq]
    refine and_congr_right fun hc => ?_
    rw [(h.finished hf hl).2.2 (h.counted l hl hc)]

/-- Every state of a run has the calls in some stages. -/
theorem joinState_run (hnd : (calls.map JoinCall.userId).Nodup) (hids : (b.accounts.inviteCodes.map InviteCodeRow.id).Nodup)
    (hinv : b.invite invite.code = some invite) {turns : Schedule} (hr : (joining b calls).run turns = .ok m) :
    ∃ ls, JoinState b invite calls ls m := by
  refine Steps.run_preserves (step Backend.exec Backend.elapse) (P := fun m => ∃ ls, JoinState b invite calls ls m) ?_ hr
    ⟨_, joinState_start hinv⟩
  rintro m t n ⟨ls, h⟩ ht
  rcases h.step hnd hids hinv ht with h' | ⟨_, _, _, _, _, _, h'⟩
  · exact ⟨_, h'⟩
  · exact ⟨_, h'⟩

/-- The number of calls that are bound to join never falls. -/
theorem bound_run (hnd : (calls.map JoinCall.userId).Nodup) (hids : (b.accounts.inviteCodes.map InviteCodeRow.id).Nodup)
    (hinv : b.invite invite.code = some invite) (hm : JoinState b invite calls ls m) {turns : Schedule}
    (hr : Steps.run (step Backend.exec Backend.elapse) m turns = .ok n) :
    ∃ ls', JoinState b invite calls ls' n ∧
      ls.countP (OfInvite invite JoinStage.isBound) ≤ ls'.countP (OfInvite invite JoinStage.isBound) := by
  refine Steps.run_preserves (step Backend.exec Backend.elapse) (P := fun n => ∃ ls', JoinState b invite calls ls' n ∧
    ls.countP (OfInvite invite JoinStage.isBound) ≤ ls'.countP (OfInvite invite JoinStage.isBound)) ?_ hr ⟨ls, hm, le_rfl⟩
  rintro m t n ⟨ls', h, hle⟩ ht
  rcases h.step hnd hids hinv ht with h' | ⟨i, c, s, _, hi, _, h'⟩
  · exact ⟨ls', h', hle⟩
  · have hset := countP_set (OfInvite invite JoinStage.isBound) hi (c, s.next c m.store)
    have hmono : (if OfInvite invite JoinStage.isBound (c, s) = true then 1 else 0) ≤
        if OfInvite invite JoinStage.isBound (c, s.next c m.store) = true then 1 else 0 := by
      by_cases hb : OfInvite invite JoinStage.isBound (c, s) = true
      · simp only [OfInvite, Bool.and_eq_true] at hb
        have hb' : OfInvite invite JoinStage.isBound (c, s.next c m.store) = true := by
          simp only [OfInvite, Bool.and_eq_true]
          exact ⟨hb.1, JoinStage.isBound_next c m.store hb.2⟩
        rw [if_pos hb']
        split <;> omega
      · rw [if_neg hb]
        exact Nat.zero_le _
    exact ⟨_, h', by omega⟩

/-- A call that passes the test when what is left is used up takes the invite over its capacity: by the end its user has joined. -/
theorem overshoot (hnd : (calls.map JoinCall.userId).Nodup) (hids : (b.accounts.inviteCodes.map InviteCodeRow.id).Nodup)
    (hinv : b.invite invite.code = some invite) {past rest : Schedule} {t : Turn Nat} {mid : ApiPool JoinedOrg}
    (hmid : (joining b calls).run past = .ok mid) (hbad : ¬ WithinCapacity invite calls mid t)
    (hr : Steps.run (step Backend.exec Backend.elapse) mid (t :: rest) = .ok m) (hf : m.Finished) :
    ¬ CapacityKept b invite calls m := by
  obtain ⟨ls, h⟩ := joinState_run hnd hids hinv hmid
  simp only [WithinCapacity, not_forall, not_lt] at hbad
  obtain ⟨i, rfl, hpass, row, hrow, hfull⟩ := hbad
  obtain ⟨n, hstep, hrest⟩ := (Steps.run_cons_ok _).1 hr
  rcases labelled_step h.labelled hstep with ⟨ms, he, -⟩ | ⟨j, l, cmd, k, he, hi, hp, hstore, hlab⟩
  · cases he
  · cases he
    obtain ⟨c, s⟩ := l
    have hn := h.thread hnd hids hinv hi hp hstore (hlab (c, s.next c mid.store) (JoinStage.program_next hp).symm)
    obtain ⟨hc, hno, hyes⟩ := (h.passesTest_iff hi).1 hpass
    have hp' : s.program c = .call cmd k := hp
    have hnext : s.isBound = false ∧ (s.next c mid.store).isBound = true := by
      rcases JoinStage.next_flags c mid.store (s := s) (by rw [hp']; rfl) with ⟨-, h2⟩ | ⟨-, h2, -⟩ | ⟨-, -, -, h4⟩
      · rw [h2, hno] at hyes
        cases hyes
      · rw [hno] at h2
        cases h2
      · exact ⟨h4, JoinStage.isBound_of_awaits hyes⟩
    have hset := countP_set (OfInvite invite JoinStage.isBound) hi (c, s.next c mid.store)
    simp only [OfInvite, hc, hnext, decide_true, Bool.true_and, Bool.false_eq_true, if_false, if_true] at hset
    -- Before the turn those that have counted and those that await their count are all bound to join.
    have hbefore : ls.countP (OfInvite invite JoinStage.isCounted) + ls.countP (OfInvite invite JoinStage.awaits) ≤
        ls.countP (OfInvite invite JoinStage.isBound) := by
      refine countP_add_le (fun l _ hl => ?_) fun l _ hl => ?_
      · simp only [OfInvite, Bool.and_eq_true] at hl ⊢
        obtain ⟨c, s⟩ := l
        cases s with
        | findOrg => exact ⟨hl, by simp [JoinStage.awaits]⟩
        | readClock => exact ⟨hl, by simp [JoinStage.awaits]⟩
        | joined => exact ⟨hl, by simp [JoinStage.awaits]⟩
        | _ => cases hl.2
      · simp only [OfInvite, Bool.and_eq_true] at hl ⊢
        exact ⟨hl.1, JoinStage.isBound_of_awaits hl.2⟩
    obtain ⟨row', hrow', huse⟩ := h.uses
    rw [hrow, Option.some.injEq] at hrow'
    subst hrow'
    rw [h.awaitingCount_eq, (InviteCodeRow.of_terms (h.row_terms hinv hrow)).2.2, huse] at hfull
    obtain ⟨ls', hend, hle⟩ := bound_run hnd hids hinv hn hrest
    have hjoined : ls'.countP (OfInvite invite JoinStage.isBound) = ls'.countP (OfInvite invite JoinStage.isJoined) := by
      refine List.countP_congr fun l hl => ?_
      simp only [OfInvite, (hend.finished hf hl).2.1]
    intro hkept
    have hmax := hkept.1
    rw [hend.joinedCount_eq hinv, ← hjoined] at hmax
    omega

/-- In every run of calls by different users the capacity of an invite is kept in every state, when no call passes the test of the invite
while the calls that have passed it and have not counted use up what is left; and when all calls have finished, only then. -/
theorem invite_capacity_iff (hnd : (calls.map JoinCall.userId).Nodup)
    (hids : (b.accounts.inviteCodes.map InviteCodeRow.id).Nodup) (hinv : b.invite invite.code = some invite)
    (hcap : invite.currentUses ≤ invite.maxUses) {turns : Schedule} (hr : (joining b calls).run turns = .ok m) :
    (Steps.AllSteps (step Backend.exec Backend.elapse) (WithinCapacity invite calls) (joining b calls) turns →
      ∀ past rest m', turns = past ++ rest → (joining b calls).run past = .ok m' → CapacityKept b invite calls m') ∧
    (m.Finished → (∀ past rest m', turns = past ++ rest → (joining b calls).run past = .ok m' → CapacityKept b invite calls m') →
      Steps.AllSteps (step Backend.exec Backend.elapse) (WithinCapacity invite calls) (joining b calls) turns) := by
  constructor
  · intro hall past rest m' hturns hm'
    have hall' : Steps.AllSteps (step Backend.exec Backend.elapse) (WithinCapacity invite calls) (joining b calls) past := by
      intro past' t rest' n hpast hn
      exact hall past' t (rest' ++ rest) n (by rw [hturns, hpast]; simp) hn
    have hkept : ∃ ls, KeptState b invite calls ls m' := by
      refine Steps.run_invariant_of_allSteps (step Backend.exec Backend.elapse)
        (fun _ m => ∃ ls, KeptState b invite calls ls m) ?_ ?_ hm' hall'
      · refine ⟨_, joinState_start hinv, ?_, ?_⟩
        · intro l hl _
          obtain ⟨c, _, rfl⟩ := List.mem_map.1 hl
          simp
        · have hzero : ∀ flag : JoinStage → Bool, flag .findUser = false →
              (calls.map fun c => (c, JoinStage.findUser)).countP (OfInvite invite flag) = 0 := by
            intro flag hflag
            rw [List.countP_eq_zero]
            intro l hl
            obtain ⟨c, _, rfl⟩ := List.mem_map.1 hl
            simp [OfInvite, hflag]
          rw [hzero _ rfl, hzero _ rfl]
          exact hcap
      · rintro past m t n - ⟨ls, h⟩ hgood ht
        rcases labelled_step h.labelled ht with ⟨ms, rfl, hstore, hlab⟩ | ⟨i, l, cmd, k, rfl, hi, hp, hstore, hlab⟩
        · exact ⟨ls, h.event hstore hlab, h.counted, h.covered⟩
        · obtain ⟨c, s⟩ := l
          have hp' : s.program c = .call cmd k := hp
          have hn := h.toJoinState.thread hnd hids hinv hi hp hstore
            (hlab (c, s.next c m.store) (JoinStage.program_next hp).symm)
          exact ⟨_, h.thread hids hinv hi (by rw [hp']; rfl) hgood hn⟩
    obtain ⟨ls, h⟩ := hkept
    exact h.capacityKept hinv
  · intro hf hkept past t rest mid hturns hmid
    by_contra hbad
    obtain ⟨mid', hmid', hrest⟩ := Steps.run_prefix (step Backend.exec Backend.elapse) hr hturns
    have hmid₀ : Steps.run (step Backend.exec Backend.elapse) (joining b calls) past = .ok mid := hmid
    rw [hmid₀, Except.ok.injEq] at hmid'
    subst hmid'
    exact overshoot hnd hids hinv hmid hbad hrest hf (hkept turns [] m (by simp) hr)

namespace Sample

/-- An invite with one use. -/
def singleUse : InviteCodeRow :=
  { id := .given 1, orgId := .zero, code := "c", createdByUserId := .given 7, maxUses := 1, currentUses := 0, expiresAt := 1 }

/-- Two users without an organisation, and the invite. -/
def invited : Backend :=
  { backend with
    now := 0
    accounts := { users := [Accounts.newUser (.given 7) "0x7", Accounts.newUser (.given 8) "0x8"], organizations := [],
                  inviteCodes := [singleUse] } }

/-- Both users with the code. -/
def joinCalls : List JoinCall := [⟨.given 7, ⟨"c"⟩⟩, ⟨.given 8, ⟨"c"⟩⟩]

end Sample

/-- Two calls, one after the other. -/
theorem invite_capacity_iff_sample :
    ∃ m, (joining Sample.invited Sample.joinCalls).run (Sample.turnsOf 0 7 ++ Sample.turnsOf 1 3) = .ok m ∧ m.Finished ∧
      ((∀ past rest m', Sample.turnsOf 0 7 ++ Sample.turnsOf 1 3 = past ++ rest →
          (joining Sample.invited Sample.joinCalls).run past = .ok m' →
          CapacityKept Sample.invited Sample.singleUse Sample.joinCalls m') →
        Steps.AllSteps (step Backend.exec Backend.elapse) (WithinCapacity Sample.singleUse Sample.joinCalls)
          (joining Sample.invited Sample.joinCalls) (Sample.turnsOf 0 7 ++ Sample.turnsOf 1 3)) :=
  ⟨_, rfl, by decide +kernel, (invite_capacity_iff (by decide) (by decide) (by decide) (by decide) rfl).2 (by decide +kernel)⟩

/-- Both calls read the invite before either counts a use: both users have joined, and one use is counted. -/
theorem invite_oversubscribed :
    ∃ m, (joining Sample.invited Sample.joinCalls).run
        (Sample.turnsOf 0 3 ++ Sample.turnsOf 1 3 ++ Sample.turnsOf 0 4 ++ Sample.turnsOf 1 2) = .ok m ∧ m.Finished ∧
      joinedCount Sample.invited Sample.singleUse Sample.joinCalls m.store = 2 ∧
      ¬ CapacityKept Sample.invited Sample.singleUse Sample.joinCalls m := by
  refine ⟨_, rfl, by decide +kernel, by decide +kernel, fun h => ?_⟩
  exact absurd h.1 (by decide +kernel)

end BrineVault
