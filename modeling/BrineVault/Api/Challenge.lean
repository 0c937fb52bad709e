import BrineVault.Api.Calls

/-!
# A nonce against concurrent logins

`consumeChallenge` reads the challenge in one command and deletes it in the next. Every call that reads before the first of them has
deleted is given the data, so that a schedule decides by the order of its turns how many logins one nonce is good for.
-/

namespace BrineVault

open Interleaving
open SessionService

/-- How many commands the call with number `i` sends in a schedule. -/
def taken (turns : Schedule) (i : Nat) : Nat := turns.count (.thread i)

/-- Any number of calls that consume one nonce, each over a connection of its own. -/
def consumers (b : Backend) (nonce : String) (n : Nat) : ApiPool (Option ChallengeData) :=
  { store := b, threads := List.replicate n (consumeChallenge nonce) }

/-- The call with number `i` sends its `GET` before any call has sent its `DEL`, and while the challenge has not expired. -/
def ReadsInTime (b : Backend) (nonce : String) (turns : Schedule) (i : Nat) : Prop :=
  ∃ past rest, turns = past ++ .thread i :: rest ∧ taken past i = 0 ∧ (∀ j, taken past j ≤ 1) ∧
    (b.challenges.live (b.now + elapsed past) nonce).isSome = true

/-- The call with number `i` has returned the data of the challenge. -/
def ReturnedData (m : ApiPool (Option ChallengeData)) (i : Nat) : Prop := ∃ data, m.threads[i]? = some (.ret (some data))

/-! ## Turns -/

theorem taken_snoc_event (past : Schedule) (ms j : Nat) : taken (past ++ [.event ms]) j = taken past j := by
  simp [taken]

theorem taken_snoc_thread (past : Schedule) (i j : Nat) :
    taken (past ++ [.thread i]) j = taken past j + if i = j then 1 else 0 := by
  by_cases h : i = j <;> simp [taken, h]

/-- A thread reads in time by an earlier turn, or by this one. -/
theorem readsInTime_snoc {b : Backend} {nonce : String} {past : Schedule} {t : Turn Nat} {i : Nat} :
    ReadsInTime b nonce (past ++ [t]) i ↔ ReadsInTime b nonce past i ∨
      (t = .thread i ∧ taken past i = 0 ∧ (∀ j, taken past j ≤ 1) ∧
        (b.challenges.live (b.now + elapsed past) nonce).isSome = true) := by
  constructor
  · rintro ⟨first, rest, he, h⟩
    rcases Steps.snoc_eq_append_cons he with ⟨-, rfl, rfl⟩ | ⟨rest, -, rfl⟩
    · exact .inr ⟨rfl, h⟩
    · exact .inl ⟨first, rest, rfl, h⟩
  · rintro (⟨first, rest, rfl, h⟩ | ⟨rfl, h⟩)
    · exact ⟨first, rest ++ [t], by simp, h⟩
    · exact ⟨past, [], rfl, h⟩

/-! ## Where the calls are -/

/-- What is left of a call after its `GET` has answered. -/
def afterGet (nonce : String) (value : Option ChallengeData) : Api (Option ChallengeData) :=
  .call (.challenge (.del nonce)) fun _ => .ret value

/-- Where a call is after some of its commands; once it has read, it holds the data exactly when it read in time. -/
inductive CallAt (nonce : String) (inTime : Prop) : Nat → Api (Option ChallengeData) → Prop where
  | toRead : CallAt nonce inTime 0 (consumeChallenge nonce)
  | toDelete {value : Option ChallengeData} (hv : value.isSome = true ↔ inTime) : CallAt nonce inTime 1 (afterGet nonce value)
  | done {value : Option ChallengeData} (hv : value.isSome = true ↔ inTime) : CallAt nonce inTime 2 (.ret value)

/-- The pool after a schedule: the clock, whether the challenge has been deleted, and where each call is. -/
structure ConsumedBy (b : Backend) (nonce : String) (past : Schedule) (m : ApiPool (Option ChallengeData)) : Prop where
  now : m.store.now = b.now + elapsed past
  stored : (∀ j, taken past j ≤ 1) → m.store.challenges nonce = b.challenges nonce
  deleted : ∀ j, 2 ≤ taken past j → m.store.challenges nonce = none
  calls : ∀ i p, m.threads[i]? = some p → CallAt nonce (ReadsInTime b nonce past i) (taken past i) p

/-- At the start nobody has read anything. -/
theorem consumedBy_start (b : Backend) (nonce : String) (n : Nat) : ConsumedBy b nonce [] (consumers b nonce n) := by
  constructor
  · rfl
  · intro _
    rfl
  · intro j hj
    simp [taken] at hj
  · intro i p hi
    have hp : p = consumeChallenge nonce := List.eq_of_mem_replicate (List.mem_of_getElem? hi)
    rw [hp]
    exact .toRead

/-- Time passes, and no call moves. -/
theorem ConsumedBy.event {b : Backend} {nonce : String} {past : Schedule} {m : ApiPool (Option ChallengeData)}
    (h : ConsumedBy b nonce past m) (ms : Nat) :
    ConsumedBy b nonce (past ++ [.event ms]) { m with store := m.store.elapse ms } := by
  constructor
  · have := h.now
    rw [elapsed_snoc_event]
    simp only [Backend.elapse]
    omega
  · simp only [taken_snoc_event]
    exact h.stored
  · simp only [taken_snoc_event]
    exact h.deleted
  · intro i p hi
    have hreads : ReadsInTime b nonce (past ++ [.event ms]) i ↔ ReadsInTime b nonce past i := by
      simp [readsInTime_snoc]
    rw [taken_snoc_event, propext hreads]
    exact h.calls i p hi

/-- A call that does not take the turn stays where it is. -/
theorem CallAt.other {b : Backend} {nonce : String} {past : Schedule} {i j : Nat} {p : Api (Option ChallengeData)}
    (h : CallAt nonce (ReadsInTime b nonce past j) (taken past j) p) (hij : i ≠ j) :
    CallAt nonce (ReadsInTime b nonce (past ++ [.thread i]) j) (taken (past ++ [.thread i]) j) p := by
  have hreads : ReadsInTime b nonce (past ++ [.thread i]) j ↔ ReadsInTime b nonce past j := by
    simp [readsInTime_snoc, hij]
  rw [taken_snoc_thread, if_neg hij, Nat.add_zero, propext hreads]
  exact h

/-- A `GET` answers the data exactly when nothing has been deleted and nothing has expired. -/
theorem ConsumedBy.live_iff {b : Backend} {nonce : String} {past : Schedule} {m : ApiPool (Option ChallengeData)}
    (h : ConsumedBy b nonce past m) : ((m.store.challenges.live m.store.now nonce).map (·.value)).isSome = true ↔
      (∀ j, taken past j ≤ 1) ∧ (b.challenges.live (b.now + elapsed past) nonce).isSome = true := by
  rw [Option.isSome_map, h.now]
  by_cases hall : ∀ j, taken past j ≤ 1
  · rw [Redis.Keyspace.live_congr (h.stored hall)]
    simp [hall]
  · obtain ⟨j, hj⟩ := not_forall.1 hall
    have hgone : m.store.challenges nonce = none := h.deleted j (by omega)
    simp [Redis.Keyspace.live, hgone, hall]

/-- The calls after a turn of the one with number `i`. -/
theorem ConsumedBy.calls_set {b : Backend} {nonce : String} {past : Schedule} {m : ApiPool (Option ChallengeData)} {i : Nat}
    {q : Api (Option ChallengeData)} (h : ConsumedBy b nonce past m) (hlt : i < m.threads.length)
    (hq : CallAt nonce (ReadsInTime b nonce (past ++ [.thread i]) i) (taken (past ++ [.thread i]) i) q) :
    ∀ j p, (m.threads.set i q)[j]? = some p →
      CallAt nonce (ReadsInTime b nonce (past ++ [.thread i]) j) (taken (past ++ [.thread i]) j) p := by
  intro j p hj
  by_cases hij : i = j
  · subst hij
    rw [List.getElem?_set_self hlt, Option.some.injEq] at hj
    exact hj ▸ hq
  · rw [List.getElem?_set_ne hij] at hj
    exact (h.calls j p hj).other hij

/-- The call with number `i` takes a turn: it reads, or it deletes. -/
theorem ConsumedBy.thread {b : Backend} {nonce : String} {past : Schedule} {m : ApiPool (Option ChallengeData)} {i : Nat}
    {c : Command} {k : c.Reply → Api (Option ChallengeData)} (h : ConsumedBy b nonce past m)
    (hi : m.threads[i]? = some (.call c k)) :
    ConsumedBy b nonce (past ++ [.thread i])
      { store := (m.store.exec c).2, threads := m.threads.set i (k (m.store.exec c).1) } := by
  have hlt : i < m.threads.length := (List.getElem?_eq_some_iff.1 hi).1
  have hnow : (m.store.exec c).2.now = b.now + elapsed (past ++ [.thread i]) := by
    rw [Backend.exec_now, h.now, elapsed_snoc_thread]
  have hat := h.calls i _ hi
  generalize htaken : taken past i = n at hat
  generalize hp : Prog.call c k = p at hat
  cases hat with
  | toRead =>
    cases hp
    have hpast : ∀ j, taken past j ≤ taken (past ++ [.thread i]) j := by
      intro j
      rw [taken_snoc_thread]
      omega
    refine ⟨hnow, ?_, ?_, h.calls_set hlt ?_⟩
    · intro hall
      exact h.stored fun j => Nat.le_trans (hpast j) (hall j)
    · intro j hj
      have hij : i ≠ j := by
        rintro rfl
        rw [taken_snoc_thread, if_pos rfl, htaken] at hj
        omega
      rw [taken_snoc_thread, if_neg hij] at hj
      exact h.deleted j hj
    · rw [taken_snoc_thread, if_pos rfl, htaken]
      refine .toDelete ?_
      have hnot : ¬ ReadsInTime b nonce past i := by
        rintro ⟨first, rest, rfl, -⟩
        simp [taken] at htaken
      rw [readsInTime_snoc, or_iff_right hnot]
      simp only [true_and, htaken]
      exact h.live_iff
  | toDelete hv =>
    cases hp
    have htwo : taken (past ++ [.thread i]) i = 2 := by rw [taken_snoc_thread, if_pos rfl, htaken]
    refine ⟨hnow, ?_, ?_, h.calls_set hlt ?_⟩
    · intro hall
      have := hall i
      omega
    · intro _ _
      exact Function.update_self ..
    · rw [htwo]
      refine .done ?_
      rw [hv, readsInTime_snoc]
      simp [htaken]
  | done hv => cases hp

/-- Every run keeps who has consumed the nonce. -/
theorem consumedBy_run {b : Backend} {nonce : String} {n : Nat} {turns : Schedule} {m : ApiPool (Option ChallengeData)}
    (hr : (consumers b nonce n).run turns = .ok m) : ConsumedBy b nonce turns m := by
  refine Steps.run_invariant (step Backend.exec Backend.elapse) (ConsumedBy b nonce) (consumedBy_start b nonce n) ?_ hr
  intro past m t m' _ hm ht
  obtain ⟨ms, rfl, rfl⟩ | ⟨i, c, k, rfl, hi, rfl⟩ := step_cases ht
  · exact hm.event ms
  · exact hm.thread hi

/-! ## The result -/

/-- A call that has finished has returned the data exactly when it read in time. -/
theorem returnedData_iff {b : Backend} {nonce : String} {n : Nat} {turns : Schedule} {m : ApiPool (Option ChallengeData)}
    (hr : (consumers b nonce n).run turns = .ok m) (hf : m.Finished) {i : Nat} (hi : i < n) :
    ReturnedData m i ↔ ReadsInTime b nonce turns i := by
  have hlen : m.threads.length = n := by
    rw [length_threads_run hr]
    exact List.length_replicate
  have hlt : i < m.threads.length := by omega
  have hget : m.threads[i]? = some m.threads[i] := List.getElem?_eq_getElem hlt
  have hat := (consumedBy_run hr).calls i _ hget
  have hdone := hf _ (List.getElem_mem hlt)
  unfold ReturnedData
  rw [hget]
  generalize m.threads[i] = p at hat hdone
  generalize taken turns i = k at hat
  cases hat with
  | toRead => cases hdone
  | toDelete => cases hdone
  | @done value hv =>
    rw [← hv]
    cases value <;> simp

/-- Of any number of calls that consume one nonce, at most one returns the data, in every schedule of their commands, exactly when
at most one of them sends its `GET` before the first `DEL` and before the challenge expires. -/
theorem nonce_single_use_iff {b : Backend} {nonce : String} {n : Nat} {turns : Schedule}
    {m : ApiPool (Option ChallengeData)} (hr : (consumers b nonce n).run turns = .ok m) (hf : m.Finished) :
    (∀ i j, ReturnedData m i → ReturnedData m j → i = j) ↔
      ∀ i j, i < n → j < n → ReadsInTime b nonce turns i → ReadsInTime b nonce turns j → i = j := by
  have hlen : m.threads.length = n := by
    rw [length_threads_run hr]
    exact List.length_replicate
  have hlt : ∀ {i}, ReturnedData m i → i < n := by
    rintro i ⟨data, hi⟩
    rw [← hlen]
    exact (List.getElem?_eq_some_iff.1 hi).1
  constructor
  · intro h i j hi hj hri hrj
    exact h i j ((returnedData_iff hr hf hi).2 hri) ((returnedData_iff hr hf hj).2 hrj)
  · intro h i j hri hrj
    exact h i j (hlt hri) (hlt hrj) ((returnedData_iff hr hf (hlt hri)).1 hri) ((returnedData_iff hr hf (hlt hrj)).1 hrj)

namespace Sample

/-- The backend after a challenge with the nonce `n` has been stored. -/
def challenged : Backend := (alone Backend.exec Backend.elapse (storeChallenge "n" "10.0.0.1") backend []).2

end Sample

/-- Two calls, one after the other. -/
theorem nonce_single_use_iff_sample :
    ∃ m, (consumers Sample.challenged "n" 2).run (Sample.turnsOf 0 2 ++ Sample.turnsOf 1 2) = .ok m ∧ m.Finished ∧
      ((∀ i j, ReturnedData m i → ReturnedData m j → i = j) ↔
        ∀ i j, i < 2 → j < 2 → ReadsInTime Sample.challenged "n" (Sample.turnsOf 0 2 ++ Sample.turnsOf 1 2) i →
          ReadsInTime Sample.challenged "n" (Sample.turnsOf 0 2 ++ Sample.turnsOf 1 2) j → i = j) :=
  ⟨_, rfl, by decide +kernel, nonce_single_use_iff rfl (by decide +kernel)⟩

/-- Both calls read before either deletes: both return the data. -/
theorem nonce_used_twice :
    ∃ m, (consumers Sample.challenged "n" 2).run [.thread 0, .thread 1, .thread 0, .thread 1] = .ok m ∧ m.Finished ∧
      ¬ ∀ i j, ReturnedData m i → ReturnedData m j → i = j :=
  ⟨_, rfl, by decide +kernel, fun h => absurd (h 0 1 ⟨_, rfl⟩ ⟨_, rfl⟩) (by decide)⟩

end BrineVault
