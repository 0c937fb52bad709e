import BrineVault.Walrus.Client

/-!
# Which errors are retried

Two classifications of statuses: the getter `retryable` of the error, and the set `NON_RETRYABLE` that the loop looks into. A status below 500
that is not in the set is retried, although the getter says no.
-/

namespace BrineVault

open Interleaving

namespace Retry

variable {α : Type}

/-- One call of the function. -/
def fn : Prog Unit (fun _ => Except WalrusError α) WalrusError α := do Prog.ofExcept (← Prog.send ())

/-- The store counts the calls; the outcome of a call is that of its number. -/
def call (outcomes : Nat → Except WalrusError α) (calls : Nat) (_ : Unit) : Except WalrusError α × Nat := (outcomes calls, calls + 1)

/-- The attempts that are left after some calls. -/
def retryingFrom (outcomes : Nat → Except WalrusError α) (calls attempts : Nat) : Except WalrusError α × Nat :=
  alone (call outcomes) (fun calls (_ : Unit) => calls) (withRetry fn attempts) calls []

/-- What `withRetry` comes to when the calls of `fn` have these outcomes, and the number of calls. -/
def retrying (outcomes : Nat → Except WalrusError α) (maxAttempts : Nat) : Except WalrusError α × Nat :=
  retryingFrom outcomes 0 maxAttempts

/-- The call fails, and the loop does not take the error for a final one. -/
def GoesOn (outcomes : Nat → Except WalrusError α) (i : Nat) : Prop := ∃ e, outcomes i = .error e ∧ e.nonRetryable = false

/-- The policy: an error of the API is retried, as long as attempts remain, exactly when it says that it is retryable. -/
structure RetriesAgree (outcomes : Nat → Except WalrusError α) (maxAttempts : Nat) (result : Except WalrusError α) (calls : Nat) : Prop where
  again : ∀ i < calls, i + 1 < maxAttempts → ∀ message status, outcomes i = .error (.api message status) →
    (i + 1 < calls ↔ (WalrusError.api message status).retryable = true)
  atMost : calls ≤ maxAttempts
  failed : ∀ i, i + 1 < calls → ∃ e, outcomes i = .error e
  last : 0 < calls ∧ result = outcomes (calls - 1)

variable {outcomes : Nat → Except WalrusError α}

/-- One attempt. -/
theorem retryingFrom_succ (outcomes : Nat → Except WalrusError α) (k attempts : Nat) :
    retryingFrom outcomes k (attempts + 1) =
      match outcomes k with
      | .ok a => (.ok a, k + 1)
      | .error e => if e.nonRetryable ∨ attempts = 0 then (.error e, k + 1) else retryingFrom outcomes (k + 1) attempts := by
  change alone (call outcomes) _ ((Prog.ofExcept (outcomes k)).tryCatch _) (k + 1) [] = _
  cases outcomes k with
  | ok a => rfl
  | error e =>
    simp only [Prog.ofExcept, Prog.tryCatch]
    split <;> rfl

/-- The attempts from call number `k` on: they end with a call that is the last one, or that does not go on. -/
theorem retryingFrom_spec (outcomes : Nat → Except WalrusError α) (attempts k : Nat) :
    ∃ n, k ≤ n ∧ n ≤ k + attempts ∧ (∀ i, k ≤ i → i < n → GoesOn outcomes i) ∧ (n < k + attempts → ¬ GoesOn outcomes n) ∧
      retryingFrom outcomes k (attempts + 1) = (outcomes n, n + 1) := by
  induction attempts generalizing k with
  | zero =>
    refine ⟨k, le_rfl, le_rfl, fun i hi hlt => by omega, fun hlt => by omega, ?_⟩
    rw [retryingFrom_succ]
    cases outcomes k with
    | ok a => rfl
    | error e => exact if_pos (.inr rfl)
  | succ attempts ih =>
    rw [retryingFrom_succ]
    by_cases hgo : GoesOn outcomes k
    · obtain ⟨n, hkn, hn, hbefore, hafter, hrun⟩ := ih (k + 1)
      refine ⟨n, by omega, by omega, ?_, fun hlt => hafter (by omega), ?_⟩
      · intro i hki hin
        rcases Nat.eq_or_lt_of_le hki with rfl | hlt
        · exact hgo
        · exact hbefore i hlt hin
      · obtain ⟨e, he, hretry⟩ := hgo
        rw [he, ← hrun]
        exact if_neg (by simp [hretry])
    · refine ⟨k, le_rfl, by omega, fun i hi hlt => by omega, fun _ => hgo, ?_⟩
      cases hk : outcomes k with
      | ok a => rfl
      | error e =>
        have hfinal : e.nonRetryable = true := by
          by_contra hno
          exact hgo ⟨e, hk, Bool.eq_false_iff.2 hno⟩
        exact if_pos (.inl hfinal)

/-- What the loop does, for at least one attempt. -/
theorem retrying_spec (outcomes : Nat → Except WalrusError α) {maxAttempts : Nat} (hmax : 1 ≤ maxAttempts) :
    ∃ n < maxAttempts, (∀ i < n, GoesOn outcomes i) ∧ (n + 1 < maxAttempts → ¬ GoesOn outcomes n) ∧
      retrying outcomes maxAttempts = (outcomes n, n + 1) := by
  obtain ⟨n, -, hn, hbefore, hafter, hrun⟩ := retryingFrom_spec outcomes (maxAttempts - 1) 0
  rw [Nat.sub_add_cancel hmax] at hrun
  exact ⟨n, by omega, fun i hi => hbefore i (Nat.zero_le i) hi, fun hlt => hafter (by omega), hrun⟩

/-- No status of the set is one that the getter calls retryable. -/
theorem not_retryable_of_nonRetryable {e : WalrusError} (h : e.nonRetryable = true) : e.retryable = false := by
  cases e with
  | other error => rfl
  | api message status =>
    simp only [WalrusError.nonRetryable, WalrusError.NON_RETRYABLE, List.mem_cons, List.not_mem_nil, or_false, decide_eq_true_eq] at h
    simp only [WalrusError.retryable, decide_eq_false_iff_not]
    omega

end Retry

open Retry

/-- For all outcomes and every number of attempts from one on: the retries agree with the class of the errors exactly when each error of the API
that a call with attempts remaining ends in has a status from 500 on, or one of the set. -/
theorem withRetry_agrees_iff {α : Type} (outcomes : Nat → Except WalrusError α) {maxAttempts : Nat} (hmax : 1 ≤ maxAttempts) :
    RetriesAgree outcomes maxAttempts (retrying outcomes maxAttempts).1 (retrying outcomes maxAttempts).2 ↔
      ∀ i, i + 1 < maxAttempts → (∀ j < i, GoesOn outcomes j) → ∀ message status, outcomes i = .error (.api message status) →
        500 ≤ status ∨ status ∈ WalrusError.NON_RETRYABLE := by
  obtain ⟨n, hn, hbefore, hafter, hrun⟩ := retrying_spec outcomes hmax
  rw [hrun]
  constructor
  · intro h i hi hgo message status he
    by_cases hset : status ∈ WalrusError.NON_RETRYABLE
    · exact .inr hset
    · -- The error is not final, so that the call is followed by another one, and the getter has to agree.
      have hgoes : GoesOn outcomes i := ⟨_, he, by simpa [WalrusError.nonRetryable] using hset⟩
      have hin : i < n := by
        rcases Nat.lt_trichotomy i n with hlt | rfl | hlt
        · exact hlt
        · exact absurd hgoes (hafter hi)
        · exact absurd (hgo n hlt) (hafter (by omega))
      have hretryable := (h.again i (by omega) hi message status he).1 (by omega)
      simp only [WalrusError.retryable, decide_eq_true_eq] at hretryable
      left
      omega
  · intro h
    refine ⟨?_, hn, ?_, by omega, by rw [Nat.add_sub_cancel]⟩
    · intro i hi hmore message status he
      have hclass := h i hmore (fun j hj => hbefore j (by omega)) message status he
      rcases Nat.lt_or_eq_of_le (Nat.lt_succ_iff.1 hi) with hlt | rfl
      · obtain ⟨e, he', hfinal⟩ := hbefore i hlt
        obtain rfl : e = .api message status := Except.error.inj (he'.symm.trans he)
        refine iff_of_true (by omega) ?_
        simp only [WalrusError.nonRetryable, decide_eq_false_iff_not] at hfinal
        simp only [WalrusError.retryable, decide_eq_true_eq]
        have := hclass.resolve_right hfinal
        omega
      · refine iff_of_false (by omega) ?_
        have hfinal : (WalrusError.api message status).nonRetryable = true := by
          by_contra hno
          exact hafter hmore ⟨_, he, Bool.eq_false_iff.2 hno⟩
        rw [not_retryable_of_nonRetryable hfinal]
        exact Bool.false_ne_true
    · intro i hi
      obtain ⟨e, he, -⟩ := hbefore i (by omega)
      exact ⟨e, he⟩

namespace Sample

/-- Too many requests at first, then an answer. -/
def tooMany (i : Nat) : Except WalrusError String :=
  if i = 0 then .error (.api "Walrus upload failed (429)" 429) else .ok "ok"

end Sample

/-- Too many requests once, and three attempts. -/
theorem withRetry_agrees_iff_sample :
    RetriesAgree Sample.tooMany 3 (retrying Sample.tooMany 3).1 (retrying Sample.tooMany 3).2 ↔
      ∀ i, i + 1 < 3 → (∀ j < i, GoesOn Sample.tooMany j) → ∀ message status, Sample.tooMany i = .error (.api message status) →
        500 ≤ status ∨ status ∈ WalrusError.NON_RETRYABLE :=
  withRetry_agrees_iff Sample.tooMany (by decide)

/-- A status 429 is not retryable, and it is retried. -/
theorem not_retryable_retried :
    (WalrusError.api "Walrus upload failed (429)" 429).retryable = false ∧
      Sample.tooMany 0 = .error (.api "Walrus upload failed (429)" 429) ∧ retrying Sample.tooMany 3 = (.ok "ok", 2) ∧
      ¬ RetriesAgree Sample.tooMany 3 (retrying Sample.tooMany 3).1 (retrying Sample.tooMany 3).2 := by
  have hrun : retrying Sample.tooMany 3 = (.ok "ok", 2) := rfl
  refine ⟨rfl, rfl, hrun, ?_⟩
  rw [hrun]
  intro h
  have hretryable := (h.again 0 (by decide) (by decide) _ 429 rfl).1 (by decide)
  cases hretryable

end BrineVault
