import Mathlib.Algebra.Group.Nat.Defs
import Mathlib.Algebra.Group.Int.Defs
import Mathlib.Data.List.AList

/-!
# Move: computations that abort, and tables

A Move function either returns or aborts, and an aborted call has no effect. `Exec α` is such a computation; `assert` is the
`assert!` of the language, and the arithmetic of `u64` aborts on overflow and underflow. A `Table` is a table or the dynamic
fields of one key type of an object: adding under a key that is there aborts, borrowing under a key that is not there aborts.

`bind_eq_ok` and the lemmas beside it take a computation that returned apart, one step at a time.
-/

namespace Move

/-- The ways a computation aborts: with the code of an `assert!`, on `u64` arithmetic, on a field that is (not) there. -/
inductive Abort where
  | code (n : Nat)
  | arithmetic
  | field
  deriving DecidableEq, Repr

/-- A computation that returns a value or aborts. -/
abbrev Exec (α : Type) := Except Abort α

/-- `assert!(c, n)`. -/
def assert (c : Prop) [Decidable c] (n : Nat) : Exec Unit := if c then .ok () else .error (.code n)

/-- `a + b` on `u64`. -/
def addU64 (a b : Nat) : Exec Nat := if a + b < 2 ^ 64 then .ok (a + b) else .error .arithmetic

/-- `a - b` on `u64`. -/
def subU64 (a b : Nat) : Exec Nat := if b ≤ a then .ok (a - b) else .error .arithmetic

/-! ## Taking a computation apart -/

section Exec

variable {ε α β : Type}

/-- A sequence returns when its first part returns a value from which the second part returns. -/
theorem bind_eq_ok {r : β} {first : Except ε α} {next : α → Except ε β} :
    first >>= next = .ok r ↔ ∃ a, first = .ok a ∧ next a = .ok r := by
  rcases first with e | a <;> simp [bind, Except.bind]

/-- It fails where a part fails, and as that part fails. -/
theorem bind_eq_error {e : ε} {first : Except ε α} {next : α → Except ε β} :
    first >>= next = .error e ↔ first = .error e ∨ ∃ a, first = .ok a ∧ next a = .error e := by
  rcases first with e' | a <;> simp [bind, Except.bind]

/-- A pure result is that result. -/
theorem pure_eq_ok {r s : α} : (pure r : Except ε α) = .ok s ↔ r = s := by
  simp only [pure, Except.pure, Except.ok.injEq]

/-- An assertion passes exactly when its condition holds. -/
theorem assert_eq_ok {c : Prop} [Decidable c] {n : Nat} {u : Unit} : assert c n = .ok u ↔ c := by
  unfold assert
  split <;> simp_all

/-- An assertion aborts with its own code, never with an arithmetic error. -/
theorem assert_ne_arithmetic {c : Prop} [Decidable c] {n : Nat} : assert c n ≠ .error .arithmetic := by
  unfold assert
  split <;> simp

/-- A sum is returned where it fits in 64 bits. -/
theorem addU64_eq_ok {a b r : Nat} : addU64 a b = .ok r ↔ a + b < 2 ^ 64 ∧ r = a + b := by
  unfold addU64
  split
  · simp_all [eq_comm]
  · simp_all only [reduceCtorEq, false_and]

/-- A difference is returned where it is not negative. -/
theorem subU64_eq_ok {a b r : Nat} : subU64 a b = .ok r ↔ b ≤ a ∧ r = a - b := by
  unfold subU64
  split
  · simp_all [eq_comm]
  · simp_all only [reduceCtorEq, false_and]

/-- A computation that returns, as a test. -/
def returns (x : Except ε α) : Bool :=
  match x with
  | .ok _ => true
  | .error _ => false

/-- What returns has a result. -/
theorem exists_ok_of_returns {x : Except ε α} (h : returns x = true) : ∃ a, x = .ok a := by
  cases x with
  | ok a => exact ⟨a, rfl⟩
  | error e => cases h

/-- A computation that returns what a test accepts. -/
theorem exists_ok_of_any {x : Except ε α} {P : α → Prop} [DecidablePred P] (h : x.toOption.any (fun a => P a) = true) :
    ∃ a, x = .ok a ∧ P a := by
  cases x with
  | ok a => exact ⟨a, rfl, of_decide_eq_true h⟩
  | error e => cases h

end Exec

/-! ## Computations that succeed -/

section Succeeds

variable {ε α β : Type} {c : Prop} [Decidable c] {a b n : Nat}

/-- The computation returns. -/
def Succeeds (x : Except ε α) : Prop := ∃ a, x = .ok a

@[simp] theorem succeeds_ok (a : α) : Succeeds (.ok a : Except ε α) := ⟨a, rfl⟩

@[simp] theorem succeeds_pure (a : α) : Succeeds (pure a : Except ε α) := ⟨a, rfl⟩

/-- A computation succeeds where its first part does, and the rest on what the first part returns. -/
theorem succeeds_bind {first : Except ε α} {next : α → Except ε β} :
    Succeeds (first >>= next) ↔ ∃ a, first = .ok a ∧ Succeeds (next a) := by
  simp only [Succeeds, bind_eq_ok]
  exact ⟨fun ⟨r, a, hfirst, hnext⟩ => ⟨a, hfirst, r, hnext⟩, fun ⟨a, hfirst, r, hnext⟩ => ⟨r, a, hfirst, hnext⟩⟩

/-- A check, and what comes after it. -/
theorem succeeds_bind_unit {first : Except ε Unit} {next : Unit → Except ε β} :
    Succeeds (first >>= next) ↔ Succeeds first ∧ Succeeds (next ()) := by
  rw [succeeds_bind]
  exact ⟨fun ⟨u, hfirst, hnext⟩ => ⟨⟨u, hfirst⟩, hnext⟩, fun ⟨⟨u, hfirst⟩, hnext⟩ => ⟨u, hfirst, hnext⟩⟩

/-- The rest succeeds or not, whatever the first part returns. -/
theorem succeeds_bind_of {first : Except ε α} {next : α → Except ε β} {P : Prop} (h : ∀ a, Succeeds (next a) ↔ P) :
    Succeeds (first >>= next) ↔ Succeeds first ∧ P := by
  simp only [succeeds_bind, h, exists_and_right]
  rfl

/-- Nothing can fail after the last part that can. -/
theorem succeeds_bind_pure {first : Except ε α} {f : α → β} : Succeeds (first >>= fun a => pure (f a)) ↔ Succeeds first := by
  rw [succeeds_bind_of (P := True) fun a => by simp, and_true]

/-- An assertion succeeds exactly when its condition holds. -/
theorem succeeds_assert : Succeeds (assert c n) ↔ c :=
  ⟨fun ⟨_, h⟩ => assert_eq_ok.1 h, fun h => ⟨(), assert_eq_ok.2 h⟩⟩

/-- After a sum a function goes on where the sum fits in 64 bits. -/
theorem succeeds_addU64_bind {next : Nat → Exec β} : Succeeds (addU64 a b >>= next) ↔ a + b < 2 ^ 64 ∧ Succeeds (next (a + b)) := by
  simp only [succeeds_bind, addU64_eq_ok]
  exact ⟨fun ⟨_, ⟨hlt, hr⟩, hnext⟩ => ⟨hlt, hr ▸ hnext⟩, fun ⟨hlt, hnext⟩ => ⟨_, ⟨hlt, rfl⟩, hnext⟩⟩

/-- After a difference it goes on where the difference is not negative. -/
theorem succeeds_subU64_bind {next : Nat → Exec β} : Succeeds (subU64 a b >>= next) ↔ b ≤ a ∧ Succeeds (next (a - b)) := by
  simp only [succeeds_bind, subU64_eq_ok]
  exact ⟨fun ⟨_, ⟨hle, hr⟩, hnext⟩ => ⟨hle, hr ▸ hnext⟩, fun ⟨hle, hnext⟩ => ⟨_, ⟨hle, rfl⟩, hnext⟩⟩

end Succeeds

/-! ## Computations that fail -/

section Fails

variable {α β ε : Type}

/-- The computation fails, with whatever error. -/
def Fails (x : Except ε α) : Prop := ∃ e, x = .error e

/-- What does not fail returns. -/
theorem not_fails_iff {x : Except ε α} : ¬ Fails x ↔ ∃ a, x = .ok a := by
  cases x <;> simp [Fails]

/-- One of the two parts fails, and the second one only after the first has returned. -/
theorem fails_bind_iff {first : Except ε α} {next : α → Except ε β} :
    Fails (first >>= next) ↔ Fails first ∨ ∃ a, first = .ok a ∧ Fails (next a) := by
  cases first <;> simp [Fails, bind, Except.bind]

/-- A loop fails when one of its turns does, where the value that is carried does not matter for that. -/
theorem fails_foldlM_iff {f : β → α → Except ε β} {P : α → Prop} (h : ∀ b a, Fails (f b a) ↔ P a) (l : List α) (b : β) :
    Fails (l.foldlM f b) ↔ ∃ a ∈ l, P a := by
  induction l generalizing b with
  | nil => simp [Fails, pure, Except.pure]
  | cons a l ih =>
    rw [List.foldlM_cons, fails_bind_iff, h, List.exists_mem_cons_iff]
    by_cases hP : P a
    · simp [hP]
    · obtain ⟨b', hb'⟩ := not_fails_iff.1 fun hfails => hP ((h b a).1 hfails)
      simp [hP, hb', ih]

/-- A list is gone through to its end unless one of its elements fails. -/
theorem fails_mapM_iff {f : α → Except ε β} (l : List α) : Fails (l.mapM f) ↔ ∃ a ∈ l, Fails (f a) := by
  have hlast : ∀ (b : β) bs, ¬ Fails (pure (b :: bs) : Except ε (List β)) := fun _ _ => not_fails_iff.2 ⟨_, rfl⟩
  induction l with
  | nil => simp [Fails, pure, Except.pure]
  | cons a l ih =>
    simp only [List.mapM_cons, fails_bind_iff, hlast, and_false, exists_false, or_false, List.exists_mem_cons_iff, ih]
    constructor
    · rintro (hf | ⟨b, -, hl⟩)
      · exact .inl hf
      · exact .inr hl
    · rintro (hf | hl)
      · exact .inl hf
      · by_cases hf : Fails (f a)
        · exact .inl hf
        · obtain ⟨b, hb⟩ := not_fails_iff.1 hf
          exact .inr ⟨b, hb, hl⟩

/-- A loop that collects one value for each turn. -/
theorem length_of_mapM {f : α → Except ε β} {l : List α} {bs : List β} (h : l.mapM f = .ok bs) : bs.length = l.length := by
  induction l generalizing bs with
  | nil =>
    cases h
    rfl
  | cons a l ih =>
    rw [List.mapM_cons] at h
    obtain ⟨b, -, h⟩ := bind_eq_ok.1 h
    obtain ⟨bs', hbs', h⟩ := bind_eq_ok.1 h
    cases h
    rw [List.length_cons, List.length_cons, ih hbs']

end Fails

/-! ## The codes a computation aborts with -/

section Codes

variable {α β : Type} {m n : Nat}

/-- Whatever the computation does, it does not abort with this code. -/
def Avoids (n : Nat) (x : Exec α) : Prop := x ≠ .error (.code n)

/-- What returns aborts with no code. -/
theorem avoids_ok (a : α) : Avoids n (.ok a : Exec α) := by
  rintro ⟨⟩

/-- What follows may not abort with the code either. -/
theorem Avoids.bind {first : Exec α} {next : α → Exec β} (hfirst : Avoids n first) (hnext : ∀ a, Avoids n (next a)) :
    Avoids n (first >>= next) := by
  intro h
  obtain h | ⟨a, -, h⟩ := bind_eq_error.1 h
  · exact hfirst h
  · exact hnext a h

/-- An assertion avoids a code that is not its own, or holds. -/
theorem avoids_assert {c : Prop} [Decidable c] (h : m = n → c) : Avoids n (assert c m) := by
  unfold assert
  split
  · exact avoids_ok ()
  · rename_i hc
    rintro ⟨⟩
    exact hc (h rfl)

/-- Arithmetic has no code of its own. -/
theorem avoids_addU64 (a b : Nat) : Avoids n (addU64 a b) := by
  unfold addU64
  split
  · exact avoids_ok _
  · rintro ⟨⟩

theorem avoids_subU64 (a b : Nat) : Avoids n (subU64 a b) := by
  unfold subU64
  split
  · exact avoids_ok _
  · rintro ⟨⟩

end Codes

/-! ## Tables -/

/-- A table, or the dynamic fields of one key type. -/
abbrev Table (K V : Type) := AList (fun _ : K => V)

namespace Table

variable {K V : Type} [DecidableEq K]

/-- `add`: aborts when the key is there. -/
def add (t : Table K V) (k : K) (v : V) : Exec (Table K V) :=
  if k ∈ t then .error .field else .ok (t.insert k v)

/-- `borrow`: aborts when the key is not there. -/
def borrow (t : Table K V) (k : K) : Exec V :=
  match t.lookup k with
  | some v => .ok v
  | none => .error .field

/-- A key is added where it is new. -/
theorem add_eq_ok {t t' : Table K V} {k : K} {v : V} : add t k v = .ok t' ↔ t.lookup k = none ∧ t' = t.insert k v := by
  unfold add
  rw [AList.lookup_eq_none]
  split <;> simp_all [eq_comm]

/-- A key is borrowed where it is there. -/
theorem borrow_eq_ok {t : Table K V} {k : K} {v : V} : borrow t k = .ok v ↔ t.lookup k = some v := by
  unfold borrow
  split <;> simp_all

/-- After a key has been added a function goes on where the key was new. -/
theorem succeeds_add_bind {β : Type} {t : Table K V} {k : K} {v : V} {next : Table K V → Exec β} :
    Succeeds (add t k v >>= next) ↔ t.lookup k = none ∧ Succeeds (next (t.insert k v)) := by
  simp only [succeeds_bind, add_eq_ok]
  exact ⟨fun ⟨_, ⟨hnone, ht⟩, hnext⟩ => ⟨hnone, ht ▸ hnext⟩, fun ⟨hnone, hnext⟩ => ⟨_, ⟨hnone, rfl⟩, hnext⟩⟩

/-- After a key has been borrowed it goes on with the value. -/
theorem succeeds_borrow_bind {β : Type} {t : Table K V} {k : K} {next : V → Exec β} :
    Succeeds (borrow t k >>= next) ↔ ∃ v, t.lookup k = some v ∧ Succeeds (next v) := by
  simp only [succeeds_bind, borrow_eq_ok]

/-- A table aborts with no code of the package. -/
theorem avoids_add {n : Nat} (t : Table K V) (k : K) (v : V) : Avoids n (add t k v) := by
  unfold add
  split
  · rintro ⟨⟩
  · exact avoids_ok _

theorem avoids_borrow {n : Nat} (t : Table K V) (k : K) : Avoids n (borrow t k) := by
  unfold borrow
  split
  · exact avoids_ok _
  · rintro ⟨⟩

/-- Looking up after an insertion. -/
theorem lookup_insert (t : Table K V) (k k' : K) (v : V) :
    (t.insert k v).lookup k' = if k' = k then some v else t.lookup k' := by
  split
  · rename_i h
    rw [h, AList.lookup_insert]
  · rename_i h
    exact AList.lookup_insert_ne h

/-- What is found after an insertion is what was inserted, or it was found before. -/
theorem lookup_insert_cases {t : Table K V} {k k' : K} {v v' : V} (h : (t.insert k v).lookup k' = some v') :
    (k' = k ∧ v' = v) ∨ t.lookup k' = some v' := by
  rw [lookup_insert] at h
  split at h
  · rename_i hk
    cases h
    exact .inl ⟨hk, rfl⟩
  · exact .inr h

/-! ### Counting values -/

/-- The number of entries whose value satisfies `p`. -/
def count (p : V → Bool) (t : Table K V) : Nat := t.entries.countP (fun e => p e.2)

omit [DecidableEq K] in
@[simp] theorem count_empty (p : V → Bool) : count p (∅ : Table K V) = 0 := rfl

/-- A new key counts for itself. -/
theorem count_insert_new (p : V → Bool) {t : Table K V} {k : K} (v : V) (h : t.lookup k = none) :
    count p (t.insert k v) = count p t + (if p v then 1 else 0) := by
  rw [AList.lookup_eq_none] at h
  simp only [count, AList.entries_insert_of_notMem h, List.countP_cons]

/-- Taking an entry out of an association list takes its value out of the count. -/
theorem countP_kerase (p : V → Bool) (l : List (Sigma fun _ : K => V)) (k : K) (v : V)
    (h : l.dlookup k = some v) :
    (l.kerase k).countP (fun e => p e.2) + (if p v then 1 else 0) = l.countP (fun e => p e.2) := by
  induction l with
  | nil => simp at h
  | cons e l ih =>
    obtain ⟨k', v'⟩ := e
    by_cases hk : k = k'
    · subst hk
      rw [List.dlookup_cons_eq, Option.some.injEq] at h
      subst h
      have he : (⟨k, v'⟩ :: l : List (Sigma fun _ : K => V)).kerase k = l := List.kerase_cons_eq rfl
      rw [he, List.countP_cons]
    · rw [List.dlookup_cons_ne _ _ hk] at h
      have := ih h
      have he : (⟨k', v'⟩ :: l : List (Sigma fun _ : K => V)).kerase k = ⟨k', v'⟩ :: l.kerase k :=
        List.kerase_cons_ne hk
      rw [he, List.countP_cons, List.countP_cons]
      omega

/-- Writing over an entry exchanges its old value for the new one in the count. -/
theorem count_insert_over (p : V → Bool) {t : Table K V} {k : K} {v₀ : V} (v : V) (h : t.lookup k = some v₀) :
    count p (t.insert k v) + (if p v₀ then 1 else 0) = count p t + (if p v then 1 else 0) := by
  have := countP_kerase p t.entries k v₀ h
  simp only [count, AList.entries_insert, List.countP_cons]
  omega

/-- Some value satisfies `p` exactly when the count is not zero. -/
theorem count_pos_iff (p : V → Bool) (t : Table K V) :
    0 < count p t ↔ ∃ k v, t.lookup k = some v ∧ p v = true := by
  rw [count, List.countP_pos_iff]
  constructor
  · rintro ⟨⟨k, v⟩, hm, hp⟩
    exact ⟨k, v, AList.mem_lookup_iff.2 hm, hp⟩
  · rintro ⟨k, v, hl, hp⟩
    exact ⟨⟨k, v⟩, AList.mem_lookup_iff.1 hl, hp⟩

end Table

end Move
