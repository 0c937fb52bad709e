import BrineVault.Lib.Move
import Mathlib.Data.Finset.Card

/-!
# Tables that only grow, tables numbered without a gap, and forests

An append-only record kept as a table adds each entry under the next number. `Extends` says that a table keeps what another one
holds. `Numbered number first next` says that the keys are exactly the numbers from `first` to before `next`, and that each value
carries its own number; such a table has room for the next entry, and adding it leaves a numbered table that extends the old one.
`Rooted parent` says that the parent of an entry is there under a smaller number; following parents then ends at a root.
-/

namespace Move.Table

variable {K V : Type} [DecidableEq K]

/-! ## Growth -/

/-- Every entry of the first table is an entry of the second. -/
def Extends (t t' : Table K V) : Prop := ∀ k v, t.lookup k = some v → t'.lookup k = some v

theorem Extends.refl (t : Table K V) : Extends t t := fun _ _ h => h

/-- What extends an extension extends the table. -/
theorem Extends.trans {a b c : Table K V} (h : Extends a b) (h' : Extends b c) : Extends a c :=
  fun k v hl => h' k v (h k v hl)

/-- Adding under a key that is not there keeps every entry. -/
theorem extends_insert {t : Table K V} {k : K} (v : V) (h : t.lookup k = none) : Extends t (t.insert k v) := by
  intro k' v' hl
  have hne : k' ≠ k := by
    rintro rfl
    rw [h] at hl
    cases hl
  rw [lookup_insert, if_neg hne]
  exact hl

/-! ## Numbering -/

/-- The keys are the numbers from `first` to before `next`, and each value carries its key. -/
structure Numbered (number : V → Nat) (first next : Nat) (t : Table Nat V) : Prop where
  keys : ∀ k, k ∈ t ↔ first ≤ k ∧ k < next
  values : ∀ {k v}, t.lookup k = some v → number v = k

/-- The empty table is numbered from any number on. -/
theorem numbered_empty (number : V → Nat) (n : Nat) : Numbered number n n (∅ : Table Nat V) where
  keys k := by
    have h : ¬ (n ≤ k ∧ k < n) := by omega
    simp [h]
  values h := by cases h

section Numbered

variable {number : V → Nat} {first next : Nat} {t : Table Nat V}

/-- Adding the next entry. -/
theorem Numbered.insert (h : Numbered number first next t) (hle : first ≤ next) {v : V} (hv : number v = next) :
    Numbered number first (next + 1) (t.insert next v) where
  keys k := by
    have hk := h.keys k
    rw [AList.mem_insert, hk]
    omega
  values {k v'} hl := by
    rw [lookup_insert] at hl
    split at hl
    · rename_i hk
      cases hl
      rw [hk, hv]
    · exact h.values hl

end Numbered

/-! ## Forests -/

section Forest

variable (parent : V → Option Nat) (t : Table Nat V)

/-- The parent of the entry under a key. -/
def parentOf (k : Nat) : Option Nat := (t.lookup k).bind parent

/-- The key that is reached by going to the parent `n` times. -/
def ancestor (k : Nat) : Nat → Option Nat
  | 0 => some k
  | n + 1 => (parentOf parent t k).bind fun p => ancestor p n

/-- The parent of every entry is there, under a smaller number. -/
def Rooted : Prop := ∀ k v p, t.lookup k = some v → parent v = some p → p ∈ t ∧ p < k

variable {parent t}

/-- The parent of a folder is there, and has a lower number. -/
theorem Rooted.parentOf {k p : Nat} (h : Rooted parent t) (hp : t.parentOf parent k = some p) : p ∈ t ∧ p < k := by
  obtain ⟨v, hl, hv⟩ := Option.bind_eq_some_iff.1 hp
  exact h k v p hl hv

/-- A new entry whose parent is there under a smaller number. -/
theorem Rooted.insert {k : Nat} {v : V} (h : Rooted parent t) (hv : ∀ p, parent v = some p → p ∈ t ∧ p < k) :
    Rooted parent (t.insert k v) := by
  intro k' v' p hl hp
  rw [lookup_insert] at hl
  rw [AList.mem_insert]
  split at hl
  · rename_i hk
    cases hl
    obtain ⟨hmem, hlt⟩ := hv p hp
    exact ⟨.inr hmem, hk ▸ hlt⟩
  · obtain ⟨hmem, hlt⟩ := h k' v' p hl hp
    exact ⟨.inr hmem, hlt⟩

/-- From every entry, at most as many steps to the parent as its key says lead to an entry without a parent. -/
theorem Rooted.exists_root (h : Rooted parent t) {k : Nat} (hk : k ∈ t) :
    ∃ n root, n ≤ k ∧ t.ancestor parent k n = some root ∧ root ∈ t ∧ t.parentOf parent root = none := by
  induction k using Nat.strongRecOn with
  | ind k ih =>
    cases hp : t.parentOf parent k with
    | none => exact ⟨0, k, Nat.zero_le k, rfl, hk, hp⟩
    | some p =>
      obtain ⟨hmem, hlt⟩ := h.parentOf hp
      obtain ⟨n, root, hn, hroot, hin, hnone⟩ := ih p hlt hmem
      refine ⟨n + 1, root, by omega, ?_, hin, hnone⟩
      rw [ancestor, hp, Option.bind_some, hroot]

end Forest

/-! ## Counting keys -/

/-- The entries whose value satisfies `p`, counted by their keys. -/
theorem count_eq_card (p : V → Bool) (t : Table K V) (q : K → Bool) (hq : ∀ k v, t.lookup k = some v → q k = p v) :
    count p t = (t.keys.toFinset.filter fun k => q k = true).card := by
  have hkeys : t.keys = t.entries.map Sigma.fst := rfl
  rw [← List.toFinset_filter, List.toFinset_card_of_nodup (t.keys_nodup.filter _), ← List.countP_eq_length_filter, hkeys,
    List.countP_map, count]
  refine List.countP_congr fun e he => ?_
  have hl : t.lookup e.1 = some e.2 := AList.mem_lookup_iff.2 he
  simp [hq e.1 e.2 hl]

end Move.Table
