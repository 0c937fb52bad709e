import BrineVault.Lib.Move

/-!
# Tables whose entries carry a time

`Within time first last` says that the times of the entries lie between two others; `InOrder time` says that of two entries of a table
with numbers for keys, the one with the larger number is not the earlier one. Adding the latest entry under the largest number keeps both.
-/

namespace Move.Table

variable {K V : Type} [DecidableEq K] {time : V → Nat} {first last : Nat}

/-- The times of the entries are not before the first nor after the last. -/
def Within (time : V → Nat) (first last : Nat) (t : Table K V) : Prop :=
  ∀ k v, t.lookup k = some v → first ≤ time v ∧ time v ≤ last

/-- An empty table is within any times. -/
theorem within_empty : Within time first last (∅ : Table K V) := by
  intro k v h
  cases h

theorem Within.mono {t : Table K V} {last' : Nat} (h : Within time first last t) (hle : last ≤ last') :
    Within time first last' t := by
  intro k v hl
  obtain ⟨hfirst, hlast⟩ := h k v hl
  exact ⟨hfirst, Nat.le_trans hlast hle⟩

/-- An entry of a time within leaves a table within. -/
theorem Within.insert {t : Table K V} {k : K} {v : V} (h : Within time first last t) (hfirst : first ≤ time v)
    (hlast : time v ≤ last) : Within time first last (t.insert k v) := by
  intro k' v' hl
  obtain ⟨rfl, rfl⟩ | hl := lookup_insert_cases hl
  · exact ⟨hfirst, hlast⟩
  · exact h k' v' hl

/-- The latest entry. -/
theorem Within.insert_last {t : Table K V} {k : K} {v : V} {now : Nat} (h : Within time first last t) (hv : time v = now)
    (hfirst : first ≤ now) (hle : last ≤ now) : Within time first now (t.insert k v) :=
  (h.mono hle).insert (hv.symm ▸ hfirst) (Nat.le_of_eq hv)

/-- The times of the entries do not go back where the numbers go up. -/
def InOrder (time : V → Nat) (t : Table Nat V) : Prop :=
  ∀ k k' v v', k ≤ k' → t.lookup k = some v → t.lookup k' = some v' → time v ≤ time v'

/-- An empty table is in order. -/
theorem inOrder_empty : InOrder time (∅ : Table Nat V) := by
  intro k k' v v' _ h
  cases h

/-- A new entry with the highest key and the latest time keeps a table in order. -/
theorem InOrder.insert {t : Table Nat V} {k : Nat} {v : V} (h : InOrder time t) (hk : ∀ k' ∈ t, k' < k)
    (hv : ∀ k' v', t.lookup k' = some v' → time v' ≤ time v) : InOrder time (t.insert k v) := by
  intro a b va vb hab ha hb
  obtain ⟨rfl, rfl⟩ | ha' := lookup_insert_cases ha
  · obtain ⟨rfl, rfl⟩ | hb' := lookup_insert_cases hb
    · exact Nat.le_refl _
    · -- No key is above the new one.
      have hlt := hk b (AList.lookup_isSome.1 (by rw [hb']; rfl))
      omega
  · obtain ⟨rfl, rfl⟩ | hb' := lookup_insert_cases hb
    · exact hv a va ha'
    · exact h a b va vb hab ha' hb'

end Move.Table
