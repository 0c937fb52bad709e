import Mathlib.Data.List.ReduceOption

/-!
# A list cut into slices

The loop `for (let offset = 0; offset < xs.length; offset += size)` that cuts `xs.slice(offset, offset + size)`, and the assignment
`xs[i] = x` to an array whose places may be empty.
-/

namespace Slices

variable {α β : Type}

/-- The slices from an offset on. A slice that would end past the list ends with it. -/
def slicesFrom (size : Nat) (xs : List α) : Nat → Nat → List (List α)
  | 0, _ => []
  | fuel + 1, offset =>
    if offset < xs.length then xs.extract offset (offset + size) :: slicesFrom size xs fuel (offset + size) else []

/-- The slices of a list. Every one moves the offset on, so that there are at most as many as the list has elements. -/
def slices (size : Nat) (xs : List α) : List (List α) := slicesFrom size xs xs.length 0

example : slices 2 [1, 2, 3, 4, 5] = [[1, 2], [3, 4], [5]] := by decide

/-- From any offset on, the slices put together are what is left of the list. -/
theorem flatten_slicesFrom {size : Nat} (hsize : 0 < size) (xs : List α) (fuel offset : Nat) (h : xs.length ≤ offset + fuel) :
    (slicesFrom size xs fuel offset).flatten = xs.drop offset := by
  induction fuel generalizing offset with
  | zero =>
    have hend : xs.length ≤ offset := by omega
    rw [List.drop_eq_nil_of_le hend]
    rfl
  | succ fuel ih =>
    unfold slicesFrom
    by_cases hoff : offset < xs.length
    · have hfuel : xs.length ≤ offset + size + fuel := by omega
      rw [if_pos hoff, List.flatten_cons, ih _ hfuel, List.extract_eq_take_drop, Nat.add_sub_cancel_left, ← List.drop_drop]
      exact List.take_append_drop size (xs.drop offset)
    · rw [if_neg hoff, List.drop_eq_nil_of_le (by omega)]
      rfl

/-- Put together again, the slices are the list. -/
theorem flatten_slices {size : Nat} (hsize : 0 < size) (xs : List α) : (slices size xs).flatten = xs := by
  rw [slices, flatten_slicesFrom hsize xs _ _ (by omega), List.drop_zero]

/-- The elements of the list are those of its slices. -/
theorem mem_of_mem_slices {size : Nat} (hsize : 0 < size) {xs : List α} {x : α} :
    (∃ s ∈ slices size xs, x ∈ s) ↔ x ∈ xs := by
  rw [← List.mem_flatten, flatten_slices hsize]

/-- A slice holds nothing else than the list, whatever its size. -/
theorem subset_of_mem_slices {size : Nat} {xs s : List α} (hs : s ∈ slices size xs) : s ⊆ xs := by
  unfold slices at hs
  generalize xs.length = fuel at hs
  generalize 0 = offset at hs
  induction fuel generalizing offset with
  | zero => cases hs
  | succ fuel ih =>
    unfold slicesFrom at hs
    split at hs
    · rcases List.mem_cons.1 hs with rfl | hs
      · rw [List.extract_eq_take_drop]
        exact fun x hx => List.mem_of_mem_drop (List.mem_of_mem_take hx)
      · exact ih _ hs
    · cases hs

/-- `xs[i] = x`: an array grows when the index is past its end. -/
def assign (xs : List (Option α)) (i : Nat) (x : α) : List (Option α) :=
  if i < xs.length then xs.set i (some x) else xs ++ List.replicate (i - xs.length) none ++ [some x]

/-- Assigning to a place of the array does not lengthen it. -/
theorem length_assign {xs : List (Option α)} {i : Nat} (h : i < xs.length) (x : α) : (assign xs i x).length = xs.length := by
  rw [assign, if_pos h, List.length_set]

/-- The place that is assigned holds the element, and the others what they held. -/
theorem getElem?_assign {xs : List (Option α)} {i : Nat} (h : i < xs.length) (j : Nat) (x : α) :
    (assign xs i x)[j]? = if j = i then some (some x) else xs[j]? := by
  rw [assign, if_pos h, List.getElem?_set]
  by_cases hij : i = j
  · rw [if_pos hij, if_pos hij.symm, if_pos (hij ▸ h)]
  · rw [if_neg hij, if_neg (Ne.symm hij)]

/-- What an assignment does not put into an array was there. -/
theorem getElem?_assign_some {xs : List (Option α)} {i j : Nat} {x y : α} (h : (assign xs i x)[j]? = some (some y)) :
    (j = i ∧ y = x) ∨ xs[j]? = some (some y) := by
  by_cases hi : i < xs.length
  · rw [getElem?_assign hi] at h
    by_cases hj : j = i
    · rw [if_pos hj, Option.some.injEq, Option.some.injEq] at h
      exact .inl ⟨hj, h.symm⟩
    · rw [if_neg hj] at h
      exact .inr h
  · rw [assign, if_neg hi, List.append_assoc] at h
    by_cases hj : j < xs.length
    · rw [List.getElem?_append_left hj] at h
      exact .inr h
    · rw [List.getElem?_append_right (by omega)] at h
      by_cases hlast : j - xs.length < i - xs.length
      · rw [List.getElem?_append_left (by rwa [List.length_replicate]), List.getElem?_replicate, if_pos hlast] at h
        cases h
      · rw [List.getElem?_append_right (by rw [List.length_replicate]; omega), List.length_replicate] at h
        obtain ⟨hlt, hy⟩ := List.getElem?_eq_some_iff.1 h
        rw [List.length_singleton] at hlt
        left
        refine ⟨by omega, ?_⟩
        simpa using hy.symm

/-- No assignment shortens an array. -/
theorem length_le_assign (xs : List (Option α)) (i : Nat) (x : α) : xs.length ≤ (assign xs i x).length := by
  by_cases hi : i < xs.length
  · exact Nat.le_of_eq (length_assign hi x).symm
  · rw [assign, if_neg hi, List.append_assoc, List.length_append]
    omega

/-- An array without an empty place is what its places hold. -/
theorem map_some_reduceOption {xs : List (Option α)} (h : ∀ x ∈ xs, x.isSome = true) : xs.reduceOption.map some = xs := by
  induction xs with
  | nil => rfl
  | cons x xs ih =>
    obtain ⟨e, rfl⟩ := Option.isSome_iff_exists.1 (h x (List.mem_cons_self ..))
    rw [List.reduceOption_cons_of_some, List.map_cons, ih fun y hy => h y (List.mem_cons_of_mem _ hy)]

end Slices
