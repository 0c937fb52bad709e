import BrineVault.Lib.Floating
import Mathlib.Algebra.Order.Ring.Rat
import Mathlib.Data.List.Sort
import Mathlib.Data.Nat.Cast.Order.Ring

/-!
# Numbers of JavaScript

The values of the type `number`, as far as a program compares them, adds them and uses them as indices and lengths. A finite one is a rational, and a
sum is rounded to 53 bits; the largest number, the largest index and the largest length that an engine allows are left out.
-/

namespace Js

inductive Number where
  | finite (q : Rat)
  | infinity (isNegative : Bool)
  | nan
  deriving DecidableEq, Repr

namespace Number

instance : NatCast Number where
  natCast n := finite n

instance (n : Nat) : OfNat Number n where
  ofNat := (n : Number)

/-- `a < b`, which is false when one of them is `NaN`. -/
def lt : Number → Number → Bool
  | finite p, finite q => p < q
  | finite _, infinity isNegative => !isNegative
  | infinity isNegative, finite _ => isNegative
  | infinity true, infinity false => true
  | _, _ => false

/-- `a + b`. -/
def add : Number → Number → Number
  | finite p, finite q => finite (Floating.round 53 (-1074) (p + q))
  | finite _, infinity isNegative => infinity isNegative
  | infinity isNegative, finite _ => infinity isNegative
  | infinity isNegative, infinity isNegative' => if isNegative = isNegative' then infinity isNegative else nan
  | _, _ => nan

/-- `Math.min(a, b)`. -/
def min (a b : Number) : Number := if a = nan ∨ b = nan then nan else if b.lt a then b else a

/-- A place of `slice` or `subarray` in an array: a fraction is cut off, a negative place counts from the end. -/
def relativeIndex (length : Nat) : Number → Nat
  | finite q => if q.num.tdiv q.den < 0 then (length + q.num.tdiv q.den).toNat else (q.num.tdiv q.den).toNat ⊓ length
  | infinity isNegative => if isNegative then 0 else length
  | nan => 0

/-- `Number.isInteger`. -/
def isInteger : Number → Bool
  | finite q => q.den = 1
  | _ => false

/-- `BigInt(x)`; `none` is a `RangeError`. -/
def toBigInt : Number → Option Int
  | finite q => if q.den = 1 then some q.num else none
  | _ => none

/-- The place of an array that an index stands for. Any other number is the name of a property, which is no place. -/
def arrayIndex : Number → Option Nat
  | finite q => if q.den = 1 ∧ 0 ≤ q.num then some q.num.toNat else none
  | _ => none

/-- `ToIndex`, the length that a buffer is made with: a fraction is cut off towards 0, and `none` is a `RangeError`. -/
def toIndex : Number → Option Nat
  | finite q => if 0 ≤ q.num.tdiv q.den then some (q.num.tdiv q.den).toNat else none
  | infinity _ => none
  | nan => some 0

example : toIndex (finite (7 / 2)) = some 3 ∧ toIndex (finite (-1 / 2)) = some 0 ∧ toIndex (finite (-1)) = none := by decide +kernel

variable {a : Number} {k n : Nat}

/-- A natural number as a `number`. -/
theorem natCast_def : (n : Number) = finite (n : Rat) := rfl

/-- Different natural numbers are different numbers. -/
@[simp] theorem natCast_inj : (k : Number) = n ↔ k = n := by
  rw [natCast_def, natCast_def, finite.injEq, Nat.cast_inj]

@[simp] theorem lt_natCast : lt k n = decide (k < n) := by
  simp [lt]

/-- A sum of natural numbers is exact up to 2^53. -/
theorem add_natCast (h : k + n ≤ 2 ^ 53) : add k n = (k + n : Nat) := by
  have hround := Floating.round_natCast (p := 53) (e := -1074) (by decide) (by decide) h
  rw [Nat.cast_add] at hround
  rw [natCast_def, natCast_def, add, hround, natCast_def, Nat.cast_add]

/-- The smaller of two natural numbers. -/
theorem min_natCast : min k n = (k ⊓ n : Nat) := by
  have hnum : ¬ ((k : Number) = nan ∨ (n : Number) = nan) := by simp [natCast_def]
  simp only [min, if_neg hnum, lt_natCast, decide_eq_true_eq]
  split
  · rw [min_eq_right (by omega)]
  · rw [min_eq_left (by omega)]

/-- A natural number is a place from the start, and no further than the end. -/
theorem relativeIndex_natCast (length : Nat) : relativeIndex length k = k ⊓ length := by
  simp [relativeIndex]

/-- The places of an array are the natural numbers. -/
theorem arrayIndex_eq_some : a.arrayIndex = some k ↔ a = k := by
  cases a with
  | finite q =>
    rw [arrayIndex, natCast_def, finite.injEq]
    constructor
    · intro h
      split at h
      · rename_i hq
        rw [Option.some.injEq] at h
        have hnum : q.num = (k : Int) := by omega
        rw [← (Rat.den_eq_one_iff q).1 hq.1, hnum, Int.cast_natCast]
      · cases h
    · rintro rfl
      simp
  | infinity isNegative => simp [arrayIndex, natCast_def]
  | nan => simp [arrayIndex, natCast_def]

@[simp] theorem arrayIndex_natCast : arrayIndex k = some k := arrayIndex_eq_some.2 rfl

@[simp] theorem toIndex_natCast : toIndex n = some n := by
  simp [toIndex]

@[simp] theorem toBigInt_natCast : toBigInt n = some (n : Int) := by
  simp [toBigInt]

/-- Of two numbers at most one is below the other. -/
theorem lt_asymm {a b : Number} (h : a.lt b = true) : b.lt a = false := by
  cases a with
  | finite p =>
    cases b with
    | finite q => exact decide_eq_false (not_lt.2 (of_decide_eq_true h).le)
    | infinity isNegative => cases isNegative <;> first | rfl | cases h
    | nan => cases h
  | infinity isNegative =>
    cases b with
    | finite q => cases isNegative <;> first | rfl | cases h
    | infinity isNegative' => cases isNegative <;> cases isNegative' <;> first | rfl | cases h
    | nan => cases isNegative <;> cases h
  | nan => cases b <;> cases h

/-- A whole number that is not below a natural one. -/
theorem exists_natCast {x : Number} (hint : x.isInteger = true) (hmin : x.lt n = false) : ∃ k : Nat, x = k := by
  cases x with
  | finite q =>
    have hq : (n : Rat) ≤ q := not_lt.1 (of_decide_eq_false hmin)
    have hnum : 0 ≤ q.num := Rat.num_nonneg.2 (le_trans (Nat.cast_nonneg n) hq)
    have hden : q.den = 1 := of_decide_eq_true hint
    exact ⟨q.num.toNat, arrayIndex_eq_some.1 (if_pos ⟨hden, hnum⟩)⟩
  | infinity isNegative => cases hint
  | nan => cases hint

/-- Sorted, the numbers from 0 to before `n` are in their order. -/
theorem insertionSort_range {xs : List Number} (h : xs.Perm ((List.range n).map Nat.cast)) :
    xs.insertionSort (fun a b => b.lt a = false) = (List.range n).map Nat.cast := by
  have hks : (xs.filterMap arrayIndex).map Nat.cast = xs := by
    rw [List.map_filterMap]
    have hmem : ∀ a ∈ xs, (a.arrayIndex.map Nat.cast : Option Number) = some a := by
      intro a ha
      obtain ⟨k, -, rfl⟩ := List.mem_map.1 (h.subset ha)
      simp
    rw [List.filterMap_congr hmem, List.filterMap_some]
  have hperm : (xs.filterMap arrayIndex).Perm (List.range n) := by
    have hrange : ((List.range n).map (Nat.cast : Nat → Number)).filterMap arrayIndex = List.range n := by
      rw [List.filterMap_map]
      simp
    exact hrange ▸ h.filterMap arrayIndex
  have hsorted : (xs.filterMap arrayIndex).insertionSort (· ≤ ·) = List.range n :=
    ((List.perm_insertionSort _ _).trans hperm).eq_of_pairwise' (List.pairwise_insertionSort _ _) List.pairwise_le_range
  rw [← hsorted]
  conv_lhs => rw [← hks]
  refine (List.map_insertionSort _ _ _ _ ?_).symm
  intro i _ j _
  simp

end Number

end Js
