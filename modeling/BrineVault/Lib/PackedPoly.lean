import Mathlib.RingTheory.AdjoinRoot
import Mathlib.Algebra.CharP.Two
import Mathlib.Algebra.Field.ZMod
import Mathlib.Data.Nat.Bitwise

/-!
# Polynomials over two elements, packed into the bits of a number

The coefficient at `X ^ i` is bit `i`: exclusive or is the sum, and a shift to the left the product with `X`. A number whose highest bit
is bit `w` is the modulus of a ring whose elements are the numbers below `2 ^ w`.
-/

namespace Packed

open Polynomial

noncomputable section

/-- The polynomial a number packs. No bit from the number itself on is set. -/
def poly (n : Nat) : (ZMod 2)[X] := ∑ i ∈ Finset.range n, if n.testBit i then X ^ i else 0

/-- A bit that is set is below the number. -/
theorem lt_of_testBit {n i : Nat} (h : n.testBit i = true) : i < n := by
  have hle : 2 ^ i ≤ n := Nat.ge_two_pow_of_testBit h
  have hlt : i < 2 ^ i := Nat.lt_two_pow_self
  omega

/-- The coefficients are the bits. -/
theorem coeff_poly (n i : Nat) : (poly n).coeff i = if n.testBit i then 1 else 0 := by
  unfold poly
  rw [finsetSum_coeff, Finset.sum_eq_single i]
  · by_cases hi : n.testBit i <;> simp [hi]
  · intro j _ hji
    by_cases hj : n.testBit j <;> simp [hj, coeff_X_pow, Ne.symm hji]
  · intro hi
    have hbit : n.testBit i = false := by
      by_contra hset
      exact hi (Finset.mem_range.2 (lt_of_testBit (by simpa using hset)))
    simp [hbit]

@[simp] theorem poly_zero : poly 0 = 0 := by
  simp [poly]

/-- The number 1 packs the polynomial 1. -/
@[simp] theorem poly_one : poly 1 = 1 := by
  simp [poly]

/-- `^^^` is the sum. -/
theorem poly_xor (a b : Nat) : poly (a ^^^ b) = poly a + poly b := by
  ext i
  rw [coeff_add, coeff_poly, coeff_poly, coeff_poly, Nat.testBit_xor]
  cases a.testBit i <;> cases b.testBit i <;> decide

/-- A shift by one is the product with `X`. -/
theorem poly_shiftLeft_one (a : Nat) : poly (a <<< 1) = X * poly a := by
  ext i
  cases i with
  | zero => simp [coeff_poly]
  | succ i => simp [coeff_poly]

/-- A number is its lowest bit and the double of the rest. -/
theorem poly_eq_lowest_add (b : Nat) : poly b = poly (b &&& 1) + X * poly (b >>> 1) := by
  rw [← poly_shiftLeft_one, ← poly_xor]
  congr 1
  apply Nat.eq_of_testBit_eq
  intro i
  have hone : (1 : Nat).testBit i = decide (i = 0) := by
    cases i with
    | zero => rfl
    | succ i => simp [Nat.testBit_succ]
  rw [Nat.testBit_xor, Nat.testBit_and, hone, Nat.testBit_shiftLeft, Nat.testBit_shiftRight]
  cases i with
  | zero => simp
  | succ i => simp [Nat.add_comm 1 i]

/-- A number of so many bits packs a polynomial of a lower degree. -/
theorem degree_poly_lt {n w : Nat} (h : n < 2 ^ w) : (poly n).degree < w := by
  rw [degree_lt_iff_coeff_zero]
  intro i hi
  have hbit : n.testBit i = false := Nat.testBit_lt_two_pow (h.trans_le (Nat.pow_le_pow_right (by decide) hi))
  rw [coeff_poly, hbit]
  rfl

/-- The number is known by its polynomial. -/
theorem poly_injective : Function.Injective poly := by
  intro a b hab
  apply Nat.eq_of_testBit_eq
  intro i
  have hi : (poly a).coeff i = (poly b).coeff i := by rw [hab]
  rw [coeff_poly, coeff_poly] at hi
  cases ha : a.testBit i <;> cases hb : b.testBit i <;> simp_all

/-- Every polynomial of a degree below `w` is packed into `w` bits. -/
theorem exists_poly_eq {p : (ZMod 2)[X]} {w : Nat} (hp : p.degree < w) : ∃ n < 2 ^ w, poly n = p := by
  refine ⟨Nat.ofBits fun i : Fin w => decide (p.coeff i = 1), Nat.ofBits_lt_two_pow _, ?_⟩
  ext i
  rw [coeff_poly, Nat.testBit_ofBits]
  by_cases hi : i < w
  · have hbit : ∀ c : ZMod 2, (if decide (c = 1) = true then (1 : ZMod 2) else 0) = c := by decide
    simpa [hi] using hbit (p.coeff i)
  · rw [dif_neg hi, coeff_eq_zero_of_degree_lt (hp.trans_le (by exact_mod_cast Nat.le_of_not_lt hi))]
    rfl

/-! ## Residues -/

/-- `m` packs a polynomial of degree `w`. -/
structure Modulus (w m : Nat) : Prop where
  top : m.testBit w = true
  bound : m < 2 ^ (w + 1)

variable {w m : Nat}

/-- The degree of the modulus is the width. -/
theorem Modulus.natDegree (hm : Modulus w m) : (poly m).natDegree = w := by
  apply le_antisymm
  · rw [natDegree_le_iff_coeff_eq_zero]
    intro i hi
    exact coeff_eq_zero_of_degree_lt ((degree_poly_lt hm.bound).trans_le (by exact_mod_cast hi))
  · exact le_natDegree_of_ne_zero (by rw [coeff_poly, hm.top]; decide)

/-- Its leading coefficient is 1. -/
theorem Modulus.monic (hm : Modulus w m) : (poly m).Monic := by
  rw [Monic, leadingCoeff, hm.natDegree, coeff_poly, hm.top]
  rfl

/-- The residue of a packed polynomial. -/
def residue (m n : Nat) : AdjoinRoot (poly m) := AdjoinRoot.mk (poly m) (poly n)

@[simp] theorem residue_zero : residue m 0 = 0 := by
  rw [residue, poly_zero, map_zero]

@[simp] theorem residue_one : residue m 1 = 1 := by
  rw [residue, poly_one, map_one]

@[simp] theorem residue_self : residue m m = 0 := AdjoinRoot.mk_self

/-- `^^^` is the sum of residues. -/
theorem residue_xor (a b : Nat) : residue m (a ^^^ b) = residue m a + residue m b := by
  rw [residue, poly_xor, map_add]
  rfl

/-- A shift by one is the product with the root. -/
theorem residue_shiftLeft_one (a : Nat) : residue m (a <<< 1) = AdjoinRoot.root (poly m) * residue m a := by
  rw [residue, poly_shiftLeft_one, map_mul, AdjoinRoot.mk_X]
  rfl

/-- A residue by its lowest bit and the others. -/
theorem residue_eq_lowest_add (b : Nat) :
    residue m b = residue m (b &&& 1) + AdjoinRoot.root (poly m) * residue m (b >>> 1) := by
  rw [residue, poly_eq_lowest_add b, map_add, map_mul, AdjoinRoot.mk_X]
  rfl

/-- Every residue is its own negative. -/
theorem residue_neg (r : AdjoinRoot (poly m)) : -r = r := by
  obtain ⟨p, rfl⟩ := AdjoinRoot.mk_surjective r
  rw [← map_neg, CharTwo.neg_eq]

/-- Numbers below the modulus have different residues. -/
theorem residue_injOn (hm : Modulus w m) {a b : Nat} (ha : a < 2 ^ w) (hb : b < 2 ^ w) (hab : residue m a = residue m b) : a = b := by
  have hlt : ∀ n < 2 ^ w, (poly n).degree < (poly m).degree := by
    intro n hn
    rw [degree_eq_natDegree hm.monic.ne_zero, hm.natDegree]
    exact degree_poly_lt hn
  have hdvd : poly m ∣ poly a - poly b := AdjoinRoot.mk_eq_mk.1 hab
  have hzero : poly a - poly b = 0 :=
    eq_zero_of_dvd_of_degree_lt hdvd ((degree_sub_le _ _).trans_lt (max_lt (hlt a ha) (hlt b hb)))
  exact poly_injective (sub_eq_zero.1 hzero)

/-- Every residue is one of a number below the modulus. -/
theorem residue_surjOn (hm : Modulus w m) (r : AdjoinRoot (poly m)) : ∃ n < 2 ^ w, residue m n = r := by
  obtain ⟨p, rfl⟩ := AdjoinRoot.mk_surjective r
  have hdeg : (p %ₘ poly m).degree < w := by
    have hlt := degree_modByMonic_lt p hm.monic
    rwa [degree_eq_natDegree hm.monic.ne_zero, hm.natDegree] at hlt
  obtain ⟨n, hn, hpoly⟩ := exists_poly_eq hdeg
  refine ⟨n, hn, ?_⟩
  rw [residue, hpoly, AdjoinRoot.mk_eq_mk, ← dvd_neg, neg_sub]
  exact ⟨p /ₘ poly m, by rw [sub_eq_iff_eq_add', modByMonic_add_div p]⟩

/-- Where every number below `2 ^ w` but zero has an inverse, the modulus is irreducible: a proper divisor would be one of them, and
divide one. -/
theorem irreducible_of_inverses (hm : Modulus w m) (hw : 0 < w)
    (hinv : ∀ a < 2 ^ w, a ≠ 0 → ∃ b, residue m a * residue m b = 1) : Irreducible (poly m) := by
  have hunit : ∀ f g : (ZMod 2)[X], poly m = f * g → f.degree < w → IsUnit f := by
    intro f g hfg hf
    obtain ⟨a, ha, rfl⟩ := exists_poly_eq hf
    have hne : a ≠ 0 := by
      rintro rfl
      exact hm.monic.ne_zero (by rw [hfg, poly_zero, zero_mul])
    obtain ⟨b, hb⟩ := hinv a ha hne
    have hdvd : poly m ∣ poly a * poly b - 1 := AdjoinRoot.mk_eq_mk.1 (by rw [map_mul, map_one]; exact hb)
    have hself : poly a ∣ poly a * poly b - 1 := dvd_trans ⟨g, hfg⟩ hdvd
    exact isUnit_of_dvd_one ((dvd_sub_right (dvd_mul_right _ _)).1 hself)
  refine ⟨fun hone => ?_, ?_⟩
  · have hdeg := natDegree_eq_zero_of_isUnit hone
    rw [hm.natDegree] at hdeg
    omega
  · intro f g hfg
    by_cases hf : f.degree < w
    · exact Or.inl (hunit f g hfg hf)
    · right
      have hne : f ≠ 0 ∧ g ≠ 0 := by
        rw [← mul_ne_zero_iff, ← hfg]
        exact hm.monic.ne_zero
      have hsum : f.natDegree + g.natDegree = w := by
        rw [← natDegree_mul hne.1 hne.2, ← hfg, hm.natDegree]
      have hle : w ≤ f.natDegree := by
        rw [← Nat.cast_le (α := WithBot Nat), ← degree_eq_natDegree hne.1]
        exact not_lt.1 hf
      have hg : g.degree < w := by
        rw [degree_eq_natDegree hne.2]
        exact_mod_cast (show g.natDegree < w by omega)
      exact hunit g f (by rw [hfg, mul_comm]) hg

end

end Packed
