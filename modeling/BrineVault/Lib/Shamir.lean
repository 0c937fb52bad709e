import Mathlib.Algebra.Polynomial.OfFn
import Mathlib.LinearAlgebra.Lagrange
import Mathlib.Data.Fintype.Card

/-!
# Secret sharing by polynomials

The dealer draws the coefficients of a polynomial whose constant term is the secret, and hands out its values at points other than
zero. As many values as there are coefficients give the secret back; fewer are the values of as many polynomials whatever the secret.
-/

namespace Shamir

open Polynomial

noncomputable section

variable {F : Type} [Field F] [DecidableEq F] {d : Nat}

/-- The polynomial with the secret as its constant term and the drawn coefficients above it. -/
def dealer (secret : F) (drawn : Fin d → F) : F[X] := ofFn (d + 1) (Fin.cons secret drawn)

/-- The polynomial has the degree that was asked for, at most. -/
theorem degree_dealer_lt (secret : F) (drawn : Fin d → F) : (dealer secret drawn).degree < (d + 1 : Nat) :=
  ofFn_degree_lt _

/-- Its value at 0 is the secret. -/
@[simp] theorem eval_dealer_zero (secret : F) (drawn : Fin d → F) : (dealer secret drawn).eval 0 = secret := by
  rw [← coeff_zero_eq_eval_zero, dealer, ofFn_coeff_eq_val_of_lt _ (Nat.succ_pos d)]
  rfl

/-- The polynomial of a sum is the sum of the polynomials. -/
theorem dealer_add (s s' : F) (c c' : Fin d → F) : dealer (s + s') (c + c') = dealer s c + dealer s' c' := by
  rw [dealer, dealer, dealer, ← map_add]
  congr 1
  funext i
  cases i using Fin.cases <;> rfl

/-- Every polynomial of a degree up to `d` is a dealer's. -/
theorem exists_dealer_eq {p : F[X]} (hp : p.degree < (d + 1 : Nat)) : ∃ drawn : Fin d → F, dealer (p.eval 0) drawn = p := by
  refine ⟨fun k => p.coeff (k + 1), ?_⟩
  ext i
  rw [dealer]
  by_cases hi : i < d + 1
  · rw [ofFn_coeff_eq_val_of_lt _ hi]
    cases i with
    | zero => exact (coeff_zero_eq_eval_zero p).symm
    | succ i => rfl
  · have hge : d + 1 ≤ i := by omega
    rw [ofFn_coeff_eq_zero_of_ge _ hge, coeff_eq_zero_of_degree_lt (hp.trans_le (by exact_mod_cast hge))]

/-- Horner's rule, from the highest coefficient down. -/
theorem eval_ofFn (n : Nat) (v : Fin n → F) (x : F) :
    (ofFn n v).eval x = (List.ofFn v).foldr (fun c y => y * x + c) 0 := by
  induction n with
  | zero => simp
  | succ n ih =>
    have htail := ih fun i => v i.succ
    rw [ofFn_eq_sum_monomial, eval_finsetSum] at htail ⊢
    rw [List.ofFn_succ, List.foldr_cons, ← htail, Fin.sum_univ_succ, Finset.sum_mul, add_comm]
    simp [pow_succ, mul_assoc]

/-- Its values are computed from the highest coefficient down. -/
theorem eval_dealer (secret : F) (drawn : Fin d → F) (x : F) :
    (dealer secret drawn).eval x = (secret :: List.ofFn drawn).foldr (fun c y => y * x + c) 0 := by
  rw [dealer, eval_ofFn, List.ofFn_succ]
  rfl

/-! ## Enough values -/

/-- The value at zero, from the values at more points than the degree. -/
theorem eval_zero_eq_sum {points : Finset F} {p : F[X]} (hp : p.degree < points.card) :
    p.eval 0 = ∑ x ∈ points, p.eval x * ∏ x' ∈ points.erase x, x' / (x' - x) := by
  have hinj : Set.InjOn (id : F → F) points := Set.injOn_id _
  have hbasis : ∀ x ∈ points, (Lagrange.basis points id x).eval 0 = ∏ x' ∈ points.erase x, x' / (x' - x) := by
    intro x _
    rw [Lagrange.basis, eval_prod]
    apply Finset.prod_congr rfl
    intro x' _
    rw [Lagrange.basisDivisor, eval_mul, eval_C, eval_sub, eval_X, eval_C, zero_sub, ← neg_sub (id x'), inv_neg, neg_mul_neg,
      mul_comm, div_eq_mul_inv]
    rfl
  conv_lhs => rw [Lagrange.eq_interpolate hinj hp, Lagrange.interpolate_apply, eval_finsetSum]
  apply Finset.sum_congr rfl
  intro x hx
  rw [eval_mul, eval_C, hbasis x hx]
  rfl

/-! ## Too few values -/

/-- A polynomial that is zero at every observed point and has any constant term. -/
theorem exists_mask {observed : Finset F} (hzero : 0 ∉ observed) (hfew : observed.card ≤ d) (δ : F) :
    ∃ mask : Fin d → F, ∀ x ∈ observed, (dealer δ mask).eval x = 0 := by
  have hinj : Set.InjOn (id : F → F) (insert 0 observed : Finset F) := Set.injOn_id _
  let p := Lagrange.interpolate (insert 0 observed) id fun x => if x = 0 then δ else 0
  have hp : ∀ x ∈ insert 0 observed, p.eval x = if x = 0 then δ else 0 := fun x hx => Lagrange.eval_interpolate_at_node _ hinj hx
  have hdeg : p.degree < (d + 1 : Nat) := by
    have hlt := Lagrange.degree_interpolate_lt (fun x => if x = 0 then δ else 0) hinj
    rw [Finset.card_insert_of_notMem hzero] at hlt
    exact hlt.trans_le (by exact_mod_cast Nat.succ_le_succ hfew)
  obtain ⟨mask, hmask⟩ := exists_dealer_eq hdeg
  have hδ : p.eval 0 = δ := by rw [hp 0 (Finset.mem_insert_self 0 observed), if_pos rfl]
  refine ⟨mask, ?_⟩
  intro x hx
  rw [← hδ, hmask, hp x (Finset.mem_insert_of_mem hx), if_neg]
  rintro rfl
  exact hzero hx

/-- The draws for one secret go over to those for another, one to one, with the same values at the observed points. -/
theorem exists_redraw {observed : Finset F} (hzero : 0 ∉ observed) (hfew : observed.card ≤ d) (s s' : F) :
    ∃ redraw : (Fin d → F) ≃ (Fin d → F), ∀ drawn, ∀ x ∈ observed, (dealer s' (redraw drawn)).eval x = (dealer s drawn).eval x := by
  obtain ⟨mask, hmask⟩ := exists_mask hzero hfew (s' - s)
  refine ⟨Equiv.addRight mask, ?_⟩
  intro drawn x hx
  have hsplit : dealer s' (drawn + mask) = dealer s drawn + dealer (s' - s) mask := by
    rw [← dealer_add, add_sub_cancel]
  rw [Equiv.coe_addRight, hsplit, eval_add, hmask x hx, add_zero]

end

end Shamir
