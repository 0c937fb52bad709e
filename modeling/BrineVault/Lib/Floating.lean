import Mathlib.Algebra.Order.Archimedean.Basic
import Mathlib.Algebra.Order.Floor.Ring
import Mathlib.Algebra.Ring.Int.Parity
import Mathlib.Data.Int.Log
import Mathlib.Data.Rat.Floor
import Mathlib.Tactic.Linarith

/-!
# Rounding to a binary format

A number of a format has `p` binary digits, none of them in a place below 2^e. A rational is rounded to the nearest number of the format, and to the
even one of two that are as near. How large the numbers can be is left out.
-/

namespace Floating

/-! ## To an integer -/

/-- The nearest integer, and the even one of two. -/
def roundEven (q : ℚ) : ℤ :=
  if Int.fract q < 1 / 2 then ⌊q⌋ else if 1 / 2 < Int.fract q then ⌊q⌋ + 1 else if Even ⌊q⌋ then ⌊q⌋ else ⌊q⌋ + 1

/-- An integer is rounded up or down, whichever is nearer. -/
theorem roundEven_cases (q : ℚ) :
    (roundEven q = ⌊q⌋ ∧ Int.fract q ≤ 1 / 2) ∨ (roundEven q = ⌊q⌋ + 1 ∧ 1 / 2 ≤ Int.fract q) := by
  unfold roundEven
  split
  · rename_i h
    exact .inl ⟨rfl, h.le⟩
  · rename_i h
    split
    · rename_i h'
      exact .inr ⟨rfl, h'.le⟩
    · rename_i h'
      split
      · exact .inl ⟨rfl, not_lt.1 h'⟩
      · exact .inr ⟨rfl, not_lt.1 h⟩

/-- An integer stays as it is. -/
@[simp] theorem roundEven_intCast (n : ℤ) : roundEven n = n := by
  simp [roundEven]

/-- Rounding keeps the order. -/
theorem roundEven_mono {y z : ℚ} (h : y ≤ z) : roundEven y ≤ roundEven z := by
  have hfloor : ⌊y⌋ ≤ ⌊z⌋ := Int.floor_mono h
  obtain hlt | heq := hfloor.lt_or_eq
  · obtain ⟨hy, -⟩ | ⟨hy, -⟩ := roundEven_cases y <;> obtain ⟨hz, -⟩ | ⟨hz, -⟩ := roundEven_cases z <;> omega
  · have hfract : Int.fract y ≤ Int.fract z := by
      rw [Int.fract, Int.fract, heq]
      linarith
    unfold roundEven
    rw [heq]
    split_ifs <;> first | omega | linarith

/-- It is off by a half at most. -/
theorem abs_roundEven_sub_le (q : ℚ) : |(roundEven q : ℚ) - q| ≤ 1 / 2 := by
  have hq := Int.floor_add_fract q
  have hpos := Int.fract_nonneg q
  have hlt := Int.fract_lt_one q
  rw [abs_le]
  obtain ⟨h, hfract⟩ | ⟨h, hfract⟩ := roundEven_cases q
  · rw [h]
    constructor <;> linarith
  · rw [h]
    push_cast
    constructor <;> linarith

/-! ## To a format -/

variable (p : ℕ) (e : ℤ)

/-- The place of the last digit. -/
def ulp (q : ℚ) : ℚ := 2 ^ max (Int.log 2 |q| + 1 - p) e

def round (q : ℚ) : ℚ := roundEven (q / ulp p e q) * ulp p e q

variable {p e}

/-- There is no place of size 0. -/
theorem ulp_pos (q : ℚ) : 0 < ulp p e q := by
  exact zpow_pos two_pos _

theorem round_zero : round p e 0 = 0 := by
  have hzero : roundEven 0 = 0 := by exact_mod_cast roundEven_intCast 0
  simp [round, hzero]

/-- A number of the format is a multiple of the least one. -/
theorem exists_round_eq (q : ℚ) : ∃ m : ℤ, round p e q = m * 2 ^ e := by
  have hle : 0 ≤ max (Int.log 2 |q| + 1 - p) e - e := by omega
  obtain ⟨d, hd⟩ := Int.eq_ofNat_of_zero_le hle
  refine ⟨roundEven (q / ulp p e q) * 2 ^ d, ?_⟩
  have hulp : ulp p e q = 2 ^ d * 2 ^ e := by
    rw [ulp, ← zpow_natCast, ← zpow_add₀ two_ne_zero]
    congr 1
    omega
  rw [round, hulp]
  push_cast
  ring

/-- A number is rounded to one that is at most half a place away. -/
theorem abs_round_sub_le (q : ℚ) : |round p e q - q| ≤ ulp p e q / 2 := by
  have hpos := ulp_pos (p := p) (e := e) q
  have hscaled : round p e q - q = (roundEven (q / ulp p e q) - q / ulp p e q) * ulp p e q := by
    rw [round, sub_mul, div_mul_cancel₀ q hpos.ne']
  rw [hscaled, abs_mul, abs_of_pos hpos]
  calc |(roundEven (q / ulp p e q) : ℚ) - q / ulp p e q| * ulp p e q ≤ 1 / 2 * ulp p e q :=
        mul_le_mul_of_nonneg_right (abs_roundEven_sub_le _) hpos.le
    _ = ulp p e q / 2 := by ring

/-- Below a power of two the places are those of the power below it. -/
theorem ulp_le {k : ℤ} {q : ℚ} (hq : 0 < q) (hlt : q < 2 ^ (k + 1)) (he : e ≤ k + 1 - p) : ulp p e q ≤ 2 ^ (k + 1 - p) := by
  have hlog : Int.log 2 q < k + 1 := (Int.lt_zpow_iff_log_lt one_lt_two hq).1 (by exact_mod_cast hlt)
  rw [ulp, abs_of_pos hq]
  exact zpow_le_zpow_right₀ one_le_two (by omega)

/-- Rounding does not go past a multiple of the last place. -/
theorem round_le {q : ℚ} {m : ℤ} (h : q ≤ m * ulp p e q) : round p e q ≤ m * ulp p e q := by
  have hpos := ulp_pos (p := p) (e := e) q
  have hmono := roundEven_mono ((div_le_iff₀ hpos).2 h)
  rw [roundEven_intCast] at hmono
  exact mul_le_mul_of_nonneg_right (by exact_mod_cast hmono) hpos.le

/-- The same from above. -/
theorem le_round {q : ℚ} {m : ℤ} (h : m * ulp p e q ≤ q) : m * ulp p e q ≤ round p e q := by
  have hpos := ulp_pos (p := p) (e := e) q
  have hmono := roundEven_mono ((le_div_iff₀ hpos).2 h)
  rw [roundEven_intCast] at hmono
  exact mul_le_mul_of_nonneg_right (by exact_mod_cast hmono) hpos.le

/-- Rounding keeps the sign. -/
theorem round_nonpos {q : ℚ} (h : q ≤ 0) : round p e q ≤ 0 := by
  have hle := round_le (p := p) (e := e) (m := 0) (q := q) (by simpa using h)
  simpa using hle

theorem round_nonneg {q : ℚ} (h : 0 ≤ q) : 0 ≤ round p e q := by
  have hle := le_round (p := p) (e := e) (m := 0) (q := q) (by simpa using h)
  simpa using hle

/-- A multiple of the place of its last digit is a number of the format. -/
theorem round_eq_self {q : ℚ} {m : ℤ} (h : q = m * ulp p e q) : round p e q = q := by
  have hpos := ulp_pos (p := p) (e := e) q
  have hm : q / ulp p e q = m := by
    rw [div_eq_iff hpos.ne']
    exact h
  rw [round, hm, roundEven_intCast, ← h]

/-- A power of two, in places that are not larger. -/
theorem exists_zpow_eq {k : ℤ} {q : ℚ} (hq : Int.log 2 |q| + 1 - p ≤ k) (he : e ≤ k) : ∃ m : ℤ, (2 : ℚ) ^ k = m * ulp p e q := by
  have hle : 0 ≤ k - max (Int.log 2 |q| + 1 - p) e := by omega
  obtain ⟨d, hd⟩ := Int.eq_ofNat_of_zero_le hle
  refine ⟨2 ^ d, ?_⟩
  rw [ulp]
  push_cast
  rw [← zpow_natCast, ← zpow_add₀ two_ne_zero]
  congr 1
  omega

/-- The last power of two that is not above a power of two is the power itself. -/
theorem log_zpow (k : ℤ) : Int.log 2 |(2 : ℚ) ^ k| = k := by
  rw [abs_of_pos (zpow_pos two_pos k)]
  exact_mod_cast Int.log_zpow (R := ℚ) one_lt_two k

/-- A power of two is a number of the format. -/
theorem round_zpow (hp : 0 < p) {k : ℤ} (he : e ≤ k) : round p e (2 ^ k) = 2 ^ k := by
  obtain ⟨m, hm⟩ := exists_zpow_eq (p := p) (e := e) (k := k) (q := 2 ^ k) (by rw [log_zpow]; omega) he
  exact round_eq_self hm

/-- A natural number is one of the format, as long as it is not over 2^p. -/
theorem round_natCast (hp : 0 < p) (he : e ≤ 0) {n : ℕ} (hn : n ≤ 2 ^ p) : round p e n = n := by
  obtain rfl | hlt := hn.eq_or_lt
  · have hpow : ((2 ^ p : ℕ) : ℚ) = 2 ^ (p : ℤ) := by push_cast; rfl
    rw [hpow, round_zpow hp (by omega)]
  · have hlog : Int.log 2 |(n : ℚ)| + 1 - p ≤ 0 := by
      have hlog' : Int.log 2 |(n : ℚ)| < p := by
        rw [Nat.abs_cast, Int.log_natCast]
        obtain rfl | hpos := Nat.eq_zero_or_pos n
        · simpa using hp
        · exact_mod_cast Nat.log_lt_of_lt_pow hpos.ne' hlt
      omega
    obtain ⟨m, hm⟩ := exists_zpow_eq (p := p) (k := 0) hlog he
    refine round_eq_self (m := n * m) ?_
    push_cast
    rw [mul_assoc, ← hm, zpow_zero, mul_one]

/-- Rounding keeps the order of the numbers that are not negative. -/
theorem round_mono {y z : ℚ} (hp : 0 < p) (hy : 0 ≤ y) (h : y ≤ z) : round p e y ≤ round p e z := by
  obtain rfl | hy := hy.eq_or_lt
  · rw [round_zero]
    exact round_nonneg h
  · have hz : 0 < z := hy.trans_le h
    have hlog : Int.log 2 |y| ≤ Int.log 2 |z| := by
      rw [abs_of_pos hy, abs_of_pos hz]
      exact Int.log_mono_right hy h
    by_cases hsame : max (Int.log 2 |y| + 1 - p) e = max (Int.log 2 |z| + 1 - p) e
    · have hulp : ulp p e y = ulp p e z := by rw [ulp, ulp, hsame]
      have hpos := ulp_pos (p := p) (e := e) z
      rw [round, round, hulp]
      exact mul_le_mul_of_nonneg_right (by exact_mod_cast roundEven_mono (div_le_div_of_nonneg_right h hpos.le)) hpos.le
    · -- The power of two between them is in the places of both.
      obtain ⟨m, hm⟩ := exists_zpow_eq (p := p) (e := e) (k := Int.log 2 |z|) (q := y) (by omega) (by omega)
      obtain ⟨n, hn⟩ := exists_zpow_eq (p := p) (e := e) (k := Int.log 2 |z|) (q := z) (by omega) (by omega)
      have hylt : y < 2 ^ Int.log 2 |z| := by
        rw [abs_of_pos hz]
        exact_mod_cast (Int.lt_zpow_iff_log_lt one_lt_two hy).2 (by rw [abs_of_pos hy, abs_of_pos hz] at hlog hsame; omega)
      have hzle : 2 ^ Int.log 2 |z| ≤ z := by
        rw [abs_of_pos hz]
        exact_mod_cast Int.zpow_log_le_self one_lt_two hz
      calc round p e y ≤ m * ulp p e y := round_le (hm ▸ hylt.le)
        _ = n * ulp p e z := by rw [← hm, hn]
        _ ≤ round p e z := le_round (hn ▸ hzle)

/-- Half a place above a power of two is rounded down to it. -/
theorem round_half (hp : 1 < p) {k : ℤ} (he : e ≤ k + 1 - p) : round p e (2 ^ k + 2 ^ (k - p)) = 2 ^ k := by
  have hpos : (0 : ℚ) < 2 ^ k + 2 ^ (k - p) := add_pos (zpow_pos two_pos _) (zpow_pos two_pos _)
  have hlog : Int.log 2 |(2 : ℚ) ^ k + 2 ^ (k - p)| = k := by
    have hless : (2 : ℚ) ^ (k - p) < 2 ^ k := zpow_lt_zpow_right₀ one_lt_two (by omega)
    have hlt : (2 : ℚ) ^ k + 2 ^ (k - p) < 2 ^ (k + 1) := by
      rw [zpow_add_one₀ two_ne_zero]
      linarith
    have hge : (2 : ℚ) ^ k ≤ 2 ^ k + 2 ^ (k - p) := le_add_of_nonneg_right (zpow_pos two_pos _).le
    have hupper := (Int.lt_zpow_iff_log_lt (R := ℚ) one_lt_two hpos).1 (by exact_mod_cast hlt)
    have hlower := (Int.zpow_le_iff_le_log (R := ℚ) one_lt_two hpos).1 (by exact_mod_cast hge)
    rw [abs_of_pos hpos]
    omega
  obtain ⟨d, hd⟩ : ∃ d : ℕ, p = d + 2 := ⟨p - 2, by omega⟩
  have hulp : ulp p e (2 ^ k + 2 ^ (k - p)) = 2 ^ (k + 1 - p) := by rw [ulp, hlog, max_eq_left he]
  have hquotient : ((2 : ℚ) ^ k + 2 ^ (k - p)) / 2 ^ (k + 1 - p) = ((2 ^ (d + 1) : ℤ) : ℚ) + 1 / 2 := by
    have hone : (2 : ℚ) ^ (d + 1) * 2 ^ (k + 1 - p) = 2 ^ k := by
      rw [← zpow_natCast, ← zpow_add₀ two_ne_zero]
      congr 1
      push_cast
      omega
    have htwo : (2 : ℚ) ^ (k + 1 - p) = 2 * 2 ^ (k - p) := by
      rw [show k + 1 - p = 1 + (k - p) by ring, zpow_add₀ two_ne_zero, zpow_one]
    rw [div_eq_iff (zpow_pos two_pos _).ne']
    push_cast
    rw [add_mul, hone, htwo]
    ring
  have hround : roundEven (((2 ^ (d + 1) : ℤ) : ℚ) + 1 / 2) = 2 ^ (d + 1) := by
    have hfloor : ⌊((2 ^ (d + 1) : ℤ) : ℚ) + 1 / 2⌋ = 2 ^ (d + 1) := by
      rw [Int.floor_intCast_add]
      norm_num
    have hfract : Int.fract (((2 ^ (d + 1) : ℤ) : ℚ) + 1 / 2) = 1 / 2 := by
      rw [Int.fract_intCast_add]
      norm_num
    have heven : Even ((2 : ℤ) ^ (d + 1)) := (Int.even_pow' (Nat.succ_ne_zero d)).2 even_two
    rw [roundEven, hfloor, hfract, if_neg (lt_irrefl _), if_neg (lt_irrefl _), if_pos heven]
  rw [round, hulp, hquotient, hround]
  push_cast
  rw [← zpow_natCast, ← zpow_add₀ two_ne_zero]
  congr 1
  push_cast
  omega

/-- A step of more than half a place is made. -/
theorem lt_round_add {k : ℤ} {x q : ℚ} (hp : 0 < p) (he : e ≤ k + 1 - p) (hx : 0 ≤ x) (hlt : x < 2 ^ (k + 1)) (hq : 2 ^ (k - p) < q) :
    x < round p e (x + q) := by
  have hpos : 0 < q := (zpow_pos two_pos _).trans hq
  by_contra hle
  obtain hbelow | habove := lt_or_ge (x + q) (2 ^ (k + 1))
  · have herror := abs_round_sub_le (p := p) (e := e) (x + q)
    have hulp := ulp_le (p := p) (e := e) (by linarith) hbelow he
    have hhalf : (2 : ℚ) ^ (k + 1 - p) = 2 * 2 ^ (k - p) := by
      rw [show k + 1 - p = 1 + (k - p) by ring, zpow_add₀ two_ne_zero, zpow_one]
    rw [abs_le] at herror
    linarith [herror.1]
  · have hmono := round_mono (p := p) (e := e) hp (zpow_pos two_pos (k + 1)).le habove
    rw [round_zpow hp (by omega)] at hmono
    linarith

/-! ## Sums -/

variable (p e)

/-- The sum of so many equal terms, rounded after each of them. -/
def sums (q : ℚ) : ℕ → ℚ
  | 0 => 0
  | i + 1 => round p e (sums q i + q)

variable {p e}

/-- A term of half a place does not lead past a power of two. -/
theorem sums_le (hp : 1 < p) {k : ℤ} (he : e ≤ k + 1 - p) {q : ℚ} (hq : q ≤ 2 ^ (k - p)) (i : ℕ) : sums p e q i ≤ 2 ^ k := by
  induction i with
  | zero => exact (zpow_pos two_pos k).le
  | succ i ih =>
    obtain hneg | hpos := le_total (sums p e q i + q) 0
    · exact (round_nonpos hneg).trans (zpow_pos two_pos k).le
    · calc sums p e q (i + 1) ≤ round p e (2 ^ k + 2 ^ (k - p)) := round_mono (by omega) hpos (add_le_add ih hq)
        _ = 2 ^ k := round_half hp he

/-- Sums of a step that is not negative are not negative. -/
theorem sums_nonneg {q : ℚ} (hq : 0 ≤ q) (i : ℕ) : 0 ≤ sums p e q i := by
  induction i with
  | zero => exact le_rfl
  | succ i ih => exact round_nonneg (add_nonneg ih hq)

/-- As long as they are below the bound, the sums grow from one multiple of the least number to another. -/
theorem exists_sums_eq (hp : 0 < p) {k : ℤ} (he : e ≤ k + 1 - p) {q : ℚ} (hq : 2 ^ (k - p) < q) {i : ℕ}
    (hbelow : ∀ j < i, sums p e q j < 2 ^ (k + 1)) : ∃ m : ℤ, i ≤ m ∧ sums p e q i = m * 2 ^ e := by
  have hpos : 0 ≤ q := ((zpow_pos two_pos _).trans hq).le
  induction i with
  | zero => exact ⟨0, le_rfl, by simp [sums]⟩
  | succ i ih =>
    obtain ⟨m, hm, hsum⟩ := ih fun j hj => hbelow j (Nat.lt_succ_of_lt hj)
    obtain ⟨m', hm'⟩ := exists_round_eq (p := p) (e := e) (sums p e q i + q)
    have hlt := lt_round_add hp he (sums_nonneg hpos i) (hbelow i (Nat.lt_succ_self i)) hq
    refine ⟨m', ?_, hm'⟩
    rw [hm', hsum] at hlt
    have hgrows : m < m' := by exact_mod_cast lt_of_mul_lt_mul_right hlt (zpow_pos two_pos e).le
    push_cast
    omega

/-- The sums reach a bound exactly when the term is more than half a place above every power of two below the bound. -/
theorem exists_le_sums_iff (hp : 1 < p) (he : e ≤ -p) (n : ℕ) (q : ℚ) :
    (∃ i, n ≤ sums p e q i) ↔ ∀ k : ℤ, 2 ^ k < (n : ℚ) → 2 ^ (k - p) < q := by
  constructor
  · rintro ⟨i, hi⟩ k hk
    by_contra hq
    have hn : (1 : ℚ) ≤ n := by exact_mod_cast Nat.cast_pos.1 ((zpow_pos two_pos k).trans hk)
    have hbelow : (2 : ℚ) ^ max k (-1) < n := by
      obtain hmax | hmax := max_choice k (-1)
      · rwa [hmax]
      · rw [hmax, zpow_neg_one]
        linarith
    have hhalf : q ≤ 2 ^ (max k (-1) - p) := (not_lt.1 hq).trans (zpow_le_zpow_right₀ one_le_two (by omega))
    have hsum := sums_le (e := e) hp (by omega) hhalf i
    linarith
  · intro hstep
    obtain rfl | hn := Nat.eq_zero_or_pos n
    · exact ⟨0, by simp [sums]⟩
    · have hlower := Int.zpow_pred_clog_lt_self (R := ℚ) one_lt_two (by exact_mod_cast hn : (0 : ℚ) < n)
      have hupper := Int.self_le_zpow_clog (R := ℚ) one_lt_two n
      rw [Int.clog_natCast] at hlower hupper
      by_contra hnone
      obtain ⟨i, hi⟩ := exists_nat_ge ((n : ℚ) / 2 ^ e)
      have hbelow : ∀ j < i, sums p e q j < 2 ^ ((Nat.clog 2 n : ℤ) - 1 + 1) := by
        intro j _
        rw [sub_add_cancel]
        exact (not_le.1 fun hj => hnone ⟨j, hj⟩).trans_le (by exact_mod_cast hupper)
      obtain ⟨m, hm, hsum⟩ := exists_sums_eq (e := e) (by omega) (by omega) (hstep _ (by exact_mod_cast hlower)) hbelow
      refine hnone ⟨i, ?_⟩
      rw [hsum, ← div_le_iff₀ (zpow_pos two_pos e)]
      exact hi.trans (by exact_mod_cast hm)

end Floating
