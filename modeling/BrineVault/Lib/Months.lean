import Mathlib.Order.Monotone.Basic
import BrineVault.Lib.IsoDate

/-!
# Months later, along the calendar

The calendar as a sequence of months: where a month starts, how long it is, and how far into its month a time is. `addMonths` keeps how far,
counted from the start of a later month. From this follows which of two times is later when both are moved by the same months.
-/

namespace IsoDate

/-! ## The months of the calendar -/

/-- The number of the month of a time. January of the year 0 is 0. -/
def monthIndex (ms : Nat) : Nat :=
  let (y, m, _) := civil (ms / 86400000)
  12 * y + (m - 1)

/-- The days since 1970-01-01 of the first of a month. -/
def firstDay (index : Nat) : Nat := firstOfMonth (index / 12) (index % 12 + 1)

/-- When a month starts. -/
def monthStart (index : Nat) : Nat := firstDay index * 86400000

def monthLength (index : Nat) : Nat := monthStart (index + 1) - monthStart index

/-- How far into its month a time is. -/
def sinceMonthStart (ms : Nat) : Nat := ms - monthStart (monthIndex ms)

/-! ## Years that begin with a March -/

/-- The days of an era up to this one, without its leap days. -/
def withoutLeapDays (dayOfEra : Nat) : Nat := dayOfEra - dayOfEra / 1460 + dayOfEra / 36524 - dayOfEra / 146096

/-- The days before a year that begins with a March. -/
def yearStart (y : Nat) : Nat := 365 * y + y / 4 - y / 100 + y / 400

/-- The days before a month. The months are numbered from a March. -/
def daysBefore (shifted : Nat) : Nat := yearStart (shifted / 12) + (153 * (shifted % 12) + 2) / 5

/-- Later years have no fewer days before them. -/
theorem withoutLeapDays_mono : Monotone withoutLeapDays := by
  refine monotone_nat_of_le_succ fun d => ?_
  unfold withoutLeapDays
  omega

/-- The days of the 400 years of an era: what is left without the leap days is as if each year had 365 days. -/
theorem withoutLeapDays_yearStart :
    ∀ y < 400, 365 * y ≤ withoutLeapDays (yearStart y) ∧ withoutLeapDays (yearStart (y + 1) - 1) < 365 * (y + 1) := by
  decide +kernel

/-- A year has 365 or 366 days. -/
theorem yearStart_succ (y : Nat) : yearStart y + 365 ≤ yearStart (y + 1) ∧ yearStart (y + 1) ≤ yearStart y + 366 := by
  unfold yearStart
  omega

/-- Four hundred years have as many days as any other four hundred. -/
theorem yearStart_era (era yearOfEra : Nat) : yearStart (yearOfEra + era * 400) = era * 146097 + yearStart yearOfEra := by
  unfold yearStart
  omega

/-- The year of a day of an era. -/
theorem yearOfEra_spec {dayOfEra : Nat} (h : dayOfEra < 146097) :
    withoutLeapDays dayOfEra / 365 < 400 ∧ yearStart (withoutLeapDays dayOfEra / 365) ≤ dayOfEra ∧
      dayOfEra < yearStart (withoutLeapDays dayOfEra / 365 + 1) := by
  have hlast : withoutLeapDays dayOfEra ≤ withoutLeapDays 146096 := withoutLeapDays_mono (by omega)
  have hlt : withoutLeapDays dayOfEra / 365 < 400 := by
    have h' : withoutLeapDays 146096 = 145999 := rfl
    omega
  generalize hy : withoutLeapDays dayOfEra / 365 = y at hlt ⊢
  refine ⟨hlt, ?_, ?_⟩
  · -- A day before the year is at most the last day of the year before.
    by_contra hbefore
    cases y with
    | zero => exact hbefore (Nat.zero_le _)
    | succ y =>
      have hle := withoutLeapDays_mono (show dayOfEra ≤ yearStart (y + 1) - 1 by omega)
      have hlt' := (withoutLeapDays_yearStart y (by omega)).2
      omega
  · by_contra hafter
    rcases Nat.lt_or_ge (y + 1) 400 with hnext | hnext
    · have hle := withoutLeapDays_mono (show yearStart (y + 1) ≤ dayOfEra by omega)
      have hge := (withoutLeapDays_yearStart (y + 1) hnext).1
      omega
    · have hera : yearStart 400 = 146097 := rfl
      rw [show y + 1 = 400 by omega] at hafter
      omega

/-- The days before a month, by its year and its place in the year. -/
theorem daysBefore_month (y : Nat) {s : Nat} (h : s < 12) : daysBefore (12 * y + s) = yearStart y + (153 * s + 2) / 5 := by
  rw [daysBefore, show (12 * y + s) / 12 = y by omega, show (12 * y + s) % 12 = s by omega]

/-- A month has 28 to 31 days. -/
theorem daysBefore_succ (shifted : Nat) :
    daysBefore shifted + 28 ≤ daysBefore (shifted + 1) ∧ daysBefore (shifted + 1) ≤ daysBefore shifted + 31 := by
  unfold daysBefore
  have hyear := yearStart_succ (shifted / 12)
  by_cases hlast : shifted % 12 = 11
  · rw [show (shifted + 1) / 12 = shifted / 12 + 1 by omega, show (shifted + 1) % 12 = 0 by omega, hlast]
    omega
  · rw [show (shifted + 1) / 12 = shifted / 12 by omega, show (shifted + 1) % 12 = shifted % 12 + 1 by omega]
    omega

/-- Later months have no fewer days before them. -/
theorem daysBefore_mono : Monotone daysBefore := by
  refine monotone_nat_of_le_succ fun shifted => ?_
  have h := daysBefore_succ shifted
  omega

/-- The first day of a month, counted from 1970, by the days before it. -/
theorem firstDay_eq {index : Nat} (h : 2 ≤ index) : firstDay index = daysBefore (index - 2) - 719468 := by
  have hyear : ∀ y, y / 400 * 146097 + (y % 400 * 365 + y % 400 / 4 - y % 400 / 100) = yearStart y := by
    intro y
    unfold yearStart
    omega
  unfold firstDay firstOfMonth daysBefore
  dsimp only
  by_cases hm : index % 12 + 1 ≤ 2
  · rw [if_pos hm, if_pos hm, show (index - 2) / 12 = index / 12 - 1 by omega, show (index - 2) % 12 = index % 12 + 1 + 9 by omega, ← hyear]
    omega
  · rw [if_neg hm, if_neg hm, show (index - 2) / 12 = index / 12 by omega, show (index - 2) % 12 = index % 12 + 1 - 3 by omega, ← hyear]
    omega

/-- The year and the month of a day are those of a shifted month, and its day is counted from the start of that month. -/
theorem civil_spec (days : Nat) :
    ∃ shifted, civil days = ((shifted + 2) / 12, (shifted + 2) % 12 + 1, days + 719468 - daysBefore shifted + 1) ∧
      daysBefore shifted ≤ days + 719468 ∧ days + 719468 < daysBefore (shifted + 1) := by
  generalize hz : days + 719468 = z
  obtain ⟨hlt, hstart, hend⟩ := yearOfEra_spec (Nat.mod_lt z (by decide : 146097 > 0))
  have hcivil : civil days = let yearOfEra := withoutLeapDays (z % 146097) / 365
      let dayOfYear := z % 146097 - (365 * yearOfEra + yearOfEra / 4 - yearOfEra / 100)
      let shifted := (5 * dayOfYear + 2) / 153
      let month := if shifted < 10 then shifted + 3 else shifted - 9
      (yearOfEra + z / 146097 * 400 + (if month ≤ 2 then 1 else 0), month, dayOfYear - (153 * shifted + 2) / 5 + 1) := by
    rw [← hz]
    rfl
  generalize withoutLeapDays (z % 146097) / 365 = y at hcivil hlt hstart hend
  have hyear : 365 * y + y / 4 - y / 100 = yearStart y := by
    unfold yearStart
    omega
  have hera := yearStart_era (z / 146097) y
  have hnext := (yearStart_succ y).2
  dsimp only at hcivil
  rw [hyear] at hcivil
  generalize hd : z % 146097 - yearStart y = d at hcivil
  generalize hs : (5 * d + 2) / 153 = s at hcivil
  have hs11 : s ≤ 11 := by omega
  have hbefore : daysBefore (12 * (y + z / 146097 * 400) + s) = z / 146097 * 146097 + yearStart y + (153 * s + 2) / 5 := by
    rw [daysBefore_month _ (by omega), hera]
  refine ⟨12 * (y + z / 146097 * 400) + s, ?_, ?_, ?_⟩
  · rw [hcivil, hbefore]
    by_cases h10 : s < 10
    · simp only [if_pos h10, Prod.mk.injEq]
      rw [if_neg (by omega)]
      omega
    · simp only [if_neg h10, Prod.mk.injEq]
      rw [if_pos (by omega)]
      omega
  · rw [hbefore]
    omega
  · by_cases h11 : s = 11
    · have hlater := yearStart_era (z / 146097) (y + 1)
      rw [show 12 * (y + z / 146097 * 400) + s + 1 = 12 * (y + 1 + z / 146097 * 400) + 0 by omega, daysBefore_month _ (by omega), hlater]
      omega
    · rw [Nat.add_assoc, daysBefore_month _ (by omega), hera]
      omega

/-! ## Months later -/

/-- The month that 1970 begins with. -/
def epochMonth : Nat := 23640

/-- The days before January 1970. -/
theorem daysBefore_epochMonth : daysBefore (epochMonth - 2) = 719468 := by decide +kernel

/-- The same without the subtraction, from 1970 on. -/
theorem firstDay_add {index : Nat} (h : epochMonth ≤ index) : firstDay index + 719468 = daysBefore (index - 2) := by
  have hle : daysBefore (epochMonth - 2) ≤ daysBefore (index - 2) := daysBefore_mono (by omega)
  rw [daysBefore_epochMonth] at hle
  unfold epochMonth at h
  rw [firstDay_eq (by omega)]
  omega

/-- A month has 28 to 31 days. -/
theorem monthStart_succ {index : Nat} (h : epochMonth ≤ index) :
    monthStart index + 28 * 86400000 ≤ monthStart (index + 1) ∧ monthStart (index + 1) ≤ monthStart index + 31 * 86400000 := by
  have hfirst := firstDay_add h
  have hnext := firstDay_add (Nat.le_succ_of_le h)
  have hdays := daysBefore_succ (index - 2)
  unfold epochMonth at h
  rw [show index - 2 + 1 = index + 1 - 2 by omega] at hdays
  unfold monthStart
  rw [Nat.succ_eq_add_one] at hnext
  omega

/-- Later months begin later. -/
theorem monthStart_le {i j : Nat} (hi : epochMonth ≤ i) (h : i ≤ j) : monthStart i ≤ monthStart j := by
  induction j, h using Nat.le_induction with
  | base => exact le_rfl
  | succ j hij ih =>
    have hsucc := (monthStart_succ (hi.trans hij)).1
    omega

/-- The month of a time, and its day in the month. -/
theorem civil_month (ms : Nat) :
    civil (ms / 86400000) = (monthIndex ms / 12, monthIndex ms % 12 + 1, ms / 86400000 - firstDay (monthIndex ms) + 1) ∧
      epochMonth ≤ monthIndex ms ∧ monthStart (monthIndex ms) ≤ ms ∧ ms < monthStart (monthIndex ms + 1) := by
  obtain ⟨shifted, hcivil, hstart, hend⟩ := civil_spec (ms / 86400000)
  have hindex : monthIndex ms = shifted + 2 := by
    rw [monthIndex, hcivil]
    dsimp only
    omega
  have hepoch : epochMonth ≤ shifted + 2 := by
    by_contra hlt
    have hle : daysBefore (shifted + 1) ≤ daysBefore (epochMonth - 2) := daysBefore_mono (by omega)
    rw [daysBefore_epochMonth] at hle
    omega
  have hfirst : firstDay (shifted + 2) + 719468 = daysBefore shifted := firstDay_add hepoch
  have hnext : firstDay (shifted + 2 + 1) + 719468 = daysBefore (shifted + 1) := firstDay_add (Nat.le_succ_of_le hepoch)
  rw [hindex]
  refine ⟨?_, hepoch, ?_, ?_⟩
  · rw [hcivil, show ms / 86400000 + 719468 - daysBefore shifted = ms / 86400000 - firstDay (shifted + 2) by omega]
  · unfold monthStart
    omega
  · unfold monthStart
    omega

/-- Months later a time is as far from the start of its month as before, if need be into a month after it. -/
theorem addMonths_eq (ms n : Nat) : addMonths ms n = monthStart (monthIndex ms + n) + sinceMonthStart ms := by
  obtain ⟨hcivil, -, hstart, -⟩ := civil_month ms
  rw [addMonths, hcivil, sinceMonthStart]
  unfold monthStart at hstart ⊢
  generalize monthIndex ms = i at hstart ⊢
  have hlater : firstOfMonth (i / 12 + (i % 12 + 1 - 1 + n) / 12) ((i % 12 + 1 - 1 + n) % 12 + 1) = firstDay (i + n) := by
    rw [firstDay, show i / 12 + (i % 12 + 1 - 1 + n) / 12 = (i + n) / 12 by omega, show (i % 12 + 1 - 1 + n) % 12 = (i + n) % 12 by omega]
  dsimp only
  rw [hlater]
  omega

/-- A time is in its month, and less than 31 days after the month began. -/
theorem sinceMonthStart_spec (ms : Nat) :
    ms = monthStart (monthIndex ms) + sinceMonthStart ms ∧ sinceMonthStart ms < 31 * 86400000 ∧ epochMonth ≤ monthIndex ms := by
  obtain ⟨-, hepoch, hstart, hend⟩ := civil_month ms
  have hsucc := (monthStart_succ hepoch).2
  unfold sinceMonthStart
  omega

/-- Later times are in later months, or in the same. -/
theorem monthIndex_mono : Monotone monthIndex := by
  intro t u h
  obtain ⟨-, hepoch, hstart, -⟩ := civil_month t
  obtain ⟨-, hepoch', -, hend⟩ := civil_month u
  by_contra hlt
  have hle := monthStart_le (show epochMonth ≤ monthIndex u + 1 by omega) (show monthIndex u + 1 ≤ monthIndex t by omega)
  omega

/-- Of two times the later one stays the later one, unless it is in the month after and runs over less than the other does. -/
theorem addMonths_le_iff {t u : Nat} (h : t ≤ u) (n : Nat) :
    addMonths t n ≤ addMonths u n ↔
      ¬ (monthIndex u = monthIndex t + 1 ∧ monthLength (monthIndex t + n) + sinceMonthStart u < sinceMonthStart t) := by
  obtain ⟨ht, ht31, htepoch⟩ := sinceMonthStart_spec t
  obtain ⟨hu, -, -⟩ := sinceMonthStart_spec u
  have hmonth := monthIndex_mono h
  rw [addMonths_eq, addMonths_eq, monthLength]
  rcases hmonth.eq_or_lt with hsame | hlater
  · -- In one month the distances from its start decide.
    rw [hsame] at ht ⊢
    omega
  · have hsucc := monthStart_succ (show epochMonth ≤ monthIndex t + n by omega)
    rcases (Nat.succ_le_of_lt hlater).eq_or_lt with hnext | hlater
    · rw [← hnext, show (monthIndex t).succ + n = monthIndex t + n + 1 by omega]
      omega
    · -- With a month in between, the later time is ahead by more than any month.
      have hsucc' := monthStart_succ (show epochMonth ≤ monthIndex t + n + 1 by omega)
      have hle := monthStart_le (show epochMonth ≤ monthIndex t + n + 1 + 1 by omega) (show monthIndex t + n + 1 + 1 ≤ monthIndex u + n by omega)
      omega

end IsoDate
