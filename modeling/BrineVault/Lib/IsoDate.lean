import Mathlib.Init

/-!
# Dates

The text of a time in milliseconds since 1970, and times some days or months later, in UTC. The calendar is computed from the number of
days, in eras of 400 years that begin with a March.
-/

namespace IsoDate

/-- Decimal digits, filled up with zeros on the left. -/
def pad (width n : Nat) : String := "".pushn '0' (width - (toString n).length) ++ toString n

/-- The year, the month and the day of the month, from the days since 1970-01-01. -/
def civil (days : Nat) : Nat × Nat × Nat :=
  let z := days + 719468
  let era := z / 146097
  let dayOfEra := z % 146097
  let yearOfEra := (dayOfEra - dayOfEra / 1460 + dayOfEra / 36524 - dayOfEra / 146096) / 365
  let dayOfYear := dayOfEra - (365 * yearOfEra + yearOfEra / 4 - yearOfEra / 100)
  let shifted := (5 * dayOfYear + 2) / 153
  let day := dayOfYear - (153 * shifted + 2) / 5 + 1
  let month := if shifted < 10 then shifted + 3 else shifted - 9
  (yearOfEra + era * 400 + (if month ≤ 2 then 1 else 0), month, day)

/-- A year of more than four digits has six of them and a sign. -/
def year (y : Nat) : String := if y ≤ 9999 then pad 4 y else "+" ++ pad 6 y

def date (ms : Nat) : String :=
  let (y, m, d) := civil (ms / 86400000)
  year y ++ "-" ++ pad 2 m ++ "-" ++ pad 2 d

def time (ms : Nat) : String :=
  pad 2 (ms / 3600000 % 24) ++ ":" ++ pad 2 (ms / 60000 % 60) ++ ":" ++ pad 2 (ms / 1000 % 60) ++ "." ++ pad 3 (ms % 1000)

def toISOString (ms : Nat) : String := date ms ++ "T" ++ time ms ++ "Z"

example : toISOString 951782399999 = "2000-02-28T23:59:59.999Z" := by decide +kernel

/-- The days since 1970-01-01 of the first of a month. -/
def firstOfMonth (year month : Nat) : Nat :=
  let y := if month ≤ 2 then year - 1 else year
  let shifted := if month ≤ 2 then month + 9 else month - 3
  y / 400 * 146097 + (y % 400 * 365 + y % 400 / 4 - y % 400 / 100 + (153 * shifted + 2) / 5) - 719468

/-- `date.setDate(date.getDate() + n)`. -/
def addDays (ms n : Nat) : Nat := ms + n * 86400000

/-- `date.setMonth(date.getMonth() + n)`. A day that the month does not have runs over into the next one. -/
def addMonths (ms n : Nat) : Nat :=
  let (y, m, d) := civil (ms / 86400000)
  let months := m - 1 + n
  (firstOfMonth (y + months / 12) (months % 12 + 1) + (d - 1)) * 86400000 + ms % 86400000

example : toISOString (addMonths 1706659200000 1) = "2024-03-02T00:00:00.000Z" := by decide +kernel

/-- The text of a time is not the decimal text of a number. -/
theorem toISOString_ne_toString (ms n : Nat) : toISOString ms ≠ toString n := by
  intro h
  have hT : 'T' ∈ (toISOString ms).toList := by simp [toISOString]
  rw [h] at hT
  have hdigit : Char.isDigit 'T' = true := @Nat.isDigit_of_mem_toDigits 10 n 'T' (by decide) (by decide) (by simpa using hT)
  exact absurd hdigit (by decide)

end IsoDate
