import Mathlib.Data.List.Basic

/-!
# Bytes in hexadecimal

A text is a list of UTF-16 code units. A byte is written with two lower-case digits; digits of either case are read.
-/

namespace Hex

/-- The code unit of a character that has one. -/
def unit (c : Char) : UInt16 := c.toNat.toUInt16

def IsUpper (u : UInt16) : Prop := unit 'A' ≤ u ∧ u ≤ unit 'F'

instance (u : UInt16) : Decidable (IsUpper u) := inferInstanceAs (Decidable (_ ∧ _))

/-- What a digit stands for. -/
def value (u : UInt16) : Option Nat :=
  if unit '0' ≤ u ∧ u ≤ unit '9' then some (u.toNat - 48)
  else if unit 'a' ≤ u ∧ u ≤ unit 'f' then some (u.toNat - 87)
  else if IsUpper u then some (u.toNat - 55)
  else none

/-- The lower-case digit. -/
def digit (n : Nat) : UInt16 := unit (Nat.digitChar n)

def encode (bytes : List UInt8) : List UInt16 := bytes.flatMap fun b => [digit (b.toNat / 16), digit (b.toNat % 16)]

def decode : List UInt16 → Option (List UInt8)
  | [] => some []
  | [_] => none
  | high :: low :: rest => do
    let h ← value high
    let l ← value low
    let bytes ← decode rest
    some ((16 * h + l).toUInt8 :: bytes)

/-! ## Digits -/

/-- The digit of a value has that value. -/
theorem value_digit : ∀ d < 16, value (digit d) = some d := by decide

/-- The digits that are written are not capital letters. -/
theorem not_isUpper_digit : ∀ d < 16, ¬ IsUpper (digit d) := by decide

/-- The code unit of a digit, by arithmetic. -/
theorem digit_eq : ∀ d < 16, digit d = (if d < 10 then d + 48 else d + 87).toUInt16 := by decide

/-- A digit that is not upper-case is the one that is written. -/
theorem digit_of_value {u : UInt16} {d : Nat} (h : value u = some d) : d < 16 ∧ (¬ IsUpper u → u = digit d) := by
  have hunits : (unit '0').toNat = 48 ∧ (unit '9').toNat = 57 ∧ (unit 'a').toNat = 97 ∧ (unit 'f').toNat = 102 ∧
      (unit 'A').toNat = 65 ∧ (unit 'F').toNat = 70 := by decide
  have hu := u.toNat_lt
  unfold value at h
  simp only [IsUpper, UInt16.le_iff_toNat_le, hunits] at h ⊢
  split at h
  · cases h
    refine ⟨by omega, fun _ => ?_⟩
    rw [digit_eq _ (by omega), if_pos (by omega), ← UInt16.toNat_inj, UInt16.toNat_ofNat']
    omega
  · split at h
    · cases h
      refine ⟨by omega, fun _ => ?_⟩
      rw [digit_eq _ (by omega), if_neg (by omega), ← UInt16.toNat_inj, UInt16.toNat_ofNat']
      omega
    · split at h
      · cases h
        exact ⟨by omega, fun hnot => absurd ‹_› hnot⟩
      · cases h

/-- The code units that are digits. -/
theorem value_isSome_iff (u : UInt16) :
    (value u).isSome = true ↔ (unit '0' ≤ u ∧ u ≤ unit '9') ∨ (unit 'a' ≤ u ∧ u ≤ unit 'f') ∨ IsUpper u := by
  unfold value
  split
  · simp [*]
  · split
    · simp [*]
    · split <;> simp [*]

/-! ## Texts -/

variable {s : List UInt16} {bytes : List UInt8}

/-- A byte has the two digits it is put together from. -/
theorem byte_of_digits {h l : Nat} (hh : h < 16) (hl : l < 16) : (16 * h + l).toUInt8.toNat / 16 = h ∧ (16 * h + l).toUInt8.toNat % 16 = l := by
  rw [UInt8.toNat_ofNat_of_lt' (show 16 * h + l < 256 by omega)]
  omega

/-- Nothing that is written is a capital letter. -/
theorem not_isUpper_encode : ∀ u ∈ encode bytes, ¬ IsUpper u := by
  intro u hu
  obtain ⟨b, -, hb⟩ := List.mem_flatMap.1 hu
  have hlt := b.toNat_lt
  rcases List.mem_pair.1 hb with rfl | rfl
  · exact not_isUpper_digit _ (by omega)
  · exact not_isUpper_digit _ (by omega)

/-- The two digits of a byte, and what they are read as. -/
theorem decode_cons_eq_some {high low : UInt16} :
    decode (high :: low :: s) = some bytes ↔
      ∃ h l rest, value high = some h ∧ value low = some l ∧ decode s = some rest ∧ bytes = (16 * h + l).toUInt8 :: rest := by
  rw [decode]
  simp only [Option.bind_eq_bind, Option.bind_eq_some_iff, Option.some.injEq]
  constructor
  · rintro ⟨h, hh, l, hl, rest, hrest, rfl⟩
    exact ⟨h, l, rest, hh, hl, hrest, rfl⟩
  · rintro ⟨h, l, rest, hh, hl, hrest, rfl⟩
    exact ⟨h, hh, l, hl, rest, hrest, rfl⟩

/-- What is written is read as it was. -/
theorem decode_encode (bytes : List UInt8) : decode (encode bytes) = some bytes := by
  induction bytes with
  | nil => rfl
  | cons b bytes ih =>
    have hlt := b.toNat_lt
    refine decode_cons_eq_some.2 ⟨_, _, _, value_digit (b.toNat / 16) (by omega), value_digit (b.toNat % 16) (by omega), ih, ?_⟩
    rw [Nat.div_add_mod]
    simp

/-- A text without upper-case digits is the one that its bytes are written as. -/
theorem eq_encode {s : List UInt16} {bytes : List UInt8} (h : decode s = some bytes) (hlower : ∀ u ∈ s, ¬ IsUpper u) : s = encode bytes := by
  induction s using decode.induct generalizing bytes with
  | case1 =>
    cases h
    rfl
  | case2 => cases h
  | case3 high low s ih =>
    obtain ⟨d, e, rest, hd, he, hrest, rfl⟩ := decode_cons_eq_some.1 h
    obtain ⟨hd16, hhigh⟩ := digit_of_value hd
    obtain ⟨he16, hlow⟩ := digit_of_value he
    obtain ⟨hdiv, hmod⟩ := byte_of_digits hd16 he16
    rw [encode, List.flatMap_cons, hdiv, hmod, ← hhigh (hlower high (by simp)), ← hlow (hlower low (by simp))]
    rw [ih hrest fun u hu => hlower u (by simp [hu])]
    rfl

/-- What is read is the text that would be written exactly when it has no capital letters. -/
theorem eq_encode_iff (h : decode s = some bytes) : s = encode bytes ↔ ∀ u ∈ s, ¬ IsUpper u := by
  constructor
  · rintro rfl
    exact not_isUpper_encode
  · exact eq_encode h

/-- The texts that are read as so many bytes. -/
theorem decode_length_iff {s : List UInt16} {n : Nat} :
    (∃ bytes, decode s = some bytes ∧ bytes.length = n) ↔ s.length = 2 * n ∧ ∀ u ∈ s, (value u).isSome = true := by
  induction s using decode.induct generalizing n with
  | case1 =>
    constructor
    · rintro ⟨bytes, ⟨⟩, rfl⟩
      exact ⟨rfl, List.forall_mem_nil _⟩
    · rintro ⟨hlength, -⟩
      rw [List.length_nil] at hlength
      exact ⟨[], rfl, by rw [List.length_nil]; omega⟩
  | case2 u =>
    refine iff_of_false ?_ ?_
    · rintro ⟨bytes, ⟨⟩, -⟩
    · rintro ⟨hlength, -⟩
      rw [List.length_singleton] at hlength
      omega
  | case3 high low s ih =>
    rw [List.length_cons, List.length_cons]
    constructor
    · rintro ⟨bytes, hbytes, rfl⟩
      obtain ⟨d, e, rest, hd, he, hrest, rfl⟩ := decode_cons_eq_some.1 hbytes
      obtain ⟨hlength, hdigits⟩ := ih.1 ⟨rest, hrest, rfl⟩
      rw [List.length_cons]
      refine ⟨by omega, ?_⟩
      simpa [hd, he] using hdigits
    · rintro ⟨hlength, hdigits⟩
      obtain ⟨d, hd⟩ := Option.isSome_iff_exists.1 (hdigits high (by simp))
      obtain ⟨e, he⟩ := Option.isSome_iff_exists.1 (hdigits low (by simp))
      obtain ⟨rest, hrest, hn⟩ := (ih (n := n - 1)).2 ⟨by omega, fun u hu => hdigits u (by simp [hu])⟩
      refine ⟨_, decode_cons_eq_some.2 ⟨d, e, rest, hd, he, hrest, rfl⟩, ?_⟩
      rw [List.length_cons, hn]
      omega

end Hex
