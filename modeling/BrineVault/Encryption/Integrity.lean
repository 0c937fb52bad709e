import BrineVault.Lib.Hex

/-!
# `integrity/hash.ts`: the digest of a document

The hash of a document's bytes is stored and passed on as 64 hexadecimal digits, which the schemas of a request take in either case. A text is a
list of UTF-16 code units, and SHA-256 is a parameter.
-/

namespace BrineVault

open Hex

variable (sha256 : List UInt8 → Vector UInt8 32)

/-! ## The digest and its text -/

/-- `n.toString(16)`. -/
def toString16 (n : Nat) : List UInt16 := (Nat.toDigits 16 n).map unit

def padStart (targetLength : Nat) (padString : UInt16) (s : List UInt16) : List UInt16 :=
  .replicate (targetLength - s.length) padString ++ s

def bufferToHex (buffer : List UInt8) : List UInt16 := (buffer.map fun byte => padStart 2 (unit '0') (toString16 byte.toNat)).flatten

/-- The loop is over the indices of `a`, and both texts have as many. -/
def constantTimeEqual (a b : List UInt16) : Bool :=
  if a.length ≠ b.length then false
  else (List.zipWith (fun x y => x ^^^ y) a b).foldl (fun result x => result ||| x) 0 == 0

def computeHash (data : List UInt8) : List UInt16 := bufferToHex (sha256 data).toList

def verifyHash (data : List UInt8) (expectedHash : List UInt16) : Bool := constantTimeEqual (computeHash sha256 data) expectedHash

/-! ## The schemas -/

/-- `[a-fA-F0-9]`. -/
def isHexDigit (u : UInt16) : Bool :=
  (unit 'a' ≤ u && u ≤ unit 'f') || (unit 'A' ≤ u && u ≤ unit 'F') || (unit '0' ≤ u && u ≤ unit '9')

/-- `z.string().regex(/^[a-fA-F0-9]{64}$/, message)`. -/
def hex64 (message : String) (s : List UInt16) : Except String (List UInt16) :=
  if s.length = 64 ∧ s.all isHexDigit then .ok s else .error message

/-- The schema of `documents.schemas.ts`. -/
def hexHash64 : List UInt16 → Except String (List UInt16) := hex64 "Invalid 64-char hex hash"

/-- The schema of the shared package. -/
def hexHash : List UInt16 → Except String (List UInt16) := hex64 "Invalid SHA-256 hex hash"

/-! ## Digits and digests -/

/-- A byte is written with two lower-case digits. -/
theorem bufferToHex_eq (buffer : List UInt8) : bufferToHex buffer = encode buffer := by
  have hbyte : ∀ n < 256, padStart 2 (unit '0') (toString16 n) = [digit (n / 16), digit (n % 16)] := by decide +kernel
  induction buffer with
  | nil => rfl
  | cons b buffer ih =>
    rw [encode, List.flatMap_cons, ← hbyte _ b.toNat_lt]
    exact congrArg _ ih

/-- Nothing was found to differ when all differences are 0. -/
theorem foldl_or_eq_zero (l : List UInt16) (result : UInt16) :
    l.foldl (fun result x => result ||| x) result = 0 ↔ result = 0 ∧ ∀ x ∈ l, x = 0 := by
  induction l generalizing result with
  | nil => simp
  | cons x l ih => rw [List.foldl_cons, ih, UInt16.or_eq_zero_iff, List.forall_mem_cons, and_assoc]

/-- Two texts of one length whose code units differ nowhere. -/
theorem zipWith_xor_eq_zero {a b : List UInt16} (h : a.length = b.length) : (∀ x ∈ List.zipWith (fun x y => x ^^^ y) a b, x = 0) ↔ a = b := by
  induction a generalizing b with
  | nil => simp [List.eq_nil_of_length_eq_zero h.symm]
  | cons x a ih =>
    cases b with
    | nil => cases h
    | cons y b =>
      rw [List.zipWith_cons_cons, List.forall_mem_cons, ih (Nat.succ.inj h), UInt16.xor_eq_zero_iff, List.cons.injEq]

/-- The comparison finds equal exactly what is equal. -/
theorem constantTimeEqual_iff (a b : List UInt16) : constantTimeEqual a b = true ↔ a = b := by
  unfold constantTimeEqual
  by_cases hlength : a.length = b.length
  · rw [if_neg (not_not_intro hlength), beq_iff_eq, foldl_or_eq_zero, zipWith_xor_eq_zero hlength]
    simp
  · rw [if_pos hlength]
    simp only [Bool.false_eq_true, false_iff]
    exact fun h => hlength (congrArg List.length h)

/-- A digit is what has a value. -/
theorem isHexDigit_iff (u : UInt16) : isHexDigit u = true ↔ (value u).isSome = true := by
  rw [value_isSome_iff]
  simp only [isHexDigit, IsUpper, Bool.or_eq_true, Bool.and_eq_true, decide_eq_true_eq]
  exact or_comm

/-- A string that a schema takes is the hexadecimal text of 32 bytes. -/
theorem hex64_ok_iff {message : String} {s : List UInt16} :
    hex64 message s = .ok s ↔ ∃ bytes, decode s = some bytes ∧ bytes.length = 32 := by
  have haccepts : hex64 message s = .ok s ↔ s.length = 2 * 32 ∧ ∀ u ∈ s, (value u).isSome = true := by
    unfold hex64
    simp only [List.all_eq_true, isHexDigit_iff]
    split
    · rename_i hdigits
      exact iff_of_true rfl hdigits
    · rename_i hdigits
      refine iff_of_false ?_ hdigits
      rintro ⟨⟩
  exact haccepts.trans decode_length_iff.symm

/-! ## What is verified -/

/-- The string denotes a digest, and the verdict is whether it is the digest of the data. -/
def VerdictCorrect (data : List UInt8) (expectedHash : List UInt16) : Prop :=
  ∃ digest, decode expectedHash = some digest ∧ (verifyHash sha256 data expectedHash = true ↔ digest = (sha256 data).toList)

/-- Of the strings that the schemas take, those are verified as what they denote that denote another digest or have no upper-case digit. -/
theorem verifyHash_correct_iff (data : List UInt8) {expectedHash : List UInt16}
    (h : hexHash64 expectedHash = .ok expectedHash ∨ hexHash expectedHash = .ok expectedHash) :
    VerdictCorrect sha256 data expectedHash ↔
      (decode expectedHash = some (sha256 data).toList → ∀ u ∈ expectedHash, ¬ IsUpper u) := by
  obtain ⟨digest, hdigest, -⟩ := h.elim hex64_ok_iff.1 hex64_ok_iff.1
  have hverify : verifyHash sha256 data expectedHash = true ↔ expectedHash = encode (sha256 data).toList := by
    rw [verifyHash, constantTimeEqual_iff, computeHash, bufferToHex_eq]
    exact eq_comm
  unfold VerdictCorrect
  rw [hdigest, Option.some.injEq]
  constructor
  · rintro ⟨_, ⟨⟩, hverdict⟩ rfl
    exact (eq_encode_iff hdigest).1 (hverify.1 (hverdict.2 rfl))
  · intro hlower
    refine ⟨digest, rfl, ?_⟩
    rw [hverify]
    constructor
    · intro hsame
      rw [hsame, decode_encode, Option.some.injEq] at hdigest
      exact hdigest.symm
    · rintro rfl
      exact (eq_encode_iff hdigest).2 (hlower rfl)

namespace Sample

/-- The digest of no data. -/
def emptyDigest : Vector UInt8 32 :=
  #v[0xe3, 0xb0, 0xc4, 0x42, 0x98, 0xfc, 0x1c, 0x14, 0x9a, 0xfb, 0xf4, 0xc8, 0x99, 0x6f, 0xb9, 0x24,
     0x27, 0xae, 0x41, 0xe4, 0x64, 0x9b, 0x93, 0x4c, 0xa4, 0x95, 0x99, 0x1b, 0x78, 0x52, 0xb8, 0x55]

def lowerCase : List UInt16 := "e3b0c44298fc1c149afbf4c8996fb92427ae41e4649b934ca495991b7852b855".toList.map unit
def upperCase : List UInt16 := "E3B0C44298FC1C149AFBF4C8996FB92427AE41E4649B934CA495991B7852B855".toList.map unit

end Sample

/-- The digest in the spelling of `computeHash`. -/
theorem verifyHash_correct_sample : VerdictCorrect (fun _ => Sample.emptyDigest) [] Sample.lowerCase := by
  have hlower : Sample.lowerCase.all (fun u => !decide (IsUpper u)) = true := by decide +kernel
  refine (verifyHash_correct_iff (fun _ => Sample.emptyDigest) [] (.inl (by decide +kernel))).2 fun _ u hu => ?_
  simpa using List.all_eq_true.1 hlower u hu

/-- The digest in upper case: the schemas take it, and the data is not verified. -/
theorem upper_case_not_verified :
    hexHash64 Sample.upperCase = .ok Sample.upperCase ∧ decode Sample.upperCase = some Sample.emptyDigest.toList ∧
      verifyHash (fun _ => Sample.emptyDigest) [] Sample.upperCase = false ∧
      ¬ VerdictCorrect (fun _ => Sample.emptyDigest) [] Sample.upperCase := by
  have hdigest : decode Sample.upperCase = some Sample.emptyDigest.toList := by decide +kernel
  have hverify : verifyHash (fun _ => Sample.emptyDigest) [] Sample.upperCase = false := by decide +kernel
  refine ⟨by decide +kernel, hdigest, hverify, ?_⟩
  rintro ⟨digest, hdenotes, hverdict⟩
  rw [hdigest, Option.some.injEq] at hdenotes
  rw [hverdict.2 hdenotes.symm] at hverify
  cases hverify

end BrineVault
