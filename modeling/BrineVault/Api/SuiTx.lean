import BrineVault.Api.Schemas
import BrineVault.Contract.World

/-!
# `sui-tx.service.ts`: requests as transactions

A builder makes one call of the package out of what a request says. `tx.pure` serializes a value at the Move type that is named with it; the
serializer is a parameter. The references of the objects, which the client adds, and the encoding of the whole transaction are left out.
-/

namespace BrineVault

open Js Zod

/-! ## Hashes -/

/-- The blanks and line ends of JavaScript. -/
def blanks : List UInt16 :=
  [0x9, 0xa, 0xb, 0xc, 0xd, 0x20, 0xa0, 0x1680, 0x2000, 0x2001, 0x2002, 0x2003, 0x2004, 0x2005, 0x2006, 0x2007, 0x2008, 0x2009, 0x200a, 0x2028,
   0x2029, 0x202f, 0x205f, 0x3000, 0xfeff]

/-- A sign, and what follows it. -/
def splitSign : Text → Int × Text
  | u :: rest => if u = Hex.unit '-' then (-1, rest) else if u = Hex.unit '+' then (1, rest) else (1, u :: rest)
  | [] => (1, [])

def dropRadix : Text → Text
  | zero :: x :: rest => if zero = Hex.unit '0' ∧ (x = Hex.unit 'x' ∨ x = Hex.unit 'X') then rest else zero :: x :: rest
  | s => s

/-- `parseInt(s, 16)`. Blanks, a sign and `0x` may come before the digits, and what comes after them is not read. -/
def parseInt16 (s : Text) : Number :=
  let (sign, rest) := splitSign (s.dropWhile fun u => blanks.contains u)
  match ((dropRadix rest).takeWhile isHexDigit).filterMap Hex.value with
  | [] => .nan
  | digits => .finite (sign * (digits.foldl (fun n d => 16 * n + d) 0 : Nat))

/-- The loop over the windows of two code units; the last one may have only one. -/
def hexToBytes : Text → List Number
  | [] => []
  | [u] => [parseInt16 [u]]
  | u :: v :: rest => parseInt16 [u, v] :: hexToBytes rest

example : hexToBytes ("DEadb".toList.map Hex.unit) = [0xde, 0xad, 0xb] := by decide +kernel

/-! ## Integers -/

def decimal (s : Text) : Nat := s.foldl (fun n u => 10 * n + (u.toNat - 48)) 0

/-- `BigInt(s)` of decimal digits. Of the other texts that it takes none passes the schema. -/
def bigIntOfText (s : Text) : Option Int := if isNumeric s then some (decimal s) else none

def isU8 (x : Number) : Bool := x.arrayIndex.any fun n => n < 2 ^ 8

def isU64 (n : Int) : Bool := 0 ≤ n && n < 2 ^ 64

/-! ## Calls -/

/-- An argument of a call, with the type it is passed at. -/
inductive Argument where
  | object (id : Text)
  | id (id : Text)
  | string (s : Text)
  | bool (b : Bool)
  | u8 (x : Number)
  | u64 (n : Int)
  | strings (ss : List Text)
  | u8s (xs : List Number)
  | optionU64 (n : Option Int)
  | optionU8s (xs : Option (List Number))

/-- Every integer of the argument is in the range of its type. -/
def Argument.inRange : Argument → Bool
  | .u8 x => isU8 x
  | .u64 n => isU64 n
  | .u8s xs => xs.all isU8
  | .optionU64 n => n.all isU64
  | .optionU8s xs => xs.all fun xs => xs.all isU8
  | .object _ | .id _ | .string _ | .bool _ | .strings _ => true

/-- The serializer of the values. It rejects the integers out of range, and nothing else. -/
structure Bcs where
  serialize : Argument → Option (List UInt8)
  serialize_isSome : ∀ a, (serialize a).isSome = a.inRange

inductive Target where
  | createPool
  | createCustomFolder
  | createDocument
  | addVersion
  | submitReview
  deriving DecidableEq, Repr

/-- `pool::create_pool` and so on, in the package. -/
structure Tx where
  sender : Text
  packageId : Text
  target : Target
  arguments : List Argument
  inputs : List (List UInt8)

inductive TxError where
  | notABigInt
  | invalidValue
  deriving DecidableEq, Repr

/-- The service with its configuration. -/
structure SuiTxService where
  bcs : Bcs
  packageId : Text

namespace SuiTxService

variable (service : SuiTxService)

def clock : Argument := .object ("0x6".toList.map Hex.unit)

def toBigInt (n : Option Int) : Except TxError Int :=
  match n with
  | some n => .ok n
  | none => .error .notABigInt

def moveCall (sender : Text) (target : Target) (arguments : List Argument) : Except TxError Tx :=
  match arguments.mapM service.bcs.serialize with
  | some inputs => .ok { sender, packageId := service.packageId, target, arguments, inputs }
  | none => .error .invalidValue

/-- `buildCreatePool` of the service of the pools passes the fields on one by one. -/
def buildCreatePoolTx (senderAddress : Text) (params : CreatePoolDto) : Except TxError Tx := do
  let targetNotional ← toBigInt (bigIntOfText params.targetNotional)
  let expectedMaturityDate ← toBigInt params.expectedMaturityDate.toBigInt
  service.moveCall senderAddress .createPool
    [.object params.adminConfigId, .u8s (hexToBytes params.orgIdHash), .string params.name, .u8s (hexToBytes params.borrowerNameHash),
     .string params.currency, .u64 targetNotional, .u64 expectedMaturityDate, .u8 params.encryptionScheme, .strings params.tags, clock]

def buildCreateFolderTx (senderAddress poolObjectId : Text) (params : CreateFolderDto) : Except TxError Tx := do
  let parentId ← match params.parentId with
    | some parentId => do
      let parentId ← toBigInt parentId.toBigInt
      pure (some parentId)
    | none => pure none
  service.moveCall senderAddress .createCustomFolder
    [.object params.adminConfigId, .object poolObjectId, .string params.name, .optionU64 parentId, .u8 params.visibleToRoles, clock]

def buildCreateDocumentTx (senderAddress poolObjectId : Text) (params : CreateDocumentDto) : Except TxError Tx := do
  let folderId ← toBigInt params.folderId.toBigInt
  let sizeBytes ← toBigInt params.sizeBytes.toBigInt
  service.moveCall senderAddress .createDocument
    [.object params.adminConfigId, .object poolObjectId, .u64 folderId, .u8 params.docType, .string params.title, .bool params.requiredFlag,
     .u8 params.visibleToRoles, .string params.walrusBlobId, .u8s (hexToBytes params.contentHash), .u64 sizeBytes, .string params.changeLog,
     .strings params.tags, clock]

def buildAddVersionTx (senderAddress poolObjectId docObjectId : Text) (params : AddVersionDto) : Except TxError Tx := do
  let sizeBytes ← toBigInt params.sizeBytes.toBigInt
  service.moveCall senderAddress .addVersion
    [.object params.adminConfigId, .object poolObjectId, .id docObjectId, .string params.walrusBlobId, .u8s (hexToBytes params.contentHash),
     .u64 sizeBytes, .string params.changeLog, clock]

/-- An empty hash is none. -/
def commentHashArg : Option Text → Option (List Number)
  | some s => if s = [] then none else some (hexToBytes s)
  | none => none

def buildSubmitReviewTx (senderAddress poolObjectId docObjectId : Text) (params : SubmitReviewDto) : Except TxError Tx :=
  service.moveCall senderAddress .submitReview
    [.object params.adminConfigId, .object poolObjectId, .id docObjectId, .u8 params.status, .optionU8s (commentHashArg params.commentHash), clock]

end SuiTxService

/-! ## Bytes of a hexadecimal text -/

/-- No digit is a blank, a sign or the letter of a radix. -/
theorem value_special : (Hex.unit '-' :: Hex.unit '+' :: Hex.unit 'x' :: Hex.unit 'X' :: blanks).all (fun u => (Hex.value u).isNone) = true := by
  decide +kernel

/-- A hex digit is no sign, no blank and no letter of a radix. -/
theorem ne_special {u : UInt16} {d : Nat} (h : Hex.value u = some d) :
    u ≠ Hex.unit '-' ∧ u ≠ Hex.unit '+' ∧ u ≠ Hex.unit 'x' ∧ u ≠ Hex.unit 'X' ∧ u ∉ blanks := by
  have hnot : ∀ v ∈ Hex.unit '-' :: Hex.unit '+' :: Hex.unit 'x' :: Hex.unit 'X' :: blanks, u ≠ v := by
    rintro v hv rfl
    have hnone := List.all_eq_true.1 value_special u hv
    rw [h] at hnone
    cases hnone
  exact ⟨hnot _ (by simp), hnot _ (by simp), hnot _ (by simp), hnot _ (by simp), fun hu => hnot u (by simp [hu]) rfl⟩

/-- Two digits are read as the byte that they write. -/
theorem parseInt16_digits {u v : UInt16} {d e : Nat} (hu : Hex.value u = some d) (hv : Hex.value v = some e) :
    parseInt16 [u, v] = (16 * d + e : Nat) := by
  obtain ⟨hminus, hplus, -, -, hblank⟩ := ne_special hu
  obtain ⟨-, -, hx, hX, -⟩ := ne_special hv
  have hdigits : isHexDigit u = true ∧ isHexDigit v = true := by simp [isHexDigit_iff, hu, hv]
  have hsign : splitSign ([u, v].dropWhile fun u => blanks.contains u) = (1, [u, v]) := by
    rw [List.dropWhile_cons_of_neg (by simp [hblank])]
    simp [splitSign, hminus, hplus]
  have hradix : dropRadix [u, v] = [u, v] := by simp [dropRadix, hx, hX]
  unfold parseInt16
  rw [hsign]
  simp [hradix, hdigits, hu, hv, Number.natCast_def]

/-- Bytes as the numbers that stand for them. -/
def numbers (bytes : List UInt8) : List Number := bytes.map fun byte => (byte.toNat : Number)

/-- Hex text is turned into the bytes it spells. -/
theorem hexToBytes_of_decode {s : Text} {bytes : List UInt8} (h : Hex.decode s = some bytes) : hexToBytes s = numbers bytes := by
  induction s using hexToBytes.induct generalizing bytes with
  | case1 =>
    cases h
    rfl
  | case2 => cases h
  | case3 u v rest ih =>
    obtain ⟨d, e, bytes, hd, he, hrest, rfl⟩ := Hex.decode_cons_eq_some.1 h
    have hbyte : 16 * d + e < 2 ^ 8 := by
      have hd16 := (Hex.digit_of_value hd).1
      have he16 := (Hex.digit_of_value he).1
      omega
    rw [hexToBytes, parseInt16_digits hd he, ih hrest, numbers, numbers, List.map_cons, UInt8.toNat_ofNat_of_lt' hbyte]

/-- The hex of a buffer gives back its bytes. -/
theorem hexToBytes_bufferToHex (b : List UInt8) : hexToBytes (bufferToHex b) = numbers b := by
  rw [bufferToHex_eq]
  exact hexToBytes_of_decode (Hex.decode_encode b)

/-- The schema lets only hex text of 32 bytes through. -/
theorem isHex64_of_hex64 {message : String} {s : Text} (h : hex64 message s = .ok s) : isHex64 s = true := by
  unfold hex64 at h
  split at h
  · rename_i hs
    simpa [isHex64] using hs
  · cases h

/-- The text of a hash is read as 32 bytes. -/
theorem hexToBytes_of_isHex64 {s : Text} (h : isHex64 s = true) : ∃ bytes : List UInt8, bytes.length = 32 ∧ hexToBytes s = numbers bytes := by
  have hs : hex64 "" s = .ok s := by
    simp only [isHex64, Bool.and_eq_true, decide_eq_true_eq] at h
    exact if_pos h
  obtain ⟨bytes, hdecode, hlength⟩ := hex64_ok_iff.1 hs
  exact ⟨bytes, hlength, hexToBytes_of_decode hdecode⟩

/-! ## Integers in range -/

theorem isU8_natCast (n : Nat) : isU8 n = decide (n < 256) := by
  simp [isU8]

theorem isU64_natCast (n : Nat) : isU64 n = decide (n < 2 ^ 64) := by
  simp only [isU64, Int.natCast_nonneg, decide_true, Bool.true_and, decide_eq_decide]
  omega

/-- Numbers of bytes are bytes. -/
theorem all_isU8_numbers (bytes : List UInt8) : (numbers bytes).all isU8 = true := by
  rw [numbers, List.all_map, List.all_eq_true]
  intro byte _
  simpa [isU8_natCast] using byte.toNat_lt

namespace Argument

@[simp] theorem inRange_object (s : Text) : (object s).inRange = true := rfl
@[simp] theorem inRange_id (s : Text) : (id s).inRange = true := rfl
@[simp] theorem inRange_string (s : Text) : (string s).inRange = true := rfl
@[simp] theorem inRange_bool (b : Bool) : (bool b).inRange = true := rfl
@[simp] theorem inRange_strings (ss : List Text) : (strings ss).inRange = true := rfl
@[simp] theorem inRange_clock : SuiTxService.clock.inRange = true := rfl

@[simp] theorem inRange_u8 (n : Nat) : (u8 n).inRange = decide (n < 256) := isU8_natCast n
@[simp] theorem inRange_u64 (n : Nat) : (u64 n).inRange = decide (n < 2 ^ 64) := isU64_natCast n
@[simp] theorem inRange_u8s (bytes : List UInt8) : (u8s (numbers bytes)).inRange = true := all_isU8_numbers bytes

/-- A count that may be left out is in range when it fits. -/
theorem inRange_optionU64 (n : Option Nat) : (optionU64 (n.map Nat.cast)).inRange = true ↔ ∀ m, n = some m → m < 2 ^ 64 := by
  cases n with
  | none => simp [inRange]
  | some n =>
    rw [Option.map_some, inRange, Option.all_some, isU64_natCast, decide_eq_true_eq]
    exact ⟨fun hn m hm => Option.some.inj hm ▸ hn, fun h => h n rfl⟩

/-- Bytes that may be left out are in range. -/
@[simp] theorem inRange_optionU8s (bytes : Option (List UInt8)) : (optionU8s (bytes.map numbers)).inRange = true := by
  cases bytes with
  | none => rfl
  | some bytes => exact all_isU8_numbers bytes

end Argument

/-! ## A call that is made -/

namespace SuiTxService

variable {service : SuiTxService} {sender : Text} {target : Target} {arguments : List Argument}

/-- The arguments are serialized when all of them are in range. -/
theorem serialize_all : (arguments.mapM service.bcs.serialize).isSome = true ↔ ∀ a ∈ arguments, a.inRange = true := by
  induction arguments with
  | nil => simp
  | cons a arguments ih =>
    rw [List.forall_mem_cons, ← ih, ← service.bcs.serialize_isSome a, List.mapM_cons]
    cases service.bcs.serialize a <;> cases arguments.mapM service.bcs.serialize <;> simp

/-- A call that was built is of that target, with those arguments, and all of them in range. -/
theorem moveCall_ok {tx : Tx} (h : service.moveCall sender target arguments = .ok tx) :
    tx.target = target ∧ tx.arguments = arguments ∧ ∀ a ∈ arguments, a.inRange = true := by
  unfold moveCall at h
  split at h
  · rename_i inputs hinputs
    cases h
    exact ⟨rfl, rfl, serialize_all.1 (by rw [hinputs]; rfl)⟩
  · cases h

/-- With all arguments in range it is built. -/
theorem exists_moveCall (h : ∀ a ∈ arguments, a.inRange = true) : ∃ tx, service.moveCall sender target arguments = .ok tx := by
  obtain ⟨inputs, hinputs⟩ := Option.isSome_iff_exists.1 (serialize_all.2 h)
  exact ⟨_, by rw [moveCall, hinputs]⟩

/-- With one out of range it is not. -/
theorem moveCall_error (h : ∃ a ∈ arguments, a.inRange = false) : service.moveCall sender target arguments = .error .invalidValue := by
  unfold moveCall
  split
  · rename_i inputs hinputs
    obtain ⟨a, ha, hfalse⟩ := h
    have htrue := serialize_all.1 (by rw [hinputs]; rfl) a ha
    rw [hfalse] at htrue
    cases htrue
  · rfl

end SuiTxService

end BrineVault
