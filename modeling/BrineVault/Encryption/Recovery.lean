import BrineVault.Lib.PackedPoly

/-!
# Shamir's secret sharing, byte by byte

`recovery.ts`: the arithmetic of GF(2^8) on numbers below 256, the split of a secret and its recovery. A call to
`crypto.getRandomValues` is a parameter of the split: what it writes for each byte of the secret.
-/

namespace BrineVault

/-- x^8 + x^4 + x^3 + x + 1. -/
def GF_POLY : Nat := 0x11b

/-- The loop of `gfMul`. Every turn halves `b`, so that as many turns as `b` are enough. -/
def gfMul.loop : Nat → Nat → Nat → Nat → Nat
  | 0, result, _, _ => result
  | fuel + 1, result, a, b =>
    if b > 0 then
      let result := if b &&& 1 ≠ 0 then result ^^^ a else result
      let a := a <<< 1
      let a := if a &&& 0x100 ≠ 0 then a ^^^ GF_POLY else a
      gfMul.loop fuel result a (b >>> 1)
    else result

def gfMul (a b : Nat) : Nat := gfMul.loop b 0 a b

/-- The loop of `gfInv`: `result` takes up the powers of the base that the exponent names. -/
def gfInv.loop : Nat → Nat → Nat → Nat → Nat
  | 0, result, _, _ => result
  | fuel + 1, result, base, exp =>
    if exp > 0 then
      let result := if exp &&& 1 ≠ 0 then gfMul result base else result
      gfInv.loop fuel result (gfMul base base) (exp >>> 1)
    else result

def gfInv (a : Nat) : Except String Nat :=
  if a = 0 then throw "Cannot invert zero in GF(256)" else return gfInv.loop 254 1 a 254

example : gfMul 0x57 0x83 = 0xc1 := by decide

structure ShamirShare where
  /-- The x-coordinate, from one on. -/
  index : Nat
  data : List UInt8
  deriving DecidableEq, Repr

/-- The polynomial of one byte at `x`, from its highest coefficient down. -/
def evaluate (coefficients : List UInt8) (x : Nat) : Nat :=
  coefficients.foldr (fun c y => gfMul y x ^^^ c.toNat) 0

/-- What `getRandomValues` writes to `coefficients.subarray(1)`, for each byte of a secret. -/
abbrev Draws (len threshold : Nat) := Fin len → Fin (threshold - 1) → UInt8

def shareOf {len threshold : Nat} (secret : Vector UInt8 len) (draws : Draws len threshold) (shareIdx : Nat) : ShamirShare :=
  { index := shareIdx + 1
    data := List.ofFn fun byteIdx : Fin len =>
      (evaluate (secret.get byteIdx :: List.ofFn (draws byteIdx)) (shareIdx + 1)).toUInt8 }

def splitSecret {len : Nat} (secret : Vector UInt8 len) (n : Nat := 3) (threshold : Nat := 2)
    (draws : Draws len threshold) :
    Except String (List ShamirShare) := do
  if threshold > n then throw "Threshold cannot exceed total shares"
  if threshold < 2 then throw "Threshold must be at least 2"
  if n > 255 then throw "Maximum 255 shares supported"
  if len = 0 then throw "Secret cannot be empty"
  return (List.range n).map (shareOf secret draws)

/-- The factor of the share at position `i`: the product of `xj / (xi ^ xj)` over the other positions. -/
def lagrange (shares : List ShamirShare) (i xi : Nat) : Except String Nat := do
  let others := shares.eraseIdx i
  let numerator := others.foldl (fun numerator share => gfMul numerator share.index) 1
  let denominator := others.foldl (fun denominator share => gfMul denominator (xi ^^^ share.index)) 1
  let inverse ← gfInv denominator
  return gfMul numerator inverse

def recoverByte (shares : List ShamirShare) (byteIdx : Nat) : Except String UInt8 := do
  let result ← shares.zipIdx.foldlM (fun result entry => do
    let factor ← lagrange shares entry.2 entry.1.index
    return result ^^^ gfMul (entry.1.data.getD byteIdx 0).toNat factor) 0
  return result.toUInt8

def recoverSecret (shares : List ShamirShare) : Except String (List UInt8) :=
  match shares with
  | first :: _ :: _ => do
    let secretLen := first.data.length
    if shares.any fun share => share.data.length ≠ secretLen then throw "All shares must have the same length"
    (List.range secretLen).mapM (recoverByte shares)
  | _ => throw "Need at least 2 shares to recover"

end BrineVault
