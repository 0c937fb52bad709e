import Mathlib.Data.List.Basic

/-!
# JSON texts

`JSON.parse` on lists of characters, and `JSON.stringify` of an object whose members are strings. A number is kept as its literal. An
escape that names half of a surrogate pair, which is no character, becomes U+FFFD.
-/

namespace Json

inductive Value
  | null
  | bool (b : Bool)
  | number (literal : List Char)
  | string (s : List Char)
  | array (items : List Value)
  | object (members : List (List Char × Value))

/-- The member of an object. Of several with the same key the last one counts. -/
def Value.member (key : List Char) : Value → Option Value
  | .object members => (members.reverse.find? fun m => m.1 = key).map (·.2)
  | _ => none

/-- Both members of an object with two keys are found. -/
theorem member_pair {k k' : List Char} (h : k ≠ k') (v v' : Value) :
    (Value.object [(k, v), (k', v')]).member k = some v ∧ (Value.object [(k, v), (k', v')]).member k' = some v' := by
  simp [Value.member, Ne.symm h]

def Value.asString : Value → Option (List Char)
  | .string s => some s
  | _ => none

/-! ## Parsing -/

def skipBlanks (text : List Char) : List Char := text.dropWhile fun c => c = ' ' || c = '\t' || c = '\n' || c = '\r'

def hexValue (c : Char) : Option Nat :=
  if c.isDigit then some (c.toNat - '0'.toNat)
  else if 'a' ≤ c ∧ c ≤ 'f' then some (c.toNat - 'a'.toNat + 10)
  else if 'A' ≤ c ∧ c ≤ 'F' then some (c.toNat - 'A'.toNat + 10)
  else none

/-- Four hexadecimal digits: a code unit. -/
def parseUnit : List Char → Option (Nat × List Char)
  | a :: b :: c :: d :: rest => do
    let a ← hexValue a
    let b ← hexValue b
    let c ← hexValue c
    let d ← hexValue d
    some (((a * 16 + b) * 16 + c) * 16 + d, rest)
  | _ => none

/-- The character of a code unit, with that of the next escape where the two are a surrogate pair. -/
def joinUnits (unit : Nat) (rest : List Char) : Char × List Char :=
  if unit < 0xd800 ∨ 0xe000 ≤ unit then (Char.ofNat unit, rest)
  else
    match rest with
    | '\\' :: 'u' :: rest' =>
      match parseUnit rest' with
      | some low =>
        if unit < 0xdc00 ∧ 0xdc00 ≤ low.1 ∧ low.1 < 0xe000 then
          (Char.ofNat (0x10000 + (unit - 0xd800) * 0x400 + (low.1 - 0xdc00)), low.2)
        else (Char.ofNat 0xfffd, rest)
      | none => (Char.ofNat 0xfffd, rest)
    | _ => (Char.ofNat 0xfffd, rest)

/-- The character an escape of one letter stands for. -/
def unescape (c : Char) : Option Char :=
  if c = '"' ∨ c = '\\' ∨ c = '/' then some c
  else if c = 'b' then some (Char.ofNat 8)
  else if c = 'f' then some (Char.ofNat 12)
  else if c = 'n' then some '\n'
  else if c = 'r' then some '\r'
  else if c = 't' then some '\t'
  else none

/-- An escape, after its backslash. -/
def parseEscape : List Char → Option (Char × List Char)
  | [] => none
  | c :: rest =>
    if c = 'u' then (parseUnit rest).map fun unit => joinUnits unit.1 unit.2
    else (unescape c).map fun d => (d, rest)

/-- The characters of a string, up to the quote that ends it. -/
def parseChars : Nat → List Char → Option (List Char × List Char)
  | 0, _ => none
  | _ + 1, [] => none
  | fuel + 1, c :: rest =>
    if c = '"' then some ([], rest)
    else if c = '\\' then do
      let d ← parseEscape rest
      let tail ← parseChars fuel d.2
      some (d.1 :: tail.1, tail.2)
    else if c.toNat < 0x20 then none
    else do
      let tail ← parseChars fuel rest
      some (c :: tail.1, tail.2)

/-- A string, after its first quote. Every turn takes a character. -/
def parseString (text : List Char) : Option (List Char × List Char) := parseChars (text.length + 1) text

def parseNumber (text : List Char) : Option (List Char × List Char) :=
  let sign := text.take (if text.head? = some '-' then 1 else 0)
  let rest := text.drop sign.length
  let int := if rest.head? = some '0' then ['0'] else rest.takeWhile Char.isDigit
  let rest := rest.drop int.length
  let fraction := if rest.head? = some '.' then '.' :: (rest.drop 1).takeWhile Char.isDigit else []
  let rest := rest.drop fraction.length
  let mark := rest.take (if rest.head? = some 'e' ∨ rest.head? = some 'E' then 1 else 0)
  let rest := rest.drop mark.length
  let expSign := rest.take (if mark ≠ [] ∧ (rest.head? = some '+' ∨ rest.head? = some '-') then 1 else 0)
  let rest := rest.drop expSign.length
  let exponent := if mark = [] then [] else rest.takeWhile Char.isDigit
  if int = [] ∨ fraction = ['.'] ∨ (mark ≠ [] ∧ exponent = []) then none
  else some (sign ++ int ++ fraction ++ mark ++ expSign ++ exponent, rest.drop exponent.length)

mutual

/-- A value. Every call takes a character. -/
def parseValue : Nat → List Char → Option (Value × List Char)
  | 0, _ => none
  | fuel + 1, text =>
    match skipBlanks text with
    | [] => none
    | c :: rest =>
      if c = '"' then (parseString rest).map fun s => (.string s.1, s.2)
      else if c = '{' then
        if (skipBlanks rest).head? = some '}' then some (.object [], (skipBlanks rest).drop 1)
        else (parseMembers fuel rest).map fun members => (.object members.1, members.2)
      else if c = '[' then
        if (skipBlanks rest).head? = some ']' then some (.array [], (skipBlanks rest).drop 1)
        else (parseItems fuel rest).map fun items => (.array items.1, items.2)
      else if ['n', 'u', 'l', 'l'] <+: c :: rest then some (.null, rest.drop 3)
      else if ['t', 'r', 'u', 'e'] <+: c :: rest then some (.bool true, rest.drop 3)
      else if ['f', 'a', 'l', 's', 'e'] <+: c :: rest then some (.bool false, rest.drop 4)
      else (parseNumber (c :: rest)).map fun literal => (.number literal.1, literal.2)

def parseMembers : Nat → List Char → Option (List (List Char × Value) × List Char)
  | 0, _ => none
  | fuel + 1, text =>
    match skipBlanks text with
    | [] => none
    | c :: rest =>
      if c = '"' then do
        let key ← parseString rest
        match skipBlanks key.2 with
        | [] => none
        | c :: rest =>
          if c = ':' then do
            let value ← parseValue fuel rest
            match skipBlanks value.2 with
            | [] => none
            | c :: rest =>
              if c = ',' then do
                let members ← parseMembers fuel rest
                some ((key.1, value.1) :: members.1, members.2)
              else if c = '}' then some ([(key.1, value.1)], rest)
              else none
          else none
      else none

def parseItems : Nat → List Char → Option (List Value × List Char)
  | 0, _ => none
  | fuel + 1, text => do
    let value ← parseValue fuel text
    match skipBlanks value.2 with
    | [] => none
    | c :: rest =>
      if c = ',' then do
        let items ← parseItems fuel rest
        some (value.1 :: items.1, items.2)
      else if c = ']' then some ([value.1], rest)
      else none

end

/-- `JSON.parse`: none where it throws. -/
def parse (text : List Char) : Option Value := do
  let value ← parseValue (text.length + 1) text
  if skipBlanks value.2 = [] then some value.1 else none

/-! ## Writing -/

def hexDigit (n : Nat) : Char := if n < 10 then Char.ofNat ('0'.toNat + n) else Char.ofNat ('a'.toNat + (n - 10))

def escape (c : Char) : List Char :=
  if c = '"' ∨ c = '\\' then ['\\', c]
  else if c = '\n' then ['\\', 'n']
  else if c = '\r' then ['\\', 'r']
  else if c = '\t' then ['\\', 't']
  else if c = Char.ofNat 8 then ['\\', 'b']
  else if c = Char.ofNat 12 then ['\\', 'f']
  else if c.toNat < 0x20 then ['\\', 'u', '0', '0', hexDigit (c.toNat / 16), hexDigit (c.toNat % 16)]
  else [c]

def quote (s : List Char) : List Char := '"' :: s.flatMap escape ++ ['"']

def writeMembers : List (List Char × List Char) → List Char
  | [] => []
  | [m] => quote m.1 ++ ':' :: quote m.2
  | m :: ms => quote m.1 ++ ':' :: quote m.2 ++ ',' :: writeMembers ms

/-- `JSON.stringify` of an object whose members are strings. -/
def stringify (members : List (List Char × List Char)) : List Char := '{' :: writeMembers members ++ ['}']

/-! ## What is written is read back -/

/-- A hexadecimal digit has the value it is written for. -/
theorem hexValue_hexDigit : ∀ d < 16, hexValue (hexDigit d) = some d := by decide

theorem skipBlanks_cons {c : Char} {rest : List Char} (h : (c = ' ' || c = '\t' || c = '\n' || c = '\r') = false) :
    skipBlanks (c :: rest) = c :: rest := by
  rw [skipBlanks, List.dropWhile_cons_of_neg]
  simpa using h

/-- One character of a string, escaped or not. -/
theorem parseChars_escape (fuel : Nat) (c : Char) (rest : List Char) :
    parseChars (fuel + 1) (escape c ++ rest) = (parseChars fuel rest).bind fun tail => some (c :: tail.1, tail.2) := by
  unfold escape
  by_cases hquote : c = '"' ∨ c = '\\'
  · rcases hquote with rfl | rfl <;> rfl
  by_cases hn : c = '\n'
  · subst hn
    rfl
  by_cases hr : c = '\r'
  · subst hr
    rfl
  by_cases ht : c = '\t'
  · subst ht
    rfl
  by_cases hb : c = Char.ofNat 8
  · subst hb
    rfl
  by_cases hf : c = Char.ofNat 12
  · subst hf
    rfl
  rw [if_neg hquote, if_neg hn, if_neg hr, if_neg ht, if_neg hb, if_neg hf]
  by_cases hlow : c.toNat < 0x20
  · -- A control character without an escape of its own: its two digits are read back.
    have hhigh : hexValue (hexDigit (c.toNat / 16)) = some (c.toNat / 16) := hexValue_hexDigit _ (by omega)
    have hdigit : hexValue (hexDigit (c.toNat % 16)) = some (c.toNat % 16) := hexValue_hexDigit _ (by omega)
    have hzero : hexValue '0' = some 0 := by decide
    have hunit : parseUnit ('0' :: '0' :: hexDigit (c.toNat / 16) :: hexDigit (c.toNat % 16) :: rest) = some (c.toNat, rest) := by
      have hjoin : ((0 * 16 + 0) * 16 + c.toNat / 16) * 16 + c.toNat % 16 = c.toNat := by omega
      simp only [parseUnit, hzero, hhigh, hdigit, Option.bind_eq_bind, Option.bind_some, hjoin]
    have hjoin : joinUnits c.toNat rest = (c, rest) := by
      unfold joinUnits
      rw [if_pos (Or.inl (by omega)), Char.ofNat_toNat]
    rw [if_pos hlow]
    simp only [List.cons_append, List.nil_append]
    rw [parseChars, if_neg (by decide), if_pos rfl, parseEscape, if_pos rfl, hunit]
    simp [hjoin]
  · rw [if_neg hlow, List.singleton_append, parseChars, if_neg fun h => hquote (Or.inl h), if_neg fun h => hquote (Or.inr h), if_neg hlow]
    rfl

/-- The characters of a text that is written in quotes are read as they were. -/
theorem parseChars_quote {fuel : Nat} {s : List Char} (h : s.length < fuel) (rest : List Char) :
    parseChars fuel (s.flatMap escape ++ '"' :: rest) = some (s, rest) := by
  induction s generalizing fuel with
  | nil =>
    obtain ⟨fuel, rfl⟩ : ∃ k, fuel = k + 1 := ⟨fuel - 1, by omega⟩
    rfl
  | cons c s ih =>
    obtain ⟨fuel, rfl⟩ : ∃ k, fuel = k + 1 := ⟨fuel - 1, by omega⟩
    have hs : s.length < fuel := by simpa using h
    rw [List.flatMap_cons, List.append_assoc, parseChars_escape, ih hs]
    rfl

/-- Escaping makes no text shorter. -/
theorem length_le_flatMap_escape (s : List Char) : s.length ≤ (s.flatMap escape).length := by
  induction s with
  | nil => exact Nat.le_refl 0
  | cons c s ih =>
    have hc : 1 ≤ (escape c).length := by
      unfold escape
      repeat' split
      all_goals simp
    rw [List.flatMap_cons, List.length_append, List.length_cons]
    omega

/-- A text in quotes is read as it was. -/
theorem parseString_quote (s rest : List Char) : parseString (s.flatMap escape ++ '"' :: rest) = some (s, rest) := by
  apply parseChars_quote
  have hle := length_le_flatMap_escape s
  rw [List.length_append]
  omega

/-- The members of an object, and the brace that ends it. -/
theorem parseMembers_writeMembers {fuel : Nat} {members : List (List Char × List Char)} (hne : members ≠ [])
    (h : members.length < fuel) (rest : List Char) :
    parseMembers fuel (writeMembers members ++ '}' :: rest) = some (members.map fun m => (m.1, .string m.2), rest) := by
  induction members generalizing fuel with
  | nil => exact absurd rfl hne
  | cons m ms ih =>
    obtain ⟨fuel, rfl⟩ : ∃ k, fuel = k + 2 := ⟨fuel - 2, by simp at h; omega⟩
    have hcolon : ∀ r, skipBlanks (':' :: r) = ':' :: r := fun r => skipBlanks_cons rfl
    have hquote : ∀ r, skipBlanks ('"' :: r) = '"' :: r := fun r => skipBlanks_cons rfl
    have hvalue : ∀ r, parseValue (fuel + 1) ('"' :: (m.2.flatMap escape ++ '"' :: r)) = some (.string m.2, r) := by
      intro r
      rw [parseValue, hquote]
      simp [parseString_quote]
    cases ms with
    | nil =>
      have hbrace : skipBlanks ('}' :: rest) = '}' :: rest := skipBlanks_cons rfl
      simp only [writeMembers, quote, List.cons_append, List.append_assoc, List.nil_append]
      rw [parseMembers, hquote]
      simp [parseString_quote, hcolon, hvalue, hbrace]
    | cons m' ms =>
      have hcomma : ∀ r, skipBlanks (',' :: r) = ',' :: r := fun r => skipBlanks_cons rfl
      have hfuel : (m' :: ms).length < fuel + 1 := by simpa using h
      have htail := ih (by simp) hfuel
      simp only [writeMembers, quote, List.cons_append, List.append_assoc, List.nil_append] at htail ⊢
      rw [parseMembers, hquote]
      simp [parseString_quote, hcolon, hvalue, hcomma, htail]

/-- Every member takes a character at least. -/
theorem length_le_writeMembers (members : List (List Char × List Char)) : members.length ≤ (writeMembers members).length := by
  fun_induction writeMembers members with
  | case1 => exact Nat.le_refl 0
  | case2 m => simp [quote]
  | case3 m ms _ ih =>
    simp [quote]
    omega

/-- `JSON.parse` of what `JSON.stringify` has written. -/
theorem parse_stringify {members : List (List Char × List Char)} (hne : members ≠ []) :
    parse (stringify members) = some (.object (members.map fun m => (m.1, .string m.2))) := by
  have hlen := length_le_writeMembers members
  have hfirst : ∃ r, writeMembers members ++ ['}'] = '"' :: r := by
    fun_cases writeMembers members with
    | case1 => exact absurd rfl hne
    | case2 m => exact ⟨_, rfl⟩
    | case3 m ms _ => exact ⟨_, rfl⟩
  obtain ⟨r, hr⟩ := hfirst
  have hquote : skipBlanks (writeMembers members ++ ['}']) = '"' :: r := by
    rw [hr]
    exact skipBlanks_cons rfl
  have hbrace : skipBlanks (stringify members) = '{' :: (writeMembers members ++ ['}']) := skipBlanks_cons rfl
  have hnil : skipBlanks [] = [] := rfl
  have hfuel : members.length < (stringify members).length := by
    simp [stringify]
    omega
  have hmembers := parseMembers_writeMembers hne hfuel []
  rw [parse, parseValue, hbrace]
  simp [hquote, hmembers, hnil]

end Json
