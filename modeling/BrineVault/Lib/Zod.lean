import BrineVault.Lib.Number

/-!
# Schemas

A schema takes a value that came with a request, or that is not there, and answers with what it parsed or with every issue it found: all the fields
of an object are parsed, and all the checks of a value of the right type are made. A text is a list of UTF-16 code units.
-/

namespace Js

/-- What `JSON.parse` gives. -/
inductive Value where
  | null
  | bool (b : Bool)
  | number (x : Number)
  | string (s : List UInt16)
  | array (items : List Value)
  | object (members : List (String × Value))

end Js

namespace Zod

open Js

inductive Problem where
  | required
  | invalidType (expected : String)
  | tooSmall (minimum : Nat) (isInclusive : Bool)
  | tooBig (maximum : Nat)
  | notInteger
  | message (text : String)
  deriving DecidableEq, Repr

/-- A problem with the field that a path leads to. -/
structure Issue where
  path : List String
  problem : Problem
  deriving DecidableEq, Repr

inductive Parsed (α : Type) where
  | ok (a : α)
  | error (issues : List Issue)
  deriving DecidableEq, Repr

namespace Parsed

variable {α β : Type}

/-- The issues of both are kept. -/
def seq (f : Parsed (α → β)) (x : Parsed α) : Parsed β :=
  match f, x with
  | .ok f, .ok a => .ok (f a)
  | .ok _, .error issues => .error issues
  | .error issues, .ok _ => .error issues
  | .error issues, .error issues' => .error (issues ++ issues')

instance : Applicative Parsed where
  pure a := .ok a
  seq f x := f.seq (x ())

/-- The issues of a part, under the name of the part. -/
def under (key : String) : Parsed α → Parsed α
  | .ok a => .ok a
  | .error issues => .error (issues.map fun issue => { issue with path := key :: issue.path })

/-- What is made of a parsed value. -/
@[simp] theorem map_eq_ok {f : α → β} {x : Parsed α} {b : β} : f <$> x = .ok b ↔ ∃ a, x = .ok a ∧ f a = b := by
  change Parsed.seq (.ok f) x = .ok b ↔ _
  cases x <;> simp [seq]

/-- Two values are parsed, the first one first. -/
@[simp] theorem seq_eq_ok {f : Parsed (α → β)} {x : Parsed α} {b : β} :
    f <*> x = .ok b ↔ ∃ g, f = .ok g ∧ ∃ a, x = .ok a ∧ g a = b := by
  change Parsed.seq f x = .ok b ↔ _
  cases f <;> cases x <;> simp [seq]

/-- A key in the path of an error does not matter to a value. -/
@[simp] theorem under_eq_ok {key : String} {x : Parsed α} {a : α} : x.under key = .ok a ↔ x = .ok a := by
  cases x <;> simp [under]

end Parsed

/-! ## Checks -/

structure Check (α : Type) where
  passes : α → Bool
  problem : Problem

section Checks

variable {α : Type}

def validate (checks : List (Check α)) (a : α) : Parsed α :=
  match checks.filter fun check => !check.passes a with
  | [] => .ok a
  | failed => .error (failed.map fun check => ⟨[], check.problem⟩)

/-- A value passes all checks, and stays as it is. -/
@[simp] theorem validate_eq_ok {checks : List (Check α)} {a b : α} :
    validate checks a = .ok b ↔ (∀ check ∈ checks, check.passes a = true) ∧ a = b := by
  unfold validate
  split
  · rename_i hnone
    rw [List.filter_eq_nil_iff] at hnone
    have hall : ∀ check ∈ checks, check.passes a = true := by simpa using hnone
    rw [Parsed.ok.injEq]
    exact ⟨fun hab => ⟨hall, hab⟩, And.right⟩
  · rename_i failed hne
    simp only [reduceCtorEq, false_iff, not_and]
    intro hall
    exact absurd (List.filter_eq_nil_iff.2 fun check hcheck => by simp [hall check hcheck]) hne

def minLength (n : Nat) : Check (List α) := ⟨fun s => n ≤ s.length, .tooSmall n true⟩
def maxLength (n : Nat) : Check (List α) := ⟨fun s => s.length ≤ n, .tooBig n⟩
def regex (test : α → Bool) (text : String) : Check α := ⟨test, .message text⟩

/-- The check with a message of its own. -/
def Check.saying (check : Check α) (text : String) : Check α := { check with problem := .message text }

def int : Check Number := ⟨Number.isInteger, .notInteger⟩
def minimum (n : Nat) : Check Number := ⟨fun x => !x.lt n, .tooSmall n true⟩
def maximum (n : Nat) : Check Number := ⟨fun x => !Number.lt n x, .tooBig n⟩
def positive : Check Number := ⟨fun x => Number.lt 0 x, .tooSmall 0 false⟩

end Checks

/-! ## Schemas -/

def Schema (α : Type) := Option Value → Parsed α

variable {α β : Type}

def invalidType (expected : String) : Parsed α := .error [⟨[], .invalidType expected⟩]

def required : Parsed α := .error [⟨[], .required⟩]

def string (checks : List (Check (List UInt16))) : Schema (List UInt16)
  | some (.string s) => validate checks s
  | some _ => invalidType "string"
  | none => required

/-- `NaN` is a type of its own. -/
def number (checks : List (Check Number)) : Schema Number
  | some (.number .nan) => invalidType "number"
  | some (.number x) => validate checks x
  | some _ => invalidType "number"
  | none => required

def boolean : Schema Bool
  | some (.bool b) => .ok b
  | some _ => invalidType "boolean"
  | none => required

/-- The items of an array, each under its index. -/
def items (item : Schema α) : Nat → List Value → Parsed (List α)
  | _, [] => .ok []
  | i, v :: vs => .cons <$> (item (some v)).under (toString i) <*> items item (i + 1) vs

def array (checks : List (Check (List Value))) (item : Schema α) : Schema (List α)
  | some (.array vs) => (fun _ parsed => parsed) <$> validate checks vs <*> items item 0 vs
  | some _ => invalidType "array"
  | none => required

def optional (schema : Schema α) : Schema (Option α)
  | none => .ok none
  | some v => some <$> schema (some v)

def default (v : Value) (schema : Schema α) : Schema α
  | none => schema (some v)
  | some v' => schema (some v')

/-- The member of an object that is parsed. -/
def field (key : String) (schema : Schema α) (members : List (String × Value)) : Parsed α := (schema (members.lookup key)).under key

def object (shape : List (String × Value) → Parsed α) : Schema α
  | some (.object members) => shape members
  | some _ => invalidType "object"
  | none => required

/-- A value that the schema accepts is tested as a whole. -/
def refine (schema : Schema α) (check : Check α) : Schema α := fun v =>
  match schema v with
  | .ok a => validate [check] a
  | .error issues => .error issues

/-! ## What is accepted -/

/-- A text is parsed from a string that passes its checks. -/
@[simp] theorem string_eq_ok {checks : List (Check (List UInt16))} {v : Option Value} {s : List UInt16} :
    string checks v = .ok s ↔ v = some (.string s) ∧ ∀ check ∈ checks, check.passes s = true := by
  unfold string
  split
  · simp only [validate_eq_ok, Option.some.injEq, Value.string.injEq]
    constructor
    · rintro ⟨hchecks, rfl⟩
      exact ⟨rfl, hchecks⟩
    · rintro ⟨rfl, hchecks⟩
      exact ⟨hchecks, rfl⟩
  · rename_i hne
    refine iff_of_false (by simp [invalidType]) ?_
    rintro ⟨hv, -⟩
    exact hne s (Option.some.inj hv)
  · simp [required]

/-- A number that is accepted passes the checks. -/
theorem number_ok {checks : List (Check Number)} {v : Option Value} {x : Number} (h : number checks v = .ok x) :
    v = some (.number x) ∧ ∀ check ∈ checks, check.passes x = true := by
  unfold number at h
  split at h
  · cases h
  · obtain ⟨hchecks, rfl⟩ := validate_eq_ok.1 h
    exact ⟨rfl, hchecks⟩
  · cases h
  · cases h

/-- The field of an object is parsed by its schema. -/
@[simp] theorem field_eq_ok {key : String} {schema : Schema α} {members : List (String × Value)} {a : α} :
    field key schema members = .ok a ↔ schema (members.lookup key) = .ok a := Parsed.under_eq_ok

/-- A field that may be left out. -/
@[simp] theorem optional_eq_ok {schema : Schema α} {v : Option Value} {a : Option α} :
    optional schema v = .ok a ↔ (v = none ∧ a = none) ∨ ∃ w b, v = some w ∧ schema (some w) = .ok b ∧ a = some b := by
  cases v <;> simp [optional, eq_comm]

/-- Every item of an array is parsed, and none is dropped. -/
theorem items_ok {item : Schema α} {i : Nat} {vs : List Value} {as : List α} (h : items item i vs = .ok as) :
    as.length = vs.length ∧ ∀ a ∈ as, ∃ v ∈ vs, item (some v) = .ok a := by
  induction vs generalizing i as with
  | nil =>
    cases h
    simp
  | cons v vs ih =>
    rw [items] at h
    simp only [Parsed.seq_eq_ok, Parsed.map_eq_ok, Parsed.under_eq_ok] at h
    obtain ⟨_, ⟨a, ha, rfl⟩, as, has, rfl⟩ := h
    obtain ⟨hlength, hitems⟩ := ih has
    refine ⟨congrArg (· + 1) hlength, List.forall_mem_cons.2 ⟨⟨v, List.mem_cons_self .., ha⟩, fun b hb => ?_⟩⟩
    obtain ⟨v', hv', hb⟩ := hitems b hb
    exact ⟨v', List.mem_cons_of_mem v hv', hb⟩

/-- An array that is accepted has as many items as there were, each of them accepted. -/
theorem array_ok {checks : List (Check (List Value))} {item : Schema α} {v : Option Value} {as : List α} (h : array checks item v = .ok as) :
    ∃ vs, v = some (.array vs) ∧ (∀ check ∈ checks, check.passes vs = true) ∧ as.length = vs.length ∧
      ∀ a ∈ as, ∃ v ∈ vs, item (some v) = .ok a := by
  unfold array at h
  split at h
  · simp only [Parsed.seq_eq_ok, Parsed.map_eq_ok, validate_eq_ok] at h
    obtain ⟨_, ⟨_, ⟨hchecks, rfl⟩, rfl⟩, _, hitems, rfl⟩ := h
    exact ⟨_, rfl, hchecks, items_ok hitems⟩
  · cases h
  · cases h

/-- A check of the parsed value as a whole. -/
@[simp] theorem refine_eq_ok {schema : Schema α} {check : Check α} {v : Option Value} {a : α} :
    refine schema check v = .ok a ↔ schema v = .ok a ∧ check.passes a = true := by
  unfold refine
  split
  · rename_i b hb
    rw [validate_eq_ok, hb, Parsed.ok.injEq]
    constructor
    · rintro ⟨hcheck, rfl⟩
      exact ⟨rfl, hcheck _ (List.mem_singleton_self _)⟩
    · rintro ⟨rfl, hcheck⟩
      exact ⟨by simpa using hcheck, rfl⟩
  · rename_i issues herror
    simp [herror]

/-- Only an object is parsed as one. -/
theorem object_ok {shape : List (String × Value) → Parsed α} {v : Option Value} {a : α} (h : object shape v = .ok a) :
    ∃ members, v = some (.object members) ∧ shape members = .ok a := by
  unfold object at h
  split at h
  · exact ⟨_, rfl, h⟩
  · cases h
  · cases h

end Zod
