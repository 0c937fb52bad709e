import Mathlib.Data.List.Basic

/-!
# Scripts: programs that issue statements to a store

A script reads a store and issues statements to it, one at a time, with no transaction around them; it returns a value or fails. What is
kept of a run is the list of the statements issued and the result: the state the script leaves is the one the statements lead to, also when
it fails, and a program that dies between two statements leaves the state that some prefix of the list leads to.
-/

/-- A type of statements with their effect on the states of a store. -/
class Statements (ω : Type) (σ : outParam Type) where
  act : σ → ω → σ

namespace Statements

variable {ω σ : Type} [Statements ω σ]

/-- The effect of statements in order. -/
def actAll (s : σ) (ws : List ω) : σ := ws.foldl act s

@[simp] theorem actAll_nil (s : σ) : actAll s ([] : List ω) = s := rfl

@[simp] theorem actAll_cons (s : σ) (w : ω) (ws : List ω) : actAll s (w :: ws) = actAll (act s w) ws := rfl

@[simp] theorem actAll_append (s : σ) (ws vs : List ω) : actAll s (ws ++ vs) = actAll (actAll s ws) vs := List.foldl_append

end Statements

/-- From a state, the statements issued and the result. -/
def Script (ω σ ε α : Type) := σ → List ω × Except ε α

namespace Script

open Statements (act actAll)

variable {ω σ ε α β : Type} [Statements ω σ]

instance : Monad (Script ω σ ε) where
  pure a := fun _ => ([], .ok a)
  bind p k := fun s =>
    match p s with
    | (ws, .error e) => (ws, .error e)
    | (ws, .ok a) => let rest := k a (actAll s ws); (ws ++ rest.1, rest.2)

/-- The state of the store. -/
def read : Script ω σ ε σ := fun s => ([], .ok s)

/-- Issue one statement. -/
def issue (w : ω) : Script ω σ ε Unit := fun _ => ([w], .ok ())

/-- Fail, having issued nothing. -/
def fail (e : ε) : Script ω σ ε α := fun _ => ([], .error e)

/-- Fail unless a condition holds. -/
def require (c : Prop) [Decidable c] (e : ε) : Script ω σ ε Unit := if c then pure () else fail e

/-- `try p catch h`: what `p` issued stays issued. -/
def recover (p : Script ω σ ε α) (h : ε → Script ω σ ε α) : Script ω σ ε α := fun s =>
  match p s with
  | (ws, .error e) => let rest := h e (actAll s ws); (ws ++ rest.1, rest.2)
  | (ws, .ok a) => (ws, .ok a)

/-! ## Running a script -/

@[simp] theorem pure_apply (a : α) (s : σ) : (pure a : Script ω σ ε α) s = ([], .ok a) := rfl

@[simp] theorem read_bind (k : σ → Script ω σ ε β) (s : σ) : (read >>= k) s = k s s := rfl

omit [Statements ω σ] in
@[simp] theorem issue_apply (w : ω) (s : σ) : (issue w : Script ω σ ε Unit) s = ([w], .ok ()) := rfl

omit [Statements ω σ] in
@[simp] theorem fail_apply (e : ε) (s : σ) : (fail e : Script ω σ ε α) s = ([], .error e) := rfl

@[simp] theorem issue_bind (w : ω) (k : Unit → Script ω σ ε β) (s : σ) :
    (issue w >>= k) s = (w :: (k () (act s w)).1, (k () (act s w)).2) := rfl

@[simp] theorem pure_bind_apply (a : α) (k : α → Script ω σ ε β) (s : σ) : (pure a >>= k) s = k a s := rfl

@[simp] theorem fail_bind (e : ε) (k : α → Script ω σ ε β) (s : σ) : (fail e >>= k) s = ([], .error e) := rfl

/-- A requirement that is met does nothing. -/
theorem require_pos {c : Prop} [Decidable c] (h : c) (e : ε) : (require c e : Script ω σ ε Unit) = pure () := if_pos h

/-- One that is not met ends the script. -/
theorem require_neg {c : Prop} [Decidable c] (h : ¬ c) (e : ε) : (require c e : Script ω σ ε Unit) = fail e := if_neg h

/-- A sequence whose first part returns goes on with the second, from the state the first leaves. -/
theorem bind_of_ok {p : Script ω σ ε α} {k : α → Script ω σ ε β} {s : σ} {ws : List ω} {a : α} (h : p s = (ws, .ok a)) :
    (p >>= k) s = (ws ++ (k a (actAll s ws)).1, (k a (actAll s ws)).2) := by
  simp only [bind, h]

/-- What follows a script that has failed is not run. -/
theorem bind_of_error {p : Script ω σ ε α} {k : α → Script ω σ ε β} {s : σ} {ws : List ω} {e : ε} (h : p s = (ws, .error e)) :
    (p >>= k) s = (ws, .error e) := by
  simp only [bind, h]

/-! ## What a script issues -/

/-- From `s` the script follows `ws`: where `F` holds it issues these statements and returns `a`; elsewhere it fails, having issued
the first few of them, or none. -/
structure Follows (p : Script ω σ ε α) (s : σ) (F : Prop) (ws : List ω) (a : α) : Prop where
  ok : F → p s = (ws, .ok a)
  error : ¬ F → ∃ vs e, p s = (vs, .error e) ∧ vs <+: ws

namespace Follows

variable {p : Script ω σ ε α} {s : σ} {F G : Prop} {ws vs : List ω} {a : α}

omit [Statements ω σ] in
/-- The condition may be put in another way. -/
theorem congr (h : Follows p s F ws a) (hFG : F ↔ G) : Follows p s G ws a := propext hFG ▸ h

omit [Statements ω σ] in
/-- What such a script issues and returns, and when it does. -/
theorem eq_ok_iff (h : Follows p s F ws a) {b : α} : p s = (vs, .ok b) ↔ F ∧ vs = ws ∧ b = a := by
  by_cases hF : F
  · rw [h.ok hF, Prod.mk.injEq, Except.ok.injEq]
    exact ⟨fun ⟨h1, h2⟩ => ⟨hF, h1.symm, h2.symm⟩, fun ⟨_, h1, h2⟩ => ⟨h1.symm, h2.symm⟩⟩
  · obtain ⟨us, e, he, _⟩ := h.error hF
    rw [he]
    exact ⟨fun h => (by cases h), fun h => absurd h.1 hF⟩

omit [Statements ω σ] in
/-- The script returns exactly where the condition holds. -/
theorem returns_iff (h : Follows p s F ws a) : (p s).2 = .ok a ↔ F := by
  constructor
  · intro hr
    exact (h.eq_ok_iff.1 (Prod.ext rfl hr)).1
  · intro hF
    rw [h.ok hF]

omit [Statements ω σ] in
/-- Whatever the result, nothing else is issued. -/
theorem issued (h : Follows p s F ws a) : (p s).1 <+: ws := by
  by_cases hF : F
  · have he : (p s).1 = ws := by rw [h.ok hF]
    exact ⟨[], by rw [List.append_nil, he]⟩
  · obtain ⟨us, e, he, hp⟩ := h.error hF
    rwa [he]

/-- A sequence follows its parts, the second from the state the first leaves. -/
theorem bind (h : Follows p s F ws a) {k : α → Script ω σ ε β} {b : β} (hk : F → Follows (k a) (actAll s ws) G vs b) :
    Follows (p >>= k) s (F ∧ G) (ws ++ vs) b := by
  by_cases hF : F
  · have hb := bind_of_ok (k := k) (h.ok hF)
    refine ⟨fun hFG => ?_, fun hn => ?_⟩
    · rw [hb, (hk hF).ok hFG.2]
    · obtain ⟨us, e, he, hp⟩ := (hk hF).error fun hG => hn ⟨hF, hG⟩
      exact ⟨ws ++ us, e, by rw [hb, he], (List.prefix_append_right_inj ws).2 hp⟩
  · obtain ⟨us, e, he, hp⟩ := h.error hF
    exact ⟨fun hFG => absurd hFG.1 hF, fun _ => ⟨us, e, bind_of_error he, hp.trans (List.prefix_append ..)⟩⟩

/-- A lookup, and what goes on with it. -/
theorem read {k : σ → Script ω σ ε α} (h : Follows (k s) s F ws a) : Follows (Script.read >>= k) s F ws a :=
  ⟨h.ok, h.error⟩

/-- A requirement in front is one condition more. -/
theorem require {c : Prop} [Decidable c] {e : ε} {k : Unit → Script ω σ ε α} (h : Follows (k ()) s F ws a) :
    Follows (Script.require c e >>= k) s (c ∧ F) ws a := by
  by_cases hc : c
  · rw [require_pos hc]
    exact h.congr (by simp [hc])
  · rw [require_neg hc]
    exact ⟨fun hcF => absurd hcF.1 hc, fun _ => ⟨[], e, rfl, List.nil_prefix⟩⟩

end Follows

/-- A pure result is always returned, and nothing issued. -/
theorem follows_pure (a : α) (s : σ) : Follows (pure a : Script ω σ ε α) s True [] a :=
  ⟨fun _ => rfl, fun h => absurd trivial h⟩

omit [Statements ω σ] in
/-- A single statement is always issued. -/
theorem follows_issue (w : ω) (s : σ) : Follows (issue w : Script ω σ ε Unit) s True [w] () :=
  ⟨fun _ => rfl, fun h => absurd trivial h⟩

/-- A requirement issues nothing, and goes on where it is met. -/
theorem follows_require {c : Prop} [Decidable c] {e : ε} {s : σ} : Follows (require c e : Script ω σ ε Unit) s c [] () := by
  by_cases hc : c
  · rw [require_pos hc]
    exact (follows_pure () s).congr (by simp [hc])
  · rw [require_neg hc]
    exact ⟨fun h => absurd h hc, fun _ => ⟨[], e, rfl, List.nil_prefix⟩⟩

end Script
