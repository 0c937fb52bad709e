import BrineVault.Lib.Move
import Mathlib.Data.List.Induction

/-!
# Runs of a step function that may fail

`run step s as` applies the actions `as` in order, from `s`, and stops at the first one that fails. What a step preserves, a run
preserves (`run_invariant`); an invariant may speak of the actions so far, which makes it an invariant over histories.
-/

namespace Steps

open Move (bind_eq_ok)

/-- A place in a history with one more step is the last one, or a place in the history. -/
theorem snoc_eq_append_cons {α : Type} {as past rest : List α} {a b : α} (h : as ++ [a] = past ++ b :: rest) :
    (rest = [] ∧ past = as ∧ b = a) ∨ ∃ rest', rest = rest' ++ [a] ∧ as = past ++ b :: rest' := by
  rcases List.eq_nil_or_concat rest with rfl | ⟨rest', c, rfl⟩
  · obtain ⟨rfl, hb⟩ := List.append_inj' h rfl
    cases hb
    exact .inl ⟨rfl, rfl, rfl⟩
  · rw [List.concat_eq_append] at h ⊢
    rw [← List.cons_append, ← List.append_assoc] at h
    obtain ⟨rfl, hc⟩ := List.append_inj' h rfl
    cases hc
    exact .inr ⟨rest', rfl, rfl⟩

variable {σ α ε : Type} (step : σ → α → Except ε σ)

/-- The actions applied in order, up to the first that fails. -/
def run (s : σ) : List α → Except ε σ
  | [] => .ok s
  | a :: as => do
    let t ← step s a
    run t as

@[simp] theorem run_nil (s : σ) : run step s [] = .ok s := rfl

/-- The first step, and then the others. -/
theorem run_cons_ok {s t : σ} {a : α} {as : List α} :
    run step s (a :: as) = .ok t ↔ ∃ m, step s a = .ok m ∧ run step m as = .ok t := by
  rw [run, bind_eq_ok]

/-- A run can be cut in two. -/
theorem run_append_ok {s t : σ} {as bs : List α} :
    run step s (as ++ bs) = .ok t ↔ ∃ m, run step s as = .ok m ∧ run step m bs = .ok t := by
  induction as generalizing s with
  | nil => simp
  | cons a as ih =>
    rw [List.cons_append, run_cons_ok]
    constructor
    · rintro ⟨m, hm, h⟩
      obtain ⟨m', h1, h2⟩ := ih.1 h
      exact ⟨m', (run_cons_ok step).2 ⟨m, hm, h1⟩, h2⟩
    · rintro ⟨m', h1, h2⟩
      obtain ⟨m, hm, h⟩ := (run_cons_ok step).1 h1
      exact ⟨m, hm, ih.2 ⟨m', h, h2⟩⟩

/-- The others, and then the last step. -/
theorem run_snoc_ok {s t : σ} {as : List α} {a : α} :
    run step s (as ++ [a]) = .ok t ↔ ∃ m, run step s as = .ok m ∧ step m a = .ok t := by
  rw [run_append_ok]
  refine exists_congr fun m => and_congr_right fun _ => ?_
  rw [run_cons_ok]
  simp

/-- An invariant over histories: it holds before the first action, and an action that succeeds keeps it, together with the
action itself. -/
theorem run_invariant {s : σ} (P : List α → σ → Prop) (h0 : P [] s)
    (hstep : ∀ as m a t, run step s as = .ok m → P as m → step m a = .ok t → P (as ++ [a]) t) :
    ∀ {as t}, run step s as = .ok t → P as t := by
  intro as
  induction as using List.reverseRecOn with
  | nil =>
    intro t h
    cases h
    exact h0
  | append_singleton as a ih =>
    intro t h
    obtain ⟨m, hm, ha⟩ := (run_snoc_ok step).1 h
    exact hstep as m a t hm (ih hm) ha

/-- An invariant of the states alone. -/
theorem run_preserves {P : σ → Prop} (hstep : ∀ m a t, P m → step m a = .ok t → P t) {s t : σ} {as : List α}
    (h : run step s as = .ok t) (h0 : P s) : P t :=
  run_invariant step (fun _ => P) h0 (fun _ m a t _ hm ha => hstep m a t hm ha) h

/-- Every step of a run was taken in a state where `good` allowed it. -/
def AllSteps (good : σ → α → Prop) (s : σ) (as : List α) : Prop :=
  ∀ past a rest m, as = past ++ a :: rest → run step s past = .ok m → good m a

/-- Some step of a run was such a step. -/
def SomeStep (hit : σ → α → Prop) (s : σ) (as : List α) : Prop :=
  ∃ past a rest m, as = past ++ a :: rest ∧ run step s past = .ok m ∧ hit m a

theorem not_someStep_nil {hit : σ → α → Prop} {s : σ} : ¬ SomeStep step hit s [] := by
  rintro ⟨past, a, rest, m, h, -⟩
  simp at h

/-- With one more step, it is the last one or one of those before. -/
theorem someStep_snoc {hit : σ → α → Prop} {s m : σ} {as : List α} {a : α} (h : run step s as = .ok m) :
    SomeStep step hit s (as ++ [a]) ↔ SomeStep step hit s as ∨ hit m a := by
  constructor
  · rintro ⟨past, b, rest, n, he, hn, hb⟩
    obtain ⟨-, rfl, rfl⟩ | ⟨rest, -, rfl⟩ := snoc_eq_append_cons he
    · rw [h, Except.ok.injEq] at hn
      exact .inr (hn ▸ hb)
    · exact .inl ⟨past, b, rest, n, rfl, hn, hb⟩
  · rintro (⟨past, b, rest, n, rfl, hn, hb⟩ | hb)
    · exact ⟨past, b, rest ++ [a], n, by simp, hn, hb⟩
    · exact ⟨as, a, [], m, rfl, h, hb⟩

/-- What does not hold at the start of a run and holds at its end came to hold in one of its steps. -/
theorem someStep_of_change {P : σ → Prop} {s t : σ} {as : List α} (h : run step s as = .ok t) (h0 : ¬ P s) (ht : P t) :
    SomeStep step (fun m a => ¬ P m ∧ ∃ n, step m a = .ok n ∧ P n) s as := by
  refine run_invariant step (fun as t => P t → SomeStep step _ s as) (fun h => absurd h h0) ?_ h ht
  intro as m a n hm ih ha hn
  rw [someStep_snoc step hm]
  by_cases hP : P m
  · exact .inl (ih hP)
  · exact .inr ⟨hP, n, ha, hn⟩

/-- The state between two parts of a run. -/
theorem run_prefix {s t : σ} {as past rest : List α} (h : run step s as = .ok t) (ha : as = past ++ rest) :
    ∃ m, run step s past = .ok m ∧ run step m rest = .ok t := by
  rw [ha, run_append_ok] at h
  exact h

theorem allSteps_nil {good : σ → α → Prop} {s : σ} : AllSteps step good s [] := by
  intro past a rest m h
  simp at h

/-- The first step of a run, and the others. -/
theorem allSteps_cons {good : σ → α → Prop} {s : σ} {a : α} {as : List α} :
    AllSteps step good s (a :: as) ↔ good s a ∧ ∀ t, step s a = .ok t → AllSteps step good t as := by
  constructor
  · intro h
    refine ⟨h [] a as s rfl rfl, ?_⟩
    intro t ht past b rest m he hm
    exact h (a :: past) b rest m (by rw [he]; rfl) ((run_cons_ok step).2 ⟨t, ht, hm⟩)
  · rintro ⟨hfirst, hothers⟩ past b rest m he hm
    cases past with
    | nil =>
      cases he
      cases hm
      exact hfirst
    | cons a' past =>
      cases he
      obtain ⟨t, ht, hm⟩ := (run_cons_ok step).1 hm
      exact hothers t ht past b rest m rfl hm

/-- Whether all steps of a run are allowed can be computed along the run. -/
def decidableAllSteps (good : σ → α → Prop) [∀ s a, Decidable (good s a)] : ∀ s as, Decidable (AllSteps step good s as)
  | _, [] => isTrue (allSteps_nil step)
  | s, a :: as =>
    match h : step s a with
    | .ok t =>
      have := decidableAllSteps good t as
      decidable_of_iff (good s a ∧ AllSteps step good t as) (by rw [allSteps_cons, h]; simp)
    | .error _ => decidable_of_iff (good s a) (by rw [allSteps_cons, h]; simp)

instance (good : σ → α → Prop) [∀ s a, Decidable (good s a)] (s : σ) (as : List α) : Decidable (AllSteps step good s as) :=
  decidableAllSteps step good s as

/-- An invariant over histories, in a run in which every action was allowed, by the history and the state before it. -/
theorem run_invariant_of_allowed {good : List α → σ → α → Prop} {s : σ} (P : List α → σ → Prop) (h0 : P [] s)
    (hstep : ∀ as m a t, run step s as = .ok m → P as m → good as m a → step m a = .ok t → P (as ++ [a]) t) :
    ∀ {as t}, run step s as = .ok t →
      (∀ past a rest m, as = past ++ a :: rest → run step s past = .ok m → good past m a) → P as t := by
  intro as
  induction as using List.reverseRecOn with
  | nil =>
    intro t h _
    cases h
    exact h0
  | append_singleton as a ih =>
    intro t h hg
    obtain ⟨m, hm, ha⟩ := (run_snoc_ok step).1 h
    have hm' : P as m := ih hm fun past b rest n he hn => hg past b (rest ++ [a]) n (by simp [he]) hn
    exact hstep as m a t hm hm' (hg as a [] m rfl hm) ha

/-- An invariant over histories that only allowed actions keep. -/
theorem run_invariant_of_allSteps {good : σ → α → Prop} {s : σ} (P : List α → σ → Prop) (h0 : P [] s)
    (hstep : ∀ as m a t, run step s as = .ok m → P as m → good m a → step m a = .ok t → P (as ++ [a]) t) {as : List α} {t : σ}
    (h : run step s as = .ok t) (hg : AllSteps step good s as) : P as t :=
  run_invariant_of_allowed step P h0 hstep h hg

/-- When allowed actions keep the property and an action that is not allowed breaks it where it holds, the property holds all along a run exactly
when every action of the run was allowed. -/
theorem always_iff_allSteps {good : σ → α → Prop} {s : σ} (P Q : List α → σ → Prop) (h0 : P [] s)
    (hstep : ∀ as m a t, run step s as = .ok m → P as m → good m a → step m a = .ok t → P (as ++ [a]) t)
    (hPQ : ∀ as m, run step s as = .ok m → P as m → Q as m)
    (hbad : ∀ as m a t, run step s as = .ok m → Q as m → ¬ good m a → step m a = .ok t → ¬ Q (as ++ [a]) t)
    {as : List α} {t : σ} (h : run step s as = .ok t) :
    (∀ past rest m, as = past ++ rest → run step s past = .ok m → Q past m) ↔ AllSteps step good s as := by
  constructor
  · intro hq past a rest m he hm
    by_contra hb
    obtain ⟨m', hm', hrest⟩ := run_prefix step h he
    rw [hm, Except.ok.injEq] at hm'
    subst hm'
    obtain ⟨n, hn, _⟩ := (run_cons_ok step).1 hrest
    have hbefore : Q past m := hq past (a :: rest) m he hm
    have hafter : Q (past ++ [a]) n := hq (past ++ [a]) rest n (by simp [he]) ((run_snoc_ok step).2 ⟨m, hm, hn⟩)
    exact hbad past m a n hm hbefore hb hn hafter
  · intro hg past rest m he hm
    refine hPQ past m hm (run_invariant_of_allSteps step P h0 hstep hm ?_)
    intro past' a rest' n he' hn
    exact hg past' a (rest' ++ rest) n (by simp [he, he']) hn

end Steps
