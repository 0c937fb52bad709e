import BrineVault.Lib.Interleaving

/-!
# One program among others

`Safe` follows one program while the other programs of a pool change the store between its commands. Every program may rely on the others
for a relation `grows`, and has to keep it with its own commands. What is assumed of a run is an assumption about the store and the program
at each turn. `safe_run` carries the programs of a pool through every schedule.
-/

namespace Interleaving

open Prog
open Steps (run run_cons_ok)

variable {C : Type} {R : C → Type} {ε α β σ η : Type}

/-- The program keeps `grows` with its own commands and ends as `post` says, when the others keep `grows` in between, and `assume` holds at
each of its turns. -/
def Safe (exec : σ → (c : C) → R c × σ) (grows : σ → σ → Prop) (assume : σ → Prog C R ε α → Prop) (post : Except ε α → σ → Prop) :
    Prog C R ε α → σ → Prop
  | ret a, s => ∀ s', grows s s' → post (.ok a) s'
  | .throw e, s => ∀ s', grows s s' → post (.error e) s'
  | call c k, s => ∀ s', grows s s' → assume s' (call c k) →
      grows s' (exec s' c).2 ∧ Safe exec grows assume post (k (exec s' c).1) (exec s' c).2

section Safe

variable {exec : σ → (c : C) → R c × σ} {happen : σ → η → σ} {grows : σ → σ → Prop} {assume : σ → Prog C R ε α → Prop}
  {post : Except ε α → σ → Prop} {p : Prog C R ε α} {s s' : σ}

/-- What the others do leaves a program safe. -/
theorem Safe.later (htrans : ∀ a b c, grows a b → grows b c → grows a c) (h : Safe exec grows assume post p s)
    (hs : grows s s') : Safe exec grows assume post p s' := by
  cases p with
  | ret a =>
    intro s'' hs'
    exact h s'' (htrans _ _ _ hs hs')
  | throw e =>
    intro s'' hs'
    exact h s'' (htrans _ _ _ hs hs')
  | call c k =>
    intro s'' hs'
    exact h s'' (htrans _ _ _ hs hs')

/-- What follows a safe program goes on from where it has ended. -/
theorem Safe.bind {assume : σ → Prog C R ε β → Prop} {post : Except ε β → σ → Prop} {mid : Except ε α → σ → Prop}
    {f : α → Prog C R ε β} (hrefl : ∀ a, grows a a) (h : Safe exec grows (fun s q => assume s (q >>= f)) mid p s)
    (hok : ∀ a s, mid (.ok a) s → Safe exec grows assume post (f a) s)
    (herror : ∀ e s, mid (.error e) s → post (.error e) s) : Safe exec grows assume post (p >>= f) s := by
  induction p generalizing s with
  | ret a => exact hok a s (h s (hrefl s))
  | throw e =>
    intro s' hs
    exact herror e s' (h s' hs)
  | call c k ih =>
    intro s' hs hassume
    obtain ⟨hgrows, hk⟩ := h s' hs hassume
    exact ⟨hgrows, ih _ hk⟩

theorem Safe.tryCatch {mid : Except ε α → σ → Prop} {handler : ε → Prog C R ε α} (hrefl : ∀ a, grows a a)
    (h : Safe exec grows (fun s q => assume s (q.tryCatch handler)) mid p s) (hok : ∀ a s, mid (.ok a) s → post (.ok a) s)
    (herror : ∀ e s, mid (.error e) s → Safe exec grows assume post (handler e) s) :
    Safe exec grows assume post (p.tryCatch handler) s := by
  induction p generalizing s with
  | ret a =>
    intro s' hs
    exact hok a s' (h s' hs)
  | throw e => exact herror e s (h s (hrefl s))
  | call c k ih =>
    intro s' hs hassume
    obtain ⟨hgrows, hk⟩ := h s' hs hassume
    exact ⟨hgrows, ih _ hk⟩

theorem Safe.mono {assume' : σ → Prog C R ε α → Prop} {post' : Except ε α → σ → Prop}
    (h : Safe exec grows assume post p s) (hassume : ∀ s p, assume' s p → assume s p) (hpost : ∀ r s, post r s → post' r s) :
    Safe exec grows assume' post' p s := by
  induction p generalizing s with
  | ret a =>
    intro s' hs
    exact hpost _ s' (h s' hs)
  | throw e =>
    intro s' hs
    exact hpost _ s' (h s' hs)
  | call c k ih =>
    intro s' hs hassume'
    obtain ⟨hgrows, hk⟩ := h s' hs (hassume _ _ hassume')
    exact ⟨hgrows, ih _ hk⟩

/-- At its end a program knows how the store has grown since an earlier time. -/
theorem Safe.remember {s₀ : σ} (htrans : ∀ a b c, grows a b → grows b c → grows a c) (h : Safe exec grows assume post p s)
    (hs : grows s₀ s) : Safe exec grows assume (fun r s' => post r s' ∧ grows s₀ s') p s := by
  induction p generalizing s with
  | ret a =>
    intro s' hs'
    exact ⟨h s' hs', htrans _ _ _ hs hs'⟩
  | throw e =>
    intro s' hs'
    exact ⟨h s' hs', htrans _ _ _ hs hs'⟩
  | call c k ih =>
    intro s' hs' hassume
    obtain ⟨hgrows, hk⟩ := h s' hs' hassume
    exact ⟨hgrows, ih _ hk (htrans _ _ _ hs (htrans _ _ _ hs' hgrows))⟩

/-- What is assumed of a run: at each turn of a program, of the store and the program. -/
def Assumed (exec : σ → (c : C) → R c × σ) (happen : σ → η → σ) (assume : σ → Prog C R ε α → Prop) (m : Pool C R σ ε α)
    (ts : List (Turn η)) : Prop :=
  ∀ past i rest n p, ts = past ++ .thread i :: rest → run (step exec happen) m past = .ok n → n.threads[i]? = some p →
    assume n.store p

/-- What is assumed of a run is assumed of its beginning. -/
theorem Assumed.of_append {m : Pool C R σ ε α} {ts ts' : List (Turn η)} (h : Assumed exec happen assume m (ts ++ ts')) :
    Assumed exec happen assume m ts := by
  intro past i rest n p hts hn hi
  exact h past i (rest ++ ts') n p (by rw [hts, List.append_assoc, List.cons_append]) hn hi

/-- In every run that is as assumed, safe programs stay safe, each with its own `post`, and the store grows. -/
theorem safe_run_each (post : Nat → Except ε α → σ → Prop) (hrefl : ∀ a, grows a a)
    (htrans : ∀ a b c, grows a b → grows b c → grows a c) (hhappen : ∀ s e, grows s (happen s e)) {m n : Pool C R σ ε α}
    {ts : List (Turn η)} (hassume : Assumed exec happen assume m ts) (hr : run (step exec happen) m ts = .ok n)
    (hm : ∀ i p, m.threads[i]? = some p → Safe exec grows assume (post i) p m.store) :
    grows m.store n.store ∧ ∀ i p, n.threads[i]? = some p → Safe exec grows assume (post i) p n.store := by
  induction ts generalizing m with
  | nil =>
    cases hr
    exact ⟨hrefl _, hm⟩
  | cons t ts ih =>
    obtain ⟨m', hs, hr⟩ := (run_cons_ok _).1 hr
    have hlater : Assumed exec happen assume m' ts := by
      intro past i rest n p hts hn hi
      exact hassume (t :: past) i rest n p (by rw [hts]; rfl) ((run_cons_ok _).2 ⟨m', hs, hn⟩) hi
    have hstep : grows m.store m'.store ∧ ∀ i p, m'.threads[i]? = some p → Safe exec grows assume (post i) p m'.store := by
      rcases step_cases hs with ⟨e, -, rfl⟩ | ⟨i, c, k, rfl, hi, rfl⟩
      · refine ⟨hhappen _ e, ?_⟩
        intro j p hj
        exact (hm j p hj).later htrans (hhappen _ e)
      · have hturn : assume m.store (call c k) := hassume [] i ts m (call c k) rfl rfl hi
        obtain ⟨hgrows, hk⟩ := hm i _ hi _ (hrefl _) hturn
        refine ⟨hgrows, ?_⟩
        intro j p hj
        by_cases hij : i = j
        · subst hij
          rw [List.getElem?_set_self (List.getElem?_eq_some_iff.1 hi).1, Option.some.injEq] at hj
          exact hj ▸ hk
        · rw [List.getElem?_set_ne hij] at hj
          exact (hm j p hj).later htrans hgrows
    obtain ⟨hgrows, hsafe⟩ := ih hlater hr hstep.2
    exact ⟨htrans _ _ _ hstep.1 hgrows, hsafe⟩

/-- The same with one `post` for all. -/
theorem safe_run (hrefl : ∀ a, grows a a) (htrans : ∀ a b c, grows a b → grows b c → grows a c)
    (hhappen : ∀ s e, grows s (happen s e)) {m n : Pool C R σ ε α} {ts : List (Turn η)}
    (hassume : Assumed exec happen assume m ts) (hr : run (step exec happen) m ts = .ok n)
    (hm : ∀ p ∈ m.threads, Safe exec grows assume post p m.store) :
    grows m.store n.store ∧ ∀ p ∈ n.threads, Safe exec grows assume post p n.store := by
  obtain ⟨hgrows, hsafe⟩ := safe_run_each (fun _ => post) hrefl htrans hhappen hassume hr fun i p hi =>
    hm p (List.mem_of_getElem? hi)
  refine ⟨hgrows, ?_⟩
  intro p hp
  obtain ⟨i, hi⟩ := List.mem_iff_getElem?.1 hp
  exact hsafe i p hi

end Safe

end Interleaving
