import BrineVault.Lib.Interleaving

/-!
# Programs that take effect at once

Requests whose programs share a store, and of which each may write with its last command only. Where what a program has read stays true, or
true enough, whatever the others do, a schedule does what its requests do one after the other: each of them is served as a whole, at the
place of its last turn (`Late.serial`).
-/

namespace Interleaving

open Prog
open Steps (run run_cons_ok)

variable {C : Type} {R : C → Type} {ε α σ η κ : Type}

section Alone

variable {exec : σ → (c : C) → R c × σ} {happen : σ → η → σ} {p : Prog C R ε α} {s : σ}

/-- A program without a command is at its end already. -/
theorem alone_of_result {a : Except ε α} (h : p.result = some a) : alone exec happen p s [] = (a, s) := by
  cases p with
  | ret b =>
    cases h
    rfl
  | throw e =>
    cases h
    rfl
  | call c k => cases h

/-- What every command keeps, a program that runs alone keeps. -/
theorem alone_preserves {P : σ → Prop} (hP : ∀ s c, P s → P (exec s c).2) (h : P s) : P (alone exec happen p s []).2 := by
  induction p generalizing s with
  | ret a => exact h
  | throw e => exact h
  | call c k ih => exact ih _ (hP s c h)

end Alone

/-! ## One after the other -/

/-- The schedule with one turn for each program, its last. -/
def lastTurns [DecidableEq η] : List (Turn η) → List (Turn η)
  | [] => []
  | .event e :: ts => .event e :: lastTurns ts
  | .thread i :: ts => if .thread i ∈ ts then lastTurns ts else .thread i :: lastTurns ts

/-- Each turn of a program in the list is a request that is served as a whole and answered, as `serves` says. -/
inductive Serial (happen : σ → η → σ) (serves : κ → Except ε α → σ → σ → Prop) (request : Nat → Option κ)
    (answer : Nat → Option (Except ε α)) : σ → List (Turn η) → σ → Prop
  | nil (s : σ) : Serial happen serves request answer s [] s
  | event {e : η} {s t : σ} {ts : List (Turn η)} (h : Serial happen serves request answer (happen s e) ts t) :
      Serial happen serves request answer s (.event e :: ts) t
  | thread {i : Nat} {q : κ} {a : Except ε α} {s m t : σ} {ts : List (Turn η)} (hq : request i = some q) (ha : answer i = some a)
      (hs : serves q a s m) (h : Serial happen serves request answer m ts t) : Serial happen serves request answer s (.thread i :: ts) t

/-! ## Programs that write last -/

/-- What has to be shown of the programs of requests: `before q s p` says that `p` is what is left of the request `q` before its last
command, and what it has read is good enough in the store `s`. -/
structure Late (exec : σ → (c : C) → R c × σ) (happen : σ → η → σ) (inv : σ → Prop) (program : κ → Prog C R ε α)
    (serves : κ → Except ε α → σ → σ → Prop) (before : κ → σ → Prog C R ε α → Prop) : Prop where
  start : ∀ q s, before q s (program q)
  running : ∀ q s p, before q s p → p.result = none
  turn : ∀ q s c k, inv s → before q s (call c k) →
    ((exec s c).2 = s ∧ before q s (k (exec s c).1)) ∨ ∃ a, (k (exec s c).1).result = some a ∧ serves q a s (exec s c).2
  serves_inv : ∀ q a s s', inv s → serves q a s s' → inv s'
  happen_inv : ∀ s e, inv s → inv (happen s e)
  others : ∀ q q' a s s' p, inv s → before q s p → serves q' a s s' → before q s' p
  events : ∀ q s e p, inv s → before q s p → before q (happen s e) p

section Late

variable {exec : σ → (c : C) → R c × σ} {happen : σ → η → σ} {m n : Pool C R σ ε α} {ts : List (Turn η)}

/-- A program that has come to its end takes no turn any more. -/
theorem not_mem_turns_of_result {i : Nat} {p : Prog C R ε α} (hi : m.threads[i]? = some p) (hp : p.result.isSome = true)
    (h : run (step exec happen) m ts = .ok n) : .thread i ∉ ts := by
  induction ts generalizing m with
  | nil => exact List.not_mem_nil
  | cons t ts ih =>
    obtain ⟨m', hs, hr⟩ := (run_cons_ok _).1 h
    obtain ⟨e, rfl, rfl⟩ | ⟨j, c, k, rfl, hj, rfl⟩ := step_cases hs
    · have hrest := ih (m := { m with store := happen m.store e }) hi hr
      simp [hrest]
    · have hij : j ≠ i := by
        rintro rfl
        rw [hi, Option.some.injEq] at hj
        rw [hj] at hp
        cases hp
      have hrest := ih (by rw [List.getElem?_set_ne hij]; exact hi) hr
      simp [hij.symm, hrest]

variable [DecidableEq η] {inv : σ → Prop} {program : κ → Prog C R ε α} {serves : κ → Except ε α → σ → σ → Prop}
  {before : κ → σ → Prog C R ε α → Prop}

/-- Where each program has come to its end or is before its last command. -/
theorem Late.serial_from (h : Late exec happen inv program serves before) {request : Nat → Option κ} (hs : inv m.store)
    (hm : ∀ i p, m.threads[i]? = some p → p.result = none → ∃ q, request i = some q ∧ before q m.store p)
    (hr : run (step exec happen) m ts = .ok n) (hf : n.Finished) :
    Serial happen serves request (fun i => n.threads[i]?.bind Prog.result) m.store (lastTurns ts) n.store := by
  induction ts generalizing m with
  | nil =>
    cases hr
    exact .nil _
  | cons t ts ih =>
    obtain ⟨m', ht, hr⟩ := (run_cons_ok _).1 hr
    obtain ⟨e, rfl, rfl⟩ | ⟨i, c, k, rfl, hi, rfl⟩ := step_cases ht
    · refine .event (ih (h.happen_inv _ _ hs) (fun i p hp hrunning => ?_) hr)
      obtain ⟨q, hq, hb⟩ := hm i p hp hrunning
      exact ⟨q, hq, h.events _ _ _ _ hs hb⟩
    · obtain ⟨q, hq, hb⟩ := hm i _ hi rfl
      have hlt : i < m.threads.length := (List.getElem?_eq_some_iff.1 hi).1
      have hown : (m.threads.set i (k (exec m.store c).1))[i]? = some (k (exec m.store c).1) := List.getElem?_set_self hlt
      obtain ⟨hstore, hnext⟩ | ⟨a, ha, hserved⟩ := h.turn q _ c k hs hb
      · -- The program has read, and has a turn left.
        obtain ⟨c', k', hcall⟩ : ∃ c' k', k (exec m.store c).1 = call c' k' := by
          have hrunning := h.running _ _ _ hnext
          cases hk : k (exec m.store c).1 with
          | ret a => rw [hk] at hrunning; cases hrunning
          | throw e => rw [hk] at hrunning; cases hrunning
          | call c' k' => exact ⟨c', k', rfl⟩
        have hmem : .thread i ∈ ts := by
          obtain ⟨past, rest, _, rfl, -⟩ := sent_of_result (hown.trans (by rw [hcall])) hr hf
          simp
        rw [lastTurns, if_pos hmem]
        rw [hstore] at hr
        refine ih (m := { store := m.store, threads := m.threads.set i (k (exec m.store c).1) }) hs (fun j p hp hrunning => ?_) hr
        by_cases hij : i = j
        · subst hij
          rw [hown, Option.some.injEq] at hp
          exact ⟨q, hq, hp ▸ hnext⟩
        · rw [List.getElem?_set_ne hij] at hp
          exact hm j p hp hrunning
      · -- This was its last command.
        have hend : (k (exec m.store c).1).result.isSome = true := by rw [ha]; rfl
        have hmem : .thread i ∉ ts := not_mem_turns_of_result hown hend hr
        rw [lastTurns, if_neg hmem]
        refine .thread hq ?_ hserved (ih (h.serves_inv _ _ _ _ hs hserved) (fun j p hp hrunning => ?_) hr)
        · rw [threads_of_not_mem hr hmem, hown]
          exact ha
        · by_cases hij : i = j
          · subst hij
            rw [hown, Option.some.injEq] at hp
            rw [hp, hrunning] at hend
            cases hend
          · rw [List.getElem?_set_ne hij] at hp
            obtain ⟨q', hq', hb'⟩ := hm j p hp hrunning
            exact ⟨q', hq', h.others _ _ _ _ _ _ hs hb' hserved⟩

/-- Requests whose programs take turns do what they do one after the other, in the order of their last turns. -/
theorem Late.serial (h : Late exec happen inv program serves before) {requests : List κ} {s : σ} (hs : inv s)
    (hr : run (step exec happen) ⟨s, requests.map program⟩ ts = .ok n) (hf : n.Finished) :
    Serial happen serves (fun i => requests[i]?) (fun i => n.threads[i]?.bind Prog.result) s (lastTurns ts) n.store := by
  refine h.serial_from hs (fun i p hp _ => ?_) hr hf
  obtain ⟨q, hq, rfl⟩ := Option.map_eq_some_iff.1 (List.getElem?_map ▸ hp)
  exact ⟨q, hq, h.start q s⟩

end Late

end Interleaving
