import BrineVault.Lib.RelyGuarantee

/-!
# Promises

Programs that are started together and awaited with `Promise.all`, one such batch after the other. A batch goes by a schedule of its own; it is
rejected as soon as one of its programs has thrown, and resolved when all have returned. Whatever happens between the turns of its programs, a batch
can be brought to its end (`exists_inBatches`).
-/

namespace Interleaving

open Prog
open Steps (run)

variable {C : Type} {R : C → Type} {ε α σ η κ : Type}

/-- The exception of a program that has thrown. -/
def Prog.thrown : Prog C R ε α → Option ε
  | .throw e => some e
  | _ => none

/-- What `Promise.all` has come to. -/
def settled (ps : List (Prog C R ε Unit)) : Option (Except ε Unit) :=
  match ps.findSome? Prog.thrown with
  | some e => some (.error e)
  | none => if ∀ p ∈ ps, p.result.isSome then some (.ok ()) else none

/-- `await Promise.all(ps)`, by a schedule: what it comes to, and the store after it; nothing, when it is still pending. -/
def promiseAll (exec : σ → (c : C) → R c × σ) (happen : σ → η → σ) (ps : List (Prog C R ε Unit)) (s : σ) (ts : List (Turn η)) :
    Option (Except ε Unit × σ) :=
  match run (step exec happen) ⟨s, ps⟩ ts with
  | .ok m => (settled m.threads).map fun r => (r, m.store)
  | .error _ => none

/-- `await p` for one program. -/
def await (exec : σ → (c : C) → R c × σ) (happen : σ → η → σ) (p : Prog C R ε α) (s : σ) (ts : List (Turn η)) :
    Option (Except ε α × σ) :=
  match run (step exec happen) ⟨s, [p]⟩ ts with
  | .ok m => (m.threads.head?.bind Prog.result).map fun r => (r, m.store)
  | .error _ => none

/-- Batches one after the other, until one is rejected. -/
def inBatches (exec : σ → (c : C) → R c × σ) (happen : σ → η → σ) :
    List (List (Prog C R ε Unit)) → σ → List (List (Turn η)) → Option (Except ε Unit × σ)
  | [], s, _ => some (.ok (), s)
  | batch :: batches, s, ts :: tss =>
    match promiseAll exec happen batch s ts with
    | some (.ok _, s') => inBatches exec happen batches s' tss
    | r => r
  | _ :: _, _, [] => none

section

variable {exec : σ → (c : C) → R c × σ} {happen : σ → η → σ} {ps : List (Prog C R ε Unit)} {s s' : σ} {ts : List (Turn η)}

/-- A program that has thrown is one. -/
theorem thrown_eq_some {p : Prog C R ε α} {e : ε} : p.thrown = some e ↔ p = .throw e := by
  cases p <;> simp [Prog.thrown]

/-- Of a batch that is resolved every program has returned. -/
theorem settled_ok (h : settled ps = some (.ok ())) : ∀ p ∈ ps, p = ret () := by
  intro p hp
  unfold settled at h
  cases hthrown : ps.findSome? Prog.thrown with
  | some e =>
    rw [hthrown] at h
    cases h
  | none =>
    rw [hthrown] at h
    have hall : ∀ p ∈ ps, p.result.isSome = true := by
      by_contra hno
      simp only [if_neg hno] at h
      cases h
    have hno := List.findSome?_eq_none_iff.1 hthrown p hp
    have hres := hall p hp
    cases p with
    | ret => rfl
    | throw e => cases hno
    | call => cases hres

/-- Of a batch that is rejected some program has thrown the exception. -/
theorem settled_error {e : ε} (h : settled ps = some (.error e)) : .throw e ∈ ps := by
  unfold settled at h
  cases hthrown : ps.findSome? Prog.thrown with
  | some e' =>
    rw [hthrown] at h
    cases h
    obtain ⟨p, hp, hpe⟩ := List.exists_of_findSome?_eq_some hthrown
    exact thrown_eq_some.1 hpe ▸ hp
  | none =>
    rw [hthrown] at h
    dsimp only at h
    split at h <;> cases h

/-- A batch settles by a run in which its programs settle. -/
theorem promiseAll_eq_some {r : Except ε Unit} :
    promiseAll exec happen ps s ts = some (r, s') ↔
      ∃ m, run (step exec happen) ⟨s, ps⟩ ts = .ok m ∧ settled m.threads = some r ∧ m.store = s' := by
  unfold promiseAll
  cases hr : run (step exec happen) ⟨s, ps⟩ ts with
  | error e => simp
  | ok m => simp [Option.map_eq_some_iff]

/-- A program settles by a run that brings it to its end. -/
theorem await_eq_some {p : Prog C R ε α} {r : Except ε α} (h : await exec happen p s ts = some (r, s')) :
    ∃ m q, run (step exec happen) ⟨s, [p]⟩ ts = .ok m ∧ m.threads = [q] ∧ q.result = some r ∧ m.store = s' := by
  unfold await at h
  cases hr : run (step exec happen) ⟨s, [p]⟩ ts with
  | error e =>
    rw [hr] at h
    cases h
  | ok m =>
    rw [hr] at h
    obtain ⟨q, hq⟩ := List.length_eq_one_iff.1 (length_threads_run hr)
    simp only [hq, List.head?_cons, Option.bind_some, Option.map_eq_some_iff] at h
    obtain ⟨r', hres, he⟩ := h
    cases he
    exact ⟨m, q, rfl, hq, hres, rfl⟩

/-! ## What a batch that is resolved has done -/

section Safe

variable {grows : σ → σ → Prop} (hrefl : ∀ a, grows a a) (htrans : ∀ a b c, grows a b → grows b c → grows a c)
  (hhappen : ∀ s e, grows s (happen s e))
include hrefl htrans hhappen

/-- In a batch that is resolved every program has done its part. -/
theorem promiseAll_safe (done : Nat → σ → Prop) {r : Except ε Unit}
    (hps : ∀ i p, ps[i]? = some p → Safe exec grows (fun _ _ => True) (fun r s' => r = .ok () → done i s') p s)
    (h : promiseAll exec happen ps s ts = some (r, s')) : grows s s' ∧ (r = .ok () → ∀ i < ps.length, done i s') := by
  obtain ⟨m, hr, hsettled, rfl⟩ := promiseAll_eq_some.1 h
  obtain ⟨hgrows, hsafe⟩ := safe_run_each _ hrefl htrans hhappen (fun _ _ _ _ _ _ _ _ => trivial) hr hps
  refine ⟨hgrows, ?_⟩
  rintro rfl i hi
  have hlt : i < m.threads.length := by rwa [length_threads_run hr]
  have hret : m.threads[i] = ret () := settled_ok hsettled _ (List.getElem_mem hlt)
  have hdone := hsafe i (ret ()) (by rw [List.getElem?_eq_getElem hlt, hret])
  exact hdone _ (hrefl _) rfl

/-- What an awaited program comes to, it comes to safely. -/
theorem await_safe {p : Prog C R ε α} {post : Except ε α → σ → Prop} {r : Except ε α}
    (hp : Safe exec grows (fun _ _ => True) post p s) (h : await exec happen p s ts = some (r, s')) : grows s s' ∧ post r s' := by
  obtain ⟨m, q, hr, hq, hres, rfl⟩ := await_eq_some h
  obtain ⟨hgrows, hsafe⟩ := safe_run hrefl htrans hhappen (fun _ _ _ _ _ _ _ _ => trivial) hr
    (fun p' hp' => List.mem_singleton.1 hp' ▸ hp)
  have hend := hsafe q (by rw [hq]; exact List.mem_singleton_self _)
  refine ⟨hgrows, ?_⟩
  cases q with
  | ret a => exact Option.some.inj hres ▸ hend _ (hrefl _)
  | throw e => exact Option.some.inj hres ▸ hend _ (hrefl _)
  | call => cases hres

/-- One batch, whose programs are known by what they are for. -/
theorem promiseAll_each {prog : κ → Prog C R ε Unit} (done : κ → σ → Prop) {batch : List κ}
    (hsafe : ∀ k ∈ batch, Safe exec grows (fun _ _ => True) (fun r s' => r = .ok () → done k s') (prog k) s) {r : Except ε Unit}
    (h : promiseAll exec happen (batch.map prog) s ts = some (r, s')) : grows s s' ∧ (r = .ok () → ∀ k ∈ batch, done k s') := by
  have hps : ∀ (i : Nat) (p), (batch.map prog)[i]? = some p → Safe exec grows (fun _ _ => True)
      (fun r s' => r = .ok () → ∀ k : κ, batch[i]? = some k → done k s') p s := by
    intro i p hi
    rw [List.getElem?_map, Option.map_eq_some_iff] at hi
    obtain ⟨k, hk, rfl⟩ := hi
    refine (hsafe k (List.mem_of_getElem? hk)).mono (fun _ _ h => h) ?_
    intro r s' hpost hr k' hk'
    rw [hk, Option.some.injEq] at hk'
    exact hk' ▸ hpost hr
  obtain ⟨hgrows, hall⟩ := promiseAll_safe hrefl htrans hhappen (fun i s => ∀ k : κ, batch[i]? = some k → done k s) hps h
  refine ⟨hgrows, ?_⟩
  intro hr k hk
  obtain ⟨i, hi⟩ := List.mem_iff_getElem?.1 hk
  have hlt : i < (batch.map prog).length := by
    rw [List.length_map]
    exact (List.getElem?_eq_some_iff.1 hi).1
  exact hall hr i hlt k hi

/-- Batches of programs that each do their part, under an invariant that the store keeps as it grows. When the last batch is resolved, every part
is done. -/
theorem inBatches_safe {prog : κ → Prog C R ε Unit} (done : κ → σ → Prop) (inv : σ → Prop)
    (hdone : ∀ k s s', grows s s' → done k s → done k s') (hinv : ∀ s s', grows s s' → inv s → inv s') {batches : List (List κ)}
    (hsafe : ∀ batch ∈ batches, ∀ k ∈ batch, ∀ s, inv s →
      Safe exec grows (fun _ _ => True) (fun r s' => r = .ok () → done k s') (prog k) s)
    {r : Except ε Unit} {tss : List (List (Turn η))} (hs : inv s)
    (h : inBatches exec happen (batches.map (List.map prog)) s tss = some (r, s')) :
    grows s s' ∧ (r = .ok () → ∀ batch ∈ batches, ∀ k ∈ batch, done k s') := by
  induction batches generalizing s tss with
  | nil =>
    cases h
    exact ⟨hrefl _, fun _ _ hb => by cases hb⟩
  | cons batch batches ih =>
    cases tss with
    | nil => cases h
    | cons ts tss =>
      simp only [List.map_cons, inBatches] at h
      cases hp : promiseAll exec happen (batch.map prog) s ts with
      | none =>
        rw [hp] at h
        cases h
      | some rs =>
        obtain ⟨r₁, s₁⟩ := rs
        obtain ⟨hgrows, hbatch⟩ := promiseAll_each hrefl htrans hhappen done
          (fun k hk => hsafe batch (List.mem_cons_self ..) k hk s hs) hp
        rw [hp] at h
        cases r₁ with
        | error e =>
          cases h
          exact ⟨hgrows, fun hr => by cases hr⟩
        | ok u =>
          obtain ⟨hgrows', hrest⟩ := ih (fun b hb => hsafe b (List.mem_cons_of_mem _ hb)) (hinv _ _ hgrows hs) h
          refine ⟨htrans _ _ _ hgrows hgrows', ?_⟩
          intro hr b hb k hk
          rcases List.mem_cons.1 hb with rfl | hb
          · exact hdone k _ _ hgrows' (hbatch rfl k hk)
          · exact hrest hr b hb k hk

end Safe

/-! ## When a batch is resolved -/

/-- In the run of each batch every program hears what `hit` tells of. -/
def HeardInBatches (exec : σ → (c : C) → R c × σ) (happen : σ → η → σ) (hit : (c : C) → R c → Prop) :
    List (List (Prog C R ε Unit)) → σ → List (List (Turn η)) → Prop
  | batch :: batches, s, ts :: tss =>
    (∀ i < batch.length, Heard exec happen hit ⟨s, batch⟩ ts i) ∧
      ∀ s', promiseAll exec happen batch s ts = some (.ok (), s') → HeardInBatches exec happen hit batches s' tss
  | _, _, _ => True

/-- Programs that only throw when they have not heard it are not rejected. -/
theorem inBatches_resolved {hit : (c : C) → R c → Prop} {batches : List (List (Prog C R ε Unit))}
    (hkeeps : ∀ batch ∈ batches, ∀ p ∈ batch, Keeps (listening hit) (fun φ r => φ → r = .ok ()) False p) {r : Except ε Unit}
    {tss : List (List (Turn η))} (hheard : HeardInBatches exec happen hit batches s tss)
    (h : inBatches exec happen batches s tss = some (r, s')) : r = .ok () := by
  induction batches generalizing s tss with
  | nil =>
    cases h
    rfl
  | cons batch batches ih =>
    cases tss with
    | nil => cases h
    | cons ts tss =>
      simp only [inBatches] at h
      obtain ⟨hfirst, hrest⟩ := hheard
      cases hp : promiseAll exec happen batch s ts with
      | none =>
        rw [hp] at h
        cases h
      | some rs =>
        obtain ⟨r₁, s₁⟩ := rs
        rw [hp] at h
        cases r₁ with
        | ok u => exact ih (fun b hb => hkeeps b (List.mem_cons_of_mem _ hb)) (hrest s₁ hp) h
        | error e =>
          obtain ⟨m, hr, hsettled, -⟩ := promiseAll_eq_some.1 hp
          obtain ⟨i, hi⟩ := List.mem_iff_getElem?.1 (settled_error hsettled)
          have hlt : i < batch.length := length_threads_run hr ▸ (List.getElem?_eq_some_iff.1 hi).1
          have hok := heard_of_result (hkeeps batch (List.mem_cons_self ..)) hr hi rfl (hfirst i hlt)
          cases hok

/-! ## That a batch comes to an end -/

/-- The turns of the programs in this order, with the next of the events before each. -/
def paced (events : Nat → η) : List Nat → List (Turn η)
  | [] => []
  | i :: order => .event (events 0) :: .thread i :: paced (fun n => events (n + 1)) order

/-- A schedule for each batch, with the events of that batch. -/
def pacedBatches (events : Nat → Nat → η) (orders : List (List Nat)) : List (List (Turn η)) := orders.mapIdx fun b order => paced (events b) order

/-- An order that is continued goes on with the events that are left. -/
theorem paced_append (events : Nat → η) (order order' : List Nat) :
    paced events (order ++ order') = paced events order ++ paced (fun n => events (order.length + n)) order' := by
  induction order generalizing events with
  | nil => simp [paced]
  | cons i order ih =>
    simp only [List.cons_append, paced, ih, List.length_cons]
    simp only [Nat.add_right_comm]

/-- A program has no more turns to take than its replies let it take. -/
theorem exists_paced_thread {p : Prog C R ε α} {m : Pool C R σ ε α} {i : Nat} (events : Nat → η) (hi : m.threads[i]? = some p) :
    ∃ order m' q, run (step exec happen) m (paced events order) = .ok m' ∧ m'.threads = m.threads.set i q ∧ q.result.isSome = true := by
  have hlt : i < m.threads.length := (List.getElem?_eq_some_iff.1 hi).1
  have hdone : m.threads.set i p = m.threads := by
    obtain ⟨_, rfl⟩ := List.getElem?_eq_some_iff.1 hi
    exact List.set_getElem_self hlt
  induction p generalizing m events with
  | ret a => exact ⟨[], m, ret a, rfl, hdone.symm, rfl⟩
  | throw e => exact ⟨[], m, .throw e, rfl, hdone.symm, rfl⟩
  | call c k ih =>
    -- One event, one turn, and then the rest of the program.
    let before : Pool C R σ ε α := { m with store := happen m.store (events 0) }
    let after : Pool C R σ ε α :=
      { store := (exec before.store c).2, threads := before.threads.set i (k (exec before.store c).1) }
    have hturn : step exec happen before (.thread i) = .ok after := step_thread hi
    have hnext : after.threads[i]? = some (k (exec before.store c).1) := List.getElem?_set_self hlt
    have hlt' : i < after.threads.length := (List.getElem?_eq_some_iff.1 hnext).1
    obtain ⟨order, m', q, hrun, hthreads, hq⟩ := ih _ (fun n => events (n + 1)) hnext hlt' (List.set_set ..)
    refine ⟨i :: order, m', q, ?_, by rw [hthreads, List.set_set], hq⟩
    exact (Steps.run_cons_ok _).2 ⟨before, rfl, (Steps.run_cons_ok _).2 ⟨after, hturn, hrun⟩⟩

/-- Whatever happens before each turn, the programs can be brought to their ends, one after the other. -/
theorem exists_paced_finished (m : Pool C R σ ε α) (events : Nat → η) :
    ∃ order m', run (step exec happen) m (paced events order) = .ok m' ∧ m'.Finished := by
  have hfirst : ∀ j ≤ m.threads.length, ∃ order m', run (step exec happen) m (paced events order) = .ok m' ∧
      ∀ i < j, ∀ p, m'.threads[i]? = some p → p.result.isSome = true := by
    intro j
    induction j with
    | zero => exact fun _ => ⟨[], m, rfl, fun i hi => absurd hi (Nat.not_lt_zero i)⟩
    | succ j ih =>
      intro hj
      obtain ⟨order, m₁, hrun, hended⟩ := ih (by omega)
      have hlt : j < m₁.threads.length := by rw [length_threads_run hrun]; omega
      obtain ⟨order', m₂, q, hrun', hthreads, hq⟩ :=
        @exists_paced_thread _ _ _ _ _ _ exec happen _ _ _ (fun n => events (order.length + n)) (List.getElem?_eq_getElem hlt)
      refine ⟨order ++ order', m₂, ?_, ?_⟩
      · rw [paced_append]
        exact (Steps.run_append_ok _).2 ⟨m₁, hrun, hrun'⟩
      · intro i hi p hp
        rw [hthreads] at hp
        by_cases hij : j = i
        · subst hij
          rw [List.getElem?_set_self hlt, Option.some.injEq] at hp
          exact hp ▸ hq
        · rw [List.getElem?_set_ne hij] at hp
          exact hended i (by omega) p hp
  obtain ⟨order, m', hrun, hended⟩ := hfirst _ le_rfl
  refine ⟨order, m', hrun, ?_⟩
  intro p hp
  obtain ⟨i, hi⟩ := List.mem_iff_getElem?.1 hp
  exact hended i (length_threads_run hrun ▸ (List.getElem?_eq_some_iff.1 hi).1) p hi

/-- A program that is awaited settles. -/
theorem exists_await (p : Prog C R ε α) (s : σ) (events : Nat → η) : ∃ order r, await exec happen p s (paced events order) = some r := by
  obtain ⟨order, m, hrun, hfinished⟩ := @exists_paced_finished _ _ _ _ _ _ exec happen ⟨s, [p]⟩ events
  obtain ⟨q, hq⟩ := List.length_eq_one_iff.1 (length_threads_run hrun)
  obtain ⟨r, hr⟩ := Option.isSome_iff_exists.1 (hfinished q (by simp [hq]))
  refine ⟨order, (r, m.store), ?_⟩
  rw [await, hrun]
  simp [hq, hr]

/-- So does a batch. -/
theorem exists_promiseAll (ps : List (Prog C R ε Unit)) (s : σ) (events : Nat → η) :
    ∃ order r, promiseAll exec happen ps s (paced events order) = some r := by
  obtain ⟨order, m, hrun, hfinished⟩ := @exists_paced_finished _ _ _ _ _ _ exec happen ⟨s, ps⟩ events
  have hsettled : ∃ r, settled m.threads = some r := by
    unfold settled
    cases m.threads.findSome? Prog.thrown with
    | some e => exact ⟨_, rfl⟩
    | none => exact ⟨_, if_pos hfinished⟩
  obtain ⟨r, hr⟩ := hsettled
  exact ⟨order, (r, m.store), promiseAll_eq_some.2 ⟨m, hrun, hr, rfl⟩⟩

/-- So do the batches, whatever happens in the course of each of them. -/
theorem exists_inBatches (batches : List (List (Prog C R ε Unit))) (s : σ) (events : Nat → Nat → η) :
    ∃ orders r, inBatches exec happen batches s (pacedBatches events orders) = some r := by
  induction batches generalizing s events with
  | nil => exact ⟨[], _, rfl⟩
  | cons batch batches ih =>
    obtain ⟨order, ⟨r, s'⟩, hbatch⟩ := @exists_promiseAll _ _ _ _ _ exec happen batch s (events 0)
    obtain ⟨orders, r', hrest⟩ := ih s' fun b => events (b + 1)
    cases r with
    | error e =>
      refine ⟨[order], (.error e, s'), ?_⟩
      simp [pacedBatches, inBatches, hbatch]
    | ok u =>
      refine ⟨order :: orders, r', ?_⟩
      simp only [pacedBatches, List.mapIdx_cons, inBatches, hbatch]
      exact hrest

end

end Interleaving
