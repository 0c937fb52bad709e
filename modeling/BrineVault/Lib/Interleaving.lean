import BrineVault.Lib.Steps

/-!
# Programs that share a store

A `Prog` sends commands to a store, one at a time, and goes on with the reply of each. In a `Pool` any number of programs take turns:
a turn is one command of one program, or an event of the store's own (time that passes, say). What other programs do between two
commands of a program is up to the schedule, which is the list of turns.

Three ways to reason. `Keeps` follows one program through its own commands, whatever the replies, and `kept_run` carries it to every
schedule. `Heard` is a fact of a schedule: the store gave a program a certain reply. `wp` is for a program that runs alone, with events
between its commands.
-/

namespace Interleaving

open Steps (run run_cons_ok run_invariant run_preserves snoc_eq_append_cons)

/-- A program: it returns, it throws, or it sends a command and goes on with the reply. -/
inductive Prog (C : Type) (R : C → Type) (ε α : Type) : Type
  | ret (a : α)
  | throw (e : ε)
  | call (c : C) (k : R c → Prog C R ε α)

variable {C : Type} {R : C → Type} {ε α β σ η Q : Type}

namespace Prog

def bind (p : Prog C R ε α) (f : α → Prog C R ε β) : Prog C R ε β :=
  match p with
  | ret a => f a
  | throw e => throw e
  | call c k => call c fun r => (k r).bind f

instance : Monad (Prog C R ε) where
  pure := ret
  bind := bind

/-- One command, with its reply as the result. -/
def send (c : C) : Prog C R ε (R c) := call c ret

/-- What a computation without commands does, as a program. -/
def ofExcept : Except ε α → Prog C R ε α
  | .ok a => ret a
  | .error e => throw e

/-- The program, with a handler for the exception that it ends in. -/
def tryCatch (p : Prog C R ε α) (handler : ε → Prog C R ε α) : Prog C R ε α :=
  match p with
  | ret a => ret a
  | throw e => handler e
  | call c k => call c fun r => (k r).tryCatch handler

/-- The programs for the elements of a list, one after the other. -/
def forEach (f : β → Prog C R ε Unit) : List β → Prog C R ε Unit
  | [] => ret ()
  | b :: bs => (f b).bind fun _ => forEach f bs

/-- Whatever the replies are, the program sends a command that `P` tells of. -/
def Sends (P : C → Prop) : Prog C R ε α → Prop
  | ret _ => False
  | throw _ => False
  | call c k => P c ∨ ∀ r, (k r).Sends P

/-- What the program has come to, once it has no command left. -/
def result : Prog C R ε α → Option (Except ε α)
  | ret a => some (.ok a)
  | throw e => some (.error e)
  | call _ _ => none

@[simp] theorem pure_eq (a : α) : (pure a : Prog C R ε α) = ret a := rfl
@[simp] theorem ret_bind (a : α) (f : α → Prog C R ε β) : ret a >>= f = f a := rfl
@[simp] theorem throw_bind (e : ε) (f : α → Prog C R ε β) : throw e >>= f = throw e := rfl
@[simp] theorem call_bind (c : C) (k : R c → Prog C R ε α) (f : α → Prog C R ε β) :
    call c k >>= f = call c fun r => k r >>= f := rfl
@[simp] theorem send_bind (c : C) (f : R c → Prog C R ε β) : send c >>= f = call c f := rfl

@[simp] theorem tryCatch_ret (a : α) (handler : ε → Prog C R ε α) : (ret a : Prog C R ε α).tryCatch handler = ret a := rfl
@[simp] theorem tryCatch_call (c : C) (k : R c → Prog C R ε α) (handler : ε → Prog C R ε α) :
    (call c k).tryCatch handler = call c fun r => (k r).tryCatch handler := rfl
@[simp] theorem forEach_nil (f : β → Prog C R ε Unit) : forEach f [] = ret () := rfl
@[simp] theorem forEach_cons (f : β → Prog C R ε Unit) (b : β) (bs : List β) :
    forEach f (b :: bs) = f b >>= fun _ => forEach f bs := rfl

/-- What returns nothing can be followed by nothing. -/
theorem bind_unit (p : Prog C R ε Unit) : (p >>= fun _ => ret ()) = p := by
  induction p with
  | ret a => rfl
  | throw e => rfl
  | call c k ih =>
    rw [call_bind]
    simp only [ih]

/-- What follows a program that is followed by another. -/
theorem bind_bind {γ : Type} (p : Prog C R ε α) (f : α → Prog C R ε β) (g : β → Prog C R ε γ) :
    p >>= f >>= g = p >>= fun a => f a >>= g := by
  induction p with
  | ret a => rfl
  | throw e => rfl
  | call c k ih =>
    simp only [call_bind]
    exact congrArg (call c) (funext ih)

/-- A program has a result when it is one. -/
theorem result_eq_ok {p : Prog C R ε α} {a : α} : p.result = some (.ok a) ↔ p = ret a := by
  cases p <;> simp [result]

end Prog

open Prog

/-! ## Following one program -/

/-- A protocol: which commands a state of it allows, and the state that a reply leads to. -/
structure Protocol (C : Type) (R : C → Type) (Q : Type) where
  allows : Q → C → Prop
  next : Q → (c : C) → R c → Q

/-- From the state `q`, the program sends only what the protocol allows, whatever the replies are, and it ends as `post` says. -/
def Keeps (π : Protocol C R Q) (post : Q → Except ε α → Prop) : Q → Prog C R ε α → Prop
  | q, ret a => post q (.ok a)
  | q, .throw e => post q (.error e)
  | q, call c k => π.allows q c ∧ ∀ r, Keeps π post (π.next q c r) (k r)

section Keeps

variable {π : Protocol C R Q} {post : Q → Except ε α → Prop} {q : Q}

@[simp] theorem keeps_ret {a : α} : Keeps π post q (ret a) ↔ post q (.ok a) := Iff.rfl
@[simp] theorem keeps_throw {e : ε} : Keeps π post q (.throw e) ↔ post q (.error e) := Iff.rfl
@[simp] theorem keeps_call {c : C} {k : R c → Prog C R ε α} :
    Keeps π post q (call c k) ↔ π.allows q c ∧ ∀ r, Keeps π post (π.next q c r) (k r) := Iff.rfl
@[simp] theorem keeps_send {c : C} {post : Q → Except ε (R c) → Prop} :
    Keeps π post q (send c) ↔ π.allows q c ∧ ∀ r, post (π.next q c r) (.ok r) := Iff.rfl

/-- What follows a program goes on from the state of the protocol that the program has left. -/
theorem Keeps.bind {post' : Q → Except ε β → Prop} {p : Prog C R ε α} {f : α → Prog C R ε β} (h : Keeps π post q p)
    (hok : ∀ q a, post q (.ok a) → Keeps π post' q (f a)) (herror : ∀ q e, post q (.error e) → post' q (.error e)) : Keeps π post' q (p >>= f) := by
  induction p generalizing q with
  | ret a => exact hok q a h
  | throw e => exact herror q e h
  | call c k ih => exact ⟨h.1, fun r => ih r (h.2 r)⟩

theorem Keeps.tryCatch {post' : Q → Except ε α → Prop} {p : Prog C R ε α} {handler : ε → Prog C R ε α} (h : Keeps π post q p)
    (hok : ∀ q a, post q (.ok a) → post' q (.ok a)) (herror : ∀ q e, post q (.error e) → Keeps π post' q (handler e)) :
    Keeps π post' q (p.tryCatch handler) := by
  induction p generalizing q with
  | ret a => exact hok q a h
  | throw e => exact herror q e h
  | call c k ih => exact ⟨h.1, fun r => ih r (h.2 r)⟩

theorem Keeps.mono {post' : Q → Except ε α → Prop} {p : Prog C R ε α}
    (h : Keeps π post q p) (hp : ∀ q x, post q x → post' q x) : Keeps π post' q p := by
  induction p generalizing q with
  | ret a => exact hp q _ h
  | throw e => exact hp q _ h
  | call c k ih => exact ⟨h.1, fun r => ih r (h.2 r)⟩

/-- The protocol whose commands are those that `P` allows. -/
def allowing (P : C → Prop) : Protocol C R Unit where
  allows _ c := P c
  next _ _ _ := ()

/-- What sends only commands that `P` allows keeps every protocol that always allows these. -/
theorem Keeps.of_allowing {P : C → Prop} {post : Except ε α → Prop} {p : Prog C R ε α} (h : Keeps (allowing P) (fun _ => post) () p)
    (hP : ∀ q c, P c → π.allows q c) : Keeps π (fun _ => post) q p := by
  induction p generalizing q with
  | ret a => exact h
  | throw e => exact h
  | call c k ih => exact ⟨hP q c h.1, fun r => ih r (h.2 r)⟩

end Keeps

/-! ## Taking turns -/

/-- A store, and the programs that send it commands. -/
structure Pool (C : Type) (R : C → Type) (σ ε α : Type) where
  store : σ
  threads : List (Prog C R ε α)

/-- One command of a program, or an event of the store. -/
inductive Turn (η : Type) where
  | thread (i : Nat)
  | event (e : η)
  deriving DecidableEq, Repr

/-- A turn in a pool; it fails, with the program's number, when the program has no command left. -/
def step (exec : σ → (c : C) → R c × σ) (happen : σ → η → σ) (m : Pool C R σ ε α) : Turn η → Except Nat (Pool C R σ ε α)
  | .event e => .ok { m with store := happen m.store e }
  | .thread i =>
    match m.threads[i]? with
    | some (call c k) => .ok { store := (exec m.store c).2, threads := m.threads.set i (k (exec m.store c).1) }
    | _ => .error i

/-- Every program has come to its end. -/
def Pool.Finished (m : Pool C R σ ε α) : Prop := ∀ p ∈ m.threads, p.result.isSome

instance (m : Pool C R σ ε α) : Decidable m.Finished := inferInstanceAs (Decidable (∀ p ∈ m.threads, p.result.isSome = true))

section Pool

variable {exec : σ → (c : C) → R c × σ} {happen : σ → η → σ} {m n : Pool C R σ ε α} {t : Turn η} {ts : List (Turn η)}

/-- What a turn does. -/
theorem step_cases (h : step exec happen m t = .ok n) :
    (∃ e, t = .event e ∧ n = { m with store := happen m.store e }) ∨
      ∃ i c k, t = .thread i ∧ m.threads[i]? = some (call c k) ∧
        n = { store := (exec m.store c).2, threads := m.threads.set i (k (exec m.store c).1) } := by
  cases t with
  | event e =>
    left
    exact ⟨e, rfl, (Except.ok.inj h).symm⟩
  | thread i =>
    right
    rw [step] at h
    split at h
    · rename_i c k hi
      exact ⟨i, c, k, rfl, hi, (Except.ok.inj h).symm⟩
    · cases h

/-- A program that has a command left may take its turn. -/
theorem step_thread {i : Nat} {c : C} {k : R c → Prog C R ε α} (h : m.threads[i]? = some (call c k)) :
    step exec happen m (.thread i) =
      .ok { store := (exec m.store c).2, threads := m.threads.set i (k (exec m.store c).1) } := by
  rw [step, h]

/-- Every program of the pool keeps the protocol, from some state of it. -/
def Kept (π : Protocol C R Q) (post : Q → Except ε α → Prop) (m : Pool C R σ ε α) : Prop :=
  ∀ p ∈ m.threads, ∃ q, Keeps π post q p

/-- A turn leaves every program to keep the protocol. -/
theorem kept_step {π : Protocol C R Q} {post : Q → Except ε α → Prop} (hm : Kept π post m)
    (h : step exec happen m t = .ok n) : Kept π post n := by
  obtain ⟨e, -, rfl⟩ | ⟨i, c, k, -, hi, rfl⟩ := step_cases h
  · exact hm
  · intro p hp
    obtain hp | rfl := List.mem_or_eq_of_mem_set hp
    · exact hm p hp
    · obtain ⟨q, -, hk⟩ := hm _ (List.mem_of_getElem? hi)
      exact ⟨_, hk _⟩

theorem kept_run {π : Protocol C R Q} {post : Q → Except ε α → Prop} (hm : Kept π post m)
    (h : run (step exec happen) m ts = .ok n) : Kept π post n :=
  run_preserves (step exec happen) (fun _ _ _ hm ht => kept_step hm ht) h hm

/-- A run starts no program and ends none. -/
theorem length_threads_run (h : run (step exec happen) m ts = .ok n) : n.threads.length = m.threads.length :=
  run_preserves (step exec happen) (P := fun n => n.threads.length = m.threads.length) (fun m' t n' hm ht => by
    obtain ⟨e, -, rfl⟩ | ⟨i, c, k, -, -, rfl⟩ := step_cases ht
    · exact hm
    · rw [List.length_set, hm]) h rfl

/-- Only programs of the pool take turns. -/
theorem lt_of_mem_turns (h : run (step exec happen) m ts = .ok n) {i : Nat} (hi : .thread i ∈ ts) : i < m.threads.length := by
  obtain ⟨past, rest, rfl⟩ := List.append_of_mem hi
  obtain ⟨n', hpast, hr⟩ := (Steps.run_append_ok _).1 h
  obtain ⟨n'', ht, -⟩ := (run_cons_ok _).1 hr
  rw [← length_threads_run hpast]
  obtain ⟨e, he, -⟩ | ⟨j, c, k, hj, hget, -⟩ := step_cases ht
  · cases he
  · cases hj
    exact (List.getElem?_eq_some_iff.1 hget).1

/-- A program that has returned takes no turn any more. -/
theorem not_mem_turns_of_ret {i : Nat} {a : α} (hi : m.threads[i]? = some (ret a)) (h : run (step exec happen) m ts = .ok n) :
    .thread i ∉ ts := by
  induction ts generalizing m with
  | nil => exact List.not_mem_nil
  | cons t ts ih =>
    obtain ⟨m', hs, hr⟩ := (run_cons_ok _).1 h
    obtain ⟨e, rfl, rfl⟩ | ⟨j, c, k, rfl, hj, rfl⟩ := step_cases hs
    · have hrest := ih (m := { m with store := happen m.store e }) hi hr
      simp [hrest]
    · have hij : i ≠ j := by
        rintro rfl
        rw [hi] at hj
        cases hj
      have hrest := ih (by rw [List.getElem?_set_ne (Ne.symm hij)]; exact hi) hr
      simp [hij, hrest]

/-- A program that takes no turn stays as it is. -/
theorem threads_of_not_mem {i : Nat} (h : run (step exec happen) m ts = .ok n) (hi : .thread i ∉ ts) :
    n.threads[i]? = m.threads[i]? := by
  induction ts generalizing m with
  | nil =>
    cases h
    rfl
  | cons t ts ih =>
    obtain ⟨m', hs, hr⟩ := (run_cons_ok _).1 h
    rw [ih hr fun hmem => hi (List.mem_cons_of_mem t hmem)]
    obtain ⟨e, -, rfl⟩ | ⟨j, c, k, rfl, -, rfl⟩ := step_cases hs
    · rfl
    · have hij : j ≠ i := by
        rintro rfl
        exact hi (List.mem_cons_self ..)
      exact List.getElem?_set_ne hij

/-- A program that has a command to send, and that has come to its end after a run, has sent the command in some turn. -/
theorem sent_of_result {i : Nat} {c : C} {k : R c → Prog C R ε α} (hi : m.threads[i]? = some (call c k))
    (h : run (step exec happen) m ts = .ok n) (hf : n.Finished) :
    ∃ past rest n', ts = past ++ .thread i :: rest ∧ run (step exec happen) m past = .ok n' ∧
      n'.threads[i]? = some (call c k) := by
  induction ts generalizing m with
  | nil =>
    cases h
    have := hf _ (List.mem_of_getElem? hi)
    cases this
  | cons t ts ih =>
    by_cases ht : t = .thread i
    · subst ht
      exact ⟨[], ts, m, rfl, rfl, hi⟩
    · obtain ⟨m', hs, hr⟩ := (run_cons_ok _).1 h
      have hi' : m'.threads[i]? = some (call c k) := by
        obtain ⟨e, -, rfl⟩ | ⟨j, c', k', rfl, -, rfl⟩ := step_cases hs
        · exact hi
        · rw [List.getElem?_set_ne fun he => ht (by rw [he])]
          exact hi
      obtain ⟨past, rest, n', rfl, hn', hk⟩ := ih hi' hr
      exact ⟨t :: past, rest, n', rfl, (run_cons_ok _).2 ⟨m', hs, hn'⟩, hk⟩

/-! ## What is sent -/

/-- The commands that the programs send in the turns, in their order, each with the number of the program that sends it. -/
def sentBy (exec : σ → (c : C) → R c × σ) (happen : σ → η → σ) (m : Pool C R σ ε α) : List (Turn η) → List (Nat × C)
  | [] => []
  | .event e :: ts => sentBy exec happen { m with store := happen m.store e } ts
  | .thread i :: ts =>
    match m.threads[i]? with
    | some (call c k) => (i, c) :: sentBy exec happen { store := (exec m.store c).2, threads := m.threads.set i (k (exec m.store c).1) } ts
    | _ => []

/-- The commands alone. -/
def sent (exec : σ → (c : C) → R c × σ) (happen : σ → η → σ) (m : Pool C R σ ε α) (ts : List (Turn η)) : List C :=
  (sentBy exec happen m ts).map Prod.snd

/-- The number of the program that has sent the last of the commands that `P` tells of. -/
def lastSender (P : C → Bool) (exec : σ → (c : C) → R c × σ) (happen : σ → η → σ) (m : Pool C R σ ε α) (ts : List (Turn η)) : Option Nat :=
  ((sentBy exec happen m ts).filter fun c => P c.2).getLast?.map Prod.fst

@[simp] theorem sentBy_nil : sentBy exec happen m [] = [] := rfl

@[simp] theorem sentBy_event (e : η) : sentBy exec happen m (.event e :: ts) = sentBy exec happen { m with store := happen m.store e } ts := rfl

theorem sentBy_thread {i : Nat} {c : C} {k : R c → Prog C R ε α} (hi : m.threads[i]? = some (call c k)) :
    sentBy exec happen m (.thread i :: ts) =
      (i, c) :: sentBy exec happen { store := (exec m.store c).2, threads := m.threads.set i (k (exec m.store c).1) } ts := by
  rw [sentBy, hi]

/-- What is sent in a run that is continued. -/
theorem sentBy_append (ts' : List (Turn η)) (h : run (step exec happen) m ts = .ok n) :
    sentBy exec happen m (ts ++ ts') = sentBy exec happen m ts ++ sentBy exec happen n ts' := by
  induction ts generalizing m with
  | nil =>
    cases h
    rfl
  | cons t ts ih =>
    obtain ⟨m', hs, hr⟩ := (run_cons_ok _).1 h
    obtain ⟨e, rfl, rfl⟩ | ⟨i, c, k, rfl, hi, rfl⟩ := step_cases hs
    · exact ih hr
    · rw [List.cons_append, sentBy_thread hi, sentBy_thread hi, ih hr, List.cons_append]

theorem sentBy_snoc_event (e : η) (h : run (step exec happen) m ts = .ok n) :
    sentBy exec happen m (ts ++ [.event e]) = sentBy exec happen m ts := by
  rw [sentBy_append _ h, sentBy_event, sentBy_nil, List.append_nil]

theorem sentBy_snoc_thread {i : Nat} {c : C} {k : R c → Prog C R ε α} (h : run (step exec happen) m ts = .ok n)
    (hi : n.threads[i]? = some (call c k)) : sentBy exec happen m (ts ++ [.thread i]) = sentBy exec happen m ts ++ [(i, c)] := by
  rw [sentBy_append _ h, sentBy_thread hi, sentBy_nil]

theorem sent_snoc_event (e : η) (h : run (step exec happen) m ts = .ok n) :
    sent exec happen m (ts ++ [.event e]) = sent exec happen m ts := by
  rw [sent, sent, sentBy_snoc_event e h]

/-- A turn of a program sends its next command. -/
theorem sent_snoc_thread {i : Nat} {c : C} {k : R c → Prog C R ε α} (h : run (step exec happen) m ts = .ok n)
    (hi : n.threads[i]? = some (call c k)) : sent exec happen m (ts ++ [.thread i]) = sent exec happen m ts ++ [c] := by
  rw [sent, sent, sentBy_snoc_thread h hi, List.map_append, List.map_singleton]

theorem lastSender_snoc_event {P : C → Bool} (e : η) (h : run (step exec happen) m ts = .ok n) :
    lastSender P exec happen m (ts ++ [.event e]) = lastSender P exec happen m ts := by
  rw [lastSender, lastSender, sentBy_snoc_event e h]

/-- The last sender after one more turn of a program. -/
theorem lastSender_snoc_thread {P : C → Bool} {i : Nat} {c : C} {k : R c → Prog C R ε α} (h : run (step exec happen) m ts = .ok n)
    (hi : n.threads[i]? = some (call c k)) :
    lastSender P exec happen m (ts ++ [.thread i]) = if P c then some i else lastSender P exec happen m ts := by
  rw [lastSender, lastSender, sentBy_snoc_thread h hi, List.filter_append]
  cases hP : P c <;> simp [hP]

/-! ## Labels -/

/-- Each program of the pool is the one its label says. -/
def Pool.Labelled {κ : Type} (prog : κ → Prog C R ε α) (ls : List κ) (m : Pool C R σ ε α) : Prop := m.threads = ls.map prog

/-- What a turn does, seen from the labels. -/
theorem labelled_step {κ : Type} {prog : κ → Prog C R ε α} {ls : List κ} (hm : m.Labelled prog ls)
    (h : step exec happen m t = .ok n) :
    (∃ e, t = .event e ∧ n.store = happen m.store e ∧ n.Labelled prog ls) ∨
      ∃ i l c k, t = .thread i ∧ ls[i]? = some l ∧ prog l = call c k ∧ n.store = (exec m.store c).2 ∧
        ∀ l', prog l' = k (exec m.store c).1 → n.Labelled prog (ls.set i l') := by
  rcases step_cases h with ⟨e, rfl, rfl⟩ | ⟨i, c, k, rfl, hi, rfl⟩
  · exact .inl ⟨e, rfl, rfl, hm⟩
  · right
    rw [hm, List.getElem?_map, Option.map_eq_some_iff] at hi
    obtain ⟨l, hl, hp⟩ := hi
    refine ⟨i, l, c, k, rfl, hl, hp, rfl, ?_⟩
    intro l' hl'
    rw [Pool.Labelled, hm, List.map_set, hl']

/-- What the labels have in common with a label that replaces one of them stays. -/
theorem map_set_of_eq {κ β : Type} {f : κ → β} {ls : List κ} {i : Nat} {l l' : κ} (hi : ls[i]? = some l) (hf : f l' = f l) :
    (ls.set i l').map f = ls.map f := by
  obtain ⟨hlt, hget⟩ := List.getElem?_eq_some_iff.1 hi
  rw [List.map_set, hf]
  refine List.ext_getElem? fun j => ?_
  rw [List.getElem?_set]
  split
  · rename_i hij
    subst hij
    simp [hlt, hget]
  · rfl

/-- A label after one has been replaced is the new one, or the label of another program. -/
theorem mem_set_cases {κ : Type} {ls : List κ} {i : Nat} {l l' : κ} (h : l ∈ ls.set i l') : l = l' ∨ ∃ j, j ≠ i ∧ ls[j]? = some l := by
  obtain ⟨j, hj⟩ := List.mem_iff_getElem?.1 h
  rw [List.getElem?_set] at hj
  split at hj
  · split at hj
    · cases hj
      exact .inl rfl
    · cases hj
  · rename_i hij
    exact .inr ⟨j, Ne.symm hij, hj⟩

/-- How a count over the labels changes with one of them. -/
theorem countP_set {κ : Type} (p : κ → Bool) {ls : List κ} {i : Nat} {l : κ} (hi : ls[i]? = some l) (l' : κ) :
    (ls.set i l').countP p + (if p l then 1 else 0) = ls.countP p + (if p l' then 1 else 0) := by
  obtain ⟨hlt, rfl⟩ := List.getElem?_eq_some_iff.1 hi
  have hset := List.countP_set (p := p) (a := l') hlt
  have hpos : (if p ls[i] then 1 else 0) ≤ ls.countP p := by
    split
    · rename_i hp
      exact List.countP_pos_iff.2 ⟨_, List.getElem_mem hlt, hp⟩
    · exact Nat.zero_le _
  omega

/-- Where one of two predicates holds of what a third holds of, they count as much together. -/
theorem countP_le_add {κ : Type} {p q r : κ → Bool} {ls : List κ} (h : ∀ l ∈ ls, p l = true → q l = true ∨ r l = true) :
    ls.countP p ≤ ls.countP q + ls.countP r := by
  induction ls with
  | nil => simp
  | cons l ls ih =>
    have hl := h l (List.mem_cons_self ..)
    have htail := ih fun l' hl' => h l' (List.mem_cons_of_mem l hl')
    simp only [List.countP_cons]
    cases hp : p l with
    | true =>
      rcases hl hp with hq | hr
      · rw [if_pos rfl, if_pos hq]
        omega
      · rw [if_pos rfl, if_pos hr]
        omega
    | false =>
      rw [if_neg Bool.false_ne_true]
      omega

/-- Where two predicates exclude each other, they count no more together than what both imply. -/
theorem countP_add_le {κ : Type} {p q r : κ → Bool} {ls : List κ} (hq : ∀ l ∈ ls, q l = true → p l = true ∧ r l = false)
    (hr : ∀ l ∈ ls, r l = true → p l = true) : ls.countP q + ls.countP r ≤ ls.countP p := by
  induction ls with
  | nil => simp
  | cons l ls ih =>
    have htail := ih (fun l' hl' => hq l' (List.mem_cons_of_mem l hl')) fun l' hl' => hr l' (List.mem_cons_of_mem l hl')
    simp only [List.countP_cons]
    cases hql : q l with
    | true =>
      obtain ⟨hp, hrl⟩ := hq l (List.mem_cons_self ..) hql
      rw [if_pos rfl, if_pos hp, hrl, if_neg Bool.false_ne_true]
      omega
    | false =>
      rw [if_neg Bool.false_ne_true]
      cases hrl : r l with
      | true =>
        rw [if_pos rfl, if_pos (hr l (List.mem_cons_self ..) hrl)]
        omega
      | false =>
        rw [if_neg Bool.false_ne_true]
        omega

/-! ## What a program has heard -/

/-- In the next turn of the program with number `i`, the store gives it a reply that `hit` tells of. -/
def Hears (exec : σ → (c : C) → R c × σ) (hit : (c : C) → R c → Prop) (m : Pool C R σ ε α) (i : Nat) : Prop :=
  ∃ c k, m.threads[i]? = some (call c k) ∧ hit c (exec m.store c).1

/-- The turns, from the pool `m`, in which the program with number `i` hears what `hit` tells of: there is one. -/
def Heard (exec : σ → (c : C) → R c × σ) (happen : σ → η → σ) (hit : (c : C) → R c → Prop) (m : Pool C R σ ε α)
    (ts : List (Turn η)) (i : Nat) : Prop :=
  ∃ past rest n, ts = past ++ .thread i :: rest ∧ run (step exec happen) m past = .ok n ∧ Hears exec hit n i

/-- The protocol that allows everything, and whose state says whether the program has heard what `hit` tells of. -/
def listening (hit : (c : C) → R c → Prop) : Protocol C R Prop where
  allows _ _ := True
  next q c r := q ∨ hit c r

/-- Every program keeps to listening. -/
theorem keeps_listening {hit : (c : C) → R c → Prop} {q : Prop} (p : Prog C R ε α) :
    Keeps (listening hit) (fun _ _ => True) q p := by
  induction p generalizing q with
  | ret a => trivial
  | throw e => trivial
  | call c k ih => exact ⟨trivial, fun r => ih r⟩

/-- What a program has heard, it has heard later too. -/
theorem keeps_listening_mono {hit : (c : C) → R c → Prop} {q : Prop} (p : Prog C R ε α) :
    Keeps (listening hit) (fun q' _ => q → q') q p := by
  have hkeeps : ∀ {q' : Prop}, (q → q') → Keeps (listening hit) (fun q' _ => q → q') q' p := by
    induction p with
    | ret a => exact id
    | throw e => exact id
    | call c k ih => exact fun hq => ⟨trivial, fun r => ih r fun h => .inl (hq h)⟩
  exact hkeeps id

theorem not_heard_nil {hit : (c : C) → R c → Prop} {i : Nat} : ¬ Heard exec happen hit m [] i := by
  rintro ⟨past, rest, n, hts, -, -⟩
  simp at hts

/-- What has been heard in one turn more is what was heard before, or in that turn. -/
theorem heard_snoc {hit : (c : C) → R c → Prop} {i : Nat} (hr : run (step exec happen) m ts = .ok n) :
    Heard exec happen hit m (ts ++ [t]) i ↔ Heard exec happen hit m ts i ∨ (t = .thread i ∧ Hears exec hit n i) := by
  constructor
  · rintro ⟨past, rest, n', hts, hn', hh⟩
    rcases snoc_eq_append_cons hts with ⟨-, rfl, rfl⟩ | ⟨rest, -, rfl⟩
    · rw [hr, Except.ok.injEq] at hn'
      exact .inr ⟨rfl, hn' ▸ hh⟩
    · exact .inl ⟨past, rest, n', rfl, hn', hh⟩
  · rintro (⟨past, rest, n', rfl, hn', hh⟩ | ⟨rfl, hh⟩)
    · exact ⟨past, rest ++ [t], n', by simp, hn', hh⟩
    · exact ⟨ts, [], n, rfl, hr, hh⟩

/-- What a program hears in a turn of its own. -/
theorem heard_snoc_self {hit : (c : C) → R c → Prop} {i : Nat} {c : C} {k : R c → Prog C R ε α}
    (hr : run (step exec happen) m ts = .ok n) (hi : n.threads[i]? = some (call c k)) :
    Heard exec happen hit m (ts ++ [.thread i]) i ↔ Heard exec happen hit m ts i ∨ hit c (exec n.store c).1 := by
  rw [heard_snoc hr]
  refine or_congr_right ⟨?_, fun hh => ⟨rfl, c, k, hi, hh⟩⟩
  rintro ⟨-, c', k', hi', hh⟩
  rw [hi, Option.some.injEq, call.injEq] at hi'
  obtain ⟨rfl, -⟩ := hi'
  exact hh

/-- It hears nothing in any other turn. -/
theorem heard_snoc_other {hit : (c : C) → R c → Prop} {i : Nat} (hr : run (step exec happen) m ts = .ok n) (ht : t ≠ .thread i) :
    Heard exec happen hit m (ts ++ [t]) i ↔ Heard exec happen hit m ts i := by
  rw [heard_snoc hr]
  exact or_iff_left fun hh => ht hh.1

/-- A program that listens has heard, when a run has brought it where it is, what the run has told it. -/
theorem keeps_run {hit : (c : C) → R c → Prop} {post : Prop → Except ε α → Prop} {i : Nat} {p : Prog C R ε α}
    (hi : m.threads[i]? = some p) (hp : Keeps (listening hit) post False p) (h : run (step exec happen) m ts = .ok n) :
    ∃ p', n.threads[i]? = some p' ∧ Keeps (listening hit) post (Heard exec happen hit m ts i) p' := by
  refine run_invariant (step exec happen) (fun ts n => ∃ p', n.threads[i]? = some p' ∧
    Keeps (listening hit) post (Heard exec happen hit m ts i) p') ?_ ?_ h
  · exact ⟨p, hi, by rwa [eq_false not_heard_nil]⟩
  · rintro ts n t n' hr ⟨p', hi', hp'⟩ ht
    obtain ⟨e, rfl, rfl⟩ | ⟨j, c, k, rfl, hj, rfl⟩ := step_cases ht
    · exact ⟨p', hi', by rwa [propext (heard_snoc_other hr (by simp))]⟩
    · by_cases hij : j = i
      · subst hij
        rw [hi', Option.some.injEq] at hj
        subst hj
        have hlt : j < n.threads.length := (List.getElem?_eq_some_iff.1 hi').1
        refine ⟨_, List.getElem?_set_self hlt, ?_⟩
        rw [propext (heard_snoc_self hr hi')]
        exact hp'.2 _
      · refine ⟨p', by rw [List.getElem?_set_ne hij]; exact hi', ?_⟩
        rwa [propext (heard_snoc_other hr (by simpa using hij))]

/-- What a program that has ended in a run has been told on the way. -/
theorem heard_of_result {hit : (c : C) → R c → Prop} {post : Prop → Except ε α → Prop} {p : Prog C R ε α} {r : Except ε α}
    (hm : ∀ p ∈ m.threads, Keeps (listening hit) post False p) (h : run (step exec happen) m ts = .ok n)
    {i : Nat} (hi : n.threads[i]? = some p) (hr : p.result = some r) : post (Heard exec happen hit m ts i) r := by
  have hlt : i < m.threads.length := length_threads_run h ▸ (List.getElem?_eq_some_iff.1 hi).1
  obtain ⟨p', hi', hk⟩ := keeps_run (List.getElem?_eq_getElem hlt) (hm _ (List.getElem_mem hlt)) h
  rw [hi, Option.some.injEq] at hi'
  subst hi'
  cases p with
  | ret a => exact Option.some.inj hr ▸ hk
  | throw e => exact Option.some.inj hr ▸ hk
  | call => cases hr

end Pool

/-! ## Running alone -/

/-- A program that runs alone: its result and the store that it leaves. Before each command the events of one element of `waits` happen,
and none when the list is at its end. -/
def alone (exec : σ → (c : C) → R c × σ) (happen : σ → η → σ) : Prog C R ε α → σ → List (List η) → Except ε α × σ
  | ret a, s, _ => (.ok a, s)
  | .throw e, s, _ => (.error e, s)
  | call c k, s, waits =>
    let s := (waits.headD []).foldl happen s
    alone exec happen (k (exec s c).1) (exec s c).2 waits.tail

/-- What has to hold of the store for a program that runs alone to end as `post` says, whatever happens between its commands. -/
def wp (exec : σ → (c : C) → R c × σ) (happen : σ → η → σ) : Prog C R ε α → (Except ε α → σ → Prop) → σ → Prop
  | ret a, post, s => post (.ok a) s
  | .throw e, post, s => post (.error e) s
  | call c k, post, s =>
    ∀ es : List η, wp exec happen (k (exec (es.foldl happen s) c).1) post (exec (es.foldl happen s) c).2

section Alone

variable {exec : σ → (c : C) → R c × σ} {happen : σ → η → σ} {p : Prog C R ε α} {s : σ}

/-- What is shown for all events holds of a program that runs alone. -/
theorem alone_of_wp {post : Except ε α → σ → Prop} (h : wp exec happen p post s) (waits : List (List η)) :
    post (alone exec happen p s waits).1 (alone exec happen p s waits).2 := by
  induction p generalizing s waits with
  | ret a => exact h
  | throw e => exact h
  | call c k ih => exact ih _ (h _) _

/-- What follows a program is shown from where the program ends. -/
theorem wp_bind {f : α → Prog C R ε β} {post : Except ε β → σ → Prop}
    (h : wp exec happen p (fun x s => match x with
      | .ok a => wp exec happen (f a) post s
      | .error e => post (.error e) s) s) : wp exec happen (p >>= f) post s := by
  induction p generalizing s with
  | ret a => exact h
  | throw e => exact h
  | call c k ih => exact fun es => ih _ (h es)

/-- What is said of the end may be weakened. -/
theorem wp_mono {post post' : Except ε α → σ → Prop} (h : wp exec happen p post s) (hp : ∀ x s, post x s → post' x s) :
    wp exec happen p post' s := by
  induction p generalizing s with
  | ret a => exact hp _ _ h
  | throw e => exact hp _ _ h
  | call c k ih => exact fun es => ih _ (h es)

/-- What every command that is sent preserves, and every event, holds at the end. -/
theorem wp_of_keeps {P : C → Prop} {post : Except ε α → Prop} {inv : σ → Prop} (hp : Keeps (allowing P) (fun _ => post) () p)
    (hexec : ∀ s c, P c → inv s → inv (exec s c).2) (hhappen : ∀ s e, inv s → inv (happen s e)) (hs : inv s) :
    wp exec happen p (fun r s' => post r ∧ inv s') s := by
  induction p generalizing s with
  | ret a => exact ⟨hp, hs⟩
  | throw e => exact ⟨hp, hs⟩
  | call c k ih =>
    intro es
    have hevents : inv (es.foldl happen s) := List.foldlRecOn es happen hs fun s hs e _ => hhappen s e hs
    exact ih _ (hp.2 _) (hexec _ c hp.1 hevents)

end Alone

end Interleaving
