import BrineVault.Lib.Script
import Mathlib.Logic.Function.Basic

/-!
# A cache beside a store

Readers load keys into the cache whenever they like, each as the store is then. A writer does jobs, one after the other: it issues
statements to the store, and then deletes keys. An entry is fresh as long as it is what a reader would load now, and a key stays fresh
from job to job when each job deletes it or leaves alone what is loaded under it.
-/

namespace CacheAside

open Statements (act actAll)

variable {ω σ κ V τ : Type}

/-- The store, and the entries of the cache. -/
structure State (σ κ V : Type) where
  store : σ
  cache : κ → Option V

/-- What the writer does in one job: statements, and after them the keys it deletes. -/
structure Job (ω κ : Type) where
  writes : List ω
  deletes : List κ
  deriving DecidableEq

/-- One operation of the writer. -/
inductive Op (ω κ : Type) where
  | write (w : ω)
  | delete (key : κ)

def Job.ops (j : Job ω κ) : List (Op ω κ) := j.writes.map .write ++ j.deletes.map .delete

section Store

variable [Statements ω σ]

/-- What the operation does to the store. -/
def Op.onStore (s : σ) : Op ω κ → σ
  | write w => act s w
  | delete _ => s

/-- The store after the jobs of some tasks. -/
def after (job : σ → τ → Job ω κ) (s : σ) (ts : List τ) : σ := ts.foldl (fun s t => actAll s (job s t).writes) s

/-- Writes act on the store one after the other. -/
theorem foldl_writes (s : σ) (ws : List ω) : (ws.map .write : List (Op ω κ)).foldl Op.onStore s = actAll s ws := by
  rw [List.foldl_map]
  rfl

/-- Deletions of keys leave the store alone. -/
theorem foldl_deletes (s : σ) (ds : List κ) : (ds.map .delete : List (Op ω κ)).foldl Op.onStore s = s := by
  induction ds with
  | nil => rfl
  | cons _ ds ih => exact ih

/-- A job changes the store by its writes alone. -/
theorem Job.store_ops (j : Job ω κ) (s : σ) : j.ops.foldl Op.onStore s = actAll s j.writes := by
  rw [Job.ops, List.foldl_append, foldl_writes, foldl_deletes]

end Store

/-- Nothing is cached. -/
def State.cold (s : σ) : State σ κ V := ⟨s, fun _ => none⟩

/-- The entry of a key, if there is one, is what a reader would load. -/
def Fresh (view : σ → κ → Option V) (key : κ) (st : State σ κ V) : Prop := ∀ v, st.cache key = some v → view st.store key = some v

/-- A cache that is empty is fresh. -/
theorem fresh_cold {view : σ → κ → Option V} {key : κ} (s : σ) : Fresh view key (State.cold s) := by
  intro v h
  cases h

section Runs

variable [Statements ω σ] [DecidableEq κ]

/-- What is there for a key is loaded; where there is nothing, nothing is. -/
def State.load (view : σ → κ → Option V) (st : State σ κ V) (key : κ) : State σ κ V :=
  match view st.store key with
  | none => st
  | some v => { st with cache := Function.update st.cache key (some v) }

def State.apply (st : State σ κ V) : Op ω κ → State σ κ V
  | .write w => { st with store := act st.store w }
  | .delete key => { st with cache := Function.update st.cache key none }

variable (view : σ → κ → Option V)

/-- The operations of the writer in their order, with loads before, between and after them. -/
inductive Runs : State σ κ V → List (Op ω κ) → State σ κ V → Prop
  | done (st : State σ κ V) : Runs st [] st
  | load {st st' : State σ κ V} {ops : List (Op ω κ)} (key : κ) : Runs (st.load view key) ops st' → Runs st ops st'
  | op {st st' : State σ κ V} {o : Op ω κ} {ops : List (Op ω κ)} : Runs (st.apply o) ops st' → Runs st (o :: ops) st'

/-- Jobs in turn, each for a task, and worked out from the store that the task meets. -/
inductive Serves (job : σ → τ → Job ω κ) : State σ κ V → List τ → State σ κ V → Prop
  | done {st st' : State σ κ V} : Runs view st ([] : List (Op ω κ)) st' → Serves job st [] st'
  | task {st mid st' : State σ κ V} {t : τ} {ts : List τ} :
    Runs view st (job st.store t).ops mid → Serves job mid ts st' → Serves job st (t :: ts) st'

/-- What there is for a key stays, from statement to statement. -/
def Steady (key : κ) (s : σ) : List ω → Prop
  | [] => True
  | w :: ws => (∀ v, view s key = some v → view (act s w) key = some v) ∧ Steady key (act s w) ws

variable {view} {key : κ} {st st' : State σ κ V}

omit [DecidableEq κ] in
/-- A view that the writes keep is there after all of them. -/
theorem Steady.actAll {s : σ} {ws : List ω} (h : Steady view key s ws) {v : V} (hv : view s key = some v) :
    view (Statements.actAll s ws) key = some v := by
  induction ws generalizing s with
  | nil => exact hv
  | cons w ws ih => exact ih h.2 (h.1 v hv)

/-! ## Operations -/

/-- A load leaves the store as it is. -/
@[simp] theorem store_load (key' : κ) : (st.load view key').store = st.store := by
  unfold State.load
  split <;> rfl

/-- What an operation does to the store does not depend on the cache. -/
theorem store_apply (o : Op ω κ) : (st.apply o).store = o.onStore st.store := by
  cases o <;> rfl

/-- Every load is fresh, and changes no other entry. -/
theorem Fresh.load (h : Fresh view key st) (key' : κ) : Fresh view key (st.load view key') := by
  intro v hv
  rw [store_load]
  unfold State.load at hv
  split at hv
  · exact h v hv
  · rename_i v' hv'
    by_cases hk : key = key'
    · subst hk
      have hvv : v' = v := by simpa using hv
      rw [hv', hvv]
    · exact h v (by simpa [Function.update_of_ne hk] using hv)

/-- A deletion keeps what is fresh fresh. -/
theorem Fresh.delete (h : Fresh view key st) (key' : κ) : Fresh view key (st.apply (.delete key' : Op ω κ)) := by
  intro v hv
  by_cases hk : key = key'
  · simp [State.apply, hk] at hv
  · exact h v (by simpa [State.apply, Function.update_of_ne hk] using hv)

/-- A key that has just been deleted is fresh, whatever was cached under it. -/
theorem fresh_deleted : Fresh view key (st.apply (.delete key : Op ω κ)) := by
  intro v hv
  simp [State.apply] at hv

/-- A write that keeps the view of a key keeps it fresh. -/
theorem Fresh.write (h : Fresh view key st) {w : ω} (hw : ∀ v, view st.store key = some v → view (act st.store w) key = some v) :
    Fresh view key (st.apply (.write w : Op ω κ)) := fun v hv => hw v (h v hv)

/-! ## Jobs -/

/-- A run can be cut in two. -/
theorem Runs.append {ops ops' : List (Op ω κ)} (h : Runs view st (ops ++ ops') st') :
    ∃ mid, Runs view st ops mid ∧ Runs view mid ops' st' := by
  generalize hall : ops ++ ops' = all at h
  induction h generalizing ops with
  | done st =>
    obtain ⟨rfl, rfl⟩ := List.append_eq_nil_iff.1 hall
    exact ⟨st, .done st, .done st⟩
  | load key _ ih =>
    obtain ⟨mid, hl, hr⟩ := ih hall
    exact ⟨mid, .load key hl, hr⟩
  | @op st _ o _ h ih =>
    cases ops with
    | nil =>
      subst hall
      exact ⟨st, .done st, .op h⟩
    | cons _ ops =>
      obtain ⟨rfl, hrest⟩ := List.cons.inj hall
      obtain ⟨mid, hl, hr⟩ := ih hrest
      exact ⟨mid, .op hl, hr⟩

/-- Loads do not touch the store. -/
theorem Runs.store {ops : List (Op ω κ)} (h : Runs view st ops st') : st'.store = ops.foldl Op.onStore st.store := by
  induction h with
  | done => rfl
  | load key' _ ih => rw [ih, store_load]
  | op _ ih => rw [ih, store_apply, List.foldl_cons]

/-- Writes that are steady for a key keep it fresh, with whatever loads in between. -/
theorem Runs.fresh_writes {ws : List ω} (h : Runs view st (ws.map .write) st') (hs : Steady view key st.store ws)
    (hf : Fresh view key st) : Fresh view key st' := by
  generalize hops : (ws.map .write : List (Op ω κ)) = ops at h
  induction h generalizing ws with
  | done => exact hf
  | load key' _ ih => exact ih (by rwa [store_load]) (hf.load key') hops
  | op _ ih =>
    cases ws with
    | nil => cases hops
    | cons w ws =>
      obtain ⟨rfl, hrest⟩ := List.cons.inj hops
      exact ih hs.2 (hf.write hs.1) hrest

/-- A key that is deleted is fresh at the end, whatever it was. -/
theorem Runs.fresh_deletes {ds : List κ} (h : Runs view st (ds.map .delete : List (Op ω κ)) st') (hf : key ∈ ds ∨ Fresh view key st) :
    Fresh view key st' := by
  generalize hops : (ds.map .delete : List (Op ω κ)) = ops at h
  induction h generalizing ds with
  | done =>
    rw [List.map_eq_nil_iff] at hops
    subst hops
    exact hf.resolve_left (by simp)
  | load key' _ ih => exact ih (hf.imp id fun hf => hf.load key') hops
  | op _ ih =>
    cases ds with
    | nil => cases hops
    | cons d ds =>
      obtain ⟨rfl, hrest⟩ := List.cons.inj hops
      refine ih ?_ hrest
      obtain hmem | hf := hf
      · obtain rfl | hmem := List.mem_cons.1 hmem
        · exact .inr fresh_deleted
        · exact .inl hmem
      · exact .inr (hf.delete d)

/-- A job keeps a key fresh that it deletes in the end, or whose view its writes keep. -/
theorem Runs.fresh_job {j : Job ω κ} (h : Runs view st j.ops st') (hj : key ∈ j.deletes ∨ Steady view key st.store j.writes)
    (hf : Fresh view key st) : Fresh view key st' := by
  obtain ⟨mid, hw, hd⟩ := Runs.append h
  exact hd.fresh_deletes (hj.imp id fun hs => hw.fresh_writes hs hf)

/-- Where no reader comes, an entry that is not deleted stays. -/
theorem exists_runs_keeping {ops : List (Op ω κ)} {v : V} (h : st.cache key = some v) (hops : .delete key ∉ ops) :
    ∃ st', Runs view st ops st' ∧ st'.cache key = some v := by
  induction ops generalizing st with
  | nil => exact ⟨st, .done st, h⟩
  | cons o ops ih =>
    rw [List.mem_cons, not_or] at hops
    have hone : (st.apply o).cache key = some v := by
      cases o with
      | write => exact h
      | delete key' =>
        have hne : key ≠ key' := fun he => hops.1 (by rw [he])
        simpa [State.apply, Function.update_of_ne hne] using h
    obtain ⟨st', hr, hc⟩ := ih hone hops.2
    exact ⟨st', .op hr, hc⟩

/-! ## Tasks -/

section Tasks

variable {job : σ → τ → Job ω κ} {ts : List τ}

/-- The store after the jobs is the one that their writes lead to, whatever the cache did. -/
theorem Serves.store (h : Serves view job st ts st') : st'.store = after job st.store ts := by
  induction h with
  | done h => exact h.store
  | task hr _ ih => rw [ih, hr.store, Job.store_ops, after, after, List.foldl_cons]

/-- A key is fresh after every task, when each job on the way deletes it or leaves alone what is loaded under it. -/
theorem Serves.fresh (h : Serves view job st ts st')
    (hjobs : ∀ past t rest, ts = past ++ t :: rest →
      key ∈ (job (after job st.store past) t).deletes ∨
        Steady view key (after job st.store past) (job (after job st.store past) t).writes)
    (hf : Fresh view key st) : Fresh view key st' := by
  induction h with
  | done h => exact Runs.fresh_writes (show Runs _ _ (([] : List ω).map .write) _ from h) trivial hf
  | @task st mid _ t _ hr _ ih =>
    have hmid : mid.store = after job st.store [t] := hr.store.trans (Job.store_ops _ _)
    refine ih (fun past t' rest he => ?_) (hr.fresh_job (hjobs [] t _ rfl) hf)
    rw [hmid]
    exact hjobs (t :: past) t' rest (by rw [he, List.cons_append])

/-- A job that changes what is loaded under a key, and does not delete it, leaves the entry of a reader who has just been there. -/
theorem exists_not_fresh {s : σ} {t : τ} {v : V} (hv : view s key = some v) (hkey : key ∉ (job s t).deletes)
    (hchange : view (after job s [t]) key ≠ some v) : ∃ st', Serves view job (State.cold s) [t] st' ∧ ¬ Fresh view key st' := by
  have hload : ((State.cold s).load view key).cache key = some v := by
    simp [State.load, State.cold, hv]
  have hops : .delete key ∉ (job s t).ops := by
    simpa [Job.ops] using hkey
  obtain ⟨st', hr, hc⟩ := exists_runs_keeping hload hops
  have hserves : Serves view job (State.cold s) [t] st' := .task (.load key hr) (.done (.done st'))
  refine ⟨st', hserves, fun hf => hchange ?_⟩
  have hnow := hf v hc
  rwa [hserves.store] at hnow

end Tasks

end Runs

end CacheAside
