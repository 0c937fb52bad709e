import BrineVault.Lib.Rows
import Mathlib.Data.List.Induction

/-!
# Applying operations again

When a list of operations is applied to a table and then applied once more, the second time changes nothing, provided that the updates
behave like assignments of columns (`Assignments`), and that no update of a row comes before the insert that creates the row (`Tidy`).
An `INSERT … ON CONFLICT DO UPDATE` that assigns every column the updates assign may come after them.
-/

namespace Rows

/-- The operations on a table. -/
inductive Op (R K : Type) where
  | insert (r : R)
  | update (k : K) (f : R → R)
  | upsert (r : R) (f : R → R)

variable {R K : Type} [DecidableEq K] (key : R → K)

namespace Op

def apply (rows : List R) : Op R K → List R
  | insert r => insertNew key r rows
  | update k f => updateAt key k f rows
  | upsert r f => Rows.upsert key r f rows

/-- What the operation does to a row with the key `k`. -/
def on (k : K) (r : R) : Op R K → R
  | insert _ => r
  | update k' f => if k' = k then f r else r
  | upsert r' f => if key r' = k then f r else r

/-- The operation leaves a row with this key in the table. -/
def Adds (k : K) : Op R K → Prop
  | insert r => key r = k
  | update _ _ => False
  | upsert r _ => key r = k

end Op

/-- Operations in order. -/
def applyAll (ops : List (Op R K)) (rows : List R) : List R := ops.foldl (Op.apply key) rows

/-- What the operations do, in order, to a row with the key `k`. -/
def effect (ops : List (Op R K)) (k : K) (r : R) : R := ops.foldl (Op.on key k) r

/-- Updates that behave like assignments of columns: they keep the key, a second time changes nothing, and what an assignment has set
before another one does not matter when it is made again after it. -/
structure Assignments (F : (R → R) → Prop) : Prop where
  key : ∀ {f}, F f → ∀ r, key (f r) = key r
  again : ∀ {f}, F f → ∀ r, f (f r) = f r
  after : ∀ {f g}, F f → F g → ∀ r, f (g (f r)) = f (g r)

/-- One operation after `before`: its update is one of `F`; an insert that inserts comes before every update of its row; an upsert
leaves its own row as it is, and assigns whatever an update assigns. -/
def TidyAt (F : (R → R) → Prop) (rows : List R) (before : List (Op R K)) : Op R K → Prop
  | .insert r => has key (key r) (applyAll key before rows) = false → ∀ x, effect key before (key r) x = x
  | .update _ f => F f
  | .upsert r f => F f ∧ f r = r ∧ ∀ g, F g → ∀ x, f (g x) = f x

/-- Operations that can be applied again. -/
def Tidy (F : (R → R) → Prop) (rows : List R) (ops : List (Op R K)) : Prop :=
  ∀ before op after, ops = before ++ op :: after → TidyAt key F rows before op

variable {key} {F : (R → R) → Prop}

@[simp] theorem applyAll_nil (rows : List R) : applyAll key ([] : List (Op R K)) rows = rows := rfl

@[simp] theorem applyAll_cons (op : Op R K) (ops : List (Op R K)) (rows : List R) :
    applyAll key (op :: ops) rows = applyAll key ops (op.apply key rows) := rfl

theorem applyAll_snoc (ops : List (Op R K)) (op : Op R K) (rows : List R) :
    applyAll key (ops ++ [op]) rows = op.apply key (applyAll key ops rows) := by
  rw [applyAll, List.foldl_append]
  rfl

theorem effect_snoc (ops : List (Op R K)) (op : Op R K) (k : K) (r : R) :
    effect key (ops ++ [op]) k r = op.on key k (effect key ops k r) := by
  rw [effect, List.foldl_append]
  rfl

/-- Operations that leave a row alone have no effect on it. -/
theorem effect_eq_self {ops : List (Op R K)} {k : K} {r : R} (h : ∀ op ∈ ops, op.on key k r = r) : effect key ops k r = r := by
  induction ops with
  | nil => rfl
  | cons op ops ih =>
    rw [effect, List.foldl_cons, h op (List.mem_cons_self ..)]
    exact ih fun o ho => h o (List.mem_cons_of_mem op ho)

/-! ## Keys -/

/-- After an upsert its key is there, and the others as before. -/
theorem has_upsert {f : R → R} (hf : ∀ r, key (f r) = key r) (k : K) (r : R) (rows : List R) :
    has key k (upsert key r f rows) = (has key k rows || decide (key r = k)) := by
  unfold upsert
  split
  · rename_i h
    rw [has_updateAt hf]
    by_cases hk : key r = k
    · rw [hk] at h
      simp [h, hk]
    · simp [hk]
  · exact has_append k rows r

namespace TidyAt

/-- After an operation those keys are there that were there, and those it adds. -/
theorem has_apply (ha : Assignments key F) {rows : List R} {before : List (Op R K)} {op : Op R K}
    (ht : TidyAt key F rows before op) (k : K) (rows' : List R) :
    has key k (op.apply key rows') = true ↔ has key k rows' = true ∨ op.Adds key k := by
  cases op with
  | insert r => simp [Op.apply, Op.Adds, has_insertNew]
  | update k' f => simp [Op.apply, Op.Adds, has_updateAt (ha.key ht)]
  | upsert r f => simp [Op.apply, Op.Adds, has_upsert (ha.key ht.1)]

/-- Where the rows it adds are there, the operation changes rows in place. -/
theorem apply_eq_map {rows : List R} {op : Op R K} (h : ∀ k, op.Adds key k → has key k rows = true) :
    op.apply key rows = rows.map fun r => op.on key (key r) r := by
  cases op with
  | insert r => simp [Op.apply, Op.on, insertNew, h (key r) rfl]
  | update k f => simp [Op.apply, Op.on, updateAt, eq_comm]
  | upsert r f => simp [Op.apply, Op.on, upsert, updateAt, h (key r) rfl, eq_comm]

/-- An operation does not change the key of a row. -/
theorem key_on (ha : Assignments key F) {rows : List R} {before : List (Op R K)} {op : Op R K}
    (ht : TidyAt key F rows before op) (k : K) (r : R) : key (op.on key k r) = key r := by
  cases op with
  | insert r' => rfl
  | update k' f =>
    simp only [Op.on]
    split
    · exact ha.key ht r
    · rfl
  | upsert r' f =>
    simp only [Op.on]
    split
    · exact ha.key ht.1 r
    · rfl

end TidyAt

/-- A list is tidy with its last operation when it is without it, and the last one is tidy behind the others. -/
theorem Tidy.snoc {rows : List R} {ops : List (Op R K)} {op : Op R K} (h : Tidy key F rows (ops ++ [op])) :
    Tidy key F rows ops ∧ TidyAt key F rows ops op :=
  ⟨fun before o after he => h before o (after ++ [op]) (by simp [he]), h ops op [] rfl⟩

/-- Everything that is added is there at the end, and what was there stays. -/
theorem has_applyAll (ha : Assignments key F) {rows : List R} {ops : List (Op R K)} (h : Tidy key F rows ops) (k : K)
    (hk : has key k rows = true ∨ ∃ op ∈ ops, op.Adds key k) : has key k (applyAll key ops rows) = true := by
  induction ops using List.reverseRecOn with
  | nil => simpa using hk
  | append_singleton ops op ih =>
    rw [applyAll_snoc, h.snoc.2.has_apply ha]
    obtain hk | ⟨o, ho, hk⟩ := hk
    · exact .inl (ih h.snoc.1 (.inl hk))
    · obtain ho | ho := List.mem_append.1 ho
      · exact .inl (ih h.snoc.1 (.inr ⟨o, ho, hk⟩))
      · exact .inr (List.mem_singleton.1 ho ▸ hk)

/-- Where the rows they add are there, the operations change rows in place. -/
theorem applyAll_eq_map (ha : Assignments key F) {rows rows' : List R} {ops : List (Op R K)} (h : Tidy key F rows ops)
    (hk : ∀ op ∈ ops, ∀ k, op.Adds key k → has key k rows' = true) :
    applyAll key ops rows' = rows'.map fun r => effect key ops (key r) r := by
  induction ops using List.reverseRecOn with
  | nil => simp [effect]
  | append_singleton ops op ih =>
    have hmap := ih h.snoc.1 fun o ho => hk o (by simp [ho])
    have hkey : ∀ (ops : List (Op R K)) (k : K) (r : R), Tidy key F rows ops → key (effect key ops k r) = key r := by
      intro ops k r ht
      induction ops using List.reverseRecOn with
      | nil => rfl
      | append_singleton ops op ih' => rw [effect_snoc, ht.snoc.2.key_on ha, ih' ht.snoc.1]
    rw [applyAll_snoc, hmap, TidyAt.apply_eq_map, List.map_map]
    · refine List.map_congr_left fun r _ => ?_
      rw [Function.comp_apply, hkey ops _ _ h.snoc.1, effect_snoc]
    · intro k hadd
      rw [has_iff]
      obtain ⟨r, hr, hrk⟩ := has_iff.1 (hk op (by simp) k hadd)
      exact ⟨_, List.mem_map_of_mem hr, (hkey ops _ _ h.snoc.1).trans hrk⟩

/-! ## The second time -/

/-- On a row an operation does nothing, or what one of the assignments does. -/
theorem on_cases {rows : List R} {before : List (Op R K)} {op : Op R K} (ht : TidyAt key F rows before op) (k : K) :
    (∀ r, op.on key k r = r) ∨ ∃ g, F g ∧ ∀ r, op.on key k r = g r := by
  cases op with
  | insert r => exact .inl fun _ => rfl
  | update k' f =>
    by_cases h : k' = k
    · exact .inr ⟨f, ht, fun r => if_pos h⟩
    · exact .inl fun r => if_neg h
  | upsert r' f =>
    by_cases h : key r' = k
    · exact .inr ⟨f, ht.1, fun r => if_pos h⟩
    · exact .inl fun r => if_neg h

/-- Rows that an assignment makes equal stay so when operations come between. -/
theorem effect_congr (ha : Assignments key F) {rows : List R} {ops : List (Op R K)} (h : Tidy key F rows ops) {f : R → R}
    (hf : F f) (k : K) {x y : R} (hxy : f x = f y) : f (effect key ops k x) = f (effect key ops k y) := by
  induction ops using List.reverseRecOn with
  | nil => exact hxy
  | append_singleton ops op ih =>
    rw [effect_snoc, effect_snoc]
    obtain hid | ⟨g, hg, hon⟩ := on_cases h.snoc.2 k
    · rw [hid, hid, ih h.snoc.1]
    · rw [hon, hon, ← ha.after hf hg, ih h.snoc.1, ha.after hf hg]

/-- An assignment of everything that updates assign hides the operations before it. -/
theorem effect_absorbed {rows : List R} {ops : List (Op R K)} (h : Tidy key F rows ops) {f : R → R}
    (hf : ∀ g, F g → ∀ x, f (g x) = f x) (k : K) (x : R) : f (effect key ops k x) = f x := by
  induction ops using List.reverseRecOn with
  | nil => rfl
  | append_singleton ops op ih =>
    rw [effect_snoc]
    obtain hid | ⟨g, hg, hon⟩ := on_cases h.snoc.2 k
    · rw [hid, ih h.snoc.1]
    · rw [hon, hf g hg, ih h.snoc.1]

/-- The operations do nothing to the rows they have led to. -/
theorem effect_of_mem_applyAll (ha : Assignments key F) {rows : List R} {ops : List (Op R K)} (h : Tidy key F rows ops) :
    ∀ r ∈ applyAll key ops rows, effect key ops (key r) r = r := by
  induction ops using List.reverseRecOn with
  | nil => exact fun _ _ => rfl
  | append_singleton ops op ih =>
    have ih := ih h.snoc.1
    have ht := h.snoc.2
    -- A row that an assignment has been made to.
    have assigned : ∀ {f : R → R} {r : R}, F f → r ∈ applyAll key ops rows →
        f (effect key ops (key r) (f r)) = f r := by
      intro f r hf hr
      rw [effect_congr ha h.snoc.1 hf (key r) (ha.again hf r), ih r hr]
    intro r hr
    rw [applyAll_snoc] at hr
    rw [effect_snoc]
    cases op with
    | insert r₀ =>
      rw [Op.apply, insertNew] at hr
      split at hr
      · exact ih r hr
      · rename_i hnew
        obtain hr | hr := List.mem_append.1 hr
        · exact ih r hr
        · rw [List.mem_singleton.1 hr]
          exact ht (Bool.eq_false_iff.2 hnew) r₀
    | update k f =>
      obtain ⟨r', hr', rfl⟩ := List.mem_map.1 hr
      by_cases hk : key r' = k
      · rw [if_pos hk, ha.key ht, Op.on, if_pos hk.symm]
        exact assigned ht hr'
      · rw [if_neg hk, Op.on, if_neg (Ne.symm hk)]
        exact ih r' hr'
    | upsert r₀ f =>
      obtain ⟨hf, hself, habs⟩ := ht
      rw [Op.apply, upsert] at hr
      split at hr
      · obtain ⟨r', hr', rfl⟩ := List.mem_map.1 hr
        by_cases hk : key r' = key r₀
        · rw [if_pos hk, ha.key hf, Op.on, if_pos hk.symm]
          exact assigned hf hr'
        · rw [if_neg hk, Op.on, if_neg (Ne.symm hk)]
          exact ih r' hr'
      · rename_i hnew
        obtain hr | hr := List.mem_append.1 hr
        · rw [Op.on, if_neg, ih r hr]
          intro hk
          exact hnew (has_iff.2 ⟨r, hr, hk.symm⟩)
        · rw [List.mem_singleton.1 hr, Op.on, if_pos rfl, effect_absorbed h.snoc.1 habs, hself]

/-- Operations that are applied again change nothing. -/
theorem applyAll_again (ha : Assignments key F) {rows : List R} {ops : List (Op R K)} (h : Tidy key F rows ops) :
    applyAll key ops (applyAll key ops rows) = applyAll key ops rows := by
  rw [applyAll_eq_map ha h fun op hop k hk => has_applyAll ha h k (.inr ⟨op, hop, hk⟩)]
  exact (List.map_congr_left (effect_of_mem_applyAll ha h)).trans (List.map_id _)

end Rows
