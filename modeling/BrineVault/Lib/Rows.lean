import Mathlib.Data.List.Nodup

/-!
# Tables of rows with a unique key

A table is the list of its rows, in the order they were inserted, with a column (or several) that is unique. An insert that may
conflict does nothing where the key is there (`insertNew`) or updates the row that is there (`upsert`); an update changes the row
with the key, if there is one, in its place.
-/

namespace Rows

variable {R K : Type} [DecidableEq K] (key : R → K)

/-- The row with a key. -/
def find (k : K) (rows : List R) : Option R := rows.find? fun r => key r = k

/-- Whether some row has the key. -/
def has (k : K) (rows : List R) : Bool := rows.any fun r => key r = k

/-- `INSERT … ON CONFLICT DO NOTHING`. -/
def insertNew (r : R) (rows : List R) : List R := if has key (key r) rows then rows else rows ++ [r]

/-- `UPDATE … SET f WHERE key = k`. -/
def updateAt (k : K) (f : R → R) (rows : List R) : List R := rows.map fun r => if key r = k then f r else r

/-- `INSERT … ON CONFLICT DO UPDATE SET f`. -/
def upsert (r : R) (f : R → R) (rows : List R) : List R :=
  if has key (key r) rows then updateAt key (key r) f rows else rows ++ [r]

variable {key}

/-- A key is there exactly when a row has it. -/
theorem has_iff {k : K} {rows : List R} : has key k rows = true ↔ ∃ r ∈ rows, key r = k := by
  simp [has]

/-- A key is not there exactly when no row has it. -/
theorem has_eq_false_iff {k : K} {rows : List R} : has key k rows = false ↔ ∀ r ∈ rows, key r ≠ k := by
  simp [has]

/-- A key is there exactly when a row is found for it. -/
theorem has_eq_isSome_find (k : K) (rows : List R) : has key k rows = (find key k rows).isSome := by
  rw [has, find, List.isSome_find?]

/-- No row is found for a key that no row has. -/
theorem find_eq_none_iff {k : K} {rows : List R} : find key k rows = none ↔ ∀ r ∈ rows, key r ≠ k := by
  simp [find]

/-- The row that is found has the key. -/
theorem find_some {k : K} {rows : List R} {r : R} (h : find key k rows = some r) : r ∈ rows ∧ key r = k :=
  ⟨List.mem_of_find?_eq_some h, by simpa using List.find?_some h⟩

@[simp] theorem has_append (k : K) (rows : List R) (r : R) :
    has key k (rows ++ [r]) = (has key k rows || decide (key r = k)) := by
  simp [has]

/-- An update that keeps keys keeps which keys are there. -/
theorem has_updateAt {f : R → R} (hf : ∀ r, key (f r) = key r) (k k' : K) (rows : List R) :
    has key k (updateAt key k' f rows) = has key k rows := by
  rw [has, has, updateAt, List.any_map]
  congr 1
  funext r
  simp only [Function.comp_apply]
  split
  · rw [hf]
  · rfl

/-- The rows after an insert are the old ones and the new one. -/
theorem mem_insertNew {r r' : R} {rows : List R} : r' ∈ insertNew key r rows → r' ∈ rows ∨ r' = r := by
  unfold insertNew
  split
  · exact .inl
  · simp

/-- An insert loses no row. -/
theorem subset_insertNew {r : R} (rows : List R) : rows ⊆ insertNew key r rows := by
  unfold insertNew
  split
  · exact fun _ => id
  · exact List.subset_append_left _ _

/-- What is found after an update that keeps keys: the row as the update leaves it. -/
theorem find_updateAt {f : R → R} (hf : ∀ r, key (f r) = key r) (k k' : K) (rows : List R) :
    find key k (updateAt key k' f rows) = (find key k rows).map fun r => if k = k' then f r else r := by
  induction rows with
  | nil => rfl
  | cons r rows ih =>
    have hkey : key (if key r = k' then f r else r) = key r := by
      split
      · rw [hf]
      · rfl
    simp only [find, updateAt, List.map_cons, List.find?_cons, hkey] at ih ⊢
    by_cases hk : key r = k
    · simp [hk]
    · simpa [hk] using ih

/-- An insert adds its key, and no other. -/
theorem has_insertNew (k : K) (r : R) (rows : List R) :
    has key k (insertNew key r rows) = (has key k rows || decide (key r = k)) := by
  unfold insertNew
  split
  · rename_i h
    by_cases hk : key r = k
    · rw [hk] at h
      simp [h, hk]
    · simp [hk]
  · exact has_append k rows r

/-- What is found after an insert that may conflict: what was there, else the new row under its key. -/
theorem find_insertNew (k : K) (r : R) (rows : List R) :
    find key k (insertNew key r rows) = (find key k rows).or (if key r = k then some r else none) := by
  unfold insertNew
  split
  · rename_i h
    split
    · rename_i hk
      rw [hk, has_eq_isSome_find] at h
      obtain ⟨r', hr⟩ := Option.isSome_iff_exists.1 h
      rw [hr, Option.some_or]
    · rw [Option.or_none]
  · rw [find, List.find?_append, ← find, List.find?_cons, List.find?_nil]
    by_cases hk : key r = k <;> simp [hk]

/-- A row that was there is found after a conflicting or a new insert as before. -/
theorem find_insertNew_of_some {k : K} {r r' : R} {rows : List R} (h : find key k rows = some r') :
    find key k (insertNew key r rows) = some r' := by
  rw [find_insertNew, h, Option.some_or]

/-! ## Unique keys -/

/-- Where the key is unique, a row is the one that is found under its key. -/
theorem find_of_mem {r : R} {rows : List R} (h : (rows.map key).Nodup) (hr : r ∈ rows) : find key (key r) rows = some r := by
  cases hf : find key (key r) rows with
  | none => exact absurd rfl (find_eq_none_iff.1 hf r hr)
  | some r' =>
    obtain ⟨hm, hk⟩ := find_some hf
    rw [List.inj_on_of_nodup_map h hm hr hk]

/-- A column that is unique, and in which a row that is inserted has a new value, stays unique. -/
theorem nodup_insertNew {K' : Type} {column : R → K'} {r : R} {rows : List R} (h : (rows.map column).Nodup)
    (hr : has key (key r) rows = false → column r ∉ rows.map column) : ((insertNew key r rows).map column).Nodup := by
  unfold insertNew
  split
  · exact h
  · rename_i hh
    rw [List.map_append, List.map_singleton, List.nodup_append_comm, List.singleton_append, List.nodup_cons]
    exact ⟨hr (Bool.eq_false_iff.2 hh), h⟩

/-- A key that is not there is not among the keys of the rows. -/
theorem not_mem_map_of_has {k : K} {rows : List R} (h : has key k rows = false) : k ∉ rows.map key := by
  rw [List.mem_map]
  exact fun ⟨r, hr, hk⟩ => has_eq_false_iff.1 h r hr hk

/-- An update leaves the columns that it does not set. -/
theorem map_updateAt {K' : Type} {column : R → K'} {f : R → R} (hf : ∀ r, column (f r) = column r) (k : K) (rows : List R) :
    (updateAt key k f rows).map column = rows.map column := by
  rw [updateAt, List.map_map]
  refine List.map_congr_left fun r _ => ?_
  simp only [Function.comp_apply]
  split
  · exact hf r
  · rfl

/-! ## Some of the rows -/

/-- An update changes nothing exactly when it would set the rows of the key to what they are. -/
theorem updateAt_eq_self_iff {k : K} {f : R → R} {rows : List R} :
    updateAt key k f rows = rows ↔ ∀ r ∈ rows, key r = k → f r = r := by
  rw [updateAt]
  conv_lhs => rhs; rw [← List.map_id rows]
  rw [List.map_inj_left]
  refine forall₂_congr fun r _ => ?_
  rw [ite_eq_iff']
  simp

/-- An update and a selection that does not look at what is set may change places. -/
theorem filter_updateAt {f : R → R} {p : R → Bool} (hp : ∀ r, p (f r) = p r) (k : K) (rows : List R) :
    (updateAt key k f rows).filter p = updateAt key k f (rows.filter p) := by
  rw [updateAt, updateAt, List.filter_map]
  congr 1
  refine List.filter_congr fun r _ => ?_
  simp only [Function.comp_apply]
  split
  · exact hp r
  · rfl

/-- What an insert adds to a selection. -/
theorem filter_insertNew (p : R → Bool) (r : R) (rows : List R) :
    (insertNew key r rows).filter p =
      if has key (key r) rows = false ∧ p r = true then rows.filter p ++ [r] else rows.filter p := by
  unfold insertNew
  cases has key (key r) rows
  · rw [if_neg Bool.false_ne_true, List.filter_append, List.filter_singleton]
    cases p r <;> simp
  · simp

/-- Rows numbered below `n`, each number once, by number. -/
theorem map_mergeSort_eq_range {number : R → Nat} {rows : List R} {n : Nat} (h : (rows.map number).Nodup)
    (hmem : ∀ i, i ∈ rows.map number ↔ i < n) : (rows.mergeSort fun a b => number a ≤ number b).map number = List.range n := by
  have hsorted : ((rows.mergeSort fun a b => number a ≤ number b).map number).Pairwise (· ≤ ·) := by
    rw [List.pairwise_map]
    have hle := @List.pairwise_mergeSort R (fun a b => decide (number a ≤ number b)) ?_ ?_ rows
    · simpa using hle
    · intro a b c hab hbc
      simp only [decide_eq_true_eq] at *
      exact Nat.le_trans hab hbc
    · intro a b
      simpa using Nat.le_total (number a) (number b)
  have hperm : ((rows.mergeSort fun a b => number a ≤ number b).map number).Perm (rows.map number) := (List.mergeSort_perm ..).map number
  refine List.Perm.eq_of_pairwise (fun _ _ _ _ => Nat.le_antisymm) hsorted List.pairwise_le_range ?_
  refine hperm.trans ((List.perm_ext_iff_of_nodup h List.nodup_range).2 fun i => ?_)
  rw [hmem, List.mem_range]

end Rows
