import Mathlib.Data.List.Sort
import Mathlib.Order.Basic

/-!
# Pages of a query

A query with a limit and an offset is answered a page of its rows, in an order that the database chooses anew for each query among those
its `ORDER BY` admits: the rows by descending key, those of one key in any order. A query without `ORDER BY` is one by a constant key.
-/

namespace Paging

variable {α κ ε : Type}

/-- The page with the number `n`, counted from 0. -/
def page (limit n : Nat) (order : List α) : List α := (order.drop (n * limit)).take limit

/-- Asking for the pages from `n` on, until an empty one, gives these rows. -/
inductive Reads (ask : Nat → Except ε (List α)) : Nat → List α → Prop
  | done {n : Nat} (h : ask n = .ok []) : Reads ask n []
  | next {n : Nat} {data rest : List α} (h : ask n = .ok data) (hne : data ≠ []) (hrest : Reads ask (n + 1) rest) :
      Reads ask n (data ++ rest)

/-- A client that reads the pages gets one list. -/
theorem Reads.unique {ask : Nat → Except ε (List α)} {n : Nat} {got got' : List α} (h : Reads ask n got) (h' : Reads ask n got') :
    got = got' := by
  induction h generalizing got' with
  | done h =>
    cases h' with
    | done _ => rfl
    | next h₂ hne _ =>
      rw [h, Except.ok.injEq] at h₂
      exact absurd h₂.symm hne
  | next h hne _ ih =>
    cases h' with
    | done h₂ =>
      rw [h, Except.ok.injEq] at h₂
      exact absurd h₂ hne
    | next h₂ _ hrest =>
      rw [h, Except.ok.injEq] at h₂
      rw [h₂, ih hrest]

/-- The pages `n`, ..., `n + count - 1` one after the other, each over an order of its own. -/
def pages (limit : Nat) (orders : Nat → List α) (n count : Nat) : List α :=
  (List.range' n count).flatMap fun m => page limit m (orders m)

/-- One page, and then the others. -/
theorem pages_succ (limit : Nat) (orders : Nat → List α) (n count : Nat) :
    pages limit orders n (count + 1) = page limit n (orders n) ++ pages limit orders (n + 1) count := by
  rw [pages, List.range'_succ, List.flatMap_cons, pages]

/-- The pages can be read in two goes. -/
theorem pages_append (limit : Nat) (orders : Nat → List α) (n c d : Nat) :
    pages limit orders n (c + d) = pages limit orders n c ++ pages limit orders (n + c) d := by
  rw [pages, ← List.range'_append_1, List.flatMap_append, pages, pages]

/-- Over one order the pages are a slice of it. -/
theorem pages_of_order {limit n count : Nat} {orders : Nat → List α} {order : List α}
    (h : ∀ m, n ≤ m → m < n + count → orders m = order) :
    pages limit orders n count = (order.drop (n * limit)).take (count * limit) := by
  induction count generalizing n with
  | zero => simp [pages]
  | succ count ih =>
    have hrest := @ih (n + 1) fun m hm hlt => h m (by omega) (by omega)
    rw [pages_succ, hrest, h n le_rfl (by omega), page, Nat.add_mul, Nat.one_mul, Nat.add_mul, Nat.one_mul,
      Nat.add_comm (count * limit), List.take_add, List.drop_drop]

/-- A page is empty exactly when it begins behind the last row. -/
theorem page_eq_nil_iff {limit n : Nat} (hlimit : 0 < limit) {order : List α} : page limit n order = [] ↔ order.length ≤ n * limit := by
  rw [page, List.take_eq_nil_iff, List.drop_eq_nil_iff]
  omega

/-- With enough pages, these are what is read. -/
theorem reads_pages {limit len : Nat} (hlimit : 0 < limit) {orders : Nat → List α} (hlen : ∀ n, (orders n).length = len)
    {ask : Nat → Except ε (List α)} (hask : ∀ n, ask (n + 1) = .ok (page limit n (orders n))) {n count : Nat}
    (hc : len ≤ (n + count) * limit) : Reads ask (n + 1) (pages limit orders n count) := by
  induction count generalizing n with
  | zero => exact .done (by rw [hask, (page_eq_nil_iff hlimit).2 (by rwa [hlen])])
  | succ count ih =>
    rw [pages_succ]
    by_cases hnil : page limit n (orders n) = []
    · -- Behind an empty page there are only empty ones.
      have hend : ∀ m, n ≤ m → page limit m (orders m) = [] := by
        intro m hm
        rw [page_eq_nil_iff hlimit, hlen] at hnil ⊢
        exact hnil.trans (Nat.mul_le_mul_right limit hm)
      have hrest : pages limit orders (n + 1) count = [] := by
        rw [pages, List.flatMap_eq_nil_iff]
        intro m hm
        exact hend m (by have := (List.mem_range'_1.1 hm).1; omega)
      rw [hnil, hrest]
      exact .done (by rw [hask, hnil])
    · exact .next (hask n) hnil (ih (by rwa [Nat.add_right_comm n 1 count]))

/-! ## Sorted lists -/

section Prefix

variable {p : α → Bool} {l : List α}

/-- In a list where what satisfies `p` comes first, it is the first `countP p` elements. -/
theorem take_countP (h : l.Pairwise fun a b => p b = true → p a = true) : l.take (l.countP p) = l.filter p := by
  induction l with
  | nil => rfl
  | cons a l ih =>
    obtain ⟨ha, hl⟩ := List.pairwise_cons.1 h
    by_cases hp : p a = true
    · rw [List.countP_cons_of_pos hp, List.filter_cons_of_pos hp, List.take_succ_cons, ih hl]
    · have hnone : ∀ b ∈ l, ¬ p b = true := fun b hb hpb => hp (ha b hb hpb)
      rw [List.countP_cons_of_neg hp, List.countP_eq_zero.2 hnone, List.filter_cons_of_neg hp, List.filter_eq_nil_iff.2 hnone,
        List.take_zero]

/-- Where a predicate holds of the first elements only, it holds of those that are counted. -/
theorem getElem_iff_lt_countP (h : l.Pairwise fun a b => p b = true → p a = true) {i : Nat} (hi : i < l.length) :
    p l[i] = true ↔ i < l.countP p := by
  constructor
  · intro hp
    by_contra hle
    have hfirst : (l.take (l.countP p)).countP p = l.countP p := by
      rw [take_countP h, List.countP_filter]
      simp
    have hsum : (l.take (l.countP p) ++ l.drop (l.countP p)).countP p =
        (l.take (l.countP p)).countP p + (l.drop (l.countP p)).countP p := List.countP_append
    rw [List.take_append_drop, hfirst] at hsum
    have hmem : l[i] ∈ l.drop (l.countP p) := List.mem_drop_iff_getElem.2 ⟨i - l.countP p, by omega, by congr 1; omega⟩
    have hpos : 0 < (l.drop (l.countP p)).countP p := List.countP_pos_iff.2 ⟨l[i], hmem, hp⟩
    omega
  · intro hlt
    have hmem : l[i] ∈ l.take (l.countP p) := List.mem_take_iff_getElem.2 ⟨i, by omega, rfl⟩
    rw [take_countP h] at hmem
    exact (List.mem_filter.1 hmem).2

end Prefix

variable [LinearOrder κ] {key : α → κ} {rows order order' : List α}

/-- One of the orders of the rows that a query by descending key may answer in. -/
structure Admits (key : α → κ) (rows order : List α) : Prop where
  perm : order.Perm rows
  sorted : order.Pairwise fun a b => key b ≤ key a

/-- There is an order that the database may answer in. -/
theorem exists_admits (key : α → κ) (rows : List α) : ∃ order, Admits key rows order := by
  refine ⟨rows.mergeSort fun a b => key b ≤ key a, List.mergeSort_perm .., ?_⟩
  have := @List.pairwise_mergeSort α (fun a b => decide (key b ≤ key a)) ?_ ?_ rows
  · simpa using this
  · intro a b c hab hbc
    simp only [decide_eq_true_eq] at *
    exact hbc.trans hab
  · intro a b
    simpa using le_total (key b) (key a)

/-- The boundary behind `j` rows falls between two rows of one key: fewer than `j` rows have a greater key than some row, and more than
`j` a key at least as great. -/
def Cuts (key : α → κ) (rows : List α) (j : Nat) : Prop :=
  ∃ r ∈ rows, (rows.countP fun x => key r < key x) < j ∧ j < rows.countP fun x => key r ≤ key x

/-- The rows before a place are those that are ordered ahead, as many as are counted. -/
theorem Admits.ahead (h : Admits key rows order) (r : α) {i : Nat} (hi : i < order.length) :
    key r < key order[i] ↔ i < rows.countP fun x => key r < key x := by
  have hmono : order.Pairwise fun a b => decide (key r < key b) = true → decide (key r < key a) = true := by
    refine h.sorted.imp fun hab hb => ?_
    simp only [decide_eq_true_eq] at *
    exact lt_of_lt_of_le hb hab
  rw [← h.perm.countP_eq, ← getElem_iff_lt_countP hmono hi, decide_eq_true_eq]

/-- The same with the rows that are ordered equal. -/
theorem Admits.reaching (h : Admits key rows order) (r : α) {i : Nat} (hi : i < order.length) :
    key r ≤ key order[i] ↔ i < rows.countP fun x => key r ≤ key x := by
  have hmono : order.Pairwise fun a b => decide (key r ≤ key b) = true → decide (key r ≤ key a) = true := by
    refine h.sorted.imp fun hab hb => ?_
    simp only [decide_eq_true_eq] at *
    exact le_trans hb hab
  rw [← h.perm.countP_eq, ← getElem_iff_lt_countP hmono hi, decide_eq_true_eq]

/-- In an order that is admitted, the boundary is cut where the keys on its sides are equal. -/
theorem Admits.cuts_iff (h : Admits key rows order) {i : Nat} (hi : i + 1 < order.length) :
    Cuts key rows (i + 1) ↔ key order[i] = key order[i + 1] := by
  have hsorted : key order[i + 1] ≤ key order[i] := List.pairwise_iff_getElem.1 h.sorted i (i + 1) (by omega) hi (by omega)
  constructor
  · rintro ⟨r, _, hahead, hreach⟩
    have hle : key order[i] ≤ key r := not_lt.1 fun hlt => by
      have := (h.ahead r (by omega)).1 hlt
      omega
    have hge : key r ≤ key order[i + 1] := (h.reaching r hi).2 hreach
    exact le_antisymm (hle.trans hge) hsorted
  · intro heq
    refine ⟨order[i + 1], h.perm.subset (List.getElem_mem hi), ?_, (h.reaching _ hi).1 le_rfl⟩
    have : ¬ i < rows.countP fun x => key order[i + 1] < key x := by
      rw [← h.ahead _ (by omega), heq]
      exact lt_irrefl _
    omega

/-- What is before a boundary that cuts nothing is the same in every order. -/
theorem Admits.take_perm (h : Admits key rows order) (h' : Admits key rows order') {j : Nat} (hj : ¬ Cuts key rows j) :
    (order.take j).Perm (order'.take j) := by
  by_cases hlen : order.length ≤ j
  · have hlen' : order'.length ≤ j := by rwa [h'.perm.length_eq, ← h.perm.length_eq]
    rw [List.take_of_length_le hlen, List.take_of_length_le hlen']
    exact h.perm.trans h'.perm.symm
  · cases j with
    | zero => rw [List.take_zero, List.take_zero]
    | succ i =>
      have hi : i + 1 < order.length := by omega
      have hsorted : key order[i + 1] ≤ key order[i] := List.pairwise_iff_getElem.1 h.sorted i (i + 1) (by omega) hi (by omega)
      have hlt : key order[i + 1] < key order[i] := lt_of_le_of_ne hsorted fun he => hj ((h.cuts_iff hi).2 he.symm)
      -- The rows before the boundary are those with at least the key of the last of them.
      have hcount : (rows.countP fun x => key order[i] ≤ key x) = i + 1 := by
        have hin := (h.reaching order[i] (show i < order.length by omega)).1 le_rfl
        have hout : ¬ i + 1 < rows.countP fun x => key order[i] ≤ key x := by
          rw [← h.reaching _ hi]
          exact not_le.2 hlt
        omega
      have hfirst : ∀ {l : List α}, Admits key rows l → l.take (i + 1) = l.filter fun x => key order[i] ≤ key x := by
        intro l hl
        rw [← take_countP, hl.perm.countP_eq, hcount]
        refine hl.sorted.imp fun hab hb => ?_
        simp only [decide_eq_true_eq] at *
        exact le_trans hb hab
      rw [hfirst h, hfirst h']
      exact (h.perm.trans h'.perm.symm).filter _

/-! ## What is lost -/

/-- Where no boundary of pages of this size cuts, the pages are the first rows of any order. -/
theorem pages_perm {limit : Nat} (hc : ∀ k, ¬ Cuts key rows (k * limit)) {orders : Nat → List α}
    (ho : ∀ n, Admits key rows (orders n)) (h : Admits key rows order) (count : Nat) :
    (pages limit orders 0 count).Perm (order.take (count * limit)) := by
  induction count generalizing order with
  | zero => simp [pages]
  | succ count ih =>
    have hlast : pages limit orders (0 + count) 1 = page limit count (orders count) := by
      rw [Nat.zero_add]
      simp [pages]
    have hthis : (orders count).take (count * limit) ++ page limit count (orders count) = (orders count).take ((count + 1) * limit) := by
      rw [page, Nat.add_mul, Nat.one_mul, List.take_add]
    have hfirst := (ih (ho count)).append_right (page limit count (orders count))
    rw [pages_append, hlast]
    rw [hthis] at hfirst
    exact hfirst.trans ((ho count).take_perm h (hc (count + 1)))

/-- Where a boundary cuts, the two rows on its sides can change places. -/
theorem exists_swapped {j : Nat} (hc : Cuts key rows j) :
    ∃ (before after : List α) (a b : α), before.length + 1 = j ∧ Admits key rows (before ++ a :: b :: after) ∧
      Admits key rows (before ++ b :: a :: after) := by
  obtain ⟨order, h⟩ := exists_admits key rows
  obtain ⟨i, rfl⟩ : ∃ i, j = i + 1 := by
    obtain ⟨_, _, hpos, _⟩ := hc
    exact ⟨j - 1, by omega⟩
  have hi : i + 1 < order.length := by
    obtain ⟨_, _, _, hlt⟩ := hc
    exact lt_of_lt_of_le hlt (h.perm.length_eq ▸ List.countP_le_length)
  have hkey : key order[i] = key order[i + 1] := (h.cuts_iff hi).1 hc
  have hsplit : order = order.take i ++ order[i] :: order[i + 1] :: order.drop (i + 2) := by
    rw [← List.drop_eq_getElem_cons hi, ← List.drop_eq_getElem_cons, List.take_append_drop]
  refine ⟨order.take i, order.drop (i + 2), order[i], order[i + 1], ?_, hsplit ▸ h, ?_, ?_⟩
  · rw [List.length_take, Nat.min_eq_left (by omega)]
  · refine List.Perm.trans ?_ (hsplit ▸ h.perm)
    exact (List.Perm.swap ..).append_left _
  · have hsorted := hsplit ▸ h.sorted
    simp only [List.pairwise_append, List.pairwise_cons, List.mem_cons, forall_eq_or_imp] at hsorted ⊢
    simp only [hkey] at hsorted ⊢
    tauto

/-- Pages that are read in the one order before the boundary, and in the other behind it: `a` is on both sides, and `b` on neither. -/
theorem pages_swapped {limit k d : Nat} (hlimit : 0 < limit) {before after : List α} {a b : α} (hlen : before.length + 1 = k * limit)
    (hrest : before.length + 2 + after.length = k + d) {orders : Nat → List α}
    (hfirst : ∀ m, m < k → orders m = before ++ a :: b :: after) (hsecond : ∀ m, k ≤ m → orders m = before ++ b :: a :: after) :
    pages limit orders 0 (k + d) = before ++ a :: a :: after := by
  have hk : k ≤ k * limit := Nat.le_mul_of_pos_right k hlimit
  have hhead : pages limit orders 0 k = before ++ [a] := by
    have hbefore : ∀ m, 0 ≤ m → m < 0 + k → orders m = before ++ a :: b :: after := fun m _ hm => hfirst m (by omega)
    rw [pages_of_order hbefore, Nat.zero_mul, List.drop_zero, ← hlen, List.take_length_add_append]
    rfl
  have htail : pages limit orders k d = a :: after := by
    have hbehind : ∀ m, k ≤ m → m < k + d → orders m = before ++ b :: a :: after := fun m hm _ => hsecond m hm
    rw [pages_of_order hbehind, ← hlen, List.drop_length_add_append]
    refine List.take_of_length_le ?_
    have : d ≤ d * limit := Nat.le_mul_of_pos_right d hlimit
    simp only [List.drop_succ_cons, List.drop_zero, List.length_cons]
    omega
  rw [pages_append, hhead, Nat.zero_add, htail, List.append_assoc]
  rfl

/-- A list without repetition is no permutation of one that repeats an element in place of another. -/
theorem not_perm_of_nodup {before after : List α} {a b : α} (hn : (before ++ a :: b :: after).Nodup) :
    ¬ (before ++ a :: a :: after).Perm (before ++ a :: b :: after) := by
  intro hperm
  have hsame : (a :: a :: after).Perm (a :: b :: after) := (List.perm_append_left_iff before).1 hperm
  have hmem : b ∈ a :: after := ((List.perm_cons a).1 hsame).symm.subset (List.mem_cons_self ..)
  have hnodup : (a :: b :: after).Nodup := (List.nodup_append.1 hn).2.1
  simp only [List.nodup_cons, List.mem_cons, not_or] at hnodup hmem
  obtain rfl | hmem := hmem
  · exact hnodup.1.1 rfl
  · exact hnodup.2.1 hmem

/-- Whatever orders are chosen for the queries, the pages read one after the other give every row once. -/
def LosesNothing (key : α → κ) (rows : List α) (ask : (List α → List α) → Nat → Except ε (List α)) : Prop :=
  ∀ orders : Nat → List α → List α, (∀ n, Admits key rows (orders n rows)) →
    ∃ got, Reads (fun n => ask (orders n) n) 1 got ∧ got.Perm rows

/-- Reading by pages loses nothing exactly where no boundary of the pages cuts between rows of one key. -/
theorem losesNothing_iff {limit : Nat} (hlimit : 0 < limit) (hn : rows.Nodup)
    {ask : (List α → List α) → Nat → Except ε (List α)} (hask : ∀ order n, ask order (n + 1) = .ok (page limit n (order rows))) :
    LosesNothing key rows ask ↔ ∀ k, ¬ Cuts key rows (k * limit) := by
  have hread : ∀ orders : Nat → List α → List α, (∀ n, Admits key rows (orders n rows)) →
      Reads (fun n => ask (orders n) n) 1 (pages limit (fun n => orders (n + 1) rows) 0 rows.length) := by
    intro orders ho
    have hlen : ∀ n, (orders (n + 1) rows).length = rows.length := fun n => (ho (n + 1)).perm.length_eq
    refine reads_pages hlimit hlen (fun n => hask _ n) ?_
    rw [Nat.zero_add]
    exact Nat.le_mul_of_pos_right _ hlimit
  constructor
  · intro h k hc
    obtain ⟨before, after, a, b, hlen, hab, hba⟩ := exists_swapped hc
    have hrows : before.length + 2 + after.length = rows.length := by
      rw [← hab.perm.length_eq, List.length_append, List.length_cons, List.length_cons]
      omega
    obtain ⟨d, hd⟩ : ∃ d, rows.length = k + d := by
      have hk : k ≤ k * limit := Nat.le_mul_of_pos_right k hlimit
      exact ⟨rows.length - k, by omega⟩
    -- The order changes behind the boundary.
    let orders : Nat → List α → List α := fun n _ => if n ≤ k then before ++ a :: b :: after else before ++ b :: a :: after
    have horders : ∀ n, Admits key rows (orders n rows) := by
      intro n
      by_cases hle : n ≤ k
      · simpa only [orders, if_pos hle] using hab
      · simpa only [orders, if_neg hle] using hba
    have hpages : pages limit (fun n => orders (n + 1) rows) 0 rows.length = before ++ a :: a :: after := by
      rw [hd]
      exact pages_swapped hlimit hlen (hrows.trans hd) (fun m hm => if_pos hm) fun m hm => if_neg (by omega)
    obtain ⟨got, hgot, hperm⟩ := h orders horders
    rw [hgot.unique (hread orders horders), hpages] at hperm
    exact not_perm_of_nodup (hab.perm.nodup_iff.2 hn) (hperm.trans hab.perm.symm)
  · intro hc orders ho
    refine ⟨_, hread orders ho, ?_⟩
    have hfirst := pages_perm hc (fun n => ho (n + 1)) (ho 0) rows.length
    rw [List.take_of_length_le] at hfirst
    · exact hfirst.trans (ho 0).perm
    · rw [(ho 0).perm.length_eq]
      exact Nat.le_mul_of_pos_right _ hlimit

/-- Without `ORDER BY` every boundary within the rows cuts. -/
theorem cuts_const_iff {j : Nat} : Cuts (fun _ => ()) rows j ↔ 0 < j ∧ j < rows.length := by
  unfold Cuts
  simp only [lt_self_iff_false, decide_false, List.countP_false, le_refl, decide_true, List.countP_true]
  constructor
  · rintro ⟨_, _, h⟩
    exact h
  · intro h
    obtain ⟨r, hr⟩ := List.exists_mem_of_length_pos (Nat.zero_lt_of_lt h.2)
    exact ⟨r, hr, h⟩

/-- Without `ORDER BY` nothing is lost exactly where one page holds all rows. -/
theorem losesNothing_const_iff {limit : Nat} (hlimit : 0 < limit) (hn : rows.Nodup)
    {ask : (List α → List α) → Nat → Except ε (List α)} (hask : ∀ order n, ask order (n + 1) = .ok (page limit n (order rows))) :
    LosesNothing (fun _ => ()) rows ask ↔ rows.length ≤ limit := by
  rw [losesNothing_iff hlimit hn hask]
  constructor
  · intro h
    by_contra hlt
    refine h 1 (cuts_const_iff.2 ⟨?_, ?_⟩) <;> omega
  · intro h k hc
    obtain ⟨hpos, hlt⟩ := cuts_const_iff.1 hc
    have hk : 0 < k := Nat.pos_of_mul_pos_right hpos
    have : limit ≤ k * limit := Nat.le_mul_of_pos_left limit hk
    omega

end Paging
