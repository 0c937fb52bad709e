import BrineVault.Lib.Rows

/-!
# Redis: sorted sets

The commands on one key that holds a sorted set; `none` is a key that is not there. A key with an expiry is there up to the millisecond of it,
and a set that has no members any more is deleted.
-/

namespace Redis

structure SortedSet (M : Type) where
  /-- The members with their scores. -/
  members : List (M × Int)
  /-- The time in milliseconds up to which the key is there. -/
  expireAt : Option Nat
  deriving DecidableEq, Repr

namespace SortedSet

variable {M : Type}

/-- What is there of a key at a time. -/
def live (now : Nat) (s : Option (SortedSet M)) : Option (SortedSet M) := s.filter fun s => s.expireAt.all fun t => now ≤ t

/-- `ZREMRANGEBYSCORE key lo hi`. -/
def zremrangebyscore (lo hi : Int) (s : Option (SortedSet M)) : Option (SortedSet M) :=
  s.bind fun s =>
    match s.members.filter fun m => ¬ (lo ≤ m.2 ∧ m.2 ≤ hi) with
    | [] => none
    | rest => some { s with members := rest }

/-- `ZADD key score member`. A member that is there gets the new score. -/
def zadd [DecidableEq M] (score : Int) (member : M) : Option (SortedSet M) → Option (SortedSet M)
  | none => some { members := [(member, score)], expireAt := none }
  | some s => some { s with members := Rows.upsert Prod.fst (member, score) (fun _ => (member, score)) s.members }

/-- `EXPIRE key seconds`, which deletes the key when the time is up at once. -/
def expire (now seconds : Nat) (s : Option (SortedSet M)) : Option (SortedSet M) :=
  if seconds = 0 then none else s.map fun s => { s with expireAt := some (now + seconds * 1000) }

def membersOf (s : Option (SortedSet M)) : List (M × Int) := (s.map members).getD []

/-- `ZCARD key`. -/
def zcard (s : Option (SortedSet M)) : Nat := (membersOf s).length

variable {s : Option (SortedSet M)} {now later : Nat} {score : Int} {member : M} {x : M × Int}

@[simp] theorem membersOf_none : membersOf (none : Option (SortedSet M)) = [] := rfl

/-- What is removed by score are the members with a score in the range. -/
@[simp] theorem membersOf_zremrangebyscore (lo hi : Int) (s : Option (SortedSet M)) :
    membersOf (zremrangebyscore lo hi s) = (membersOf s).filter fun m => ¬ (lo ≤ m.2 ∧ m.2 ≤ hi) := by
  cases s with
  | none => rfl
  | some s =>
    simp only [zremrangebyscore, Option.bind_some, membersOf, Option.map_some, Option.getD_some]
    split
    · rename_i hnil
      rw [hnil]
      rfl
    · rfl

/-- A member that is added has the score it is added with. -/
theorem self_mem_zadd [DecidableEq M] : (member, score) ∈ membersOf (zadd score member s) := by
  cases s with
  | none => exact List.mem_singleton_self _
  | some s =>
    change _ ∈ Rows.upsert _ _ _ _
    unfold Rows.upsert
    split
    · rename_i hhas
      obtain ⟨r, hr, hkey⟩ := Rows.has_iff.1 hhas
      exact List.mem_map.2 ⟨r, hr, if_pos hkey⟩
    · simp

/-- Another member stays. -/
theorem mem_zadd_of_ne [DecidableEq M] (h : x ∈ membersOf s) (hne : x.1 ≠ member) : x ∈ membersOf (zadd score member s) := by
  cases s with
  | none => cases h
  | some s =>
    change _ ∈ Rows.upsert _ _ _ _
    unfold Rows.upsert
    split
    · exact List.mem_map.2 ⟨x, h, if_neg hne⟩
    · exact List.mem_append_left _ h

/-- Up to the expiry the members are there. -/
theorem membersOf_live_expire {seconds : Nat} (hpos : 0 < seconds) (h : later ≤ now + seconds * 1000) :
    membersOf (live later (expire now seconds s)) = membersOf s := by
  rw [expire, if_neg (Nat.ne_of_gt hpos)]
  cases s with
  | none => rfl
  | some s => simp [live, membersOf, Option.filter, h]

/-- After it they are not. -/
theorem live_expire_eq_none {seconds : Nat} (h : now + seconds * 1000 < later) : live later (expire now seconds s) = none := by
  unfold expire
  split
  · rfl
  · cases s with
    | none => rfl
    | some s =>
      have hlt : ¬ later ≤ now + seconds * 1000 := Nat.not_le.2 h
      simp [live, Option.filter, hlt]

/-- The members that are live are not more than the members. -/
theorem zcard_live_le (now : Nat) (s : Option (SortedSet M)) : zcard (live now s) ≤ zcard s := by
  cases s with
  | none => exact Nat.le_refl _
  | some s =>
    rw [live, Option.filter]
    split
    · exact Nat.le_refl _
    · exact Nat.zero_le _

/-- Removing members adds none. -/
theorem zcard_zremrangebyscore_le (lo hi : Int) (s : Option (SortedSet M)) : zcard (zremrangebyscore lo hi s) ≤ zcard s := by
  rw [zcard, membersOf_zremrangebyscore]
  exact List.length_filter_le ..

/-- Adding a member adds one at most. -/
theorem zcard_zadd_le [DecidableEq M] (score : Int) (member : M) (s : Option (SortedSet M)) : zcard (zadd score member s) ≤ zcard s + 1 := by
  cases s with
  | none => exact Nat.le_refl _
  | some s =>
    change (Rows.upsert _ _ _ _).length ≤ s.members.length + 1
    unfold Rows.upsert
    split
    · rw [Rows.updateAt, List.length_map]
      exact Nat.le_succ _
    · rw [List.length_append]
      exact Nat.le_refl _

theorem zcard_expire_le (now seconds : Nat) (s : Option (SortedSet M)) : zcard (expire now seconds s) ≤ zcard s := by
  unfold expire
  split
  · exact Nat.zero_le _
  · cases s <;> exact Nat.le_refl _

end SortedSet

end Redis
