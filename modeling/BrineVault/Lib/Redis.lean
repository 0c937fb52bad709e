import Mathlib.Logic.Function.Basic
import Mathlib.Data.Option.Basic

/-!
# Redis: keys that expire

The commands of Redis on the keys of one prefix, for values that are always set with an expiry. A key is there up to the millisecond of
its expiry, and `TTL` answers the time that is left to the nearest second, so a key that is there can have a `TTL` of 0.
-/

namespace Redis

/-- A value, and the time in milliseconds up to which it is there. -/
structure Entry (V : Type) where
  value : V
  expireAt : Nat
  deriving DecidableEq, Repr

abbrev Keyspace (K V : Type) := K → Option (Entry V)

inductive Command (K V : Type) where
  | get (k : K)
  /-- `SET k v EX ex`. -/
  | set (k : K) (v : V) (ex : Nat)
  | del (k : K)
  | ttl (k : K)
  | existsKey (k : K)
  | mget (ks : List K)
  /-- A `SCAN` that answers `keys`: which keys it answers is up to the server. -/
  | scan (keys : List K)
  deriving DecidableEq, Repr

variable {K V : Type}

/-- What a command answers. -/
abbrev Command.Reply : Command K V → Type
  | .get _ => Option V
  | .set _ _ _ => Unit
  | .del _ => Nat
  | .ttl _ => Int
  | .existsKey _ => Nat
  | .mget _ => List (Option V)
  | .scan _ => List K

namespace Keyspace

variable (db : Keyspace K V) (now : Nat)

/-- The entry of a key that is there. -/
def live (k : K) : Option (Entry V) := (db k).filter fun e => now ≤ e.expireAt

/-- `TTL`, in seconds, and -2 for a key that is not there. -/
def ttl (k : K) : Int :=
  match db.live now k with
  | some e => ((e.expireAt - now + 500) / 1000 : Nat)
  | none => -2

/-- A command at the time `now`: its reply, and the keys that it leaves. -/
def exec [DecidableEq K] : (c : Command K V) → c.Reply × Keyspace K V
  | .get k => ((db.live now k).map (·.value), db)
  | .set k v ex => ((), Function.update db k (some { value := v, expireAt := now + ex * 1000 }))
  | .del k => ((db.live now k).isSome.toNat, Function.update db k none)
  | .ttl k => (db.ttl now k, db)
  | .existsKey k => ((db.live now k).isSome.toNat, db)
  | .mget ks => (ks.map fun k => (db.live now k).map (·.value), db)
  | .scan keys => (keys, db)

variable {db : Keyspace K V} {now later : Nat} {k : K} {e : Entry V}

/-- A key is live that is there and has not expired. -/
theorem live_eq_some : db.live now k = some e ↔ db k = some e ∧ now ≤ e.expireAt := by
  simp [live, Option.filter_eq_some_iff]

/-- A key is not live that is not there, or has expired. -/
theorem live_eq_none : db.live now k = none ↔ ∀ e, db k = some e → e.expireAt < now := by
  simp [live, Option.filter_eq_none_iff]

/-- Whether a key is live is a matter of its own entry. -/
theorem live_congr {db' : Keyspace K V} (h : db' k = db k) : db'.live now k = db.live now k := by
  rw [live, live, h]

/-- A key that has expired stays expired. -/
theorem live_eq_none_of_le (h : db.live now k = none) (hl : now ≤ later) : db.live later k = none :=
  live_eq_none.2 fun e he => Nat.lt_of_lt_of_le (live_eq_none.1 h e he) hl

/-- A positive TTL is one of an entry with half a second left at least: the TTL is rounded. -/
theorem ttl_pos (h : 0 < db.ttl now k) : ∃ e, db k = some e ∧ now + 500 ≤ e.expireAt := by
  unfold ttl at h
  split at h
  · rename_i e he
    exact ⟨e, (live_eq_some.1 he).1, by omega⟩
  · omega

/-- An entry without a positive TTL has less than half a second left. -/
theorem lt_of_ttl_nonpos (h : ¬ 0 < db.ttl now k) (he : db k = some e) : e.expireAt < now + 500 := by
  unfold ttl at h
  split at h
  · rename_i e' he'
    rw [(live_eq_some.1 he').1, Option.some.injEq] at he
    subst he
    omega
  · rename_i hnone
    have := live_eq_none.1 hnone e he
    omega

end Keyspace

end Redis
