import BrineVault.Api.Calls

/-!
# A request that nothing comes between

`runAlone` is one request from its first command to its last, while time passes between them. `Ends` is what such a request does, however
long it takes; a fact of a request is said as an `Ends` and carried to its runs by `runAlone_of_ends`.
-/

namespace BrineVault

open Interleaving

variable {α β : Type}

/-- The answer of a request, and the backend that it leaves. Before each command the milliseconds of one element of `waits` pass, and none
when the list is at its end. -/
def runAlone (p : Api α) (b : Backend) (waits : List Nat) : Except HttpException α × Backend :=
  alone Backend.exec Backend.elapse p b (waits.map fun ms => [ms])

/-- The request ends as `post` says, whatever time passes between its commands. -/
def Ends (p : Api α) (post : Except HttpException α → Backend → Prop) (b : Backend) : Prop :=
  wp Backend.exec Backend.elapse p post b

/-- Waiting again and again is waiting as long as all of it. -/
theorem Backend.foldl_elapse (es : List Nat) (b : Backend) : es.foldl Backend.elapse b = b.elapse es.sum := by
  induction es generalizing b with
  | nil => rfl
  | cons ms es ih =>
    rw [List.foldl_cons, ih, List.sum_cons]
    simp [Backend.elapse, Nat.add_assoc]

/-- The first command of a request, after the first wait. -/
theorem runAlone_call {c : Command} {k : c.Reply → Api α} (b : Backend) (waits : List Nat) :
    runAlone (.call c k) b waits =
      runAlone (k ((b.elapse (waits.headD 0)).exec c).1) ((b.elapse (waits.headD 0)).exec c).2 waits.tail := by
  cases waits <;> rfl

/-- What a program ends with is what it returns when it runs alone, whatever the waits. -/
theorem runAlone_of_ends {p : Api α} {post : Except HttpException α → Backend → Prop} {b : Backend} (h : Ends p post b)
    (waits : List Nat) : post (runAlone p b waits).1 (runAlone p b waits).2 :=
  alone_of_wp h _

section Ends

variable {post : Except HttpException α → Backend → Prop} {b : Backend}

/-- A program that returns ends with what it returns. -/
@[simp] theorem ends_ret {a : α} : Ends (.ret a) post b ↔ post (.ok a) b := Iff.rfl

/-- A program that throws ends with the exception. -/
@[simp] theorem ends_throw {e : HttpException} : Ends (.throw e) post b ↔ post (.error e) b := Iff.rfl

/-- A call is executed after some wait, and the program goes on with the reply. -/
@[simp] theorem ends_call {c : Command} {k : c.Reply → Api α} :
    Ends (.call c k) post b ↔ ∀ ms, Ends (k ((b.elapse ms).exec c).1) post ((b.elapse ms).exec c).2 := by
  constructor
  · intro h ms
    exact h [ms]
  · intro h es
    have hsum := h es.sum
    rw [← Backend.foldl_elapse] at hsum
    exact hsum

/-! ### One rule for each command that is looked into -/

/-- A `GET` answers the session there is after the wait. -/
theorem ends_get {sid : Sid} {k : Option SessionData → Api α} :
    Ends (.call (.session (.get sid)) k) post b ↔ ∀ ms, Ends (k ((b.elapse ms).session sid)) post (b.elapse ms) := ends_call

/-- A `TTL` answers what is left of the key. -/
theorem ends_ttl {sid : Sid} {k : Int → Api α} :
    Ends (.call (.session (.ttl sid)) k) post b ↔ ∀ ms, Ends (k (b.sessions.ttl (b.now + ms) sid)) post (b.elapse ms) := ends_call

/-- A `SET` stores the session for as long as it is told. -/
theorem ends_set {sid : Sid} {data : SessionData} {ex : Nat} {k : Unit → Api α} :
    Ends (.call (.session (.set sid data ex)) k) post b ↔ ∀ ms, Ends (k ()) post
      { b.elapse ms with sessions := Function.update b.sessions sid (some ⟨data, b.now + ms + ex * 1000⟩) } := ends_call

/-- `Date.now()` answers the time after the wait. -/
theorem ends_dateNow {k : Nat → Api α} :
    Ends (.call .dateNow k) post b ↔ ∀ ms, Ends (k (b.now + ms)) post (b.elapse ms) := ends_call

/-- A page of a `SCAN` answers its keys. -/
theorem ends_scan {keys : List Sid} {k : List Sid → Api α} :
    Ends (.call (.session (.scan keys)) k) post b ↔ ∀ ms, Ends (k keys) post (b.elapse ms) := ends_call

/-- An `MGET` answers the sessions there are after the wait. -/
theorem ends_mget {keys : List Sid} {k : List (Option SessionData) → Api α} :
    Ends (.call (.session (.mget keys)) k) post b ↔ ∀ ms, Ends (k (keys.map (b.elapse ms).session)) post (b.elapse ms) := ends_call

/-- A statement is executed on the accounts alone. -/
theorem ends_sql {c : Sql} {k : c.Reply → Api α} :
    Ends (.call (.sql c) k) post b ↔
      ∀ ms, Ends (k (b.accounts.exec c).1) post { b.elapse ms with accounts := (b.accounts.exec c).2 } := ends_call

/-- Two parts of a program, one after the other. -/
theorem Ends.bind {post : Except HttpException β → Backend → Prop} {p : Api α} {f : α → Api β}
    {mid : Except HttpException α → Backend → Prop} (h : Ends p mid b) (hok : ∀ a b', mid (.ok a) b' → Ends (f a) post b')
    (herror : ∀ e b', mid (.error e) b' → post (.error e) b') : Ends (p >>= f) post b := by
  refine wp_bind (wp_mono h ?_)
  intro r b' hr
  cases r with
  | ok a => exact hok a b' hr
  | error e => exact herror e b' hr

theorem Ends.mono {p : Api α} {post' : Except HttpException α → Backend → Prop} (h : Ends p post b)
    (hp : ∀ r b', post r b' → post' r b') : Ends p post' b :=
  wp_mono h hp

end Ends

end BrineVault
