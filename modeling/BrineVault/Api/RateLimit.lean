import BrineVault.Api.Exceptions
import BrineVault.Indexer.Tables
import BrineVault.Lib.SortedSets
import Mathlib.Data.List.Induction
import Mathlib.Order.Basic

/-!
# `rate-limit.guard.ts`

The guard counts the requests of a user, or of an address, in one sorted set for all routes, which each request trims and lets expire with
the window of its own route. A route keeps its limit where no other route has a shorter window.
-/

namespace BrineVault

open Redis (SortedSet)
open Redis.SortedSet

/-- The metadata of a route: the most requests, and the seconds for them. -/
structure RateLimit where
  limit : Nat
  window : Nat
  deriving DecidableEq, Repr

/-- `rate:user:{sub}` or `rate:ip:{ip}`. -/
inductive RateKey where
  | user (sub : Uuid)
  | ip (ip : String)
  deriving DecidableEq, Repr

/-- A member of the set: the time and a random number. -/
abbrev RateMember := Nat × Nat

abbrev RateKeys := RateKey → Option (SortedSet RateMember)

/-- A request of a guarded route: its user, its address, the time in milliseconds and what `Math.random` draws. -/
structure RateRequest (ρ : Type) where
  route : ρ
  user : Option Uuid
  ip : String
  now : Nat
  random : Nat
  deriving DecidableEq, Repr

/-- The exception of a request too many, with the header `Retry-After`. -/
structure RateLimitExceeded where
  exception : HttpException
  retryAfter : Nat
  deriving DecidableEq, Repr

namespace RateRequest

variable {ρ : Type}

def key (q : RateRequest ρ) : RateKey :=
  match q.user with
  | some sub => .user sub
  | none => .ip q.ip

def member (q : RateRequest ρ) : RateMember := (q.now, q.random)

end RateRequest

namespace RateLimitGuard

/-- The pipeline on the set: the count, and the set that it leaves. -/
def pipeline (config : RateLimit) (now : Nat) (member : RateMember) (s : Option (SortedSet RateMember)) :
    Nat × Option (SortedSet RateMember) :=
  let windowStart : Int := now - config.window * 1000
  let s := zadd now member (zremrangebyscore 0 windowStart (live now s))
  (zcard s, expire now config.window s)

/-- `config` is the metadata of the route. -/
def canActivate {ρ : Type} (config : Option RateLimit) (db : RateKeys) (q : RateRequest ρ) : Except RateLimitExceeded Bool × RateKeys :=
  match config with
  | none => (.ok true, db)
  | some config =>
    let r := pipeline config q.now q.member (db q.key)
    let answer :=
      if r.1 > config.limit then
        .error { exception := { status := 429, code := "RATE_LIMIT_EXCEEDED",
                                message := "Too many requests. Retry after " ++ toString config.window ++ "s" },
                 retryAfter := config.window }
      else .ok true
    (answer, Function.update db q.key r.2)

end RateLimitGuard

open RateLimitGuard

/-! ## Runs -/

variable {ρ : Type}

/-- What is in Redis after requests of routes with these limits, from these keys on. -/
def keysAfter (config : ρ → RateLimit) (db : RateKeys) (qs : List (RateRequest ρ)) : RateKeys :=
  qs.foldl (fun db q => (canActivate (some (config q.route)) db q).2) db

/-- The last request changes its own key only. -/
theorem keysAfter_snoc (config : ρ → RateLimit) (db : RateKeys) (qs : List (RateRequest ρ)) (q : RateRequest ρ) :
    keysAfter config db (qs ++ [q]) =
      Function.update (keysAfter config db qs) q.key
        (pipeline (config q.route) q.now q.member (keysAfter config db qs q.key)).2 := by
  rw [keysAfter, List.foldl_append]
  rfl

/-- The requests that the guard lets pass. -/
def passed (config : ρ → RateLimit) (db : RateKeys) : List (RateRequest ρ) → List (RateRequest ρ)
  | [] => []
  | q :: qs =>
    let r := canActivate (some (config q.route)) db q
    if r.1.isOk then q :: passed config r.2 qs else passed config r.2 qs

/-- Those that pass in two lists of requests. -/
theorem passed_append (config : ρ → RateLimit) (db : RateKeys) (qs rs : List (RateRequest ρ)) :
    passed config db (qs ++ rs) = passed config db qs ++ passed config (keysAfter config db qs) rs := by
  induction qs generalizing db with
  | nil => rfl
  | cons q qs ih =>
    simp only [List.cons_append, passed, keysAfter, List.foldl_cons]
    split
    · rw [ih, List.cons_append]
      rfl
    · exact ih _

/-- Those that pass are some of the requests, in order. -/
theorem passed_sublist (config : ρ → RateLimit) (db : RateKeys) (qs : List (RateRequest ρ)) : (passed config db qs).Sublist qs := by
  induction qs generalizing db with
  | nil => exact List.Sublist.refl _
  | cons q qs ih =>
    rw [passed]
    split
    · exact (ih _).cons_cons q
    · exact (ih _).cons q

/-- A request passes where the set holds no more than the limit, this request counted. -/
theorem isOk_canActivate (c : RateLimit) (db : RateKeys) (q : RateRequest ρ) :
    (canActivate (some c) db q).1.isOk = true ↔ (pipeline c q.now q.member (db q.key)).1 ≤ c.limit := by
  simp only [canActivate]
  split
  · rename_i hgt
    simp [Except.isOk, Except.toBool]
    omega
  · rename_i hle
    simp [Except.isOk, Except.toBool]
    omega

/-! ## What the set holds -/

/-- The requests come in the order of their times, and no two of one millisecond draw the same number. -/
structure InOrder (qs : List (RateRequest ρ)) : Prop where
  sorted : qs.Pairwise fun a b => a.now ≤ b.now
  fresh : (qs.map RateRequest.member).Nodup

/-- The set of a key holds each request of it that is not older than a window. -/
def HoldsWindow (window : Nat) (key : RateKey) (qs : List (RateRequest ρ)) (db : RateKeys) : Prop :=
  ∀ q ∈ qs, q.key = key → ∀ t, (∀ r ∈ qs, r.now ≤ t) → t < q.now + window * 1000 →
    (q.member, (q.now : Int)) ∈ membersOf (live t (db key))

variable {config : ρ → RateLimit} {key : RateKey} {window : Nat} {qs : List (RateRequest ρ)} {q : RateRequest ρ} {db : RateKeys}

/-- A member that the window of the route covers survives the pipeline. -/
theorem mem_pipeline {c : RateLimit} {now : Nat} {member : RateMember} {s : Option (SortedSet RateMember)} {x : RateMember × Int}
    (hx : x ∈ membersOf (live now s)) (hne : x.1 ≠ member) (hw : (now : Int) < x.2 + c.window * 1000) :
    x ∈ membersOf (zadd now member (zremrangebyscore 0 (now - c.window * 1000) (live now s))) := by
  refine mem_zadd_of_ne ?_ hne
  rw [membersOf_zremrangebyscore, List.mem_filter]
  refine ⟨hx, ?_⟩
  simp only [decide_eq_true_eq]
  omega

/-- A request of a route with a window at least as long keeps what the set holds of the window. -/
theorem HoldsWindow.snoc (h : HoldsWindow window key qs db) (ho : InOrder (qs ++ [q]))
    (hw : q.key = key → window ≤ (config q.route).window) :
    HoldsWindow window key (qs ++ [q]) (canActivate (some (config q.route)) db q).2 := by
  intro r hr hkey t ht hlt
  have htq : q.now ≤ t := ht q (by simp)
  have hlast : ∀ r ∈ qs, r.now ≤ q.now := fun r hr => (List.pairwise_append.1 ho.sorted).2.2 r hr q (by simp)
  by_cases hqk : q.key = key
  · subst hqk
    have hrq : r.now ≤ q.now := by
      obtain hr | hr := List.mem_append.1 hr
      · exact hlast r hr
      · rw [List.mem_singleton.1 hr]
    have hwindow := hw rfl
    have hexpire : t ≤ q.now + (config q.route).window * 1000 := by
      have : window * 1000 ≤ (config q.route).window * 1000 := Nat.mul_le_mul_right 1000 hwindow
      omega
    have hpos : 0 < (config q.route).window := by omega
    change _ ∈ membersOf (live t (Function.update db q.key _ q.key))
    rw [Function.update_self, pipeline, membersOf_live_expire hpos hexpire]
    obtain hr | hr := List.mem_append.1 hr
    · refine mem_pipeline (h r hr hkey q.now hlast (by omega)) ?_ ?_
      · have hfresh := ho.fresh
        rw [List.map_append, List.nodup_append] at hfresh
        exact hfresh.2.2 _ (List.mem_map_of_mem hr) _ (by simp)
      · push_cast
        omega
    · rw [List.mem_singleton.1 hr]
      exact self_mem_zadd
  · have hrqs : r ∈ qs := by
      obtain hr | hr := List.mem_append.1 hr
      · exact hr
      · exact absurd (List.mem_singleton.1 hr ▸ hkey) hqk
    change _ ∈ membersOf (live t (Function.update db q.key _ key))
    rw [Function.update_of_ne (Ne.symm hqk)]
    exact h r hrqs hkey t (fun r hr => ht r (List.mem_append_left _ hr)) hlt

theorem InOrder.of_snoc (h : InOrder (qs ++ [q])) : InOrder qs := by
  refine ⟨(List.pairwise_append.1 h.sorted).1, ?_⟩
  have hfresh := h.fresh
  rw [List.map_append, List.nodup_append] at hfresh
  exact hfresh.1

/-- Over a run whose requests of the key have windows at least as long. -/
theorem holdsWindow_keysAfter (ho : InOrder qs) (hw : ∀ q ∈ qs, q.key = key → window ≤ (config q.route).window) :
    HoldsWindow window key qs (keysAfter config (fun _ => none) qs) := by
  induction qs using List.reverseRecOn with
  | nil =>
    intro q hq
    cases hq
  | append_singleton qs q ih =>
    rw [keysAfter, List.foldl_append]
    exact (ih ho.of_snoc fun q hq => hw q (List.mem_append_left _ hq)).snoc ho (hw q (by simp))

/-- The requests of the key within a window, and the one that comes, are all counted. -/
theorem length_lt_pipeline (h : HoldsWindow window q.key qs db) (ho : InOrder (qs ++ [q])) {l : List (RateRequest ρ)}
    (hl : l.Sublist qs) (hin : ∀ r ∈ l, r.key = q.key ∧ q.now < r.now + window * 1000) {c : RateLimit} (hc : window ≤ c.window) :
    l.length < (pipeline c q.now q.member (db q.key)).1 := by
  have hlast : ∀ r ∈ qs, r.now ≤ q.now := fun r hr => (List.pairwise_append.1 ho.sorted).2.2 r hr q (by simp)
  have hfresh := ho.fresh
  rw [List.map_append, List.nodup_append] at hfresh
  have hnodup : ((l ++ [q]).map fun r => (r.member, (r.now : Int))).Nodup := by
    refine List.Nodup.of_map Prod.fst ?_
    rw [List.map_map]
    exact ho.fresh.sublist ((hl.append_right [q]).map RateRequest.member)
  have hsubset : ((l ++ [q]).map fun r => (r.member, (r.now : Int))) ⊆
      membersOf (zadd q.now q.member (zremrangebyscore 0 (q.now - c.window * 1000) (live q.now (db q.key)))) := by
    intro x hx
    obtain ⟨r, hr, rfl⟩ := List.mem_map.1 hx
    obtain hr | hr := List.mem_append.1 hr
    · obtain ⟨hkey, hlt⟩ := hin r hr
      have hrqs := hl.subset hr
      refine mem_pipeline (h r hrqs hkey q.now hlast hlt) (hfresh.2.2 _ (List.mem_map_of_mem hrqs) _ (by simp)) ?_
      have : window * 1000 ≤ c.window * 1000 := Nat.mul_le_mul_right 1000 hc
      push_cast
      omega
    · rw [List.mem_singleton.1 hr]
      exact self_mem_zadd
  have hlen := hnodup.length_le_of_subset hsubset
  rw [List.length_map, List.length_append, List.length_singleton] at hlen
  exact hlen

/-! ## How many are counted -/

/-- The request counts itself. -/
theorem pipeline_pos (c : RateLimit) (now : Nat) (member : RateMember) (s : Option (SortedSet RateMember)) :
    0 < (pipeline c now member s).1 :=
  List.length_pos_of_mem self_mem_zadd

/-- It counts no more than what is live, and itself. -/
theorem pipeline_le (c : RateLimit) (now : Nat) (member : RateMember) (s : Option (SortedSet RateMember)) :
    (pipeline c now member s).1 ≤ zcard (live now s) + 1 :=
  (zcard_zadd_le _ _ _).trans (Nat.succ_le_succ (zcard_zremrangebyscore_le _ _ _))

/-- A route with the limit 0 lets nothing pass. -/
theorem limit_pos_of_mem_passed (h : q ∈ passed config db qs) : 0 < (config q.route).limit := by
  induction qs generalizing db with
  | nil => cases h
  | cons r qs ih =>
    rw [passed] at h
    split at h
    · rename_i hok
      obtain rfl | h := List.mem_cons.1 h
      · exact (pipeline_pos ..).trans_le ((isOk_canActivate _ _ _).1 hok)
      · exact ih h
    · exact ih h

/-- A key holds no more members than there were requests. -/
theorem zcard_keysAfter_le (config : ρ → RateLimit) (qs : List (RateRequest ρ)) (key : RateKey) :
    zcard (keysAfter config (fun _ => none) qs key) ≤ qs.length := by
  induction qs using List.reverseRecOn with
  | nil => exact le_rfl
  | append_singleton qs q ih =>
    rw [keysAfter_snoc, List.length_append, List.length_singleton]
    by_cases hkey : key = q.key
    · subst hkey
      rw [Function.update_self]
      refine (zcard_expire_le ..).trans ((pipeline_le ..).trans (Nat.succ_le_succ ?_))
      exact (zcard_live_le ..).trans ih
    · rw [Function.update_of_ne hkey]
      omega

/-- As many requests as the limits allow pass, from empty keys on. -/
theorem passed_eq_self (h : ∀ q ∈ qs, qs.length ≤ (config q.route).limit) : passed config (fun _ => none) qs = qs := by
  induction qs using List.reverseRecOn with
  | nil => rfl
  | append_singleton qs q ih =>
    have hlen : ∀ r ∈ qs ++ [q], qs.length + 1 ≤ (config r.route).limit := fun r hr => by
      have := h r hr
      rwa [List.length_append] at this
    have hpast := ih fun r hr => (Nat.le_succ _).trans (hlen r (List.mem_append_left _ hr))
    rw [passed_append, hpast, passed, passed]
    refine congrArg (qs ++ ·) (if_pos ?_)
    rw [isOk_canActivate]
    refine (pipeline_le ..).trans (le_trans ?_ (hlen q (by simp)))
    exact Nat.succ_le_succ ((zcard_live_le ..).trans (zcard_keysAfter_le config qs q.key))

/-! ## A run through a shorter window -/

/-- A request of a route, of one address. -/
def requestAt (route : ρ) (now random : Nat) : RateRequest ρ := { route, user := none, ip := "", now, random }

/-- As many requests of one route as its limit, a request of another route, and when the window of that has gone by one more of the
first. -/
def throughShortWindow (config : ρ → RateLimit) (route short : ρ) : List (RateRequest ρ) :=
  ((List.range (config route).limit).map (requestAt route 0) ++ [requestAt short 0 (config route).limit]) ++
    [requestAt route ((config short).window * 1000 + 1) 0]

/-- The requests of the sample are in order. -/
theorem inOrder_throughShortWindow (config : ρ → RateLimit) (route short : ρ) : InOrder (throughShortWindow config route short) := by
  refine ⟨?_, ?_⟩
  · have hsame : (List.range (config route).limit).Pairwise fun _ _ => True := List.pairwise_of_forall fun _ _ => trivial
    simpa [throughShortWindow, List.pairwise_append, List.pairwise_map, requestAt] using hsame
  · have hinj : Function.Injective (RateRequest.member ∘ requestAt route 0) := fun i j h => (Prod.mk.inj h).2
    have hrange : ((List.range (config route).limit).map (RateRequest.member ∘ requestAt route 0)).Nodup := List.nodup_range.map hinj
    simp only [throughShortWindow, List.map_append, List.map_map, List.map_cons, List.map_nil, List.nodup_append, hrange,
      List.nodup_singleton, List.mem_map, List.mem_range, List.mem_append, List.mem_singleton, true_and]
    refine ⟨?_, ?_⟩
    · rintro _ ⟨i, hi, rfl⟩ _ rfl h
      have : i = (config route).limit := (Prod.mk.inj h).2
      omega
    · rintro _ (⟨i, -, rfl⟩ | rfl) _ rfl h
      · have : 0 = (config short).window * 1000 + 1 := (Prod.mk.inj h).1
        omega
      · have : 0 = (config short).window * 1000 + 1 := (Prod.mk.inj h).1
        omega

/-! ## The limit of a route -/

variable [DecidableEq ρ] {route : ρ}

/-- How many requests of a key pass on a route, in the window of the route that begins at `start`. -/
def passedWithin (config : ρ → RateLimit) (qs : List (RateRequest ρ)) (key : RateKey) (route : ρ) (start : Nat) : Nat :=
  (passed config (fun _ => none) qs).countP fun q =>
    q.route = route ∧ q.key = key ∧ start ≤ q.now ∧ q.now < start + (config route).window * 1000

/-- In a run in which no request of the key has a shorter window than the route, the route keeps its limit. -/
theorem passedWithin_le (ho : InOrder qs) (hw : ∀ q ∈ qs, q.key = key → (config route).window ≤ (config q.route).window) (start : Nat) :
    passedWithin config qs key route start ≤ (config route).limit := by
  induction qs using List.reverseRecOn with
  | nil => exact Nat.zero_le _
  | append_singleton qs q ih =>
    have hpast := ih ho.of_snoc fun q hq => hw q (List.mem_append_left _ hq)
    unfold passedWithin at hpast ⊢
    rw [passed_append, List.countP_append]
    simp only [passed]
    split
    · rename_i hok
      rw [isOk_canActivate] at hok
      rw [List.countP_singleton]
      split
      · rename_i hin
        simp only [decide_eq_true_eq] at hin
        obtain ⟨rfl, rfl, hstart, hend⟩ := hin
        rw [List.countP_eq_length_filter]
        -- Every request that has passed in the window is still counted.
        refine lt_of_lt_of_le (length_lt_pipeline ?_ ho (List.filter_sublist.trans (passed_sublist config (fun _ => none) qs)) ?_ le_rfl) hok
        · exact holdsWindow_keysAfter ho.of_snoc fun r hr => hw r (List.mem_append_left _ hr)
        · intro r hr
          have hr := of_decide_eq_true (List.mem_filter.1 hr).2
          exact ⟨hr.2.1, by omega⟩
      · exact hpast
    · exact hpast

/-- In the window of the route one request too many passes: the set has gone with the shorter window. -/
theorem limit_lt_passedWithin {short : ρ} (hpos : 0 < (config route).limit) (hshort : (config short).window < (config route).window) :
    (config route).limit < passedWithin config (throughShortWindow config route short) (.ip "") route 0 := by
  have hfirst : passed config (fun _ => none) ((List.range (config route).limit).map (requestAt route 0)) =
      (List.range (config route).limit).map (requestAt route 0) := by
    refine passed_eq_self fun q hq => ?_
    obtain ⟨i, -, rfl⟩ := List.mem_map.1 hq
    rw [List.length_map, List.length_range]
    exact le_rfl
  have hlast : ∀ db : RateKeys, live ((config short).window * 1000 + 1) (db (.ip "")) = none →
      passed config db [requestAt route ((config short).window * 1000 + 1) 0] = [requestAt route ((config short).window * 1000 + 1) 0] := by
    intro db hnone
    refine if_pos ?_
    rw [isOk_canActivate]
    refine (pipeline_le ..).trans ?_
    change zcard (live ((config short).window * 1000 + 1) (db (.ip ""))) + 1 ≤ (config route).limit
    rw [hnone]
    exact hpos
  rw [passedWithin, throughShortWindow, passed_append, passed_append, hfirst, hlast]
  · have hall : ∀ q ∈ (List.range (config route).limit).map (requestAt route 0),
        decide (q.route = route ∧ q.key = .ip "" ∧ 0 ≤ q.now ∧ q.now < 0 + (config route).window * 1000) = true := by
      intro q hq
      obtain ⟨i, -, rfl⟩ := List.mem_map.1 hq
      refine decide_eq_true ⟨rfl, rfl, Nat.zero_le _, ?_⟩
      change 0 < 0 + (config route).window * 1000
      omega
    have hone : [requestAt route ((config short).window * 1000 + 1) 0].countP
        (fun q => q.route = route ∧ q.key = .ip "" ∧ 0 ≤ q.now ∧ q.now < 0 + (config route).window * 1000) = 1 := by
      refine List.countP_eq_length.2 fun q hq => ?_
      rw [List.mem_singleton.1 hq]
      refine decide_eq_true ⟨rfl, rfl, Nat.zero_le _, ?_⟩
      change (config short).window * 1000 + 1 < 0 + (config route).window * 1000
      omega
    rw [List.countP_append, List.countP_append, List.countP_eq_length.2 hall, hone, List.length_map, List.length_range]
    omega
  · rw [keysAfter_snoc, show (.ip "" : RateKey) = (requestAt short 0 (config route).limit).key from rfl, Function.update_self]
    refine @live_expire_eq_none _ _ 0 _ (config short).window ?_
    omega

/-- For one user or address, each route lets no more requests pass in its window than its limit, whatever the requests of the routes are. -/
def KeepsLimits (config : ρ → RateLimit) : Prop :=
  ∀ qs, InOrder qs → ∀ key route start, passedWithin config qs key route start ≤ (config route).limit

/-- A route keeps its limit in each run in which no request of the user has a shorter window, and the routes keep their limits in all runs
exactly where no route has a shorter window than one that lets any request pass. -/
theorem keepsLimits_iff (config : ρ → RateLimit) :
    (∀ qs, InOrder qs → ∀ key route, (∀ q ∈ qs, q.key = key → (config route).window ≤ (config q.route).window) →
      ∀ start, passedWithin config qs key route start ≤ (config route).limit) ∧
    (KeepsLimits config ↔ ∀ route short, 0 < (config route).limit → (config route).window ≤ (config short).window) := by
  refine ⟨fun qs ho key route hw start => passedWithin_le ho hw start, fun h route short hpos => ?_, fun h qs ho key route start => ?_⟩
  · by_contra hshort
    exact absurd (h _ (inOrder_throughShortWindow config route short) (.ip "") route 0)
      (not_le.2 (limit_lt_passedWithin hpos (not_le.1 hshort)))
  · by_cases hpos : 0 < (config route).limit
    · exact passedWithin_le ho (fun q _ _ => h route q.route hpos) start
    · have hnone : passedWithin config qs key route start = 0 := by
        refine List.countP_eq_zero.2 fun q hq hin => hpos ?_
        rw [← (of_decide_eq_true hin).1]
        exact limit_pos_of_mem_passed hq
      omega

/-- One request a minute on a route, and ten a second on another. -/
def Sample.limits : Bool → RateLimit
  | true => { limit := 1, window := 60 }
  | false => { limit := 10, window := 1 }

/-- A request of the second route lets the first be asked again after a second. -/
theorem passes_twice_a_minute :
    passedWithin Sample.limits [requestAt true 0 0, requestAt false 0 1, requestAt true 1001 0] (.ip "") true 0 = 2 ∧
      ¬ KeepsLimits Sample.limits := by
  have htwo : passedWithin Sample.limits [requestAt true 0 0, requestAt false 0 1, requestAt true 1001 0] (.ip "") true 0 = 2 := by decide
  refine ⟨htwo, fun h => ?_⟩
  have hle := h [requestAt true 0 0, requestAt false 0 1, requestAt true 1001 0] ⟨by decide, by decide⟩ (.ip "") true 0
  rw [htwo] at hle
  exact absurd hle (by decide)

end BrineVault
