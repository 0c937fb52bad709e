import BrineVault.Lib.Hex
import BrineVault.Lib.Zod

/-!
# `client.ts`: a request that writes

`ApiClient.post` against a server that executes a request or not. An exchange that ends in a `TypeError` is repeated up to three times, and an
answer 401 begins a second round after a refresh. The client cannot tell a request that the network lost from an answer that it lost, so
that it sends a request again that has been executed.
-/

namespace BrineVault

open Js (Value)

/-- What `res.json()` does: it gives a value, it rejects with a `TypeError` where the rest of the answer is lost, or with a `SyntaxError`. -/
inductive Body where
  | json (v : Value)
  | lost
  | malformed

structure PostResponse where
  status : Nat
  statusText : List UInt16
  body : Body

/-- What becomes of a request that the client sends, and whether the server executes it. -/
inductive Exchange where
  | requestLost
  | answerLost (isExecuted : Bool)
  | answered (isExecuted : Bool) (res : PostResponse)

/-- How a call ends. `details` is `none` for `undefined`. -/
inductive PostResult where
  | returned (body : Option Value)
  | requestError (message code : Value) (status : Nat) (details : Option Value)
  | typeError
  | syntaxError

/-- A text of ASCII characters. -/
def asciiText (s : String) : Value := .string (s.toList.map Hex.unit)

/-- `v[key]` of a value that is not `null`, with `none` for `undefined`. -/
def property (key : String) : Value → Option Value
  | .object members => (members.reverse.find? fun m => m.1 = key).map Prod.snd
  | _ => none

/-- `v ?? otherwise`. -/
def orElse (v : Option Value) (otherwise : Value) : Value :=
  match v with
  | none | some .null => otherwise
  | some v => v

namespace PostResponse

/-- What follows an answer other than 401. The error of a body `null` has no `message` to read. -/
def settle (res : PostResponse) : PostResult :=
  if res.status < 200 ∨ 300 ≤ res.status then
    match res.body with
    | .json .null => .typeError
    | .json error =>
      .requestError (orElse (property "message" error) (asciiText "Request failed")) (orElse (property "code" error) (asciiText "E_UNKNOWN"))
        res.status (property "details" error)
    | .lost | .malformed => .requestError (.string res.statusText) (asciiText "E_UNKNOWN") res.status none
  else if res.status = 204 then .returned none
  else
    match res.body with
    | .json v => .returned (some v)
    | .lost => .typeError
    | .malformed => .syntaxError

end PostResponse

def PostResult.isTypeError : PostResult → Bool
  | .typeError => true
  | _ => false

namespace Exchange

/-- The server has executed the request. -/
def isExecuted : Exchange → Bool
  | .requestLost => false
  | .answerLost isExecuted | .answered isExecuted _ => isExecuted

/-- The answer is a 401. -/
def isUnauthorised : Exchange → Bool
  | .answered _ res => res.status = 401
  | _ => false

/-- The attempt ends in a `TypeError`. -/
def isTypeError : Exchange → Bool
  | .answered _ res => res.status ≠ 401 && res.settle.isTypeError
  | _ => true

end Exchange

/-- How many requests have been sent by the end of a call, and how it ends. -/
structure Posted where
  sent : Nat
  result : PostResult

namespace ApiClient

/-- `net` says what becomes of each request, `sent` how many have been sent, and `left` how many attempts there are after this one. -/
def postAttempts (net : Nat → Exchange) (on401 : Nat → Posted) : (left sent : Nat) → Posted
  | 0, sent =>
    match net sent with
    | .answered _ res => if res.status = 401 then on401 (sent + 1) else ⟨sent + 1, res.settle⟩
    | _ => ⟨sent + 1, .typeError⟩
  | left + 1, sent =>
    match net sent with
    | .answered _ res =>
      if res.status = 401 then on401 (sent + 1)
      else if res.settle.isTypeError then postAttempts net on401 left (sent + 1)
      else ⟨sent + 1, res.settle⟩
    | _ => postAttempts net on401 left (sent + 1)

/-- The end of a call that is not authorised. -/
def postUnauthorised (sent : Nat) : Posted := ⟨sent, .requestError (asciiText "Unauthorised") (asciiText "E_UNAUTHORISED") 401 none⟩

/-- `fetch` with `_isRetry`. -/
def postRetry (net : Nat → Exchange) (sent : Nat) : Posted := postAttempts net postUnauthorised 3 sent

/-- `post`; `refreshed` says whether a refresh succeeds. -/
def post (net : Nat → Exchange) (refreshed : Bool) : Posted :=
  postAttempts net (fun sent => if refreshed then postRetry net sent else postUnauthorised sent) 3 0

end ApiClient

/-- How often the server executes the request of a call. -/
def executions (net : Nat → Exchange) (refreshed : Bool) : Nat :=
  (List.range (ApiClient.post net refreshed).sent).countP fun n => (net n).isExecuted

/-- The first answer 401 is that to the request number `u`, and the client refreshes after it. -/
def RefreshesAfter (net : Nat → Exchange) (refreshed : Bool) (u : Nat) : Prop :=
  refreshed = true ∧ (net u).isUnauthorised = true ∧ ∀ k < u, (net k).isUnauthorised = false

/-- The client sends the request again after the one with the number `k`: the attempt has ended in a `TypeError` and was not the fourth of
its round, or it was answered the first 401 and the refresh succeeds. -/
def SendsAgain (net : Nat → Exchange) (refreshed : Bool) (k : Nat) : Prop :=
  RefreshesAfter net refreshed k ∨
    ((net k).isTypeError = true ∧ (k < 3 ∨ ∃ u < k, RefreshesAfter net refreshed u ∧ k < u + 4))

/-! ## The loop -/

namespace ApiClient

variable {net : Nat → Exchange} {on401 : Nat → Posted} {refreshed : Bool} {left sent : Nat}

/-- An answer 401 is no lost exchange. -/
theorem isTypeError_of_isUnauthorised {e : Exchange} (h : e.isUnauthorised = true) : e.isTypeError = false := by
  cases e with
  | answered _ res =>
    have h401 : res.status = 401 := of_decide_eq_true h
    simp [Exchange.isTypeError, h401]
  | _ => cases h

/-- After an answer 401 the call sends what the second round sends. -/
theorem sent_of_unauthorised (h : (net sent).isUnauthorised = true) :
    (postAttempts net on401 left sent).sent = (on401 (sent + 1)).sent := by
  cases hnet : net sent with
  | answered _ res =>
    rw [hnet] at h
    have h401 : res.status = 401 := of_decide_eq_true h
    cases left <;> simp [postAttempts, hnet, h401]
  | _ =>
    rw [hnet] at h
    cases h

/-- After a lost exchange it sends what the next attempts send. -/
theorem sent_of_typeError (h : (net sent).isTypeError = true) :
    (postAttempts net on401 (left + 1) sent).sent = (postAttempts net on401 left (sent + 1)).sent := by
  cases hnet : net sent with
  | answered _ res =>
    rw [hnet, Exchange.isTypeError, Bool.and_eq_true, decide_eq_true_eq] at h
    simp [postAttempts, hnet, h.1, h.2]
  | _ => simp [postAttempts, hnet]

/-- An attempt is the last where the client does not go on. -/
theorem sent_of_end (hu : (net sent).isUnauthorised = false) (ht : left = 0 ∨ (net sent).isTypeError = false) :
    (postAttempts net on401 left sent).sent = sent + 1 := by
  cases hnet : net sent with
  | answered _ res =>
    rw [hnet] at hu ht
    have h401 : res.status ≠ 401 := of_decide_eq_false hu
    cases left with
    | zero => simp [postAttempts, hnet, h401]
    | succ left =>
      have hsettle : res.settle.isTypeError = false := by simpa [Exchange.isTypeError, h401] using ht
      simp [postAttempts, hnet, h401, hsettle]
  | _ =>
    rw [hnet] at ht
    obtain rfl : left = 0 := by simpa [Exchange.isTypeError] using ht
    simp [postAttempts, hnet]

/-- A round sends one request at least. -/
theorem lt_sent (hmono : ∀ n, n ≤ (on401 n).sent) (left sent : Nat) : sent < (postAttempts net on401 left sent).sent := by
  induction left generalizing sent with
  | zero =>
    by_cases hu : (net sent).isUnauthorised = true
    · rw [sent_of_unauthorised hu]
      exact hmono (sent + 1)
    · rw [sent_of_end (Bool.eq_false_iff.2 hu) (.inl rfl)]
      exact Nat.lt_succ_self sent
  | succ left ih =>
    by_cases hu : (net sent).isUnauthorised = true
    · rw [sent_of_unauthorised hu]
      exact hmono (sent + 1)
    · by_cases ht : (net sent).isTypeError = true
      · rw [sent_of_typeError ht]
        exact (Nat.lt_succ_self sent).trans (ih (sent + 1))
      · rw [sent_of_end (Bool.eq_false_iff.2 hu) (.inr (Bool.eq_false_iff.2 ht))]
        exact Nat.lt_succ_self sent

/-- A round that begins with the number `sent` comes to the number `j`, or what follows an answer 401 in it does. -/
def Reaches (net : Nat → Exchange) (on401 : Nat → Posted) (left sent j : Nat) : Prop :=
  (∀ k, sent ≤ k → k < j → (net k).isTypeError = true ∧ k < sent + left) ∨
    ∃ u, sent ≤ u ∧ u < j ∧ u ≤ sent + left ∧ (∀ k, sent ≤ k → k < u → (net k).isTypeError = true) ∧
      (net u).isUnauthorised = true ∧ j < (on401 (u + 1)).sent

section Reaches

variable {j : Nat}

/-- Behind an answer 401 only the second round reaches a request. -/
theorem reaches_of_unauthorised (hj : sent < j) (hu : (net sent).isUnauthorised = true) :
    Reaches net on401 left sent j ↔ j < (on401 (sent + 1)).sent := by
  have ht := isTypeError_of_isUnauthorised hu
  constructor
  · rintro (hall | ⟨u, hle, -, -, hall, -, h⟩)
    · have := (hall sent le_rfl hj).1
      simp [ht] at this
    · obtain rfl | hlt := hle.eq_or_lt
      · exact h
      · have := hall sent le_rfl hlt
        simp [ht] at this
  · exact fun h => .inr ⟨sent, le_rfl, hj, Nat.le_add_right .., fun k hk hlt => absurd hlt (by omega), hu, h⟩

/-- Behind an answer that ends the round no request is reached. -/
theorem not_reaches_of_end (hj : sent < j) (hu : (net sent).isUnauthorised = false) (hend : left = 0 ∨ (net sent).isTypeError = false) :
    ¬ Reaches net on401 left sent j := by
  rintro (hall | ⟨u, hle, -, hbound, hall, hu', -⟩)
  · obtain ⟨ht, hlt⟩ := hall sent le_rfl hj
    obtain rfl | hf := hend
    · omega
    · simp [hf] at ht
  · obtain rfl | hlt := hle.eq_or_lt
    · simp [hu] at hu'
    · have ht := hall sent le_rfl hlt
      obtain rfl | hf := hend
      · omega
      · simp [hf] at ht

/-- Behind a lost exchange the next attempt is reached, and what it reaches. -/
theorem reaches_of_typeError (hj : sent < j) (hu : (net sent).isUnauthorised = false) (ht : (net sent).isTypeError = true) :
    Reaches net on401 (left + 1) sent j ↔ j = sent + 1 ∨ Reaches net on401 left (sent + 1) j := by
  -- What holds from the next attempt on holds from this one on.
  have hfrom : ∀ {m : Nat}, (∀ k, sent + 1 ≤ k → k < m → (net k).isTypeError = true) →
      ∀ k, sent ≤ k → k < m → (net k).isTypeError = true := by
    intro m hall k hk hlt
    obtain rfl | hk := hk.eq_or_lt
    · exact ht
    · exact hall k hk hlt
  constructor
  · rintro (hall | ⟨u, hle, hlt, hbound, hall, hu', h⟩)
    · refine .inr (.inl fun k hk hlt => ?_)
      obtain ⟨ht, hb⟩ := hall k (by omega) hlt
      exact ⟨ht, by omega⟩
    · obtain rfl | hne := hle.eq_or_lt
      · simp [hu] at hu'
      · exact .inr (.inr ⟨u, hne, hlt, by omega, fun k hk => hall k (by omega), hu', h⟩)
  · rintro (rfl | hall | ⟨u, hle, hlt, hbound, hall, hu', h⟩)
    · refine .inl fun k hk hlt => ?_
      obtain rfl : k = sent := by omega
      exact ⟨ht, by omega⟩
    · refine .inl fun k hk hlt => ⟨hfrom (fun k hk hlt => (hall k hk hlt).1) k hk hlt, ?_⟩
      obtain rfl | hk := hk.eq_or_lt
      · omega
      · have := (hall k hk hlt).2
        omega
    · exact .inr ⟨u, by omega, hlt, by omega, hfrom hall, hu', h⟩

/-- Which requests are sent in a round, and in what follows an answer 401 in it. -/
theorem lt_sent_iff (hmono : ∀ n, n ≤ (on401 n).sent) (hj : sent < j) :
    j < (postAttempts net on401 left sent).sent ↔ Reaches net on401 left sent j := by
  induction left generalizing sent with
  | zero =>
    by_cases hu : (net sent).isUnauthorised = true
    · rw [sent_of_unauthorised hu, reaches_of_unauthorised hj hu]
    · rw [Bool.not_eq_true] at hu
      rw [sent_of_end hu (.inl rfl)]
      exact iff_of_false (by omega) (not_reaches_of_end hj hu (.inl rfl))
  | succ left ih =>
    by_cases hu : (net sent).isUnauthorised = true
    · rw [sent_of_unauthorised hu, reaches_of_unauthorised hj hu]
    · rw [Bool.not_eq_true] at hu
      by_cases ht : (net sent).isTypeError = true
      · rw [sent_of_typeError ht, reaches_of_typeError hj hu ht]
        obtain rfl | hlt := Nat.eq_or_lt_of_le hj
        · exact iff_of_true (lt_sent hmono left (sent + 1)) (.inl rfl)
        · rw [ih hlt]
          exact ⟨.inr, fun h => h.resolve_left (by omega)⟩
      · rw [Bool.not_eq_true] at ht
        rw [sent_of_end hu (.inr ht)]
        exact iff_of_false (by omega) (not_reaches_of_end hj hu (.inr ht))

end Reaches

/-- The second round sends as long as attempts end in a `TypeError`, four requests at most. -/
theorem lt_sent_postRetry_iff {j : Nat} (hj : sent < j) :
    j < (postRetry net sent).sent ↔ ∀ k, sent ≤ k → k < j → (net k).isTypeError = true ∧ k < sent + 3 := by
  rw [postRetry, lt_sent_iff (fun n => le_rfl) hj]
  refine ⟨fun h => h.resolve_right ?_, .inl⟩
  rintro ⟨u, -, hlt, -, -, -, h⟩
  exact absurd h (not_lt.2 hlt)

/-- A call refreshes after one request at most. -/
theorem refreshesAfter_unique {u u' : Nat} (h : RefreshesAfter net refreshed u) (h' : RefreshesAfter net refreshed u') : u = u' := by
  obtain hlt | heq | hlt := Nat.lt_trichotomy u u'
  · have := h'.2.2 u hlt
    simp [h.2.1] at this
  · exact heq
  · have := h.2.2 u' hlt
    simp [h'.2.1] at this

/-- A lost exchange is no answer 401. -/
theorem isUnauthorised_of_isTypeError {e : Exchange} (h : e.isTypeError = true) : e.isUnauthorised = false := by
  by_contra hu
  rw [isTypeError_of_isUnauthorised (Bool.not_eq_false _ ▸ hu)] at h
  cases h

/-- Before the first answer 401 the attempts of the first round end in a `TypeError`. -/
theorem typeErrors_before {u j : Nat} (hall : ∀ k < j, SendsAgain net refreshed k) (hlt : u < j)
    (hafter : RefreshesAfter net refreshed u) : ∀ k < u, (net k).isTypeError = true ∧ k < 3 := by
  intro k hk
  obtain ⟨_, hu, _⟩ | ⟨ht, hthree | ⟨u', hu', hafter', -⟩⟩ := hall k (hk.trans hlt)
  · have := hafter.2.2 k hk
    simp [hu] at this
  · exact ⟨ht, hthree⟩
  · have := refreshesAfter_unique hafter' hafter
    omega

/-- After it those of the second round do. -/
theorem typeErrors_after {u j : Nat} (hall : ∀ k < j, SendsAgain net refreshed k) (hbound : u ≤ 3)
    (hafter : RefreshesAfter net refreshed u) : ∀ k, u + 1 ≤ k → k < j → (net k).isTypeError = true ∧ k < u + 1 + 3 := by
  intro k hk hkj
  obtain hafter' | ⟨ht, hthree | ⟨u', hu', hafter', hfour⟩⟩ := hall k hkj
  · have := refreshesAfter_unique hafter' hafter
    omega
  · exact ⟨ht, by omega⟩
  · have := refreshesAfter_unique hafter' hafter
    exact ⟨ht, by omega⟩

/-- The first round, and the second after a refresh, in terms of when the client sends again. -/
theorem reaches_iff_sendsAgain {j : Nat} (hj : 0 < j) :
    Reaches net (fun sent => if refreshed then postRetry net sent else postUnauthorised sent) 3 0 j ↔ ∀ k < j, SendsAgain net refreshed k := by
  constructor
  · rintro (hall | ⟨u, -, hlt, hbound, hall, hu, h⟩) k hk
    · obtain ⟨ht, hthree⟩ := hall k (Nat.zero_le k) hk
      exact .inr ⟨ht, .inl (by omega)⟩
    · cases refreshed with
      | false => exact absurd h (not_lt.2 hlt)
      | true =>
        have hafter : RefreshesAfter net true u := ⟨rfl, hu, fun k hk => isUnauthorised_of_isTypeError (hall k (Nat.zero_le k) hk)⟩
        obtain hku | rfl | hku := Nat.lt_trichotomy k u
        · exact .inr ⟨hall k (Nat.zero_le k) hku, .inl (by omega)⟩
        · exact .inl hafter
        · obtain ⟨ht, hfour⟩ := (lt_sent_postRetry_iff (show u + 1 < j by omega)).1 h k hku hk
          exact .inr ⟨ht, .inr ⟨u, hku, hafter, by omega⟩⟩
  · intro hall
    by_cases hex : ∃ u < j, RefreshesAfter net refreshed u
    · obtain ⟨u, hlt, hafter⟩ := hex
      have hbefore := typeErrors_before hall hlt hafter
      have hbound : u ≤ 3 := by
        by_contra hgt
        have := (hbefore 3 (by omega)).2
        omega
      refine .inr ⟨u, Nat.zero_le u, hlt, hbound, fun k _ hk => (hbefore k hk).1, hafter.2.1, ?_⟩
      simp only [hafter.1, if_true]
      obtain rfl | hne : j = u + 1 ∨ u + 1 < j := by omega
      · exact lt_sent (fun n => le_rfl) 3 (u + 1)
      · rw [lt_sent_postRetry_iff hne]
        exact typeErrors_after hall hbound hafter
    · refine .inl fun k _ hk => ?_
      obtain hafter | ⟨ht, hthree | ⟨u, hu, hafter, -⟩⟩ := hall k hk
      · exact absurd ⟨k, hk, hafter⟩ hex
      · exact ⟨ht, by omega⟩
      · exact absurd ⟨u, hu.trans hk, hafter⟩ hex

/-- The request with the number `j` is sent exactly when the client sends again after each before it. -/
theorem lt_sent_post_iff {j : Nat} : j < (post net refreshed).sent ↔ ∀ k < j, SendsAgain net refreshed k := by
  have hmono : ∀ n, n ≤ (if refreshed then postRetry net n else postUnauthorised n).sent := by
    intro n
    split
    · exact (lt_sent (fun n => le_rfl) 3 n).le
    · exact le_rfl
  obtain rfl | hj := Nat.eq_zero_or_pos j
  · exact iff_of_true (lt_sent hmono 3 0) fun k hk => absurd hk (Nat.not_lt_zero k)
  · rw [← reaches_iff_sendsAgain hj, ← lt_sent_iff hmono hj]
    rfl

end ApiClient

/-- At most one number is counted exactly when no two are. -/
theorem countP_range_le_one_iff {p : Nat → Bool} {n : Nat} :
    (List.range n).countP p ≤ 1 ↔ ∀ i j, i < j → j < n → ¬ (p i = true ∧ p j = true) := by
  induction n with
  | zero => simp
  | succ n ih =>
    rw [List.range_succ, List.countP_append, List.countP_singleton]
    by_cases hp : p n = true
    · have hnone : (List.range n).countP p + 1 ≤ 1 ↔ ∀ i < n, ¬ p i = true := by
        rw [show (List.range n).countP p + 1 ≤ 1 ↔ (List.range n).countP p = 0 by omega, List.countP_eq_zero]
        simp only [List.mem_range]
      rw [if_pos hp, hnone]
      constructor
      · intro h i j hij hj hpij
        exact h i (by omega) hpij.1
      · exact fun h i hi hpi => h i n hi (Nat.lt_succ_self n) ⟨hpi, hp⟩
    · rw [if_neg hp, Nat.add_zero, ih]
      refine ⟨fun h i j hij hj hpij => ?_, fun h i j hij hj => h i j hij (by omega)⟩
      obtain rfl | hlt : j = n ∨ j < n := by omega
      · exact hp hpij.2
      · exact h i j hij hlt hpij

/-- The server executes the request of a call once at most exactly where no request that it executes is followed by another one that it
executes, with the client sending again after each request before that. -/
theorem executed_at_most_once_iff (net : Nat → Exchange) (refreshed : Bool) :
    executions net refreshed ≤ 1 ↔
      ∀ i j, i < j → (∀ k < j, SendsAgain net refreshed k) → ¬ ((net i).isExecuted = true ∧ (net j).isExecuted = true) := by
  rw [executions, countP_range_le_one_iff]
  simp only [ApiClient.lt_sent_post_iff]

/-- The network loses the first answer and delivers the second. -/
def Sample.answerLost : Nat → Exchange
  | 0 => .answerLost true
  | _ => .answered true { status := 200, statusText := [], body := .json .null }

/-- The client sends the request twice, and the server executes it twice. -/
theorem executed_twice : (ApiClient.post Sample.answerLost true).sent = 2 ∧ executions Sample.answerLost true = 2 ∧
    ¬ executions Sample.answerLost true ≤ 1 := by
  decide

end BrineVault
