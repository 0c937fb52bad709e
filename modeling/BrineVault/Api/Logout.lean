import BrineVault.Api.Calls

/-!
# Logout against concurrent refreshes

`updateSession` reads the session and its `TTL`, and then sets the key without looking again. A logout whose `DEL` comes in between is
undone by that `SET`. Once the key is removed while no call is about to set it, it never comes back.
-/

namespace BrineVault

open Interleaving
open SessionService JwtService

/-! ## Being about to set a session -/

/-- The next command of Redis that the program sends, after readings of the clock, is a `SET` of the session. -/
def aboutToSet (sid : Sid) (now : Nat) {α : Type} : Api α → Bool
  | .call (.session (.set k _ _)) _ => k = sid
  | .call .dateNow k => aboutToSet sid now (k now)
  | _ => false

/-- Some call is about to set the session. -/
def AboutToSet {α : Type} (sid : Sid) (m : ApiPool α) : Prop := ∃ p ∈ m.threads, aboutToSet sid m.store.now p = true

/-- How a call treats the session: it sets it only when it has just read a positive `TTL`, with a positive expiry, and it sends no other
command in between. The state says whether the call is about to set. -/
def armed (sid : Sid) : Protocol Command Command.Reply Bool where
  allows
    | true, .dateNow => True
    | true, .session (.set k _ ex) => k = sid ∧ 0 < ex
    | true, _ => False
    | false, .session (.set k _ _) => k ≠ sid
    | false, _ => True
  next
    | q, .dateNow, _ => q
    | _, .session (.ttl k), r => decide (k = sid ∧ 0 < (r : Int))
    | _, _, _ => false

/-- A call does not end while it is about to set. -/
def disarmed {α : Type} (q : Bool) (_ : Except HttpException α) : Prop := q = false

/-- A call is about to set exactly when the protocol has it armed. -/
theorem aboutToSet_iff {sid : Sid} {now : Nat} {α : Type} {q : Bool} {p : Api α} (h : Keeps (armed sid) disarmed q p) :
    aboutToSet sid now p = q := by
  induction p generalizing q with
  | ret a => exact h.symm
  | throw e => exact h.symm
  | call c k ih =>
    obtain ⟨ha, hk⟩ := h
    cases c with
    | dateNow => exact ih now (hk now)
    | session c =>
      cases q with
      | false =>
        cases c with
        | set k' => exact decide_eq_false ha
        | _ => rfl
      | true =>
        cases c with
        | set k' => exact decide_eq_true ha.1
        | _ => exact ha.elim
    | _ =>
      cases q with
      | false => rfl
      | true => exact ha.elim

/-! ## What each call does -/

section Programs

variable {sid : Sid}

/-- `updateSession` is armed from its `TTL` to its `SET`. -/
theorem armed_updateSession (k : Sid) (hash : String) : Keeps (armed sid) disarmed false (updateSession k hash) := by
  simp only [updateSession, getSession, Prog.send_bind, keeps_call]
  refine ⟨trivial, fun r => ?_⟩
  cases r with
  | none => rfl
  | some data =>
    simp only [keeps_call]
    refine ⟨trivial, fun ttl => ?_⟩
    change Keeps (armed sid) disarmed (decide (k = sid ∧ 0 < ttl)) _
    split
    · rename_i hle
      exact decide_eq_false fun h => absurd h.2 (Int.not_lt.2 hle)
    · rename_i hpos
      by_cases hk : k = sid
      · have hq : decide (k = sid ∧ 0 < ttl) = true := decide_eq_true ⟨hk, Int.not_le.1 hpos⟩
        rw [hq]
        exact ⟨trivial, fun _ => ⟨⟨hk, by omega⟩, fun _ => rfl⟩⟩
      · have hq : decide (k = sid ∧ 0 < ttl) = false := decide_eq_false fun h => hk h.1
        rw [hq]
        exact ⟨trivial, fun _ => ⟨hk, fun _ => rfl⟩⟩

/-- So is the renewal of a session, whichever it is. -/
theorem armed_renew (k : Sid) (newHash : String) (drawn : Drawn) (session : SessionData) :
    Keeps (armed sid) disarmed false (do updateSession k newHash; AuthService.renewedTokens drawn k session) := by
  refine (armed_updateSession k newHash).bind (fun q _ hq => ?_) fun _ _ hq => hq
  obtain rfl := hq
  simp only [AuthService.renewedTokens, signAccessToken, dateNow, usersFindById, Prog.send_bind]
  exact ⟨trivial, fun _ => ⟨trivial, fun _ => rfl⟩⟩

/-- And a refresh with a token of the session. -/
theorem armed_refresh (x : Crypto) (drawn : Drawn) (token : String) (k : Sid) :
    Keeps (armed sid) disarmed false (AuthService.refresh x drawn token k) := by
  simp only [AuthService.refresh, getSession, Prog.send_bind, keeps_call]
  refine ⟨trivial, fun r => ?_⟩
  cases r with
  | none => rfl
  | some session =>
    dsimp only
    split
    · exact ⟨trivial, fun _ => rfl⟩
    · exact armed_renew k _ drawn session

/-- A page of the search sets nothing. -/
theorem armed_scanPage (hash : String) (page : List Sid) : Keeps (armed sid) disarmed false (scanPage hash page) := by
  simp only [scanPage, Prog.send_bind, keeps_call]
  refine ⟨trivial, fun keys => ?_⟩
  split
  · rfl
  · exact ⟨trivial, fun _ => rfl⟩

theorem armed_getSessionByRefreshHash (hash : String) (scan : Scan) :
    Keeps (armed sid) disarmed false (getSessionByRefreshHash hash scan) := by
  induction scan with
  | last keys => exact armed_scanPage hash keys
  | more keys rest ih =>
    refine (armed_scanPage hash keys).bind (fun q o hq => ?_) fun _ _ hq => hq
    obtain rfl := hq
    cases o with
    | some session => rfl
    | none => exact ih

/-- A refresh with the cookie alone is armed in its renewal only. -/
theorem armed_refreshByCookie (x : Crypto) (drawn : Drawn) (scan : Scan) (token : String) :
    Keeps (armed sid) disarmed false (AuthService.refreshByCookie x drawn scan token) := by
  refine (armed_getSessionByRefreshHash _ scan).bind (fun q o hq => ?_) fun _ _ hq => hq
  obtain rfl := hq
  cases o with
  | none => rfl
  | some found => exact armed_renew found.1 _ drawn found.2

/-- A logout sets nothing. -/
theorem armed_logout (k : Sid) (jti : String) (exp : Nat) : Keeps (armed sid) disarmed false (AuthService.logout k jti exp) := by
  simp only [AuthService.logout, deleteSession, dateNow, Prog.send_bind, Prog.call_bind, keeps_call]
  refine ⟨trivial, fun _ => ⟨trivial, fun now => ?_⟩⟩
  dsimp only
  split
  · exact ⟨trivial, fun _ => rfl⟩
  · rfl

theorem armed_canActivate (x : Crypto) (authorization : Option String) :
    Keeps (armed sid) disarmed false (AuthGuard.canActivate x authorization) :=
  AuthGuard.keeps x authorization ⟨trivial, fun _ => rfl⟩ (fun _ => ⟨trivial, fun _ => rfl⟩) (fun _ => trivial) (fun _ _ => rfl)
    (fun _ _ _ => rfl) fun _ _ => rfl

/-- Every call of the session keeps the protocol. -/
theorem armed_program (x : Crypto) (call : SessionCall) : Keeps (armed sid) disarmed false (call.program x) := by
  cases call with
  | refresh drawn token k => exact (armed_refresh x drawn token k).bind (fun _ _ hq => hq) fun _ _ hq => hq
  | refreshByCookie drawn scan token => exact (armed_refreshByCookie x drawn scan token).bind (fun _ _ hq => hq) fun _ _ hq => hq
  | logout k jti exp => exact (armed_logout k jti exp).bind (fun _ _ hq => hq) fun _ _ hq => hq
  | guard authorization => exact (armed_canActivate x authorization).bind (fun _ _ hq => hq) fun _ _ hq => hq

end Programs

/-! ## Removal -/

section Pool

variable {α : Type} {sid : Sid} {m n : ApiPool α} {t : Turn Nat} {turns : Schedule}

/-- The session is not there, and no call is about to set it. -/
structure Gone (sid : Sid) (m : ApiPool α) : Prop where
  absent : m.store.session sid = none
  quiet : ∀ p ∈ m.threads, Keeps (armed sid) disarmed false p

/-- A call gets ready to set a session only while the session is there. -/
theorem armed_next {b : Backend} {c : Command} (h : b.session sid = none) : (armed sid).next false c (b.exec c).1 = false := by
  cases c with
  | session c =>
    cases c with
    | ttl k =>
      refine decide_eq_false ?_
      rintro ⟨rfl, hpos⟩
      obtain ⟨e, he, hle⟩ := Redis.Keyspace.ttl_pos hpos
      have := Redis.Keyspace.live_eq_none.1 (Backend.session_eq_none.1 h) e he
      omega
    | _ => rfl
  | _ => rfl

/-- Of the commands a call sends while it is not about to set the session, only a `DEL` of the session writes it. -/
theorem eq_del_of_writes {c : Command} (ha : (armed sid).allows false c) (hw : c.writes sid = true) :
    c = .session (.del sid) := by
  cases c with
  | session c =>
    cases c with
    | set k v ex => exact absurd (of_decide_eq_true hw) ha
    | del k => rw [of_decide_eq_true hw]
    | _ => cases hw
  | _ => cases hw

/-- A session that is gone, with no call about to set it, stays so. -/
theorem Gone.step (h : Gone sid m) (hs : Interleaving.step Backend.exec Backend.elapse m t = .ok n) : Gone sid n := by
  obtain ⟨ms, -, rfl⟩ | ⟨i, c, k, -, hi, rfl⟩ := step_cases hs
  · exact ⟨Backend.session_elapse h.absent ms, h.quiet⟩
  · obtain ⟨ha, hk⟩ := h.quiet _ (List.mem_of_getElem? hi)
    constructor
    · cases hw : c.writes sid with
      | false => exact (Backend.exec_session hw).trans h.absent
      | true =>
        change (m.store.exec c).2.session sid = none
        rw [eq_del_of_writes ha hw]
        exact Backend.session_exec_del
    · intro p hp
      obtain hp | rfl := List.mem_or_eq_of_mem_set hp
      · exact h.quiet p hp
      · have := hk (m.store.exec c).1
        rwa [armed_next h.absent] at this

theorem Gone.run (h : Gone sid m) (hr : m.run turns = .ok n) : Gone sid n :=
  Steps.run_preserves _ (fun _ _ _ => Gone.step) hr h

/-- The turn removes the session: a call deletes it, or it has expired afterwards. -/
def Removes (sid : Sid) (m : ApiPool α) : Turn Nat → Prop
  | .thread i => ∃ k, m.threads[i]? = some (.call (.session (.del sid)) k)
  | .event ms => (m.store.elapse ms).session sid = none

/-- In some turn of the schedule the session is removed while no call is about to set it. -/
def RemovedForGood (sid : Sid) (m : ApiPool α) (turns : Schedule) : Prop :=
  ∃ past t rest n, turns = past ++ t :: rest ∧ m.run past = .ok n ∧ Removes sid n t ∧ ¬ AboutToSet sid n

/-- A `DEL` or an expiry while no call is about to set removes the session for good. -/
theorem gone_of_removes (hm : Kept (armed sid) disarmed m) (hq : ¬ AboutToSet sid m) (hr : Removes sid m t)
    (hs : Interleaving.step Backend.exec Backend.elapse m t = .ok n) : Gone sid n := by
  have quiet : ∀ p ∈ m.threads, Keeps (armed sid) disarmed false p := fun p hp => by
    obtain ⟨q, hk⟩ := hm p hp
    cases q with
    | false => exact hk
    | true => exact absurd ⟨p, hp, aboutToSet_iff hk⟩ hq
  obtain ⟨ms, rfl, rfl⟩ | ⟨i, c, k, rfl, hi, rfl⟩ := step_cases hs
  · exact ⟨hr, quiet⟩
  · obtain ⟨k', hk'⟩ := hr
    rw [hi, Option.some.injEq, Prog.call.injEq] at hk'
    obtain ⟨rfl, -⟩ := hk'
    refine ⟨Backend.session_exec_del, fun p hp => ?_⟩
    obtain hp | rfl := List.mem_or_eq_of_mem_set hp
    · exact quiet p hp
    · exact (quiet _ (List.mem_of_getElem? hi)).2 _

/-- A call that was about to set a session still is, after a turn that leaves the session away. -/
theorem aboutToSet_step (hm : Kept (armed sid) disarmed m)
    (hs : Interleaving.step Backend.exec Backend.elapse m t = .ok n) (h : AboutToSet sid m)
    (hafter : n.store.session sid = none) : AboutToSet sid n := by
  obtain ⟨p, hp, hset⟩ := h
  obtain ⟨q, hk⟩ := hm p hp
  obtain rfl : q = true := (aboutToSet_iff hk).symm.trans hset
  obtain ⟨ms, -, rfl⟩ | ⟨i, c, k, -, hi, rfl⟩ := step_cases hs
  · exact ⟨p, hp, aboutToSet_iff hk⟩
  · obtain ⟨j, hj⟩ := List.mem_iff_getElem?.1 hp
    by_cases hij : i = j
    · subst hij
      rw [hi, Option.some.injEq] at hj
      subst hj
      obtain ⟨ha, hnext⟩ := hk
      cases c with
      | dateNow =>
        have hlt : i < m.threads.length := (List.getElem?_eq_some_iff.1 hi).1
        exact ⟨_, List.mem_of_getElem? (List.getElem?_set_self hlt), aboutToSet_iff (hnext _)⟩
      | session c =>
        cases c with
        | set k' v ex =>
          obtain ⟨rfl, -⟩ := ha
          have := hafter.symm.trans (Backend.session_exec_set v ex)
          cases this
        | _ => exact ha.elim
      | _ => exact ha.elim
    · have hj' : (m.threads.set i (k (m.store.exec c).1))[j]? = some p := by rw [List.getElem?_set_ne hij, hj]
      exact ⟨p, List.mem_of_getElem? hj', aboutToSet_iff hk⟩

/-- A turn in which a session that is there, or about to be set, goes away for good. -/
theorem removes_of_step (hm : Kept (armed sid) disarmed m) (hs : Interleaving.step Backend.exec Backend.elapse m t = .ok n)
    (hbefore : m.store.session sid ≠ none ∨ AboutToSet sid m) (hafter : n.store.session sid = none)
    (hquiet : ¬ AboutToSet sid n) : Removes sid m t ∧ ¬ AboutToSet sid m := by
  have hq : ¬ AboutToSet sid m := fun h => hquiet (aboutToSet_step hm hs h hafter)
  have hthere := hbefore.resolve_right hq
  refine ⟨?_, hq⟩
  obtain ⟨ms, rfl, rfl⟩ | ⟨i, c, k, rfl, hi, rfl⟩ := step_cases hs
  · exact hafter
  · obtain ⟨q, hk⟩ := hm _ (List.mem_of_getElem? hi)
    obtain rfl : q = false := by
      cases q with
      | false => rfl
      | true => exact absurd ⟨_, List.mem_of_getElem? hi, aboutToSet_iff hk⟩ hq
    cases hw : c.writes sid with
    | false => exact absurd ((Backend.exec_session hw).symm.trans hafter) hthere
    | true =>
      obtain rfl := eq_del_of_writes hk.1 hw
      exact ⟨k, hi⟩

/-- A session that is there, or about to be set, and that is gone when all calls have finished, has been removed for good. -/
theorem removedForGood_of_absent (hm : Kept (armed sid) disarmed m) (hr : m.run turns = .ok n) (hf : n.Finished)
    (hbefore : m.store.session sid ≠ none ∨ AboutToSet sid m) (hafter : n.store.session sid = none) :
    RemovedForGood sid m turns := by
  induction turns generalizing m with
  | nil =>
    cases hr
    obtain h | ⟨p, hp, hset⟩ := hbefore
    · exact absurd hafter h
    · have := hf p hp
      cases p with
      | call => cases this
      | _ => cases hset
  | cons t turns ih =>
    obtain ⟨m', hs, hrest⟩ := (Steps.run_cons_ok _).1 hr
    by_cases h : m'.store.session sid ≠ none ∨ AboutToSet sid m'
    · obtain ⟨past, t', rest, n', rfl, hn', hrem⟩ := ih (kept_step hm hs) hrest h
      exact ⟨t :: past, t', rest, n', rfl, (Steps.run_cons_ok _).2 ⟨m', hs, hn'⟩, hrem⟩
    · rw [not_or, not_not] at h
      exact ⟨[], t, turns, m, rfl, rfl, removes_of_step hm hs hbefore h.1 h.2⟩

/-- A session removed for good is gone at the end. -/
theorem gone_of_removedForGood (hm : Kept (armed sid) disarmed m) (hr : m.run turns = .ok n)
    (h : RemovedForGood sid m turns) : Gone sid n := by
  obtain ⟨past, t, rest, n', rfl, hn', hrem, hq⟩ := h
  obtain ⟨n'', hpast, hrest⟩ := (Steps.run_append_ok _).1 hr
  obtain rfl : n' = n'' := by simpa [ApiPool.run, hpast] using hn'.symm
  obtain ⟨k, hs, hrest⟩ := (Steps.run_cons_ok _).1 hrest
  exact (gone_of_removes (kept_run hm hpast) hq hrem hs).run hrest

/-- A removal for good may come after other turns. -/
theorem RemovedForGood.after {past rest : Schedule} (h : RemovedForGood sid n rest) (hr : m.run past = .ok n) :
    RemovedForGood sid m (past ++ rest) := by
  obtain ⟨past', t, rest', n', rfl, hn', hrem⟩ := h
  exact ⟨past ++ past', t, rest', n', by simp, (Steps.run_append_ok _).2 ⟨n, hr, hn'⟩, hrem⟩

end Pool

/-! ## Logout -/

/-- The calls at the start, over a backend. -/
def start (x : Crypto) (b : Backend) (calls : List SessionCall) : ApiPool Outcome := ⟨b, calls.map fun call => call.program x⟩

/-- At the start no call is armed. -/
theorem kept_start (x : Crypto) (b : Backend) (calls : List SessionCall) (sid : Sid) :
    ∀ p ∈ (start x b calls).threads, Keeps (armed sid) disarmed false p := fun p hp => by
  obtain ⟨call, -, rfl⟩ := List.mem_map.1 hp
  exact armed_program x call

/-- The session is not there, and whatever calls come later, in whatever order their commands come, none of them succeeds on it. -/
def LogoutFinal (x : Crypto) (sid : Sid) (b : Backend) : Prop :=
  b.session sid = none ∧
    ∀ later turns n, (start x b later).run turns = .ok n → ∀ p ∈ n.threads, ∀ o, p.result = some (.ok o) → o.sid ≠ some sid

/-- A logout was final exactly when no session is left. -/
theorem logoutFinal_iff {x : Crypto} {sid : Sid} {b : Backend} : LogoutFinal x sid b ↔ b.session sid = none := by
  refine ⟨And.left, fun h => ⟨h, fun later turns n hr p hp o ho he => ?_⟩⟩
  have hgone : Gone sid (start x b later) := ⟨h, kept_start x b later sid⟩
  have hseen : ∀ p ∈ (start x b later).threads, Keeps (listening (shows fun k _ => k = sid)) (SeenIfOn sid) False p :=
    fun p hp => by
      obtain ⟨call, -, rfl⟩ := List.mem_map.1 hp
      exact keeps_program x call sid
  obtain ⟨i, hi⟩ := List.mem_iff_getElem?.1 hp
  obtain ⟨past, rest, n', -, hn', c, k, -, hshown⟩ := heard_of_result hseen hr hi ho he
  obtain ⟨_, data, hthere, rfl⟩ := session_of_shows hshown
  rw [(hgone.run hn').absent] at hthere
  cases hthere

/-- The `DEL` of the logout itself is enough, when it is sent while no call is between its `TTL` and its `SET`. -/
theorem logoutFinal_of_del_while_quiet {x : Crypto} {b : Backend} {calls : List SessionCall} {sid : Sid} {jti : String} {exp i : Nat}
    (hi : calls[i]? = some (.logout sid jti exp)) {past rest : Schedule} {n m : ApiPool Outcome}
    (hr : (start x b calls).run (past ++ .thread i :: rest) = .ok m) (hfirst : .thread i ∉ past)
    (hn : (start x b calls).run past = .ok n) (hq : ¬ AboutToSet sid n) : LogoutFinal x sid m.store := by
  have hkept : Kept (armed sid) disarmed (start x b calls) := fun p hp => ⟨false, kept_start x b calls sid p hp⟩
  have hdel : n.threads[i]? = some ((SessionCall.logout sid jti exp).program x) := by
    rw [threads_of_not_mem hn hfirst]
    simp [start, hi]
  exact logoutFinal_iff.2 (gone_of_removedForGood hkept hr ⟨past, .thread i, rest, n, rfl, hn, ⟨_, hdel⟩, hq⟩).absent

/-- Logout is final, in every schedule of it with other calls, exactly when the session is removed at some time while no call is about to
set it. -/
theorem logoutFinal_iff_removedForGood {x : Crypto} {b : Backend} {calls : List SessionCall} {sid : Sid} {jti : String}
    {exp : Nat} (hl : .logout sid jti exp ∈ calls) {turns : Schedule} {m : ApiPool Outcome}
    (hr : (start x b calls).run turns = .ok m) (hf : m.Finished) :
    LogoutFinal x sid m.store ↔ RemovedForGood sid (start x b calls) turns := by
  have hkept : Kept (armed sid) disarmed (start x b calls) := fun p hp => ⟨false, kept_start x b calls sid p hp⟩
  rw [logoutFinal_iff]
  refine ⟨fun habsent => ?_, fun h => (gone_of_removedForGood hkept hr h).absent⟩
  -- The turn of the logout's own `DEL`: it removes the session for good, unless a call is about to set it then.
  obtain ⟨i, hi⟩ := List.mem_iff_getElem?.1 (List.mem_map_of_mem (f := fun call => call.program x) hl)
  obtain ⟨past, rest, n, rfl, hn, hdel⟩ := sent_of_result hi hr hf
  obtain ⟨n', hn', hrest⟩ := (Steps.run_append_ok _).1 hr
  obtain rfl : n' = n := by simpa [hn] using hn'.symm
  by_cases hset : AboutToSet sid n'
  · exact (removedForGood_of_absent (kept_run hkept hn) hrest hf (.inr hset) habsent).after hn
  · exact ⟨past, .thread i, rest, n', rfl, hn, ⟨_, hdel⟩, hset⟩

/-- A logout after the refresh: the session is gone, and its `DEL` came while no call was about to set. -/
theorem logoutFinal_iff_removedForGood_afterRefresh :
    ∃ m, (start Sample.crypto Sample.backend [.refresh (Sample.drawn "2") "1" "s", .logout "s" "j1" 1700000900]).run
        (Sample.turnsOf 0 7 ++ Sample.turnsOf 1 3) = .ok m ∧ m.Finished ∧
      (LogoutFinal Sample.crypto "s" m.store ↔
        RemovedForGood "s" (start Sample.crypto Sample.backend [.refresh (Sample.drawn "2") "1" "s", .logout "s" "j1" 1700000900])
          (Sample.turnsOf 0 7 ++ Sample.turnsOf 1 3)) :=
  ⟨_, rfl, by decide +kernel, logoutFinal_iff_removedForGood (List.mem_cons_of_mem _ (List.mem_cons_self ..)) rfl
    (by decide +kernel)⟩

/-- The refresh has read the session and its `TTL` when the logout deletes it; then it sets the session again. -/
theorem logout_undone :
    ∃ m, (start Sample.crypto Sample.backend [.refresh (Sample.drawn "2") "1" "s", .logout "s" "j1" 1700000900]).run
        (Sample.turnsOf 0 3 ++ Sample.turnsOf 1 1 ++ Sample.turnsOf 0 4 ++ Sample.turnsOf 1 2) = .ok m ∧ m.Finished ∧
      ¬ LogoutFinal Sample.crypto "s" m.store :=
  ⟨_, rfl, by decide +kernel, fun h => absurd (congrArg Option.isNone h.1) (by decide +kernel)⟩

end BrineVault
