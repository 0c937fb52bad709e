import BrineVault.Api.Logout

/-!
# Rotation against concurrent refreshes

A refresh reads the hash of the session, compares, and writes the new hash some commands later. Every call that looks the session up before
the first `SET` of it is answered with tokens of its own, and none that looks it up later, so that a schedule decides by the order of its
look-ups and the first `SET` how many calls one token is good for.
-/

namespace BrineVault

open Interleaving
open SessionService JwtService

/-- The call is a refresh that presents the token. -/
def SessionCall.Presents (token : String) : SessionCall → Prop
  | .refresh _ t _ | .refreshByCookie _ _ t => t = token
  | .logout .. | .guard _ => False

/-- The reply shows a session that has the hash of the token. -/
def showsToken (x : Crypto) (token : String) : (c : Command) → c.Reply → Prop :=
  shows fun _ data => data.refreshTokenHash = hashRefreshToken x token

/-- The call with number `i` has been answered with tokens. -/
def AnsweredWithTokens (m : ApiPool Outcome) (i : Nat) : Prop := ∃ a, m.threads[i]? = some (.ret (.tokens a))

/-- At most one call of the pool is answered with tokens. -/
def SingleUse (m : ApiPool Outcome) : Prop := ∀ i j, AnsweredWithTokens m i → AnsweredWithTokens m j → i = j

/-- The token that a call draws is a new one: its hash is another. -/
def SessionCall.DrawsOther (x : Crypto) (token : String) : SessionCall → Prop
  | .refresh drawn _ _ | .refreshByCookie drawn _ _ => hashRefreshToken x drawn.refreshToken ≠ hashRefreshToken x token
  | .logout .. | .guard _ => True

/-- The command is a `SET` of the session. -/
def Command.sets (sid : Sid) : Command → Bool
  | .session (.set k _ _) => k = sid
  | _ => false

/-- Some call sends a `SET` of the session in the turns. -/
def SetIn (sid : Sid) (m : ApiPool Outcome) (turns : Schedule) : Prop := ∃ c ∈ sent Backend.exec Backend.elapse m turns, c.sets sid = true

/-- The call with number `i` looks up a session that has the hash of the token at the start, before any call sends a `SET` of it and while
it has not expired. -/
def LooksUpInTime (x : Crypto) (token : String) (m : ApiPool Outcome) (turns : Schedule) (i : Nat) : Prop :=
  ∃ past rest n c k sid e, turns = past ++ .thread i :: rest ∧ m.run past = .ok n ∧ n.threads[i]? = some (.call c k) ∧
    c.reads sid = true ∧ m.store.sessions.live (m.store.now + elapsed past) sid = some e ∧
    e.value.refreshTokenHash = hashRefreshToken x token ∧ ¬ SetIn sid m past

/-- A refresh is answered with tokens exactly when it has been shown a session with the hash of its token. -/
def AnsweredIffShown (q : Prop) : Except HttpException Outcome → Prop
  | .ok o => q ∧ ∃ a, o = .tokens a
  | .error _ => ¬ q

/-- A call that shows a token is answered exactly where it has read a session with the token's hash. -/
theorem keeps_presents {x : Crypto} {token : String} {call : SessionCall} (h : call.Presents token) :
    Keeps (listening (showsToken x token)) AnsweredIffShown False (call.program x) := by
  have answered : ∀ {p : Api AuthResult},
      Keeps (listening (showsToken x token)) (Answers (fun _ data => data.refreshTokenHash = hashRefreshToken x token)
        (hashRefreshToken x token)) False p →
        Keeps (listening (showsToken x token)) AnsweredIffShown False (do return Outcome.tokens (← p)) := by
    intro p hp
    refine hp.bind ?_ ?_
    · rintro q a ⟨data, hd, hq⟩
      exact ⟨hq hd, a, rfl⟩
    · intro q e he hq
      obtain ⟨_, data, hd, hne⟩ := he hq
      exact hne hd
  cases call with
  | refresh drawn t sid =>
    obtain rfl : t = token := h
    exact answered (keeps_refresh x drawn t sid)
  | refreshByCookie drawn scan t =>
    obtain rfl : t = token := h
    exact answered (keeps_refreshByCookie x drawn scan t)
  | logout => exact h.elim
  | guard => exact h.elim

/-! ## The hash of a session -/

/-- How a refresh treats a session: it deletes it only once it has been shown it with another hash, and it sets it only with another hash.
The state says whether it has been shown one. -/
def rotating (sid : Sid) (hash : String) : Protocol Command Command.Reply Prop where
  allows q c := match c with
    | .session (.del k) => k = sid → q
    | .session (.set k data _) => k = sid → data.refreshTokenHash ≠ hash
    | _ => True
  next q c r := q ∨ match c, r with
    | .session (.get k), r => k = sid ∧ ∃ data, (r : Option SessionData) = some data ∧ data.refreshTokenHash ≠ hash
    | _, _ => False

section Programs

variable {sid : Sid} {hash newHash : String} {q : Prop} {x : Crypto} {token : String}

/-- A renewal sets only the new hash. -/
theorem rotating_renew (k : Sid) (drawn : Drawn) (session : SessionData) (h : newHash ≠ hash) :
    Keeps (rotating sid hash) (fun _ _ => True) q (do updateSession k newHash; AuthService.renewedTokens drawn k session) := by
  have tokens : ∀ q', Keeps (rotating sid hash) (fun _ _ => True) q' (AuthService.renewedTokens drawn k session) := by
    intro q'
    simp only [AuthService.renewedTokens, signAccessToken, dateNow, usersFindById, Prog.send_bind]
    exact ⟨trivial, fun _ => ⟨trivial, fun _ => trivial⟩⟩
  simp only [updateSession, getSession, Prog.send_bind, Prog.call_bind, keeps_call]
  refine ⟨trivial, fun r => ?_⟩
  cases r with
  | none => exact tokens _
  | some data =>
    refine ⟨trivial, fun ttl => ?_⟩
    dsimp only
    split
    · exact tokens _
    · exact ⟨trivial, fun now => ⟨fun _ => h, fun _ => tokens _⟩⟩

/-- A refresh sets only the new hash, and deletes only where it has found another than the token's. -/
theorem rotating_refresh (drawn : Drawn) (k : Sid) (h : hashRefreshToken x drawn.refreshToken ≠ hashRefreshToken x token) :
    Keeps (rotating sid (hashRefreshToken x token)) (fun _ _ => True) False (AuthService.refresh x drawn token k) := by
  simp only [AuthService.refresh, getSession, Prog.send_bind, keeps_call]
  refine ⟨trivial, fun r => ?_⟩
  cases r with
  | none => trivial
  | some session =>
    dsimp only
    split
    · rename_i hne
      exact ⟨fun hk => .inr ⟨hk, session, rfl, hne⟩, fun _ => trivial⟩
    · exact rotating_renew k drawn session h

/-- The look-up by the hash deletes and sets nothing. -/
theorem rotating_getSessionByRefreshHash (h : String) (scan : Scan) :
    Keeps (rotating sid hash) (fun _ _ => True) q (getSessionByRefreshHash h scan) := by
  have page : ∀ {q' : Prop} (keys : List Sid), Keeps (rotating sid hash) (fun _ _ => True) q' (scanPage h keys) := by
    intro q' keys
    simp only [scanPage, Prog.send_bind, keeps_call]
    refine ⟨trivial, fun keys => ?_⟩
    split
    · trivial
    · exact ⟨trivial, fun _ => trivial⟩
  induction scan generalizing q with
  | last keys => exact page keys
  | more keys rest ih =>
    refine (page keys).bind (fun q' o _ => ?_) fun _ _ _ => trivial
    cases o with
    | some session => trivial
    | none => exact ih

/-- A call that presents the token and draws another sets only the new hash, and deletes only where it has found another. -/
theorem rotating_program {call : SessionCall} (hp : call.Presents token) (hd : call.DrawsOther x token) :
    Keeps (rotating sid (hashRefreshToken x token)) (fun _ _ => True) False (call.program x) := by
  cases call with
  | refresh drawn t k =>
    obtain rfl : t = token := hp
    exact (rotating_refresh drawn k hd).bind (fun _ _ _ => trivial) fun _ _ _ => trivial
  | refreshByCookie drawn scan t =>
    have hrefresh : Keeps (rotating sid (hashRefreshToken x token)) (fun _ _ => True) False (AuthService.refreshByCookie x drawn scan t) := by
      refine (rotating_getSessionByRefreshHash _ scan).bind (fun q o _ => ?_) fun _ _ _ => trivial
      cases o with
      | none => trivial
      | some found => exact rotating_renew found.1 drawn found.2 hd
    exact hrefresh.bind (fun _ _ _ => trivial) fun _ _ _ => trivial
  | logout => exact hp.elim
  | guard => exact hp.elim

end Programs

section Pool

variable {sid : Sid} {hash : String} {m n : ApiPool Outcome} {t : Turn Nat} {turns : Schedule}

/-- The session is as it was, and no call has been shown it with another hash. -/
structure Unset (sid : Sid) (hash : String) (b : Backend) (m : ApiPool Outcome) : Prop where
  stored : m.store.sessions sid = b.sessions sid
  calls : ∀ p ∈ m.threads, Keeps (rotating sid hash) (fun _ _ => True) False p

/-- The session does not have the hash, and no call is going to set it with that hash. -/
structure Rotated (sid : Sid) (hash : String) (m : ApiPool Outcome) : Prop where
  stored : ∀ e, m.store.sessions sid = some e → e.value.refreshTokenHash ≠ hash
  calls : Kept (rotating sid hash) (fun _ _ => True) m

/-- A `SET` of the session in one turn more: it has been sent before, or in that turn. -/
theorem setIn_snoc_thread {i : Nat} {c : Command} {k : c.Reply → Api Outcome} (hr : m.run turns = .ok n)
    (hi : n.threads[i]? = some (.call c k)) : SetIn sid m (turns ++ [.thread i]) ↔ SetIn sid m turns ∨ c.sets sid = true := by
  rw [SetIn, sent_snoc_thread hr hi]
  simp [SetIn, or_and_right, exists_or]

theorem setIn_snoc_event {ms : Nat} (hr : m.run turns = .ok n) : SetIn sid m (turns ++ [.event ms]) ↔ SetIn sid m turns := by
  rw [SetIn, sent_snoc_event ms hr, SetIn]

/-- While the session has the hash, nobody is shown it with another, and so nobody deletes it. -/
theorem Unset.exec {b : Backend} {e : Redis.Entry SessionData} (hb : b.sessions sid = some e) (he : e.value.refreshTokenHash = hash)
    (h : Unset sid hash b m) {i : Nat} {c : Command} {k : c.Reply → Api Outcome} (hi : m.threads[i]? = some (.call c k))
    (hset : c.sets sid = false) :
    Unset sid hash b { store := (m.store.exec c).2, threads := m.threads.set i (k (m.store.exec c).1) } := by
  obtain ⟨ha, hk⟩ := h.calls _ (List.mem_of_getElem? hi)
  constructor
  · refine (Backend.exec_sessions ?_).trans h.stored
    cases c with
    | session c =>
      cases c with
      | set k' v ex => exact hset
      | del k' => exact decide_eq_false ha
      | _ => rfl
    | _ => rfl
  · intro p hp
    obtain hp | rfl := List.mem_or_eq_of_mem_set hp
    · exact h.calls p hp
    · have hnext : (rotating sid hash).next False c (m.store.exec c).1 = False := by
        refine eq_false ?_
        rintro (hf | hshown)
        · exact hf
        · cases c with
          | session c =>
            cases c with
            | get k' =>
              obtain ⟨rfl, data, hd, hne⟩ := hshown
              obtain ⟨e', he', rfl⟩ := Option.map_eq_some_iff.1 hd
              have heq := (Redis.Keyspace.live_eq_some.1 he').1
              rw [h.stored, hb, Option.some.injEq] at heq
              subst heq
              exact hne he
            | _ => exact hshown
          | _ => exact hshown
      have := hk (m.store.exec c).1
      rwa [hnext] at this

/-- What a call writes has not the hash. -/
theorem other_of_writes {b : Backend} {q : Prop} {c : Command} (ha : (rotating sid hash).allows q c) (hw : c.writes sid = true)
    {e : Redis.Entry SessionData} (he : (b.exec c).2.sessions sid = some e) : e.value.refreshTokenHash ≠ hash := by
  cases c with
  | session c =>
    cases c with
    | set k data ex =>
      obtain rfl : k = sid := of_decide_eq_true hw
      simp only [Backend.exec, Redis.Keyspace.exec, Function.update_self, Option.some.injEq] at he
      subst he
      exact ha rfl
    | del k =>
      obtain rfl : k = sid := of_decide_eq_true hw
      simp [Backend.exec, Redis.Keyspace.exec] at he
    | _ => cases hw
  | _ => cases hw

/-- Once the session does not have the hash, it never has it again. -/
theorem Rotated.step (h : Rotated sid hash m) (hs : Interleaving.step Backend.exec Backend.elapse m t = .ok n) : Rotated sid hash n := by
  refine ⟨?_, kept_step h.calls hs⟩
  obtain ⟨ms, -, rfl⟩ | ⟨i, c, k, -, hi, rfl⟩ := step_cases hs
  · exact h.stored
  · obtain ⟨q, ha, -⟩ := h.calls _ (List.mem_of_getElem? hi)
    intro e he
    cases hw : c.writes sid with
    | false =>
      rw [Backend.exec_sessions hw] at he
      exact h.stored e he
    | true => exact other_of_writes ha hw he

/-- A session that is rotated stays so in every run. -/
theorem Rotated.run (h : Rotated sid hash m) (hr : m.run turns = .ok n) : Rotated sid hash n :=
  Steps.run_preserves _ (fun _ _ _ => Rotated.step) hr h

/-- A `SET` of the session takes the hash from it. -/
theorem rotated_of_sets {i : Nat} {c : Command} {k : c.Reply → Api Outcome} (hm : Kept (rotating sid hash) (fun _ _ => True) m)
    (hi : m.threads[i]? = some (.call c k)) (hset : c.sets sid = true)
    (hs : Interleaving.step Backend.exec Backend.elapse m (.thread i) = .ok n) : Rotated sid hash n := by
  obtain ⟨q, ha, -⟩ := hm _ (List.mem_of_getElem? hi)
  have hw : c.writes sid = true := by
    cases c with
    | session c =>
      cases c with
      | set => exact hset
      | _ => cases hset
    | _ => cases hset
  refine ⟨?_, kept_step hm hs⟩
  rw [step_thread hi] at hs
  cases hs
  exact fun e he => other_of_writes ha hw he

/-- Once a `SET` of the session has been sent, the session never has the hash again. -/
theorem rotated_run (hm : Kept (rotating sid hash) (fun _ _ => True) m) (hr : m.run turns = .ok n) (hset : SetIn sid m turns) :
    Rotated sid hash n := by
  revert hset
  refine Steps.run_invariant (step Backend.exec Backend.elapse) (fun past n => SetIn sid m past → Rotated sid hash n) ?_ ?_ hr
  · rintro ⟨c, hc, -⟩
    cases hc
  · intro past n t n' hn ih ht hset
    obtain ⟨ms, rfl, -⟩ | ⟨i, c, k, rfl, hi, -⟩ := step_cases ht
    · exact (ih ((setIn_snoc_event hn).1 hset)).step ht
    · rcases (setIn_snoc_thread hn hi).1 hset with hpast | hnow
      · exact (ih hpast).step ht
      · exact rotated_of_sets (kept_run hm hn) hi hnow ht

/-- As long as no `SET` of the session has been sent, it is as it was. -/
theorem unset_run {e : Redis.Entry SessionData} (he : m.store.sessions sid = some e) (hh : e.value.refreshTokenHash = hash)
    (hm : ∀ p ∈ m.threads, Keeps (rotating sid hash) (fun _ _ => True) False p) (hr : m.run turns = .ok n) (hset : ¬ SetIn sid m turns) :
    Unset sid hash m.store n := by
  revert hset
  refine Steps.run_invariant (step Backend.exec Backend.elapse) (fun past n => ¬ SetIn sid m past → Unset sid hash m.store n) ?_ ?_ hr
  · exact fun _ => ⟨rfl, hm⟩
  · intro past n t n' hn ih ht hset
    obtain ⟨ms, rfl, rfl⟩ | ⟨i, c, k, rfl, hi, rfl⟩ := step_cases ht
    · have hpast := ih fun h => hset ((setIn_snoc_event hn).2 h)
      exact ⟨hpast.stored, hpast.calls⟩
    · rw [setIn_snoc_thread hn hi, not_or, Bool.not_eq_true] at hset
      exact (ih hset.1).exec he hh hi hset.2

/-- A session has the hash at some time exactly when it had it at the start, no call has sent a `SET` of it since, and it has not expired. -/
theorem session_hash_iff (hm : ∀ p ∈ m.threads, Keeps (rotating sid hash) (fun _ _ => True) False p) (hr : m.run turns = .ok n) :
    (∃ data, n.store.session sid = some data ∧ data.refreshTokenHash = hash) ↔
      ¬ SetIn sid m turns ∧
        ∃ e, m.store.sessions.live (m.store.now + elapsed turns) sid = some e ∧ e.value.refreshTokenHash = hash := by
  have hkept : Kept (rotating sid hash) (fun _ _ => True) m := fun p hp => ⟨False, hm p hp⟩
  constructor
  · rintro ⟨data, hdata, hh⟩
    obtain ⟨e, he, rfl⟩ := Option.map_eq_some_iff.1 hdata
    have hthere := (Redis.Keyspace.live_eq_some.1 he).1
    have hset : ¬ SetIn sid m turns := fun hset => (rotated_run hkept hr hset).stored e hthere hh
    refine ⟨hset, ?_⟩
    by_cases hstart : ∀ e, m.store.sessions sid = some e → e.value.refreshTokenHash ≠ hash
    · exact absurd hh ((Rotated.run ⟨hstart, hkept⟩ hr).stored e hthere)
    · simp only [not_forall, not_not] at hstart
      obtain ⟨e', he', hh'⟩ := hstart
      rw [Redis.Keyspace.live_congr (unset_run he' hh' hm hr hset).stored, now_run hr] at he
      exact ⟨e, he, hh⟩
  · rintro ⟨hset, e, he, hh⟩
    have hthere := (Redis.Keyspace.live_eq_some.1 he).1
    refine ⟨e.value, ?_, hh⟩
    rw [Backend.session, Redis.Keyspace.live_congr (unset_run hthere hh hm hr hset).stored, now_run hr, he]
    rfl

end Pool

section Run

variable {x : Crypto} {b : Backend} {calls : List SessionCall} {token : String} {turns : Schedule} {m : ApiPool Outcome}

/-- The calls that have been answered, when all have finished, are those that have read the hash of the token. -/
theorem answered_iff (hp : ∀ call ∈ calls, call.Presents token) (hr : (start x b calls).run turns = .ok m) (hf : m.Finished)
    (i : Nat) :
    AnsweredWithTokens m i ↔ Heard Backend.exec Backend.elapse (showsToken x token) (start x b calls) turns i := by
  have hkeeps : ∀ p ∈ (start x b calls).threads, Keeps (listening (showsToken x token)) AnsweredIffShown False p :=
    fun p hmem => by
      obtain ⟨call, hc, rfl⟩ := List.mem_map.1 hmem
      exact keeps_presents (hp call hc)
  constructor
  · rintro ⟨a, hi⟩
    exact (heard_of_result hkeeps hr hi rfl).1
  · intro hheard
    have hlt : i < m.threads.length := by
      obtain ⟨past, rest, n, -, hn, c, k, hi, -⟩ := hheard
      rw [length_threads_run hr, ← length_threads_run hn]
      exact (List.getElem?_eq_some_iff.1 hi).1
    have hi := List.getElem?_eq_getElem hlt
    obtain ⟨r, hres⟩ := Option.isSome_iff_exists.1 (hf _ (List.getElem_mem hlt))
    have hpost := heard_of_result hkeeps hr hi hres
    cases r with
    | error e => exact absurd hheard hpost
    | ok o =>
      obtain ⟨-, a, rfl⟩ := hpost
      exact ⟨a, by rw [hi, Prog.result_eq_ok.1 hres]⟩

/-- A call is shown the hash exactly when it looks the session up in time. -/
theorem heard_iff_looksUpInTime (hp : ∀ call ∈ calls, call.Presents token) (hd : ∀ call ∈ calls, call.DrawsOther x token) (i : Nat) :
    Heard Backend.exec Backend.elapse (showsToken x token) (start x b calls) turns i ↔ LooksUpInTime x token (start x b calls) turns i := by
  have hkeeps : ∀ sid, ∀ p ∈ (start x b calls).threads, Keeps (rotating sid (hashRefreshToken x token)) (fun _ _ => True) False p := by
    intro sid p hmem
    obtain ⟨call, hc, rfl⟩ := List.mem_map.1 hmem
    exact rotating_program (hp call hc) (hd call hc)
  constructor
  · rintro ⟨past, rest, n, hts, hn, c, k, hi, hshown⟩
    obtain ⟨sid, data, hreads, hdata⟩ := shows_exec_iff.1 hshown
    obtain ⟨hset, e, he, hh⟩ := (session_hash_iff (hkeeps sid) hn).1 ⟨data, hdata⟩
    exact ⟨past, rest, n, c, k, sid, e, hts, hn, hi, hreads, he, hh, hset⟩
  · rintro ⟨past, rest, n, c, k, sid, e, hts, hn, hi, hreads, he, hh, hset⟩
    obtain ⟨data, hdata⟩ := (session_hash_iff (hkeeps sid) hn).2 ⟨hset, e, he, hh⟩
    exact ⟨past, rest, n, hts, hn, c, k, hi, shows_exec_iff.2 ⟨sid, data, hreads, hdata⟩⟩

/-- At most one of the calls that present a token is answered, in every schedule of them, exactly when at most one of them looks up a session
with the hash of the token before the first `SET` of it and before it expires. -/
theorem singleUse_iff_lookedUpOnce (hp : ∀ call ∈ calls, call.Presents token) (hd : ∀ call ∈ calls, call.DrawsOther x token)
    (hr : (start x b calls).run turns = .ok m) (hf : m.Finished) :
    SingleUse m ↔
      ∀ i j, LooksUpInTime x token (start x b calls) turns i → LooksUpInTime x token (start x b calls) turns j → i = j := by
  simp only [SingleUse, answered_iff hp hr hf, heard_iff_looksUpInTime hp hd]

end Run

/-- A call after the other: only the first has looked up in time. -/
theorem singleUse_iff_lookedUpOnce_oneAfterTheOther :
    ∃ m, (start Sample.crypto Sample.backend [.refresh (Sample.drawn "2") "1" "s", .refreshByCookie (Sample.drawn "3") (.last ["s"]) "1"]).run
        (Sample.turnsOf 0 7 ++ Sample.turnsOf 1 2) = .ok m ∧ m.Finished ∧
      (SingleUse m ↔ ∀ i j,
        LooksUpInTime Sample.crypto "1" (start Sample.crypto Sample.backend
          [.refresh (Sample.drawn "2") "1" "s", .refreshByCookie (Sample.drawn "3") (.last ["s"]) "1"])
            (Sample.turnsOf 0 7 ++ Sample.turnsOf 1 2) i →
        LooksUpInTime Sample.crypto "1" (start Sample.crypto Sample.backend
          [.refresh (Sample.drawn "2") "1" "s", .refreshByCookie (Sample.drawn "3") (.last ["s"]) "1"])
            (Sample.turnsOf 0 7 ++ Sample.turnsOf 1 2) j → i = j) :=
  ⟨_, rfl, by decide +kernel, singleUse_iff_lookedUpOnce (by simp [SessionCall.Presents])
    (by simp [SessionCall.DrawsOther, hashRefreshToken, Sample.crypto, Sample.drawn]) rfl (by decide +kernel)⟩

/-- The second refresh reads the session before the first has set it. -/
theorem token_used_twice :
    ∃ m, (start Sample.crypto Sample.backend [.refresh (Sample.drawn "2") "1" "s", .refresh (Sample.drawn "3") "1" "s"]).run
        (Sample.turnsOf 0 1 ++ Sample.turnsOf 1 1 ++ Sample.turnsOf 0 6 ++ Sample.turnsOf 1 6) = .ok m ∧ m.Finished ∧
      ¬ SingleUse m :=
  ⟨_, rfl, by decide +kernel, fun h => absurd (h 0 1 ⟨_, rfl⟩ ⟨_, rfl⟩) (by decide)⟩

end BrineVault
