import BrineVault.Api.Auth
import Mathlib.Algebra.GroupWithZero.Nat

/-!
# Requests side by side

The calls on sessions as the programs of a pool over the backend, and what each of them sends to Redis and learns from it. That a call is
about to write a session, and that a call has read one, is said here once; the theorems on schedules are read off it.
-/

namespace BrineVault

open Interleaving
open SessionService JwtService

/-- Requests that share the backend. -/
abbrev ApiPool (α : Type) := Interleaving.Pool Command Command.Reply Backend HttpException α

/-- A schedule of the requests: a turn is one command of a request, or the passing of some milliseconds. -/
abbrev Schedule := List (Turn Nat)

namespace ApiPool

variable {α : Type}

/-- The pool after a schedule. -/
def run (m : ApiPool α) (turns : Schedule) : Except Nat (ApiPool α) := Steps.run (step Backend.exec Backend.elapse) m turns

end ApiPool

/-- The milliseconds that pass in a schedule. -/
def elapsed (turns : Schedule) : Nat := (turns.map fun | .event ms => ms | .thread _ => 0).sum

theorem elapsed_snoc_event (past : Schedule) (ms : Nat) : elapsed (past ++ [.event ms]) = elapsed past + ms := by
  simp [elapsed]

theorem elapsed_snoc_thread (past : Schedule) (i : Nat) : elapsed (past ++ [.thread i]) = elapsed past := by
  simp [elapsed]

/-- A call that reads or writes sessions. -/
inductive SessionCall where
  | refresh (drawn : Drawn) (refreshToken : String) (sid : Sid)
  | refreshByCookie (drawn : Drawn) (scan : Scan) (refreshToken : String)
  | logout (sid : Sid) (jti : String) (exp : Nat)
  | guard (authorization : Option String)
  deriving DecidableEq, Repr

/-- What a call that succeeds answers. -/
inductive Outcome where
  | tokens (result : AuthResult)
  | loggedOut
  | admitted (user : JwtPayload)
  deriving DecidableEq, Repr

/-- The session that an outcome is about. -/
def Outcome.sid : Outcome → Option Sid
  | .tokens result => some result.accessToken.sid
  | .loggedOut => none
  | .admitted user => some user.sid

def SessionCall.program (x : Crypto) : SessionCall → Api Outcome
  | .refresh drawn token sid => do return .tokens (← AuthService.refresh x drawn token sid)
  | .refreshByCookie drawn scan token => do return .tokens (← AuthService.refreshByCookie x drawn scan token)
  | .logout sid jti exp => do
    AuthService.logout sid jti exp
    return .loggedOut
  | .guard authorization => do return .admitted (← AuthGuard.canActivate x authorization)

/-! ## What the guard sends -/

section Guard

variable {Q : Type} {π : Protocol Command Command.Reply Q} {q : Q}

/-- A check of an access token reads the clock at most, and throws nothing. -/
theorem keeps_verifyAccessToken (x : Crypto) (token : String)
    (hclock : π.allows q .dateNow ∧ ∀ now, π.next q .dateNow now = q) :
    Keeps π (fun q' r => q' = q ∧ ∃ o, r = .ok o) q (verifyAccessToken x token) := by
  unfold verifyAccessToken
  split
  · exact ⟨rfl, _, rfl⟩
  · refine ⟨hclock.1, ?_⟩
    intro now
    rw [hclock.2 now]
    change Keeps _ _ _ (if _ then _ else _)
    split
    · exact ⟨rfl, _, rfl⟩
    · exact ⟨rfl, _, rfl⟩

/-- The guard reads the clock, asks the blacklist and reads the session of the token, in this order, and it admits the user only when the
session is there. -/
theorem AuthGuard.keeps {post : Q → Except HttpException JwtPayload → Prop} (x : Crypto) (authorization : Option String)
    (hclock : π.allows q .dateNow ∧ ∀ now, π.next q .dateNow now = q)
    (hblacklist : ∀ jti, π.allows q (.blacklist (.existsKey jti)) ∧ ∀ there, π.next q (.blacklist (.existsKey jti)) there = q)
    (hsession : ∀ sid, π.allows q (.session (.get sid)))
    (hrefused : ∀ code message, post q (.error (UnauthorizedException code message)))
    (hexpired : ∀ sid code message, post (π.next q (.session (.get sid)) none) (.error (UnauthorizedException code message)))
    (hadmitted : ∀ user data, post (π.next q (.session (.get user.sid)) (some data)) (.ok user)) :
    Keeps π post q (AuthGuard.canActivate x authorization) := by
  unfold AuthGuard.canActivate
  split
  · exact hrefused ..
  · rename_i token _
    refine (keeps_verifyAccessToken x token hclock).bind ?_ ?_
    · rintro q' o ⟨rfl, -⟩
      cases o with
      | none => exact hrefused ..
      | some user =>
        simp only [isTokenBlacklisted, getSession, Prog.send_bind, Prog.call_bind, keeps_call]
        refine ⟨(hblacklist user.jti).1, ?_⟩
        intro there
        rw [(hblacklist user.jti).2 there]
        change Keeps _ _ _ (if _ then _ else _)
        split
        · exact hrefused ..
        · refine ⟨hsession user.sid, ?_⟩
          intro read
          cases read with
          | none => exact hexpired ..
          | some data => exact hadmitted user data
    · rintro q' e ⟨-, o, ho⟩
      cases ho

end Guard

/-! ## What a command does to a session -/

/-- The command writes the session. -/
def Command.writes (sid : Sid) : Command → Bool
  | .session (.set k _ _) | .session (.del k) => k = sid
  | _ => false

namespace Backend

variable {b : Backend} {sid : Sid}

/-- No command moves the clock. -/
@[simp] theorem exec_now (c : Command) : (b.exec c).2.now = b.now := by
  cases c <;> rfl

/-- A command that does not write the session leaves its entry. -/
theorem exec_sessions {c : Command} (h : c.writes sid = false) : (b.exec c).2.sessions sid = b.sessions sid := by
  cases c with
  | session c =>
    cases c with
    | set k v ex => exact Function.update_of_ne (fun he => by simp [Command.writes, he] at h) _ _
    | del k => exact Function.update_of_ne (fun he => by simp [Command.writes, he] at h) _ _
    | _ => rfl
  | _ => rfl

/-- So it leaves what a read would find. -/
theorem exec_session {c : Command} (h : c.writes sid = false) : (b.exec c).2.session sid = b.session sid := by
  rw [session, session, exec_now, Redis.Keyspace.live_congr (exec_sessions h)]

/-- A session that was set is found. -/
theorem session_exec_set (data : SessionData) (ex : Nat) : (b.exec (.session (.set sid data ex))).2.session sid = some data := by
  simp [session, exec, Redis.Keyspace.exec, Redis.Keyspace.live]

/-- A session that was deleted is not. -/
theorem session_exec_del : (b.exec (.session (.del sid))).2.session sid = none := by
  simp [session, exec, Redis.Keyspace.exec, Redis.Keyspace.live]

/-- No session is found exactly when there is no live one. -/
theorem session_eq_none : b.session sid = none ↔ b.sessions.live b.now sid = none := Option.map_eq_none_iff

/-- A session that is gone stays gone as time passes. -/
theorem session_elapse (h : b.session sid = none) (ms : Nat) : (b.elapse ms).session sid = none :=
  session_eq_none.2 (Redis.Keyspace.live_eq_none_of_le ((session_eq_none (b := b)).1 h) (Nat.le_add_right ..))

end Backend

/-- The clock after a schedule. -/
theorem now_run {α : Type} {m n : ApiPool α} {turns : Schedule} (hr : m.run turns = .ok n) :
    n.store.now = m.store.now + elapsed turns := by
  refine Steps.run_invariant (step Backend.exec Backend.elapse) (fun past n => n.store.now = m.store.now + elapsed past) rfl ?_ hr
  intro past n t n' _ ih ht
  obtain ⟨ms, rfl, rfl⟩ | ⟨i, c, k, rfl, hi, rfl⟩ := step_cases ht
  · rw [elapsed_snoc_event]
    simp only [Backend.elapse]
    omega
  · rw [elapsed_snoc_thread, Backend.exec_now, ih]

/-! ## Reading a session -/

/-- The reply shows a session that `φ` tells of. -/
def shows (φ : Sid → SessionData → Prop) : (c : Command) → c.Reply → Prop
  | .session (.get k), r => ∃ data, (r : Option SessionData) = some data ∧ φ k data
  | .session (.mget ks), r => ∃ k data, (k, some data) ∈ List.zip ks (r : List (Option SessionData)) ∧ φ k data
  | _, _ => False

/-- What `MGET` answers, each value with its key. -/
theorem zip_mget (b : Backend) (ks : List Sid) : ks.zip (ks.map b.session) = ks.map fun k => (k, b.session k) := by
  simpa using @List.zip_map' _ _ _ id b.session ks

/-- What `MGET` answers for a key is the session under it. -/
theorem session_of_mem_mget {b : Backend} {ks : List Sid} {k : Sid} {data : SessionData}
    (h : (k, some data) ∈ ks.zip (ks.map b.session)) : b.session k = some data := by
  rw [zip_mget, List.mem_map] at h
  obtain ⟨k', -, hk⟩ := h
  obtain ⟨rfl, hdata⟩ := Prod.mk.inj hk
  exact hdata

/-- The command reads the session. -/
def Command.reads (sid : Sid) : Command → Bool
  | .session (.get k) => k = sid
  | .session (.mget ks) => sid ∈ ks
  | _ => false

/-- A reply shows what is there under the keys that the command reads. -/
theorem shows_exec_iff {φ : Sid → SessionData → Prop} {b : Backend} {c : Command} :
    shows φ c (b.exec c).1 ↔ ∃ k data, c.reads k = true ∧ b.session k = some data ∧ φ k data := by
  cases c with
  | session c =>
    cases c with
    | get k =>
      constructor
      · rintro ⟨data, hd, hφ⟩
        exact ⟨k, data, decide_eq_true rfl, hd, hφ⟩
      · rintro ⟨k', data, hk, hd, hφ⟩
        obtain rfl : k = k' := of_decide_eq_true hk
        exact ⟨data, hd, hφ⟩
    | mget ks =>
      constructor
      · rintro ⟨k, data, hm, hφ⟩
        exact ⟨k, data, decide_eq_true (List.of_mem_zip hm).1, session_of_mem_mget hm, hφ⟩
      · rintro ⟨k, data, hk, hd, hφ⟩
        have hm : (k, b.session k) ∈ ks.zip (ks.map b.session) := by
          rw [zip_mget]
          exact List.mem_map_of_mem (of_decide_eq_true hk)
        exact ⟨k, data, hd ▸ hm, hφ⟩
    | _ => simp [shows, Command.reads]
  | _ => simp [shows, Command.reads]

/-- What a reply shows is there. -/
theorem session_of_shows {φ : Sid → SessionData → Prop} {b : Backend} {c : Command} (h : shows φ c (b.exec c).1) :
    ∃ k data, b.session k = some data ∧ φ k data := by
  obtain ⟨k, data, -, hd, hφ⟩ := shows_exec_iff.1 h
  exact ⟨k, data, hd, hφ⟩

section Listening

variable {φ : Sid → SessionData → Prop} {q : Prop}

/-- A refresh that is answered has been shown a session with the hash of the token, and one that is refused has been shown no session but
one with another hash. -/
def Answers (φ : Sid → SessionData → Prop) (hash : String) (q : Prop) : Except HttpException AuthResult → Prop
  | .ok a => ∃ data : SessionData, data.refreshTokenHash = hash ∧ (φ a.accessToken.sid data → q)
  | .error _ => q → ∃ sid data, φ sid data ∧ data.refreshTokenHash ≠ hash

/-- `updateSession` shows nothing new. -/
theorem keeps_updateSession {sid : Sid} {hash : String} :
    Keeps (listening (shows φ)) (fun q' r => r = .ok () ∧ (q → q')) q (updateSession sid hash) := by
  simp only [updateSession, getSession, Prog.send_bind, keeps_call]
  refine ⟨trivial, fun r => ?_⟩
  cases r with
  | none => exact ⟨rfl, .inl⟩
  | some data =>
    simp only [keeps_call]
    refine ⟨trivial, fun ttl => ?_⟩
    split
    · exact ⟨rfl, fun h => .inl (.inl h)⟩
    · exact ⟨trivial, fun _ => ⟨trivial, fun _ => ⟨rfl, fun h => .inl (.inl (.inl (.inl h)))⟩⟩⟩

/-- Nor does the making of the tokens, which are for the session. -/
theorem keeps_renewedTokens {drawn : Drawn} {sid : Sid} {session : SessionData} :
    Keeps (listening (shows φ)) (fun q' r => (∃ a, r = .ok a ∧ a.accessToken.sid = sid) ∧ (q → q')) q
      (AuthService.renewedTokens drawn sid session) := by
  simp only [AuthService.renewedTokens, signAccessToken, dateNow, usersFindById, Prog.send_bind]
  exact ⟨trivial, fun _ => ⟨trivial, fun _ => ⟨⟨_, rfl, rfl⟩, fun h => .inl (.inl h)⟩⟩⟩

/-- The steps that both refreshes end with, once they have found a session. -/
theorem keeps_renew {hash newHash : String} {drawn : Drawn} {sid : Sid} {session : SessionData}
    (hs : session.refreshTokenHash = hash) (hq : φ sid session → q) :
    Keeps (listening (shows φ)) (Answers φ hash) q
      (do updateSession sid newHash; AuthService.renewedTokens drawn sid session) := by
  refine keeps_updateSession.bind (fun q' u ⟨_, hq'⟩ => ?_) (fun q' e ⟨he, _⟩ => by cases he)
  refine keeps_renewedTokens.mono fun q'' r => ?_
  rintro ⟨⟨a, rfl, rfl⟩, hq''⟩
  exact ⟨session, hs, fun h => hq'' (hq' (hq h))⟩

/-- A refresh answers only for a session whose hash it has seen to be the token's. -/
theorem keeps_refresh (x : Crypto) (drawn : Drawn) (token : String) (sid : Sid) :
    Keeps (listening (shows φ)) (Answers φ (hashRefreshToken x token)) False (AuthService.refresh x drawn token sid) := by
  simp only [AuthService.refresh, getSession, Prog.send_bind, keeps_call]
  refine ⟨trivial, fun r => ?_⟩
  cases r with
  | none =>
    rintro (h | ⟨data, h, _⟩)
    · exact h.elim
    · cases h
  | some session =>
    dsimp only
    split
    · rename_i hne
      refine ⟨trivial, fun _ => ?_⟩
      rintro ((h | ⟨data, h, hφ⟩) | h)
      · exact h.elim
      · cases h
        exact ⟨sid, session, hφ, hne⟩
      · exact h.elim
    · rename_i heq
      exact keeps_renew (not_not.1 heq) fun hφ => .inr ⟨session, rfl, hφ⟩

/-! ### Looking a session up by its hash -/

/-- What a page yields stands in it under that hash. -/
theorem findInPage_eq_some {hash : String} {sid : Sid} {data : SessionData} {keys : List Sid}
    {values : List (Option SessionData)} (h : findInPage hash keys values = some (sid, data)) :
    (sid, some data) ∈ keys.zip values ∧ data.refreshTokenHash = hash := by
  fun_induction findInPage hash keys values with
  | case1 k keys d values hd =>
    cases h
    exact ⟨List.mem_cons_self .., hd⟩
  | case2 k keys d values hd ih => exact ⟨List.mem_cons_of_mem _ (ih h).1, (ih h).2⟩
  | case3 k keys values ih => exact ⟨List.mem_cons_of_mem _ (ih h).1, (ih h).2⟩
  | case4 => cases h

/-- A page that yields nothing has no session with the hash. -/
theorem findInPage_eq_none {hash : String} {sid : Sid} {data : SessionData} {keys : List Sid}
    {values : List (Option SessionData)} (h : findInPage hash keys values = none)
    (hm : (sid, some data) ∈ keys.zip values) : data.refreshTokenHash ≠ hash := by
  fun_induction findInPage hash keys values with
  | case1 => cases h
  | case2 k keys d values hd ih =>
    obtain he | hm := List.mem_cons.1 hm
    · cases he
      exact hd
    · exact ih h hm
  | case3 k keys values ih =>
    obtain he | hm := List.mem_cons.1 hm
    · cases he
    · exact ih h hm
  | case4 keys values hsome hnone =>
    rcases keys with _ | ⟨k, keys⟩
    · cases hm
    · rcases values with _ | ⟨_ | d, values⟩
      · cases hm
      · exact (hnone _ _ _ rfl rfl).elim
      · exact (hsome _ _ _ _ rfl rfl).elim

/-- What a page has shown: with a match, the session of it, and without, sessions with other hashes. -/
theorem keeps_scanPage {hash : String} {page : List Sid} :
    Keeps (listening (shows φ)) (fun q' r => ∃ o, r = .ok o ∧
        ((∃ sid data, o = some (sid, data) ∧ data.refreshTokenHash = hash ∧ (φ sid data → q')) ∨
          (o = none ∧ (q' → q ∨ ∃ sid data, φ sid data ∧ data.refreshTokenHash ≠ hash)))) q (scanPage hash page) := by
  simp only [scanPage, Prog.send_bind, keeps_call]
  refine ⟨trivial, fun keys => ?_⟩
  split
  · exact ⟨none, rfl, .inr ⟨rfl, fun h => .inl (h.resolve_right id)⟩⟩
  · refine ⟨trivial, fun values => ⟨_, rfl, ?_⟩⟩
    cases hf : findInPage hash keys values with
    | some found =>
      obtain ⟨hm, hd⟩ := findInPage_eq_some hf
      exact .inl ⟨_, _, rfl, hd, fun hφ => .inr ⟨_, _, hm, hφ⟩⟩
    | none =>
      refine .inr ⟨rfl, ?_⟩
      rintro ((h | h) | ⟨sid, data, hm, hφ⟩)
      · exact .inl h
      · exact h.elim
      · exact .inr ⟨sid, data, hφ, findInPage_eq_none hf hm⟩

/-- What the loop over the pages has shown, from a state where only other hashes have been shown. -/
theorem keeps_getSessionByRefreshHash {hash : String} (scan : Scan)
    (hq : q → ∃ sid data, φ sid data ∧ data.refreshTokenHash ≠ hash) :
    Keeps (listening (shows φ)) (fun q' r => ∃ o, r = .ok o ∧
        ((∃ sid data, o = some (sid, data) ∧ data.refreshTokenHash = hash ∧ (φ sid data → q')) ∨
          (o = none ∧ (q' → ∃ sid data, φ sid data ∧ data.refreshTokenHash ≠ hash)))) q
      (getSessionByRefreshHash hash scan) := by
  induction scan generalizing q with
  | last keys =>
    refine keeps_scanPage.mono ?_
    rintro q' r ⟨o, rfl, h⟩
    exact ⟨o, rfl, h.imp id fun ⟨ho, hn⟩ => ⟨ho, fun h => (hn h).elim hq id⟩⟩
  | more keys rest ih =>
    refine keeps_scanPage.bind ?_ ?_
    · rintro q' o ⟨o', ho, h⟩
      cases ho
      obtain ⟨sid, data, rfl, h⟩ | ⟨rfl, hn⟩ := h
      · exact ⟨_, rfl, .inl ⟨sid, data, rfl, h⟩⟩
      · exact ih fun h => (hn h).elim hq id
    · rintro q' e ⟨o', ho, -⟩
      cases ho

/-- A refresh with the cookie alone answers only for such a session, too. -/
theorem keeps_refreshByCookie (x : Crypto) (drawn : Drawn) (scan : Scan) (token : String) :
    Keeps (listening (shows φ)) (Answers φ (hashRefreshToken x token)) False
      (AuthService.refreshByCookie x drawn scan token) := by
  refine (keeps_getSessionByRefreshHash scan False.elim).bind ?_ ?_
  · rintro q' o ⟨o', ho, h⟩
    cases ho
    obtain ⟨sid, session, rfl, hd, hφ⟩ | ⟨rfl, hn⟩ := h
    · exact keeps_renew hd hφ
    · exact hn
  · rintro q' e ⟨o', ho, -⟩
    cases ho

/-- The guard admits a user only when it has been shown the session of the token. -/
def Admits (φ : Sid → SessionData → Prop) (q : Prop) : Except HttpException JwtPayload → Prop
  | .ok user => ∃ data, φ user.sid data → q
  | .error _ => True

/-- The guard admits only a session it has seen. -/
theorem keeps_canActivate (x : Crypto) (authorization : Option String) :
    Keeps (listening (shows φ)) (Admits φ) False (AuthGuard.canActivate x authorization) := by
  have hread : ∀ c, shows φ c = (fun _ => False) → ∀ r, (listening (shows φ)).next False c r = False := by
    intro c hc r
    simp [listening, hc]
  refine AuthGuard.keeps x authorization ⟨trivial, hread _ rfl⟩ (fun _ => ⟨trivial, hread _ rfl⟩) (fun _ => trivial)
    (fun _ _ => trivial) (fun _ _ _ => trivial) ?_
  intro user data
  exact ⟨data, fun hφ => .inr ⟨data, rfl, hφ⟩⟩

/-- A call that succeeds on the session has been shown it. -/
def SeenIfOn (sid : Sid) (q : Prop) : Except HttpException Outcome → Prop
  | .ok o => o.sid = some sid → q
  | .error _ => True

/-- A call that is answered for a session has seen it. -/
theorem keeps_program (x : Crypto) (call : SessionCall) (sid : Sid) :
    Keeps (listening (shows fun k _ => k = sid)) (SeenIfOn sid) False (call.program x) := by
  have tokens : ∀ {p : Api AuthResult} {hash : String},
      Keeps (listening (shows fun k _ => k = sid)) (Answers (fun k _ => k = sid) hash) False p →
        Keeps (listening (shows fun k _ => k = sid)) (SeenIfOn sid) False (do return Outcome.tokens (← p)) := by
    intro p hash hp
    refine hp.bind ?_ fun _ _ _ => trivial
    rintro q' a ⟨data, -, hq⟩ ho
    exact hq (Option.some.inj ho)
  cases call with
  | refresh drawn token k => exact tokens (keeps_refresh x drawn token k)
  | refreshByCookie drawn scan token => exact tokens (keeps_refreshByCookie x drawn scan token)
  | logout k jti exp =>
    refine (keeps_listening (AuthService.logout k jti exp)).bind (fun q' u _ => ?_) fun _ _ _ => trivial
    rintro ⟨⟩
  | guard authorization =>
    refine (keeps_canActivate x authorization).bind (fun q' user h => ?_) fun _ _ _ => trivial
    obtain ⟨data, hq⟩ := h
    exact fun ho => hq (Option.some.inj ho)

end Listening

/-! ## A sample -/

namespace Sample

/-- SHA-256 on the tokens of the sample; it verifies no JWT and no signature. -/
def crypto : Crypto where
  sha256
    | "1" => "6b86b273ff34fce19d6b804eff5a3f5747ada4eaa22f1d49c01e52ddb7875b4b"
    | "2" => "d4735e3a265e16eee03f59718b9b5d03019c07d8b6c51f90da3a666eec13ab35"
    | _ => "4e07408562bedb8b60ce05c1decfe3ad16b72230967de01f640b7e4729b49fce"
  decodeJwt _ := none
  signedPayload _ := none
  verifyPersonalMessageSignature _ _ := none
  jwtToAddress _ _ := ""

def session : SessionData :=
  { userId := .given 7, address := "0x7", orgId := none, refreshTokenHash := crypto.sha256 "1",
    createdAt := "2023-11-14T22:13:20.000Z", lastActiveAt := "2023-11-14T22:13:20.000Z", ip := "10.0.0.1", userAgent := "" }

/-- One user, with one session that has the hash of the token `1`. -/
def backend : Backend where
  now := 1700000000000
  sessions k := if k = "s" then some { value := session, expireAt := 1700604800000 } else none
  challenges _ := none
  blacklist _ := none
  accounts := { users := [Accounts.newUser (.given 7) "0x7"], organizations := [], inviteCodes := [] }

/-- What a refresh draws whose new token is `token`. -/
def drawn (token : String) : Drawn := { refreshToken := token, sid := "", jti := "j" ++ token, userId := .zero }

/-- The turns of one request. -/
def turnsOf (i n : Nat) : Schedule := List.replicate n (.thread i)

end Sample

end BrineVault
