import BrineVault.Api.Enrolment

/-!
# What each request does

One lemma for each function of the services, on what it leaves in the sessions and the accounts; from them, what a request does
(`ends_program`). The invariants of a run are read off that.
-/

namespace BrineVault

open Interleaving
open SessionService JwtService AuthService

/-! ## Leaving the sessions and the accounts alone -/

namespace Backend

/-- Time has passed, and neither a session nor a row of the accounts has been written. -/
structure Later (b b' : Backend) : Prop where
  now : b.now ≤ b'.now
  sessions : b'.sessions = b.sessions
  accounts : b'.accounts = b.accounts

variable {b b' b'' : Backend}

theorem Later.refl (b : Backend) : b.Later b := ⟨Nat.le_refl _, rfl, rfl⟩

theorem Later.trans (h : b.Later b') (h' : b'.Later b'') : b.Later b'' :=
  ⟨Nat.le_trans h.now h'.now, h'.sessions.trans h.sessions, h'.accounts.trans h.accounts⟩

/-- The store is later after a wait. -/
theorem later_elapse (b : Backend) (ms : Nat) : b.Later (b.elapse ms) := ⟨Nat.le_add_right _ _, rfl, rfl⟩

/-- A session that is there at the end has been there all the time. -/
theorem session_of_le {sid : Sid} {data : SessionData} (hn : b.now ≤ b'.now) (hs : b'.sessions sid = b.sessions sid)
    (h : b'.session sid = some data) : b.session sid = some data := by
  obtain ⟨e, he, hv⟩ := Option.map_eq_some_iff.1 h
  obtain ⟨hstored, hlive⟩ := Redis.Keyspace.live_eq_some.1 he
  have hlive' : b.sessions.live b.now sid = some e := Redis.Keyspace.live_eq_some.2 ⟨hs ▸ hstored, Nat.le_trans hn hlive⟩
  unfold session
  rw [hlive']
  exact congrArg some hv

/-- A session that is there later was there before. -/
theorem Later.session {sid : Sid} {data : SessionData} (h : b.Later b') (hs : b'.session sid = some data) :
    b.session sid = some data :=
  session_of_le h.now (by rw [h.sessions]) hs

end Backend

/-- The command writes no session and no row of the accounts. -/
def Command.ReadsOnly : Command → Prop
  | .session (.set _ _ _) | .session (.del _) => False
  | .sql (.usersFindById _) | .sql (.organizationsFindById _) | .sql (.inviteCodesFindByCode _) => True
  | .sql _ => False
  | _ => True

/-- A command that only reads leaves a later store. -/
theorem Backend.later_exec {b : Backend} {c : Command} (hc : c.ReadsOnly) : b.Later (b.exec c).2 := by
  refine ⟨by rw [Backend.exec_now], ?_, ?_⟩
  · cases c with
    | session c =>
      cases c with
      | set => exact hc.elim
      | del => exact hc.elim
      | _ => rfl
    | _ => rfl
  · cases c with
    | sql c =>
      cases c with
      | usersFindById => rfl
      | organizationsFindById => rfl
      | inviteCodesFindByCode => rfl
      | _ => exact hc.elim
    | _ => rfl

/-- A request that writes neither leaves both alone. -/
theorem ends_of_readsOnly {α : Type} {p : Api α} {post : Except HttpException α → Prop}
    (hp : Keeps (allowing Command.ReadsOnly) (fun _ => post) () p) (b : Backend) :
    Ends p (fun r b' => post r ∧ b.Later b') b := by
  refine wp_of_keeps hp ?_ ?_ (.refl b)
  · intro b' c hc hb'
    exact hb'.trans (Backend.later_exec hc)
  · intro b' ms hb'
    exact hb'.trans (b'.later_elapse ms)

/-! ## Refreshes -/

/-- What `updateSession` does: nothing to a session that is about to expire, and else it writes the new hash. -/
structure Renewed (b : Backend) (sid : Sid) (newHash : String) (b' : Backend) : Prop where
  now : b.now ≤ b'.now
  accounts : b'.accounts = b.accounts
  sessions : (b'.sessions = b.sessions ∧ ∀ e, b.sessions sid = some e → e.expireAt < b'.now + 500) ∨
    ∃ e e', b.sessions sid = some e ∧ b.now + 500 ≤ e.expireAt ∧ e'.value.refreshTokenHash = newHash ∧
      b'.sessions = Function.update b.sessions sid (some e')

/-- A renewal may be seen from an earlier store. -/
theorem Renewed.of_later {b b₁ b' : Backend} {sid : Sid} {newHash : String} (h : b.Later b₁) (hr : Renewed b₁ sid newHash b') :
    Renewed b sid newHash b' := by
  obtain ⟨hn, ha, hs⟩ := hr
  rw [h.sessions] at hs
  refine ⟨Nat.le_trans h.now hn, ha.trans h.accounts, ?_⟩
  rcases hs with hs | ⟨e, e', he, hle, hs⟩
  · exact .inl hs
  · have := h.now
    exact .inr ⟨e, e', he, by omega, hs⟩

/-- A renewal stays one later. -/
theorem Renewed.later {b b₁ b' : Backend} {sid : Sid} {newHash : String} (hr : Renewed b sid newHash b₁) (h : b₁.Later b') :
    Renewed b sid newHash b' := by
  obtain ⟨hn, ha, hs⟩ := hr
  refine ⟨Nat.le_trans hn h.now, h.accounts.trans ha, ?_⟩
  rw [h.sessions]
  rcases hs with ⟨hs, hold⟩ | hs
  · refine .inl ⟨hs, ?_⟩
    intro e he
    have := hold e he
    have := h.now
    omega
  · exact .inr hs

/-- `updateSession` ends well, and has renewed the session. -/
theorem ends_updateSession (sid : Sid) (newHash : String) (b : Backend) :
    Ends (updateSession sid newHash) (fun r b' => r = .ok () ∧ Renewed b sid newHash b') b := by
  simp only [updateSession, getSession, Prog.send_bind, ends_get]
  intro t₁
  cases hread : (b.elapse t₁).session sid with
  | none =>
    refine ⟨rfl, Nat.le_add_right _ _, rfl, .inl ⟨rfl, ?_⟩⟩
    intro e he
    have hexpired : e.expireAt < b.now + t₁ := Redis.Keyspace.live_eq_none.1 (Backend.session_eq_none.1 hread) e he
    simp only [Backend.elapse]
    omega
  | some data =>
    refine ends_ttl.2 ?_
    intro t₂
    split
    · rename_i hle
      refine ⟨rfl, ?_, rfl, .inl ⟨rfl, ?_⟩⟩
      · simp only [Backend.elapse]
        omega
      · intro e he
        exact Redis.Keyspace.lt_of_ttl_nonpos (Int.not_lt.2 hle) he
    · rename_i hpos
      obtain ⟨e, he, hlong⟩ := Redis.Keyspace.ttl_pos (Int.not_le.1 hpos)
      refine ends_dateNow.2 ?_
      intro t₃
      refine ends_set.2 ?_
      intro t₄
      refine ⟨rfl, ?_, rfl, .inr ⟨e, _, he, ?_, rfl, rfl⟩⟩
      · simp only [Backend.elapse]
        omega
      · simp only [Backend.elapse] at hlong
        omega

/-- A refresh that is answered has found a session with the hash of the token that it presents, and renewed it. -/
structure Refreshed (x : Crypto) (drawn : Drawn) (token : String) (b : Backend) (a : AuthResult) (b' : Backend) : Prop where
  found : ∃ data, b.session a.accessToken.sid = some data ∧ data.refreshTokenHash = hashRefreshToken x token
  renewed : Renewed b a.accessToken.sid (hashRefreshToken x drawn.refreshToken) b'
  refreshToken : a.refreshToken = drawn.refreshToken
  orgRole : a.accessToken.orgRole = 0

/-- The tokens are for the session and hold no role but 0, and nothing is written. -/
theorem ends_renewedTokens (drawn : Drawn) (sid : Sid) (session : SessionData) (b : Backend) :
    Ends (renewedTokens drawn sid session) (fun r b' => (∃ a, r = .ok a ∧ a.accessToken.sid = sid ∧
      a.refreshToken = drawn.refreshToken ∧ a.accessToken.orgRole = 0) ∧ b.Later b') b := by
  refine ends_of_readsOnly ?_ b
  refine ⟨trivial, ?_⟩
  intro now
  refine ⟨trivial, ?_⟩
  intro user
  exact ⟨_, rfl, rfl, rfl, rfl⟩

/-- The steps that both refreshes end with, once they have found a session. -/
theorem ends_renew {x : Crypto} {drawn : Drawn} {token : String} {sid : Sid} {session : SessionData} {b b₁ : Backend}
    (hb : b.Later b₁) (hs : b.session sid = some session) (hh : session.refreshTokenHash = hashRefreshToken x token) :
    Ends (do updateSession sid (hashRefreshToken x drawn.refreshToken); renewedTokens drawn sid session)
      (fun r b' => ∃ a, r = .ok a ∧ a.accessToken.sid = sid ∧ Refreshed x drawn token b a b') b₁ := by
  refine (ends_updateSession sid _ b₁).bind ?_ ?_
  · rintro u b₂ ⟨-, hrenewed⟩
    refine (ends_renewedTokens drawn sid session b₂).mono ?_
    rintro r b' ⟨⟨a, rfl, rfl, htoken, hrole⟩, hlater⟩
    exact ⟨a, rfl, rfl, ⟨session, hs, hh⟩, (hrenewed.later hlater).of_later hb, htoken, hrole⟩
  · rintro e b₂ ⟨he, -⟩
    cases he

/-- A refresh that names its session finds it gone, finds another hash there and deletes it, or renews it. -/
inductive RefreshEnds (x : Crypto) (drawn : Drawn) (token : String) (sid : Sid) (b : Backend) :
    Except HttpException AuthResult → Backend → Prop where
  | expired {b' : Backend} (later : b.Later b') (gone : b'.session sid = none) :
      RefreshEnds x drawn token sid b (.error (UnauthorizedException "SESSION_EXPIRED" "Session expired or not found")) b'
  | reused {b' : Backend} {e : Redis.Entry SessionData} (now : b.now ≤ b'.now) (accounts : b'.accounts = b.accounts)
      (stored : b.sessions sid = some e) (other : e.value.refreshTokenHash ≠ hashRefreshToken x token)
      (deleted : b'.sessions = Function.update b.sessions sid none) :
      RefreshEnds x drawn token sid b (.error (UnauthorizedException "TOKEN_REUSE_DETECTED" "Refresh token reuse detected")) b'
  | answered {a : AuthResult} {b' : Backend} (own : a.accessToken.sid = sid) (refreshed : Refreshed x drawn token b a b') :
      RefreshEnds x drawn token sid b (.ok a) b'

/-- What a refresh with a token of the session ends with. -/
theorem ends_refresh (x : Crypto) (drawn : Drawn) (token : String) (sid : Sid) (b : Backend) :
    Ends (AuthService.refresh x drawn token sid) (RefreshEnds x drawn token sid b) b := by
  simp only [AuthService.refresh, getSession, Prog.send_bind, ends_get]
  intro t₁
  cases hread : (b.elapse t₁).session sid with
  | none => exact .expired (b.later_elapse t₁) hread
  | some session =>
    dsimp only
    split
    · rename_i hother
      obtain ⟨e, he, rfl⟩ := Option.map_eq_some_iff.1 hread
      refine ends_call.2 ?_
      intro t₂
      refine .reused ?_ rfl (Redis.Keyspace.live_eq_some.1 he).1 hother rfl
      simp only [Backend.exec_now, Backend.elapse]
      omega
    · rename_i hsame
      refine (ends_renew (b.later_elapse t₁) ((b.later_elapse t₁).session hread) (not_not.1 hsame)).mono ?_
      rintro r b' ⟨a, rfl, hsid, h⟩
      exact .answered hsid h

/-! ### Looking a session up by its hash -/

/-- A page finds only sessions with the hash. -/
theorem ends_scanPage (hash : String) (page : List Sid) (b : Backend) :
    Ends (scanPage hash page) (fun r b' => b.Later b' ∧ ∃ o, r = .ok o ∧
      ∀ sid data, o = some (sid, data) → b.session sid = some data ∧ data.refreshTokenHash = hash) b := by
  simp only [scanPage, Prog.send_bind, ends_scan]
  intro t₁
  split
  · refine ⟨b.later_elapse t₁, none, rfl, ?_⟩
    intro sid data h
    cases h
  · refine ends_mget.2 ?_
    intro t₂
    have hlater : b.Later ((b.elapse t₁).elapse t₂) := (b.later_elapse t₁).trans (Backend.later_elapse _ t₂)
    refine ⟨hlater, _, rfl, ?_⟩
    intro sid data h
    obtain ⟨hmem, hhash⟩ := findInPage_eq_some h
    exact ⟨hlater.session (session_of_mem_mget hmem), hhash⟩

theorem ends_getSessionByRefreshHash (hash : String) (scan : Scan) (b : Backend) :
    Ends (getSessionByRefreshHash hash scan) (fun r b' => b.Later b' ∧ ∃ o, r = .ok o ∧
      ∀ sid data, o = some (sid, data) → b.session sid = some data ∧ data.refreshTokenHash = hash) b := by
  induction scan generalizing b with
  | last keys => exact ends_scanPage hash keys b
  | more keys rest ih =>
    refine (ends_scanPage hash keys b).bind ?_ ?_
    · rintro o b₁ ⟨hlater, o', ho, hfound⟩
      cases ho
      cases o with
      | some found => exact ⟨hlater, _, rfl, hfound⟩
      | none =>
        refine (ih b₁).mono ?_
        rintro r b' ⟨hlater', o, ho, hfound⟩
        refine ⟨hlater.trans hlater', o, ho, ?_⟩
        intro sid data h
        obtain ⟨hs, hhash⟩ := hfound sid data h
        exact ⟨hlater.session hs, hhash⟩
    · rintro e b₁ ⟨-, o, ho, -⟩
      cases ho

/-- A refresh that looks its session up finds none and leaves everything as it is, or renews one. -/
inductive CookieRefreshEnds (x : Crypto) (drawn : Drawn) (token : String) (b : Backend) :
    Except HttpException AuthResult → Backend → Prop where
  | expired {b' : Backend} (later : b.Later b') :
      CookieRefreshEnds x drawn token b (.error (UnauthorizedException "SESSION_EXPIRED" "Session expired or not found")) b'
  | answered {a : AuthResult} {b' : Backend} (refreshed : Refreshed x drawn token b a b') : CookieRefreshEnds x drawn token b (.ok a) b'

/-- What a refresh with the cookie alone ends with. -/
theorem ends_refreshByCookie (x : Crypto) (drawn : Drawn) (scan : Scan) (token : String) (b : Backend) :
    Ends (AuthService.refreshByCookie x drawn scan token) (CookieRefreshEnds x drawn token b) b := by
  refine (ends_getSessionByRefreshHash _ scan b).bind ?_ ?_
  · rintro o b₁ ⟨hlater, o', ho, hfound⟩
    cases ho
    cases o with
    | none => exact .expired hlater
    | some found =>
      obtain ⟨hs, hhash⟩ := hfound found.1 found.2 rfl
      refine (ends_renew hlater hs hhash).mono ?_
      rintro r b' ⟨a, rfl, -, h⟩
      exact .answered h
  · rintro e b₁ ⟨-, o, ho, -⟩
    cases ho

/-! ## Logins -/

/-- A login that succeeds has taken the row of the user, opened a session and issued the first tokens of it. -/
structure Opened (x : Crypto) (drawn : Drawn) (b : Backend) (a : AuthResult) (b' : Backend) : Prop where
  now : b.now ≤ b'.now
  accounts : ∃ address user, b.accounts.exec (.usersUpsertByWallet drawn.userId address) = (user, b'.accounts) ∧
    a.accessToken.sub = user.id ∧ a.accessToken.orgId = user.orgId ∧ a.accessToken.orgRole = user.roleInOrg
  sessions : ∃ e : Redis.Entry SessionData, e.value.refreshTokenHash = hashRefreshToken x drawn.refreshToken ∧
    b'.sessions = Function.update b.sessions drawn.sid (some e)
  refreshToken : a.refreshToken = drawn.refreshToken
  sid : a.accessToken.sid = drawn.sid

/-- A login opens a session, or is refused and leaves everything as it is. -/
inductive LoginEnds (x : Crypto) (drawn : Drawn) (b : Backend) : Except HttpException AuthResult → Backend → Prop where
  | refused {e : HttpException} {b' : Backend} (later : b.Later b') : LoginEnds x drawn b (.error e) b'
  | answered {a : AuthResult} {b' : Backend} (opened : Opened x drawn b a b') : LoginEnds x drawn b (.ok a) b'

/-- The steps that both logins end with, once they have verified the address. -/
theorem ends_login (x : Crypto) (drawn : Drawn) (address ip userAgent : String) {b b₁ : Backend} (hb : b.Later b₁) :
    Ends (do let user ← usersUpsertByWallet drawn.userId address; openSession x drawn user address ip userAgent)
      (LoginEnds x drawn b) b₁ := by
  refine ends_sql.2 ?_
  intro t₁
  refine ends_dateNow.2 ?_
  intro t₂
  refine ends_set.2 ?_
  intro t₃
  refine ends_dateNow.2 ?_
  intro t₄
  refine .answered ⟨?_, ⟨address, _, ?_, rfl, rfl, rfl⟩, ?_, rfl, rfl⟩
  · have := hb.now
    simp only [Backend.elapse]
    omega
  · rw [← hb.accounts]
    rfl
  · rw [← hb.sessions]
    refine ⟨_, ?_, rfl⟩
    rfl

/-- What a login with a signature ends with. -/
theorem ends_verifyAndLogin (x : Crypto) (drawn : Drawn) (dto : VerifyDto) (ip userAgent : String) (b : Backend) :
    Ends (verifyAndLogin x drawn dto ip userAgent) (LoginEnds x drawn b) b := by
  have hconsume : Keeps (allowing Command.ReadsOnly) (fun _ r => ∃ value, r = .ok value) () (consumeChallenge dto.nonce) := by
    refine ⟨trivial, ?_⟩
    intro value
    refine ⟨trivial, ?_⟩
    intro n
    exact ⟨_, rfl⟩
  refine (ends_of_readsOnly hconsume b).bind ?_ ?_
  · rintro value b₁ ⟨-, hlater⟩
    cases value with
    | none => exact .refused hlater
    | some data =>
      dsimp only
      split
      · exact .refused hlater
      · split
        · exact .refused hlater
        · exact ends_login x drawn dto.address ip userAgent hlater
  · rintro e b₁ ⟨⟨value, he⟩, -⟩
    cases he

/-- What a login with zkLogin ends with. -/
theorem ends_verifyZkLogin (x : Crypto) (drawn : Drawn) (currentEpoch : Nat) (dto : ZkLoginDto) (ip userAgent : String)
    (b : Backend) : Ends (verifyZkLogin x drawn currentEpoch dto ip userAgent) (LoginEnds x drawn b) b := by
  unfold verifyZkLogin
  have refused : ∀ e, Ends (.throw e) (LoginEnds x drawn b) b := by
    intro e
    exact .refused (.refl b)
  split
  · exact refused _
  · split
    · exact refused _
    · dsimp only
      split
      · exact refused _
      · split
        · exact refused _
        · split
          · exact refused _
          · exact ends_login x drawn _ ip userAgent (.refl b)

/-! ## The guard, and the routes behind it -/

/-- The guard admits a user only when the session of the token is there. -/
theorem ends_canActivate (x : Crypto) (authorization : Option String) (b : Backend) :
    Ends (AuthGuard.canActivate x authorization)
      (fun r b' => b.Later b' ∧ ∀ user, r = .ok user → b.session user.sid ≠ none) b := by
  have refused : ∀ {e b'}, b.Later b' →
      b.Later b' ∧ ∀ user : JwtPayload, (Except.error e : Except HttpException JwtPayload) = .ok user → b.session user.sid ≠ none := by
    intro e b' h
    refine ⟨h, ?_⟩
    intro user hu
    cases hu
  unfold AuthGuard.canActivate
  split
  · exact refused (.refl b)
  · rename_i token _
    have hverify : Keeps (allowing Command.ReadsOnly) (fun _ r => ∃ o, r = .ok o) () (verifyAccessToken x token) :=
      (keeps_verifyAccessToken x token ⟨trivial, fun _ => rfl⟩).mono fun _ _ h => h.2
    refine (ends_of_readsOnly hverify b).bind ?_ ?_
    · rintro o b₁ ⟨-, hlater⟩
      cases o with
      | none => exact refused hlater
      | some payload =>
        refine ends_call.2 ?_
        intro t₁
        have hlater₂ : b.Later (b₁.elapse t₁) := hlater.trans (b₁.later_elapse t₁)
        change Ends (if _ then _ else _) _ (b₁.elapse t₁)
        split
        · exact refused hlater₂
        · refine ends_get.2 ?_
          intro t₂
          have hlater₃ : b.Later ((b₁.elapse t₁).elapse t₂) := hlater₂.trans (Backend.later_elapse _ t₂)
          cases hread : ((b₁.elapse t₁).elapse t₂).session payload.sid with
          | none => exact refused hlater₃
          | some data =>
            refine ⟨hlater₃, ?_⟩
            intro user hu
            obtain rfl := Except.ok.inj hu
            rw [hlater₃.session hread]
            exact Option.some_ne_none data
    · rintro e b₁ ⟨⟨o, he⟩, -⟩
      cases he

/-- A logout ends well; the session is gone, and nothing else. -/
theorem ends_logout (sid : Sid) (jti : String) (exp : Nat) (b : Backend) :
    Ends (AuthService.logout sid jti exp) (fun r b' => r = .ok () ∧ b.now ≤ b'.now ∧ b'.accounts = b.accounts ∧
      b'.sessions = Function.update b.sessions sid none) b := by
  simp only [AuthService.logout, deleteSession, dateNow, Prog.send_bind, Prog.call_bind]
  refine ends_call.2 ?_
  intro t₁
  refine ends_dateNow.2 ?_
  intro t₂
  split
  · refine ends_call.2 ?_
    intro t₃
    refine ⟨rfl, ?_, rfl, rfl⟩
    simp only [Backend.exec_now, Backend.elapse]
    omega
  · refine ⟨rfl, ?_, rfl, rfl⟩
    simp only [Backend.exec_now, Backend.elapse]
    omega

/-! ## What a request does -/

/-- No tokens are issued. -/
def NoTokens (r : Except HttpException Response) : Prop := ∀ a, r ≠ .ok (.tokens a)

/-- A request opens a session, renews one, deletes one, or leaves the sessions as they are. -/
inductive Effect (x : Crypto) (b : Backend) (request : Request) : Except HttpException Response → Backend → Prop where
  | opened {drawn : Drawn} {a : AuthResult} {b' : Backend} (login : request.IsLogin) (own : request.drawn = some drawn)
      (opened : Opened x drawn b a b') : Effect x b request (.ok (.tokens a)) b'
  | renewed {drawn : Drawn} {scan : Scan} {token : String} {authorization : Option String} {a : AuthResult} {b' : Backend}
      (own : request = .refresh drawn scan (some token) authorization) (refreshed : Refreshed x drawn token b a b') :
      Effect x b request (.ok (.tokens a)) b'
  | deleted {r : Except HttpException Response} {b' : Backend} {sid : Sid} (none : NoTokens r) (now : b.now ≤ b'.now)
      (accounts : b'.accounts = b.accounts) (sessions : b'.sessions = Function.update b.sessions sid Option.none) :
      Effect x b request r b'
  | kept {r : Except HttpException Response} {b' : Backend} (none : NoTokens r) (enrolled : b.Enrolled b') : Effect x b request r b'

/-- A store that is only later keeps what an enrolment keeps. -/
theorem Backend.Later.enrolled {b b' : Backend} (h : b.Later b') : b.Enrolled b' := by
  refine ⟨h.now, h.sessions, ?_⟩
  rw [h.accounts]
  exact id

/-- With an exception no tokens are given. -/
theorem noTokens_error (e : HttpException) : NoTokens (.error e) := by
  intro a h
  cases h

variable {x : Crypto} {b : Backend} {request : Request}

/-- A login, as a request. -/
theorem Ends.login {p : Api AuthResult} {drawn : Drawn} (h : Ends p (LoginEnds x drawn b) b) (hl : request.IsLogin)
    (hd : request.drawn = some drawn) : Ends (do return .tokens (← p)) (Effect x b request) b := by
  refine h.bind ?_ ?_
  · intro a b' ha
    cases ha with
    | answered hopened => exact .opened hl hd hopened
  · intro e b' he
    cases he with
    | refused hlater => exact .kept (noTokens_error e) hlater.enrolled

/-- What `POST /auth/refresh` ends with. -/
theorem ends_authRefresh (drawn : Drawn) (scan : Scan) (cookie authorization : Option String) (b : Backend) :
    Ends (Request.program x (.refresh drawn scan cookie authorization)) (Effect x b (.refresh drawn scan cookie authorization)) b := by
  unfold Request.program AuthController.refresh
  dsimp only
  split
  · exact .kept (noTokens_error _) (Backend.Later.refl b).enrolled
  · rename_i token hcookie
    obtain rfl : cookie = some token := (Option.filter_eq_some_iff.1 hcookie).1
    split
    · refine (ends_refresh x drawn token _ b).bind ?_ ?_
      · intro a b' ha
        cases ha with
        | answered _ hrefreshed => exact .renewed rfl hrefreshed
      · intro e b' he
        cases he with
        | expired hlater _ => exact .kept (noTokens_error _) hlater.enrolled
        | reused hnow haccounts _ _ hdeleted => exact .deleted (noTokens_error _) hnow haccounts hdeleted
    · refine (ends_refreshByCookie x drawn scan token b).bind ?_ ?_
      · intro a b' ha
        cases ha with
        | answered hrefreshed => exact .renewed rfl hrefreshed
      · intro e b' he
        cases he with
        | expired hlater => exact .kept (noTokens_error _) hlater.enrolled

/-- A route behind the guard that only reads, or writes the accounts. -/
theorem ends_route {α : Type} {authorization : Option String} {handler : JwtPayload → Api α} {response : α → Response}
    (hr : ∀ a result, response a ≠ .tokens result)
    (hp : ∀ user, Keeps (allowing Command.Enrols) (fun _ _ => True) () (handler user)) :
    Ends (do let user ← AuthGuard.canActivate x authorization; return response (← handler user)) (Effect x b request) b := by
  refine (ends_canActivate x authorization b).bind ?_ ?_
  · rintro user b₁ ⟨hlater, -⟩
    refine (ends_of_enrols hlater.enrolled (hp user)).bind ?_ ?_
    · rintro a b' ⟨-, henrolled⟩
      refine .kept ?_ henrolled
      intro result h
      exact hr a result (Except.ok.inj h)
    · rintro e b' ⟨-, henrolled⟩
      exact .kept (noTokens_error e) henrolled
  · rintro e b₁ ⟨hlater, -⟩
    exact .kept (noTokens_error e) hlater.enrolled

/-- What `POST /auth/logout` ends with. -/
theorem ends_authLogout (authorization : Option String) (b : Backend) :
    Ends (Request.program x (.logout authorization)) (Effect x b request) b := by
  refine (ends_canActivate x authorization b).bind ?_ ?_
  · rintro user b₁ ⟨hlater, -⟩
    refine (ends_logout user.sid user.jti user.exp b₁).bind ?_ ?_
    · rintro u b' ⟨-, hnow, haccounts, hsessions⟩
      refine .deleted ?_ (Nat.le_trans hlater.now hnow) (haccounts.trans hlater.accounts) (hlater.sessions ▸ hsessions)
      intro a h
      cases h
    · rintro e b' ⟨he, -⟩
      cases he
  · rintro e b₁ ⟨hlater, -⟩
    exact .kept (noTokens_error e) hlater.enrolled

/-- What every request of the session ends with. -/
theorem ends_program (x : Crypto) (request : Request) (b : Backend) : Ends (request.program x) (Effect x b request) b := by
  cases request with
  | challenge nonce ip =>
    have hkeeps : Keeps (allowing Command.Enrols) (fun _ _ => True) () (generateChallenge nonce ip) := by
      refine ⟨trivial, ?_⟩
      intro now
      refine ⟨trivial, ?_⟩
      intro _
      refine ⟨trivial, ?_⟩
      intro now
      trivial
    refine (ends_of_enrols (Backend.Later.refl b).enrolled hkeeps).bind ?_ ?_
    · rintro challenge b' ⟨-, henrolled⟩
      refine .kept ?_ henrolled
      intro a h
      cases h
    · rintro e b' ⟨-, henrolled⟩
      exact .kept (noTokens_error e) henrolled
  | verify drawn dto ip userAgent => exact (ends_verifyAndLogin x drawn dto ip userAgent b).login trivial rfl
  | verifyZkLogin drawn currentEpoch dto ip userAgent =>
    exact (ends_verifyZkLogin x drawn currentEpoch dto ip userAgent b).login trivial rfl
  | refresh drawn scan cookie authorization => exact ends_authRefresh drawn scan cookie authorization b
  | access authorization =>
    refine (ends_canActivate x authorization b).bind ?_ ?_
    · rintro user b' ⟨hlater, -⟩
      refine .kept ?_ hlater.enrolled
      intro a h
      cases h
    · rintro e b' ⟨hlater, -⟩
      exact .kept (noTokens_error e) hlater.enrolled
  | logout authorization => exact ends_authLogout authorization b
  | createOrg authorization id dto =>
    refine ends_route ?_ fun user => enrols_createOrg id user.sub dto
    intro a result h
    cases h
  | generateInvite authorization drawn orgId dto =>
    refine ends_route ?_ fun user => enrols_generateInvite drawn orgId user.sub user.orgId user.orgRole dto
    intro a result h
    cases h
  | joinOrg authorization dto =>
    refine ends_route ?_ fun user => enrols_joinOrg user.sub dto
    intro a result h
    cases h

end BrineVault
