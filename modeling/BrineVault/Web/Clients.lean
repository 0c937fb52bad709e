import BrineVault.Lib.RelyGuarantee
import BrineVault.Web.ApiClient

/-!
# Concurrent calls of one browser

The calls share one cookie and one access token, and each of them sends a refresh of its own when it is answered 401. As long as every
refresh finds the hash of its cookie in the session, nobody is logged out: a call keeps `Grows` with its own commands, relies on the others
for it, and ends with its answer (`safe_fetch`).
-/

namespace BrineVault

open Interleaving
open JwtService SessionService AuthService ApiClient

/-- Calls that share a browser. -/
abbrev BrowserPool := Interleaving.Pool BrowserCommand BrowserCommand.Reply Browser FetchError JwtPayload

namespace BrowserPool

/-- The pool after a schedule. -/
def run (m : BrowserPool) (turns : Schedule) : Except Nat BrowserPool := Steps.run (step Browser.exec Browser.elapse) m turns

end BrowserPool

/-- The calls at the start. -/
def clients (x : Crypto) (sign : JwtPayload → String) (w : Browser) (calls : List ClientCall) : BrowserPool :=
  { store := w, threads := calls.map (fetch x sign) }

/-- What is left of a call that has sent its refresh, with the cookie and the token that it has read. -/
def refreshSent (x : Crypto) (sign : JwtPayload → String) (call : ClientCall) (cookie token : Option String) : Web JwtPayload :=
  (exchange .delivered (AuthController.refresh x call.drawn call.scan cookie (bearer token)) >>= received sign) >>= fun refreshed =>
    if refreshed then fetchRetry x [] else giveUp

/-! ## What is assumed of a browser -/

/-- The text of an access token verifies, and decodes. -/
structure Verified (x : Crypto) (sign : JwtPayload → String) (payload : JwtPayload) : Prop where
  nonempty : sign payload ≠ ""
  verifies : x.signedPayload (sign payload) = some payload
  decodes : ∃ jwt, x.decodeJwt (sign payload) = some jwt ∧ jwt.sid = some payload.sid

/-- A browser that holds a refresh cookie of a session, and an access token of it that has expired. The access tokens that the refreshes
will be given are not on the blacklist. -/
structure HoldsSession (x : Crypto) (sid : Sid) (calls : List ClientCall) (w : Browser) : Prop where
  cookie : ∃ cookie data, w.cookie = some cookie ∧ cookie ≠ "" ∧ w.backend.session sid = some data ∧
    data.refreshTokenHash = hashRefreshToken x cookie
  token : ∃ token payload, w.token = some token ∧ x.signedPayload token = some payload ∧ payload.exp ≤ w.backend.now / 1000 ∧
    AuthController.headerSid x (bearer (some token)) = some sid
  unauthorised : w.unauthorised = 0
  answers : w.answers = []
  drawn : ∀ call ∈ calls, call.drawn.refreshToken ≠ "" ∧ w.backend.blacklist call.drawn.jti = none
  delivered : ∀ call ∈ calls, call.net = []

/-- Neither the session nor an access token that a refresh has been given has expired. -/
def Timely (sid : Sid) (w : Browser) : Prop :=
  (∀ a ∈ w.answers, w.backend.now / 1000 < a.accessToken.exp) ∧ ∀ e, w.backend.sessions sid = some e → w.backend.now ≤ e.expireAt

instance (sid : Sid) (w : Browser) : Decidable (Timely sid w) :=
  inferInstanceAs (Decidable ((∀ a ∈ w.answers, w.backend.now / 1000 < a.accessToken.exp) ∧
    ∀ e ∈ w.backend.sessions sid, w.backend.now ≤ e.expireAt))

/-- A refresh that is about to read the session finds the hash of its cookie there. -/
def FindsItsHash (x : Crypto) (sign : JwtPayload → String) (sid : Sid) (w : Browser) (p : Web JwtPayload) : Prop :=
  ∀ call cookie token, p = refreshSent x sign call (some cookie) token → cookie ≠ "" →
    AuthController.headerSid x (bearer token) = some sid →
      ∃ data, w.backend.session sid = some data ∧ data.refreshTokenHash = hashRefreshToken x cookie

/-! ## What the calls keep -/

/-- The token of the browser is one that a refresh has been given. -/
def Renews (sign : JwtPayload → String) (w : Browser) : Prop := ∃ a ∈ w.answers, w.token = some (sign a.accessToken)

/-- Nobody has been logged out. -/
structure Intact (sign : JwtPayload → String) (sid : Sid) (first : String) (w : Browser) : Prop where
  session : w.backend.sessions sid ≠ none
  cookie : ∃ cookie, w.cookie = some cookie ∧ cookie ≠ ""
  token : w.token = some first ∨ Renews sign w
  unauthorised : w.unauthorised = 0
  answers : ∀ a ∈ w.answers, a.accessToken.sid = sid ∧ w.backend.blacklist a.accessToken.jti = none

/-- What the commands of the calls do to a browser. -/
structure Grows (sign : JwtPayload → String) (sid : Sid) (first : String) (w w' : Browser) : Prop where
  intact : Intact sign sid first w → Intact sign sid first w'
  blacklist : w'.backend.blacklist = w.backend.blacklist
  answers : ∀ a ∈ w.answers, a ∈ w'.answers
  renews : Renews sign w → Renews sign w'

section Grows

variable {sign : JwtPayload → String} {sid : Sid} {first : String} {w w' w'' : Browser}

theorem Grows.refl (w : Browser) : Grows sign sid first w w := ⟨id, rfl, fun _ h => h, id⟩

theorem Grows.trans (h : Grows sign sid first w w') (h' : Grows sign sid first w' w'') : Grows sign sid first w w'' := by
  refine ⟨fun hw => h'.intact (h.intact hw), h'.blacklist.trans h.blacklist, ?_, fun hw => h'.renews (h.renews hw)⟩
  intro a ha
  exact h'.answers a (h.answers a ha)

/-- These changes one after the other are one, as `safe_run` asks. -/
theorem grows_trans (sign : JwtPayload → String) (sid : Sid) (first : String) :
    ∀ w w' w'', Grows sign sid first w w' → Grows sign sid first w' w'' → Grows sign sid first w w'' :=
  fun _ _ _ => Grows.trans

/-- The backend changes, and keeps the session and the blacklist. -/
theorem Grows.of_backend {b : Backend} (hs : w.backend.sessions sid ≠ none → b.sessions sid ≠ none)
    (hb : b.blacklist = w.backend.blacklist) : Grows sign sid first w { w with backend := b } := by
  refine ⟨?_, hb, fun a ha => ha, fun h => h⟩
  intro h
  refine ⟨hs h.session, h.cookie, h.token, h.unauthorised, ?_⟩
  intro a ha
  obtain ⟨hsid, hfree⟩ := h.answers a ha
  exact ⟨hsid, by rw [hb]; exact hfree⟩

theorem grows_elapse (w : Browser) (ms : Nat) : Grows sign sid first w (w.elapse ms) := Grows.of_backend id rfl

/-- The command does not delete the session, and does not write the blacklist. -/
def Command.Spares (sid : Sid) : Command → Prop
  | .session (.del k) => k ≠ sid
  | .blacklist (.set _ _ _) | .blacklist (.del _) => False
  | _ => True

/-- A command of the API that spares the session logs nobody out. -/
theorem grows_api {c : Command} (hc : c.Spares sid) : Grows sign sid first w (w.exec (.api c)).2 := by
  refine Grows.of_backend ?_ ?_
  · intro hs
    cases c with
    | session c =>
      cases c with
      | set k data ex =>
        by_cases hk : k = sid
        · subst hk
          simp [Backend.exec, Redis.Keyspace.exec]
        · simpa [Backend.exec, Redis.Keyspace.exec, Function.update_of_ne (Ne.symm hk)] using hs
      | del k => simpa [Backend.exec, Redis.Keyspace.exec, Function.update_of_ne (Ne.symm hc)] using hs
      | _ => exact hs
    | _ => exact hs
  · cases c with
    | blacklist c =>
      cases c with
      | set => exact hc.elim
      | del => exact hc.elim
      | _ => rfl
    | _ => rfl

end Grows

/-! ## What the API does for a call -/

section Served

variable {sid : Sid}

/-- The guard spares every session, and answers 401 where it refuses. -/
theorem spares_canActivate (x : Crypto) (authorization : Option String) :
    Keeps (allowing (Command.Spares sid)) (fun _ r => ∀ e, r = .error e → e.status = 401) () (AuthGuard.canActivate x authorization) := by
  refine AuthGuard.keeps x authorization ⟨trivial, fun _ => rfl⟩ (fun _ => ⟨trivial, fun _ => rfl⟩) (fun _ => trivial) ?_ ?_ ?_
  · rintro code message e he
    obtain rfl := Except.error.inj he
    rfl
  · rintro k code message e he
    obtain rfl := Except.error.inj he
    rfl
  · rintro user data e he
    cases he

/-- What a refresh is answered that has found its hash. -/
def AnsweredFor (drawn : Drawn) (sid : Sid) (r : Except HttpException AuthResult) : Prop :=
  ∃ a, r = .ok a ∧ a.refreshToken = drawn.refreshToken ∧ a.accessToken.sid = sid ∧ a.accessToken.jti = drawn.jti

/-- A refresh that has found its hash spares the session, and is answered with what it has drawn. -/
theorem spares_renew (drawn : Drawn) (k : Sid) (newHash : String) (session : SessionData) :
    Keeps (allowing (Command.Spares sid)) (fun _ => AnsweredFor drawn k) ()
      (do updateSession k newHash; renewedTokens drawn k session) := by
  have hupdate : Keeps (allowing (Command.Spares sid)) (fun _ r => r = .ok ()) () (updateSession k newHash) := by
    refine ⟨trivial, ?_⟩
    intro read
    cases read with
    | none => rfl
    | some data =>
      refine ⟨trivial, ?_⟩
      intro ttl
      change Keeps _ _ _ (if _ then _ else _)
      split
      · rfl
      · refine ⟨trivial, ?_⟩
        intro now
        refine ⟨trivial, ?_⟩
        intro _
        rfl
  refine hupdate.bind ?_ ?_
  · intro _ _ _
    refine ⟨trivial, ?_⟩
    intro now
    refine ⟨trivial, ?_⟩
    intro user
    exact ⟨_, rfl, rfl, rfl, rfl⟩
  · intro _ e he
    cases he

/-- What a refresh does once it has read the session. -/
def refreshRead (x : Crypto) (drawn : Drawn) (token : String) (k : Sid) : Option SessionData → Api AuthResult
  | none => .throw (UnauthorizedException "SESSION_EXPIRED" "Session expired or not found")
  | some session =>
    if session.refreshTokenHash ≠ hashRefreshToken x token then do
      deleteSession k
      .throw (UnauthorizedException "TOKEN_REUSE_DETECTED" "Refresh token reuse detected")
    else do
      updateSession k (hashRefreshToken x drawn.refreshToken)
      renewedTokens drawn k session

/-- With its own hash a refresh goes on to set the new one. -/
theorem refreshRead_same {x : Crypto} {drawn : Drawn} {token : String} {k : Sid} {session : SessionData}
    (h : session.refreshTokenHash = hashRefreshToken x token) : refreshRead x drawn token k (some session) =
      (do updateSession k (hashRefreshToken x drawn.refreshToken); renewedTokens drawn k session) :=
  if_neg (not_not.2 h)

/-- With another hash it deletes the session. -/
theorem refreshRead_other {x : Crypto} {drawn : Drawn} {token : String} {k : Sid} {session : SessionData}
    (h : session.refreshTokenHash ≠ hashRefreshToken x token) : refreshRead x drawn token k (some session) =
      (do deleteSession k; .throw (UnauthorizedException "TOKEN_REUSE_DETECTED" "Refresh token reuse detected")) :=
  if_pos h

/-- A refresh whose header names a session reads the session first. -/
theorem authRefresh_eq {x : Crypto} {cookie : String} {authorization : Option String} {k : Sid} (drawn : Drawn) (scan : Scan)
    (hc : cookie ≠ "") (hk : AuthController.headerSid x authorization = some k) :
    AuthController.refresh x drawn scan (some cookie) authorization = .call (.session (.get k)) (refreshRead x drawn cookie k) := by
  have hcookie : (some cookie).filter (fun token => token ≠ "") = some cookie := by simp [hc]
  unfold AuthController.refresh
  rw [hcookie]
  dsimp only
  rw [hk]
  unfold AuthService.refresh
  refine congrArg (Prog.call _) ?_
  funext read
  cases read with
  | none => rfl
  | some session => rfl

/-- What is left of a refresh once it has read the session. -/
def refreshRest (x : Crypto) (sign : JwtPayload → String) (drawn : Drawn) (cookie : String) (k : Sid) (read : Option SessionData) : Web JwtPayload :=
  (exchange .delivered (refreshRead x drawn cookie k read) >>= received sign) >>= fun refreshed => if refreshed then fetchRetry x [] else giveUp

/-- A call that has sent its refresh has the session looked up that its header names. -/
theorem refreshSent_eq {x : Crypto} {sign : JwtPayload → String} {cookie : String} {token : Option String} {k : Sid} (call : ClientCall)
    (hc : cookie ≠ "") (hk : AuthController.headerSid x (bearer token) = some k) :
    refreshSent x sign call (some cookie) token = .call (.api (.session (.get k))) (refreshRest x sign call.drawn cookie k) := by
  unfold refreshSent
  rw [authRefresh_eq call.drawn call.scan hc hk]
  rfl

end Served

/-- The token of a header is the one it was made with. -/
theorem bearerToken_bearer (token : String) : bearerToken (some ("Bearer " ++ token)) = some token := by
  have hdrop : (("Bearer " ++ token).drop 7).copy = token := by
    rw [← String.toList_inj, String.toList_copy_drop, String.toList_append]
    rfl
  simp [bearerToken, hdrop]

/-- A token makes a header. -/
theorem bearer_some {token : String} (h : token ≠ "") : bearer (some token) = some ("Bearer " ++ token) := by
  have hfilter : (some token).filter (fun t => t ≠ "") = some token := by simp [h]
  unfold bearer
  rw [hfilter]
  rfl

/-! ## The calls are safe -/

section Safety

variable {x : Crypto} {sign : JwtPayload → String} {sid : Sid} {first : String} {w : Browser}

/-- What the API does for a call that spares the session is safe, and answered. -/
theorem safe_served {α : Type} {assume : Browser → Web (Except HttpException α) → Prop} {post : Except HttpException α → Prop}
    {p : Api α} (hp : Keeps (allowing (Command.Spares sid)) (fun _ => post) () p) :
    Safe Browser.exec (Grows sign sid first) assume (fun r _ => ∃ answer, r = .ok answer ∧ post answer) (served p) w := by
  induction p generalizing w with
  | ret a =>
    intro w' _
    exact ⟨_, rfl, hp⟩
  | throw e =>
    intro w' _
    exact ⟨_, rfl, hp⟩
  | call c k ih =>
    intro w' _ _
    exact ⟨grows_api hp.1, ih _ (hp.2 _)⟩

/-- A session that has not been deleted, and has not expired. -/
theorem Intact.session_of_timely (hw : Intact sign sid first w) (ht : Timely sid w) : ∃ data, w.backend.session sid = some data := by
  obtain ⟨e, he⟩ := Option.ne_none_iff_exists'.1 hw.session
  have hlive : w.backend.sessions.live w.backend.now sid = some e := Redis.Keyspace.live_eq_some.2 ⟨he, ht.2 e he⟩
  refine ⟨e.value, ?_⟩
  unfold Backend.session
  rw [hlive]
  rfl

/-- The guard admits the user. -/
def Admitted (r : Except HttpException JwtPayload) : Prop := ∃ user, r = .ok user

/-- The guard admits the token of a refresh. -/
theorem safe_guard {assume : Browser → Web (Except HttpException JwtPayload) → Prop} (htime : ∀ w p, assume w p → Timely sid w)
    (hw : Intact sign sid first w) {a : AuthResult} (ha : a ∈ w.answers) (hv : Verified x sign a.accessToken) :
    Safe Browser.exec (Grows sign sid first) assume (fun r _ => ∃ answer, r = .ok answer ∧ Admitted answer)
      (served (AuthGuard.canActivate x (bearer (some (sign a.accessToken))))) w := by
  have htoken : (bearerToken (bearer (some (sign a.accessToken)))).filter (fun token => token ≠ "") = some (sign a.accessToken) := by
    have := hv.nonempty
    rw [bearer_some this, bearerToken_bearer]
    simp [this]
  obtain ⟨hsid, hfree⟩ := hw.answers a ha
  unfold AuthGuard.canActivate
  rw [htoken]
  dsimp only
  unfold verifyAccessToken
  rw [hv.verifies]
  intro w₁ hw₁ hturn₁
  refine ⟨grows_api trivial, ?_⟩
  have hvalid : ¬ a.accessToken.exp ≤ w₁.backend.now / 1000 := by
    have := (htime _ _ hturn₁).1 a (hw₁.answers a ha)
    omega
  change Safe _ _ _ _ (served ((if a.accessToken.exp ≤ w₁.backend.now / 1000 then _ else _) >>= _)) w₁
  rw [if_neg hvalid]
  intro w₂ hw₂ hturn₂
  refine ⟨grows_api trivial, ?_⟩
  have hblack : w₂.backend.blacklist a.accessToken.jti = none := by
    rw [hw₂.blacklist, hw₁.blacklist, hfree]
  have hnot : ¬ ((w₂.backend.blacklist.live w₂.backend.now a.accessToken.jti).isSome.toNat == 1) = true := by
    simp [Redis.Keyspace.live, hblack]
  change Safe _ _ _ _
    (served (if ((w₂.backend.blacklist.live w₂.backend.now a.accessToken.jti).isSome.toNat == 1) = true then _ else _)) w₂
  rw [if_neg hnot]
  intro w₃ hw₃ hturn₃
  refine ⟨grows_api trivial, ?_⟩
  have hintact : Intact sign sid first w₃ := hw₃.intact (hw₂.intact (hw₁.intact hw))
  obtain ⟨data, hdata⟩ := hintact.session_of_timely (htime _ _ hturn₃)
  have hread : (w₃.exec (.api (.session (.get a.accessToken.sid)))).1 = some data := by
    rw [hsid]
    exact hdata
  rw [hread]
  intro w₄ _
  exact ⟨_, rfl, _, rfl⟩

/-- A request that is served with an answer is answered when its exchange is delivered. -/
theorem safe_exchange {α : Type} {assume : Browser → Web (Option (Except HttpException α)) → Prop}
    {post : Except HttpException α → Prop} {p : Api α}
    (hp : Safe Browser.exec (Grows sign sid first) (fun w q => assume w (q >>= fun answer => .ret (some answer)))
      (fun r _ => ∃ answer, r = .ok answer ∧ post answer) (served p) w) :
    Safe Browser.exec (Grows sign sid first) assume
      (fun r w' => ∃ answer, r = .ok (some answer) ∧ post answer ∧ Grows sign sid first w w') (exchange .delivered p) w := by
  refine (hp.remember (grows_trans sign sid first) (Grows.refl w)).bind Grows.refl ?_ ?_
  · rintro answer w₁ ⟨⟨_, hr, hpost⟩, hw₁⟩
    cases hr
    intro w₂ hw₂
    exact ⟨_, rfl, hpost, hw₁.trans hw₂⟩
  · rintro e w₁ ⟨⟨_, hr, _⟩, _⟩
    cases hr

/-- A header names no empty session. -/
theorem headerSid_ne_empty {authorization : Option String} (h : AuthController.headerSid x authorization = some sid) : sid ≠ "" := by
  unfold AuthController.headerSid at h
  split at h
  · simpa using (Option.filter_eq_some_iff.1 h).2
  · cases h

/-- The header of a token that a refresh has been given names its session. -/
theorem Verified.headerSid {payload : JwtPayload} (hv : Verified x sign payload) (hne : payload.sid ≠ "") :
    AuthController.headerSid x (bearer (some (sign payload))) = some payload.sid := by
  obtain ⟨jwt, hjwt, hsid⟩ := hv.decodes
  unfold AuthController.headerSid
  rw [bearer_some hv.nonempty, bearerToken_bearer]
  simp [hjwt, hsid, hne]

/-- What is assumed at each turn of a call. -/
def AtTurn (x : Crypto) (sign : JwtPayload → String) (sid : Sid) (w : Browser) (p : Web JwtPayload) : Prop :=
  Timely sid w ∧ (∀ a ∈ w.answers, Verified x sign a.accessToken) ∧ FindsItsHash x sign sid w p

/-- The call has its answer. -/
def HasAnswer (r : Except FetchError JwtPayload) (_ : Browser) : Prop := ∃ user, r = .ok user

/-- The retry succeeds, once a refresh has been answered. -/
theorem safe_fetchRetry (hw : Intact sign sid first w) (hrenews : Renews sign w) :
    Safe Browser.exec (Grows sign sid first) (AtTurn x sign sid) HasAnswer (fetchRetry x []) w := by
  intro w₁ hw₁ hturn
  refine ⟨Grows.refl w₁, ?_⟩
  obtain ⟨a, ha, htoken⟩ := hw₁.renews hrenews
  have hv : Verified x sign a.accessToken := hturn.2.1 a ha
  change Safe _ _ _ _ (attempts x (bearer w₁.token) (fun _ => giveUp) maxRetries []) w₁
  rw [htoken]
  refine (safe_exchange (safe_guard ?_ (hw₁.intact hw) ha hv)).bind Grows.refl ?_ ?_
  · intro w q h
    exact h.1
  · rintro answer w₂ ⟨_, hr, ⟨user, rfl⟩, _⟩
    cases hr
    intro w₃ _
    exact ⟨user, rfl⟩
  · rintro e w₂ ⟨_, hr, _⟩
    cases hr

/-- The answer of a refresh comes in: the cookie and the token are replaced. -/
theorem safe_received {assume : Browser → Web Bool → Prop} {result : AuthResult} (hw : Intact sign sid first w)
    (htoken : result.refreshToken ≠ "") (hsid : result.accessToken.sid = sid)
    (hfree : w.backend.blacklist result.accessToken.jti = none) :
    Safe Browser.exec (Grows sign sid first) assume
      (fun r w' => r = .ok true ∧ Intact sign sid first w' ∧ Renews sign w') (received sign (some (.ok result))) w := by
  intro w₁ hw₁ _
  have hfree₁ : w₁.backend.blacklist result.accessToken.jti = none := by
    rw [hw₁.blacklist]
    exact hfree
  have hcookie : Grows sign sid first w₁ (w₁.exec (.answered result)).2 := by
    have hrenews : Renews sign w₁ → Renews sign (w₁.exec (.answered result)).2 := by
      rintro ⟨a, ha, ht⟩
      exact ⟨a, List.mem_cons_of_mem _ ha, ht⟩
    refine ⟨?_, rfl, fun a ha => List.mem_cons_of_mem _ ha, hrenews⟩
    intro h
    refine ⟨h.session, ⟨_, rfl, htoken⟩, h.token.imp id hrenews, h.unauthorised, ?_⟩
    intro a ha
    rcases List.mem_cons.1 ha with rfl | ha
    · exact ⟨hsid, hfree₁⟩
    · exact h.answers a ha
  refine ⟨hcookie, ?_⟩
  intro w₂ hw₂ _
  have hmem : result ∈ w₂.answers := hw₂.answers result List.mem_cons_self
  have hrenewed : Renews sign (w₂.exec (.onTokenRefreshed (sign result.accessToken))).2 := ⟨result, hmem, rfl⟩
  have hset : Grows sign sid first w₂ (w₂.exec (.onTokenRefreshed (sign result.accessToken))).2 := by
    refine ⟨?_, rfl, fun a ha => ha, fun _ => hrenewed⟩
    intro h
    exact ⟨h.session, h.cookie, .inr hrenewed, h.unauthorised, h.answers⟩
  refine ⟨hset, ?_⟩
  intro w₃ hw₃
  exact ⟨rfl, hw₃.intact (hset.intact (hw₂.intact (hcookie.intact (hw₁.intact hw)))), hw₃.renews hrenewed⟩

/-- The rest of a refresh that has found its hash in the session. -/
theorem safe_renew {assume : Browser → Web Bool → Prop} {drawn : Drawn} {newHash : String} {session : SessionData}
    (hw : Intact sign sid first w) (htoken : drawn.refreshToken ≠ "") (hfree : w.backend.blacklist drawn.jti = none) :
    Safe Browser.exec (Grows sign sid first) assume (fun r w' => r = .ok true ∧ Intact sign sid first w' ∧ Renews sign w')
      (exchange .delivered (do updateSession sid newHash; renewedTokens drawn sid session) >>= received sign) w := by
  refine (safe_exchange (safe_served (spares_renew drawn sid newHash session))).bind Grows.refl ?_ ?_
  · rintro answer w₁ ⟨_, hr, ⟨result, rfl, hrt, hsid, hjti⟩, hw₁⟩
    cases hr
    refine safe_received (hw₁.intact hw) (hrt ▸ htoken) hsid ?_
    rw [hw₁.blacklist, hjti]
    exact hfree
  · rintro e w₁ ⟨_, hr, _⟩
    cases hr

/-- A call that has sent its refresh. -/
theorem safe_refreshSent {call : ClientCall} {cookie : String} {token : Option String} (hw : Intact sign sid first w)
    (hdrawn : call.drawn.refreshToken ≠ "" ∧ w.backend.blacklist call.drawn.jti = none) (hcookie : cookie ≠ "")
    (hsid : AuthController.headerSid x (bearer token) = some sid) :
    Safe Browser.exec (Grows sign sid first) (AtTurn x sign sid) HasAnswer (refreshSent x sign call (some cookie) token) w := by
  have hsent : refreshSent x sign call (some cookie) token = _ := refreshSent_eq call hcookie hsid
  rw [hsent]
  intro w₁ hw₁ hturn
  refine ⟨grows_api trivial, ?_⟩
  rw [← hsent] at hturn
  obtain ⟨data, hdata, hhash⟩ := hturn.2.2 call cookie token rfl hcookie hsid
  have hread : (w₁.exec (.api (.session (.get sid)))).1 = some data := hdata
  rw [hread, refreshRest, refreshRead_same hhash]
  refine (safe_renew (hw₁.intact hw) hdrawn.1 ?_).bind Grows.refl ?_ ?_
  · rw [← hw₁.blacklist] at hdrawn
    exact hdrawn.2
  · rintro refreshed w₂ ⟨hr, hintact, hrenews⟩
    cases hr
    exact safe_fetchRetry hintact hrenews
  · rintro e w₂ ⟨hr, _⟩
    cases hr

/-- A call of a browser from which nobody has been logged out. -/
theorem safe_fetch {call : ClientCall} (hw : Intact sign sid first w) (hnet : call.net = [])
    (hfirst : AuthController.headerSid x (bearer (some first)) = some sid)
    (hdrawn : call.drawn.refreshToken ≠ "" ∧ w.backend.blacklist call.drawn.jti = none) :
    Safe Browser.exec (Grows sign sid first) (AtTurn x sign sid) HasAnswer (fetch x sign call) w := by
  unfold fetch
  rw [hnet]
  intro w₁ hw₁ _
  refine ⟨Grows.refl w₁, ?_⟩
  change Safe _ _ _ _ (attempts x (bearer w₁.token) (refreshAndRetry x sign call) maxRetries []) w₁
  refine (safe_exchange (safe_served (spares_canActivate x (bearer w₁.token)))).bind Grows.refl ?_ ?_
  · rintro answer w₂ ⟨answer', hr, hstatus, hw₂⟩
    cases hr
    cases answer' with
    | ok user =>
      intro w₃ _
      exact ⟨user, rfl⟩
    | error e =>
      change Safe _ _ _ _ (if e.status = 401 then _ else _) w₂
      rw [if_pos (hstatus e rfl)]
      intro w₃ hw₃ hturn₃
      have hintact : Intact sign sid first w₃ := hw₃.intact (hw₂.intact (hw₁.intact hw))
      have hnames : AuthController.headerSid x (bearer w₃.token) = some sid := by
        rcases hintact.token with htoken | ⟨a, ha, htoken⟩
        · rw [htoken]
          exact hfirst
        · rw [htoken, ← (hintact.answers a ha).1]
          exact (hturn₃.2.1 a ha).headerSid (by rw [(hintact.answers a ha).1]; exact headerSid_ne_empty hfirst)
      refine ⟨Grows.refl w₃, ?_⟩
      intro w₄ hw₄ _
      refine ⟨Grows.refl w₄, ?_⟩
      have hintact₄ : Intact sign sid first w₄ := hw₄.intact hintact
      obtain ⟨cookie, hcookie, hne⟩ := hintact₄.cookie
      change Safe _ _ _ _ (refreshSent x sign call w₄.cookie w₃.token) w₄
      rw [hcookie]
      have hblack : w₄.backend.blacklist = w.backend.blacklist :=
        hw₄.blacklist.trans (hw₃.blacklist.trans (hw₂.blacklist.trans hw₁.blacklist))
      refine safe_refreshSent hintact₄ ⟨hdrawn.1, ?_⟩ hne hnames
      rw [hblack]
      exact hdrawn.2
  · rintro e w₂ ⟨_, hr, _⟩
    cases hr

end Safety

end BrineVault
