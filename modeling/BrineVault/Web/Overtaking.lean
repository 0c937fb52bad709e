import BrineVault.Web.Clients

/-!
# The order of cookies and sessions

A refresh sets the hash of the session first, and its answer replaces the cookie some turns later. A call finds the hash of its cookie in the
session exactly when the refresh that has set the session last is the one whose answer came in last when the call read its cookie
(`findsItsHash_iff_inStep`).
-/

namespace BrineVault

open Interleaving
open JwtService SessionService AuthService ApiClient

/-! ## Who has set the session, and who has been answered -/

/-- The command is a `SET` of the session. -/
def BrowserCommand.sets (sid : Sid) : BrowserCommand → Bool
  | .api (.session (.set k _ _)) => k = sid
  | _ => false

/-- The answer to a refresh comes in. -/
def BrowserCommand.comesIn : BrowserCommand → Bool
  | .answered _ => true
  | _ => false

/-- The command has a session looked up. -/
def Command.isGet : Command → Bool
  | .session (.get _) => true
  | _ => false

def BrowserCommand.isGet : BrowserCommand → Bool
  | .api c => c.isGet
  | _ => false

/-- The call whose refresh has set the session last. -/
def lastSet (sid : Sid) (m : BrowserPool) (turns : Schedule) : Option Nat :=
  lastSender (BrowserCommand.sets sid) Browser.exec Browser.elapse m turns

/-- The call whose refresh has been answered last. -/
def lastAnswered (m : BrowserPool) (turns : Schedule) : Option Nat :=
  lastSender BrowserCommand.comesIn Browser.exec Browser.elapse m turns

/-- Whenever a call has read its cookie and looks the session up, the refresh that has set the session last is the one whose answer came in last
before the cookie was read. So none sets it in between, and none that had set it was still to be answered. -/
def InStep (sid : Sid) (m : BrowserPool) (turns : Schedule) : Prop :=
  ∀ past mid rest i n k, turns = past ++ .thread i :: (mid ++ .thread i :: rest) → m.run past = .ok n →
    n.threads[i]? = some (.call .getCookie k) → .thread i ∉ mid → lastSet sid m (past ++ .thread i :: mid) = lastAnswered m past

/-! ## A call apart from its refresh -/

section Apart

variable (x : Crypto) (sign : JwtPayload → String) (sid : Sid) (call : ClientCall)

/-- What a call sets the session to, and is answered, is the token that it has drawn. -/
def ClientCall.Draws : BrowserCommand → Prop
  | .api (.session (.set k data _)) => k = sid → data.refreshTokenHash = hashRefreshToken x call.drawn.refreshToken
  | .answered result => result.refreshToken = call.drawn.refreshToken
  | .getCookie => False
  | _ => True

/-- The next thing the call does is to have a session looked up. -/
def GetsNext : Web JwtPayload → Prop
  | .call c _ => c.isGet = true
  | _ => False

/-- The call has not read its cookie, or it has looked up the session of its refresh: it never has a session looked up twice running, which is
what a refresh begins with. -/
inductive Apart : Web JwtPayload → Prop
  | ret (user : JwtPayload) : Apart (.ret user)
  | throw (e : FetchError) : Apart (.throw e)
  | getToken {k : Option String → Web JwtPayload}
      (h : ∀ token, AuthController.headerSid x (bearer token) = some sid → Apart (k token)) : Apart (.call .getToken k)
  | getCookie {token : Option String} (h : AuthController.headerSid x (bearer token) = some sid) :
      Apart (.call .getCookie fun cookie => refreshSent x sign call cookie token)
  | call {c : BrowserCommand} {k : c.Reply → Web JwtPayload} (hdraws : call.Draws x sid c)
      (hget : c.isGet = true → ∀ r, ¬ GetsNext (k r)) (h : ∀ r, Apart (k r)) : Apart (.call c k)

/-- What the API does for a call: the state says whether the last command had a session looked up. -/
def apart : Protocol Command Command.Reply Bool where
  allows q c := (c.isGet = true → q = false) ∧ call.Draws x sid (.api c)
  next _ c _ := c.isGet

end Apart

section Programs

variable {x : Crypto} {sign : JwtPayload → String} {sid : Sid} {call : ClientCall}

/-- Commands other than a `GET` are always allowed, with what has been drawn. -/
theorem apart_allows {c : Command} {q : Bool} (hget : c.isGet = false) (hdraws : call.Draws x sid (.api c)) : (apart x sid call).allows q c := by
  refine ⟨?_, hdraws⟩
  intro hisget
  rw [hget] at hisget
  cases hisget

/-- A request that the API serves, and what the call makes of the answer. -/
theorem apart_served {α : Type} {post : Bool → Except HttpException α → Prop} {p : Api α} {q : Bool}
    {f : Except HttpException α → Web JwtPayload} (hp : Keeps (apart x sid call) post q p)
    (hf : ∀ q r, post q r → Apart x sign sid call (f r) ∧ ¬ GetsNext (f r)) :
    Apart x sign sid call (served p >>= f) ∧ (q = true → ¬ GetsNext (served p >>= f)) := by
  induction p generalizing q with
  | ret a => exact ⟨(hf q _ hp).1, fun _ => (hf q _ hp).2⟩
  | throw e => exact ⟨(hf q _ hp).1, fun _ => (hf q _ hp).2⟩
  | call c k ih =>
    obtain ⟨⟨hget, hdraws⟩, hk⟩ := hp
    refine ⟨.call hdraws (fun hisget r => (ih r (hk r)).2 hisget) fun r => (ih r (hk r)).1, ?_⟩
    intro hq hnext
    rw [hget hnext] at hq
    cases hq

/-- The exchange of such a request. -/
theorem apart_exchange {α : Type} {post : Bool → Except HttpException α → Prop} {p : Api α}
    {f : Option (Except HttpException α) → Web JwtPayload} (hp : Keeps (apart x sid call) post false p)
    (hf : ∀ q r, post q r → Apart x sign sid call (f (some r)) ∧ ¬ GetsNext (f (some r))) :
    Apart x sign sid call (exchange .delivered p >>= f) := by
  have hserved : exchange .delivered p >>= f = served p >>= fun r => f (some r) := Prog.bind_bind _ _ _
  rw [hserved]
  exact (apart_served hp hf).1

/-- Giving up has no session looked up. -/
theorem apart_giveUp : Apart x sign sid call giveUp ∧ ¬ GetsNext giveUp :=
  ⟨.call trivial (fun h => by cases h) fun _ => .throw _, fun h => by cases h⟩

/-- One attempt, whose exchange is delivered. -/
theorem apart_attempts (on401 : List Delivery → Web JwtPayload) (authorization : Option String)
    (h : Apart x sign sid call (on401 []) ∧ ¬ GetsNext (on401 [])) :
    Apart x sign sid call (attempts x authorization on401 maxRetries []) := by
  have hguard : Keeps (apart x sid call) (fun _ _ => True) false (AuthGuard.canActivate x authorization) :=
    AuthGuard.keeps x authorization ⟨apart_allows rfl trivial, fun _ => rfl⟩ (fun _ => ⟨apart_allows rfl trivial, fun _ => rfl⟩)
      (fun _ => ⟨fun _ => rfl, trivial⟩) (fun _ _ => trivial) (fun _ _ _ => trivial) fun _ _ => trivial
  refine apart_exchange hguard ?_
  intro _ r _
  cases r with
  | ok user => exact ⟨.ret user, id⟩
  | error e =>
    change Apart x sign sid call (if e.status = 401 then _ else _) ∧ ¬ GetsNext (if e.status = 401 then _ else _)
    split
    · exact h
    · exact ⟨.throw _, id⟩

/-- The retry of a call, once it has refreshed. -/
theorem apart_fetchRetry : Apart x sign sid call (fetchRetry x []) ∧ ¬ GetsNext (fetchRetry x []) :=
  ⟨.getToken fun token _ => apart_attempts (fun _ => giveUp) (bearer token) apart_giveUp, fun h => by cases h⟩

/-- What a refresh does once it has read the session sets the hash of the token it has drawn, and is answered with this token. -/
theorem apart_refreshRead (cookie : String) (k : Sid) (read : Option SessionData) :
    Keeps (apart x sid call) (fun _ r => ∀ result, r = .ok result → result.refreshToken = call.drawn.refreshToken) false
      (refreshRead x call.drawn cookie k read) := by
  have tokens : ∀ q session, Keeps (apart x sid call) (fun _ r => ∀ result, r = .ok result → result.refreshToken = call.drawn.refreshToken) q
      (renewedTokens call.drawn k session) := by
    intro q session
    refine ⟨apart_allows rfl trivial, fun now => ⟨apart_allows rfl trivial, fun user result hresult => ?_⟩⟩
    cases hresult
    rfl
  cases read with
  | none =>
    intro result hresult
    cases hresult
  | some session =>
    by_cases hhash : session.refreshTokenHash = hashRefreshToken x cookie
    · rw [refreshRead_same hhash]
      simp only [updateSession, getSession, Prog.send_bind, Prog.call_bind]
      refine ⟨⟨fun _ => rfl, trivial⟩, fun found => ?_⟩
      cases found with
      | none => exact tokens _ session
      | some data =>
        refine ⟨apart_allows rfl trivial, fun ttl => ?_⟩
        dsimp only
        split
        · exact tokens _ session
        · exact ⟨apart_allows rfl trivial, fun now => ⟨apart_allows rfl fun _ => rfl, fun _ => tokens _ session⟩⟩
    · rw [refreshRead_other hhash]
      refine ⟨apart_allows rfl trivial, fun _ result hresult => ?_⟩
      cases hresult

/-- What a refresh does after its look-up is apart from it. -/
theorem apart_refreshRest (cookie : String) (k : Sid) (read : Option SessionData) :
    Apart x sign sid call (refreshRest x sign call.drawn cookie k read) := by
  have hrest : refreshRest x sign call.drawn cookie k read = exchange .delivered (refreshRead x call.drawn cookie k read) >>=
      fun answer => received sign answer >>= fun refreshed => if refreshed then fetchRetry x [] else giveUp := Prog.bind_bind _ _ _
  rw [hrest]
  refine apart_exchange (apart_refreshRead cookie k read) ?_
  intro _ r hr
  cases r with
  | ok result =>
    refine ⟨.call (hr result rfl) (fun h => by cases h) fun _ => ?_, fun h => by cases h⟩
    exact .call trivial (fun h => by cases h) fun _ => apart_fetchRetry.1
  | error e => exact apart_giveUp

/-- A call at its start. -/
theorem apart_fetch (hnet : call.net = []) : Apart x sign sid call (fetch x sign call) := by
  have hrefresh : Apart x sign sid call (refreshAndRetry x sign call []) ∧ ¬ GetsNext (refreshAndRetry x sign call []) :=
    ⟨.getToken fun _ htoken => .getCookie htoken, fun h => by cases h⟩
  unfold fetch
  rw [hnet]
  exact .getToken fun _ _ => apart_attempts (refreshAndRetry x sign call) _ hrefresh

/-- A call that has sent its refresh is not apart from it. -/
theorem not_apart_refreshSent {call' : ClientCall} {cookie : String} {token : Option String} (hcookie : cookie ≠ "")
    (hsid : AuthController.headerSid x (bearer token) = some sid) : ¬ Apart x sign sid call (refreshSent x sign call' (some cookie) token) := by
  intro h
  rw [refreshSent_eq call' hcookie hsid] at h
  let session : SessionData :=
    { userId := .given 0, address := "", orgId := none, refreshTokenHash := hashRefreshToken x cookie, createdAt := "", lastActiveAt := "",
      ip := "", userAgent := "" }
  cases h with
  | call _ hget _ =>
    refine hget rfl (some session) ?_
    rw [refreshRest, refreshRead_same rfl]
    rfl

end Programs

/-! ## Along a run -/

/-- The cookie of the start, or the token that a call has drawn. -/
def tokenOf (first : String) (calls : List ClientCall) : Option Nat → Option String
  | none => some first
  | some i => calls[i]?.map fun call => call.drawn.refreshToken

/-- The tokens have different hashes. -/
def DrawApart (x : Crypto) (first : String) (calls : List ClientCall) : Prop :=
  ((first :: calls.map fun call => call.drawn.refreshToken).map (hashRefreshToken x)).Nodup

/-- The hash tells whose token it is. -/
theorem DrawApart.inj {x : Crypto} {first : String} {calls : List ClientCall} (h : DrawApart x first calls) {o o' : Option Nat} {t t' : String}
    (ho : tokenOf first calls o = some t) (ho' : tokenOf first calls o' = some t') (hhash : hashRefreshToken x t = hashRefreshToken x t') : o = o' := by
  have hplace : ∀ {o : Option Nat} {t : String}, tokenOf first calls o = some t →
      ((first :: calls.map fun call => call.drawn.refreshToken).map (hashRefreshToken x))[o.elim 0 (· + 1)]? = some (hashRefreshToken x t) := by
    intro o t ht
    cases o with
    | none =>
      cases ht
      rfl
    | some i =>
      obtain ⟨call, hcall, rfl⟩ := Option.map_eq_some_iff.1 ht
      simp [hcall]
  have hlt := (List.getElem?_eq_some_iff.1 (hplace ho)).1
  have hsame := (List.getElem?_inj hlt h).1 ((hplace ho).trans (by rw [hplace ho', hhash]))
  cases o <;> cases o' <;> simp_all

/-- What the browser of a call has at hand: a cookie, and a token that names the session. -/
structure Ready (x : Crypto) (sid : Sid) (w : Browser) : Prop where
  header : AuthController.headerSid x (bearer w.token) = some sid
  cookie : ∃ cookie, w.cookie = some cookie ∧ cookie ≠ ""

section Order

variable (x : Crypto) (sign : JwtPayload → String) (sid : Sid) (first : String) (calls : List ClientCall)

/-- The call has sent its refresh, with the cookie that it read in its last turn. -/
def Presents (m : BrowserPool) (turns : Schedule) (i : Nat) (p : Web JwtPayload) : Prop :=
  ∃ past mid n k call cookie token, turns = past ++ .thread i :: mid ∧ .thread i ∉ mid ∧ m.run past = .ok n ∧
    n.threads[i]? = some (.call .getCookie k) ∧ calls[i]? = some call ∧ cookie ≠ "" ∧
    tokenOf first calls (lastAnswered m past) = some cookie ∧ AuthController.headerSid x (bearer token) = some sid ∧
    p = refreshSent x sign call (some cookie) token

/-- The cookie is that of the last answer, the session has the hash of the last `SET`, and each call is apart from its refresh or presents
the cookie it has read. -/
structure Ordered (m : BrowserPool) (turns : Schedule) (n : BrowserPool) : Prop where
  cookie : n.store.cookie = tokenOf first calls (lastAnswered m turns)
  session : ∀ e, n.store.backend.sessions sid = some e →
    ∃ token, tokenOf first calls (lastSet sid m turns) = some token ∧ e.value.refreshTokenHash = hashRefreshToken x token
  threads : ∀ i p, n.threads[i]? = some p →
    (∃ call, calls[i]? = some call ∧ Apart x sign sid call p) ∨ Presents x sign sid first calls m turns i p

end Order

section Order

variable {x : Crypto} {sign : JwtPayload → String} {sid : Sid} {first : String} {calls : List ClientCall} {m n : BrowserPool} {turns : Schedule}
  {w : Browser}

/-- A turn of another, or an event. -/
theorem Presents.snoc {i : Nat} {p : Web JwtPayload} (h : Presents x sign sid first calls m turns i p) {t : Turn Nat} (ht : t ≠ .thread i) :
    Presents x sign sid first calls m (turns ++ [t]) i p := by
  obtain ⟨past, mid, n, k, call, cookie, token, rfl, hmid, hrest⟩ := h
  refine ⟨past, mid ++ [t], n, k, call, cookie, token, by simp, ?_, hrest⟩
  rw [List.mem_append, List.mem_singleton, not_or]
  exact ⟨hmid, Ne.symm ht⟩

/-- The cookie after a command of a call. -/
theorem cookie_exec {call : ClientCall} {c : BrowserCommand} (hdraws : c = .getCookie ∨ call.Draws x sid c) :
    (w.exec c).2.cookie = if c.comesIn then some call.drawn.refreshToken else w.cookie := by
  cases c with
  | answered result =>
    obtain hcookie | hdraws := hdraws
    · cases hcookie
    · exact congrArg some hdraws
  | _ => rfl

/-- The session after a command of a call, when it is there. -/
theorem session_exec {call : ClientCall} {c : BrowserCommand} (hdraws : c = .getCookie ∨ call.Draws x sid c)
    {e : Redis.Entry SessionData} (he : (w.exec c).2.backend.sessions sid = some e) :
    if c.sets sid then e.value.refreshTokenHash = hashRefreshToken x call.drawn.refreshToken else w.backend.sessions sid = some e := by
  cases c with
  | api c =>
    cases c with
    | session c =>
      cases c with
      | set k data ex =>
        by_cases hk : k = sid
        · obtain hcookie | hdraws := hdraws
          · cases hcookie
          · subst hk
            simp only [Browser.exec, Backend.exec, Redis.Keyspace.exec, Function.update_self, Option.some.injEq] at he
            subst he
            simpa [BrowserCommand.sets] using hdraws rfl
        · simpa [Browser.exec, Backend.exec, Redis.Keyspace.exec, BrowserCommand.sets, hk, Function.update_of_ne (Ne.symm hk)] using he
      | del k =>
        by_cases hk : k = sid
        · subst hk
          simp [Browser.exec, Backend.exec, Redis.Keyspace.exec] at he
        · simpa [Browser.exec, Backend.exec, Redis.Keyspace.exec, BrowserCommand.sets, Function.update_of_ne (Ne.symm hk)] using he
      | _ => exact he
    | _ => exact he
  | _ => exact he

/-- What a call sends is drawn by it, unless it reads its cookie. -/
theorem Ordered.draws (h : Ordered x sign sid first calls m turns n) {i : Nat} {c : BrowserCommand} {k : c.Reply → Web JwtPayload}
    (hi : n.threads[i]? = some (.call c k)) : ∃ call, calls[i]? = some call ∧ (c = .getCookie ∨ call.Draws x sid c) := by
  obtain ⟨call, hcall, hapart⟩ | ⟨_, _, _, _, call, cookie, token, -, -, -, -, hcall, hne, -, htoken, hp⟩ := h.threads i _ hi
  · refine ⟨call, hcall, ?_⟩
    cases hapart with
    | getToken => exact .inr trivial
    | getCookie => exact .inl rfl
    | call hdraws => exact .inr hdraws
  · rw [refreshSent_eq call hne htoken] at hp
    cases hp
    exact ⟨call, hcall, .inr trivial⟩

/-- The turn of a call, of which something is left. -/
theorem Ordered.turn (h : Ordered x sign sid first calls m turns n) (hw : Ready x sid n.store) (hr : m.run turns = .ok n) {i : Nat}
    {c : BrowserCommand} {k : c.Reply → Web JwtPayload} (hi : n.threads[i]? = some (.call c k)) :
    (∃ call, calls[i]? = some call ∧ Apart x sign sid call (k (n.store.exec c).1)) ∨
      Presents x sign sid first calls m (turns ++ [.thread i]) i (k (n.store.exec c).1) := by
  obtain ⟨call, hcall, hapart⟩ | ⟨_, _, _, _, call, cookie, token, -, -, -, -, hcall, hne, -, htoken, hp⟩ := h.threads i _ hi
  · cases hapart with
    | getToken hnext => exact .inl ⟨call, hcall, hnext _ hw.header⟩
    | @getCookie token htoken =>
      -- From here on it presents the cookie.
      obtain ⟨cookie, hcookie, hne⟩ := hw.cookie
      have hfirst : tokenOf first calls (lastAnswered m turns) = some cookie := h.cookie.symm.trans hcookie
      refine .inr ⟨turns, [], n, _, call, cookie, token, rfl, List.not_mem_nil, hr, hi, hcall, hne, hfirst, htoken, ?_⟩
      change refreshSent x sign call n.store.cookie token = _
      rw [hcookie]
    | call _ _ hnext => exact .inl ⟨call, hcall, hnext _⟩
  · rw [refreshSent_eq call hne htoken] at hp
    cases hp
    exact .inl ⟨call, hcall, apart_refreshRest cookie sid _⟩

/-- One turn keeps the order. -/
theorem Ordered.step (h : Ordered x sign sid first calls m turns n) (hw : Ready x sid n.store) (hr : m.run turns = .ok n) {t : Turn Nat}
    {n' : BrowserPool} (hs : Interleaving.step Browser.exec Browser.elapse n t = .ok n') :
    Ordered x sign sid first calls m (turns ++ [t]) n' := by
  obtain ⟨ms, rfl, rfl⟩ | ⟨i, c, k, rfl, hi, rfl⟩ := step_cases hs
  · have hset : lastSet sid m (turns ++ [.event ms]) = lastSet sid m turns := lastSender_snoc_event ms hr
    have hanswered : lastAnswered m (turns ++ [.event ms]) = lastAnswered m turns := lastSender_snoc_event ms hr
    refine ⟨by rw [hanswered]; exact h.cookie, by rw [hset]; exact h.session, ?_⟩
    intro j p hj
    exact (h.threads j p hj).imp_right fun hp => hp.snoc (by simp)
  · obtain ⟨call, hcall, hdraws⟩ := h.draws hi
    have hset : lastSet sid m (turns ++ [.thread i]) = if c.sets sid then some i else lastSet sid m turns := lastSender_snoc_thread hr hi
    have hanswered : lastAnswered m (turns ++ [.thread i]) = if c.comesIn then some i else lastAnswered m turns := lastSender_snoc_thread hr hi
    have hown : tokenOf first calls (some i) = some call.drawn.refreshToken := by rw [tokenOf, hcall, Option.map_some]
    constructor
    · rw [cookie_exec hdraws, hanswered]
      split
      · exact hown.symm
      · exact h.cookie
    · intro e he
      have hsession := session_exec hdraws he
      rw [hset]
      split
      · rename_i hsets
        rw [if_pos hsets] at hsession
        exact ⟨_, hown, hsession⟩
      · rename_i hsets
        rw [if_neg hsets] at hsession
        exact h.session e hsession
    · intro j p hj
      by_cases hij : i = j
      · subst hij
        rw [List.getElem?_set_self (List.getElem?_eq_some_iff.1 hi).1, Option.some.injEq] at hj
        exact hj ▸ h.turn hw hr hi
      · rw [List.getElem?_set_ne hij] at hj
        exact (h.threads j p hj).imp_right fun hp => hp.snoc (by simpa using hij)

/-- The calls at their start. -/
theorem ordered_start (hcookie : w.cookie = some first) (hnet : ∀ call ∈ calls, call.net = [])
    (hsession : ∀ e, w.backend.sessions sid = some e → e.value.refreshTokenHash = hashRefreshToken x first) :
    Ordered x sign sid first calls (clients x sign w calls) [] (clients x sign w calls) := by
  refine ⟨hcookie, fun e he => ⟨first, rfl, hsession e he⟩, ?_⟩
  intro i p hi
  obtain ⟨call, hcall, rfl⟩ := Option.map_eq_some_iff.1 (List.getElem?_map.symm.trans hi)
  exact .inl ⟨call, hcall, apart_fetch (hnet call (List.mem_of_getElem? hcall))⟩

/-- As long as every call finds a cookie and a token that names the session. -/
theorem ordered_run (hstart : Ordered x sign sid first calls m [] m) (hr : m.run turns = .ok n)
    (hready : ∀ past t rest n, turns = past ++ t :: rest → m.run past = .ok n → Ready x sid n.store) :
    Ordered x sign sid first calls m turns n := by
  refine Steps.run_invariant_of_allowed (step Browser.exec Browser.elapse) (Ordered x sign sid first calls m) hstart ?_ hr hready
  intro _ _ _ _ hr h hw hs
  exact h.step hw hr hs

/-! ## When a refresh finds its hash -/

/-- The hash of the session that is looked up, when it has not expired. -/
theorem Ordered.finds_iff (h : Ordered x sign sid first calls m turns n) (hdraw : DrawApart x first calls) {o : Option Nat} {cookie : String}
    (hcookie : tokenOf first calls o = some cookie) {data : SessionData} (hdata : n.store.backend.session sid = some data) :
    data.refreshTokenHash = hashRefreshToken x cookie ↔ lastSet sid m turns = o := by
  obtain ⟨e, he, rfl⟩ := Option.map_eq_some_iff.1 hdata
  obtain ⟨token, htoken, hhash⟩ := h.session e (Redis.Keyspace.live_eq_some.1 he).1
  constructor
  · intro hsame
    exact hdraw.inj htoken hcookie (hhash.symm.trans hsame)
  · rintro rfl
    rw [htoken, Option.some.injEq] at hcookie
    rw [hhash, hcookie]

/-- A call that presents a cookie knows no more of it than its hash. -/
theorem hash_of_refreshSent {call call' : ClientCall} {cookie cookie' : String} {token token' : Option String} (hne : cookie ≠ "") (hne' : cookie' ≠ "")
    (htoken : AuthController.headerSid x (bearer token) = some sid) (htoken' : AuthController.headerSid x (bearer token') = some sid)
    (h : refreshSent x sign call (some cookie) token = refreshSent x sign call' (some cookie') token') :
    hashRefreshToken x cookie = hashRefreshToken x cookie' := by
  rw [refreshSent_eq call hne htoken, refreshSent_eq call' hne' htoken'] at h
  let session : SessionData :=
    { userId := .given 0, address := "", orgId := none, refreshTokenHash := hashRefreshToken x cookie, createdAt := "", lastActiveAt := "",
      ip := "", userAgent := "" }
  have hrest : refreshRest x sign call.drawn cookie sid (some session) = refreshRest x sign call'.drawn cookie' sid (some session) := by
    injection h with _ hnext
    exact congrFun hnext (some session)
  -- With its own hash the call goes on to `updateSession`, with another it deletes the session.
  by_contra hother
  have hgets : GetsNext (refreshRest x sign call.drawn cookie sid (some session)) := by
    rw [refreshRest, refreshRead_same rfl]
    rfl
  rw [hrest, refreshRest, refreshRead_other hother] at hgets
  cases hgets

/-- A refresh that is in step finds its hash. -/
theorem Ordered.findsItsHash (h : Ordered x sign sid first calls m turns n) (hdraw : DrawApart x first calls) {i : Nat} {rest : Schedule}
    {p : Web JwtPayload} (hi : n.threads[i]? = some p) (hlive : ∃ data, n.store.backend.session sid = some data)
    (hstep : InStep sid m (turns ++ .thread i :: rest)) : FindsItsHash x sign sid n.store p := by
  rintro call cookie token rfl hne htoken
  obtain ⟨data, hdata⟩ := hlive
  obtain ⟨_, -, hapart⟩ | ⟨past, mid, n', k, call', cookie', token', rfl, hmid, hn', hk, -, hne', hcookie, htoken', hp⟩ := h.threads i _ hi
  · exact absurd hapart (not_apart_refreshSent hne htoken)
  · have hset : lastSet sid m (past ++ .thread i :: mid) = lastAnswered m past := hstep past mid rest i n' k (by simp) hn' hk hmid
    refine ⟨data, hdata, ?_⟩
    rw [hash_of_refreshSent hne hne' htoken htoken' hp]
    exact (h.finds_iff hdraw hcookie hdata).2 hset

/-- A call that reads its cookie goes on to send its refresh with it. -/
theorem Ordered.reads (h : Ordered x sign sid first calls m turns n) {i : Nat} {k : Option String → Web JwtPayload}
    (hi : n.threads[i]? = some (.call .getCookie k)) :
    ∃ call token, AuthController.headerSid x (bearer token) = some sid ∧ ∀ cookie, k cookie = refreshSent x sign call cookie token := by
  obtain ⟨call, -, hapart⟩ | ⟨_, _, _, _, call, cookie, token, -, -, -, -, -, hne, -, htoken, hp⟩ := h.threads i _ hi
  · cases hapart with
    | @getCookie token htoken => exact ⟨call, token, htoken, fun _ => rfl⟩
    | call hdraws => exact hdraws.elim
  · rw [refreshSent_eq call hne htoken] at hp
    cases hp

/-- A refresh that finds its hash is in step. -/
theorem lastSet_of_assumed (hdraw : DrawApart x first calls) {past mid rest : Schedule} {i : Nat} {n n' : BrowserPool} {k : Option String → Web JwtPayload}
    (h : Ordered x sign sid first calls m past n) (h' : Ordered x sign sid first calls m (past ++ .thread i :: mid) n')
    (hw : Ready x sid n.store) (hn : m.run past = .ok n) (hn' : m.run (past ++ .thread i :: mid) = .ok n')
    (hi : n.threads[i]? = some (.call .getCookie k)) (hmid : .thread i ∉ mid)
    (hfinds : Assumed Browser.exec Browser.elapse (FindsItsHash x sign sid) m (past ++ .thread i :: (mid ++ .thread i :: rest))) :
    lastSet sid m (past ++ .thread i :: mid) = lastAnswered m past := by
  obtain ⟨call, token, htoken, hk⟩ := h.reads hi
  obtain ⟨cookie, hcookie, hne⟩ := hw.cookie
  -- The call takes no turn between its reading and its look-up.
  have hthere : n'.threads[i]? = some (refreshSent x sign call (some cookie) token) := by
    obtain ⟨n₀, hn₀, hrest⟩ := (Steps.run_append_ok _).1 hn'
    obtain rfl : n = n₀ := Except.ok.inj (hn.symm.trans hn₀)
    obtain ⟨n₁, hs, hlater⟩ := (Steps.run_cons_ok _).1 hrest
    rw [step_thread hi, Except.ok.injEq] at hs
    subst hs
    rw [threads_of_not_mem hlater hmid, List.getElem?_set_self (List.getElem?_eq_some_iff.1 hi).1]
    exact congrArg some ((hk _).trans (by rw [show (n.store.exec .getCookie).1 = n.store.cookie from rfl, hcookie]))
  obtain ⟨data, hdata, hhash⟩ := hfinds (past ++ .thread i :: mid) i rest n' _ (by simp) hn' hthere call cookie token rfl hne htoken
  exact (h'.finds_iff hdraw (h.cookie.symm.trans hcookie) hdata).1 hhash

end Order

end BrineVault
