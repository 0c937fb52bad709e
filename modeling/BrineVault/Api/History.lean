import BrineVault.Api.Answers

/-!
# What holds after every run of the API

The digests of the tokens that have been issued differ, and a session has the digest of the last token that was issued for it, unless it
is about to expire: then a refresh issues a token and leaves the session as it is.
-/

namespace BrineVault

open Interleaving
open JwtService

namespace Service

/-- The last token pair that was issued for a session. -/
def latest (st : Service) (sid : Sid) : Option AuthResult := st.issued.find? fun a => a.accessToken.sid = sid

/-- The hash under a session is that of a token that was issued for it, of the last one unless the session is about to expire. -/
def StoredFor (x : Crypto) (st : Service) (sid : Sid) (e : Redis.Entry SessionData) : Prop :=
  ∃ a ∈ st.issued, a.accessToken.sid = sid ∧ e.value.refreshTokenHash = hashRefreshToken x a.refreshToken ∧
    (st.latest sid ≠ some a → e.expireAt < st.backend.now + 500)

structure Sound (x : Crypto) (st : Service) : Prop where
  accounts : st.backend.accounts.WellFormed
  unique : ∀ a ∈ st.issued, ∀ a' ∈ st.issued, hashRefreshToken x a.refreshToken = hashRefreshToken x a'.refreshToken → a = a'
  nonempty : ∀ a ∈ st.issued, a.refreshToken ≠ ""
  stored : ∀ sid e, st.backend.sessions sid = some e → st.StoredFor x sid e

/-- At the start nothing has been issued. -/
theorem sound_start (x : Crypto) (now : Nat) : (start now).Sound x := by
  constructor
  · constructor
    · exact List.nodup_nil
    · intro row hrow
      cases hrow
  · intro a ha
    cases ha
  · intro a ha
    cases ha
  · intro sid e he
    cases he

variable {x : Crypto} {st st' : Service} {t : Served}

/-- A request is served when what it draws is fresh. -/
theorem step_ok : st.step x t = .ok st' ↔ (∀ drawn, t.request.drawn = some drawn → st.Fresh x drawn) ∧ st' = st.after x t := by
  unfold step
  split
  · rename_i hfresh
    constructor
    · intro h
      exact ⟨hfresh, (Except.ok.inj h).symm⟩
    · rintro ⟨-, rfl⟩
      rfl
  · rename_i hfresh
    constructor
    · intro h
      cases h
    · rintro ⟨h, -⟩
      exact absurd h hfresh

/-- What serving a request does. -/
theorem effect (x : Crypto) (st : Service) (t : Served) :
    Effect x st.backend t.request (st.answer x t) (st.after x t).backend :=
  runAlone_of_ends (ends_program x t.request st.backend) t.waits

/-- Tokens that are answered are the last issued. -/
theorem issued_after_tokens {a : AuthResult} (h : st.answer x t = .ok (.tokens a)) : (st.after x t).issued = a :: st.issued := by
  simp only [after, h]

/-- Another answer issues nothing. -/
theorem issued_after_noTokens (h : NoTokens (st.answer x t)) : (st.after x t).issued = st.issued := by
  unfold after
  dsimp only
  split
  · rename_i a ha
    exact absurd ha (h a)
  · rfl

/-- What has been issued stays issued. -/
theorem issued_of_step (h : st.step x t = .ok st') : ∀ a ∈ st.issued, a ∈ st'.issued := by
  obtain ⟨-, rfl⟩ := step_ok.1 h
  intro a ha
  unfold after
  dsimp only
  split
  · exact List.mem_cons_of_mem _ ha
  · exact ha

/-- A session that a request leaves as it is has a hash that was issued for it, when no token of the session is issued. -/
theorem StoredFor.mono {sid : Sid} {e : Redis.Entry SessionData} (h : st.StoredFor x sid e)
    (hissued : ∀ a ∈ st.issued, a ∈ st'.issued) (hlatest : st'.latest sid = st.latest sid)
    (hnow : st.backend.now ≤ st'.backend.now) : st'.StoredFor x sid e := by
  obtain ⟨a, ha, hsid, hhash, hold⟩ := h
  refine ⟨a, hissued a ha, hsid, hhash, ?_⟩
  intro hne
  rw [hlatest] at hne
  have := hold hne
  omega

/-- The last tokens of a session are the newest ones made for it. -/
theorem latest_cons {a : AuthResult} (h : st'.issued = a :: st.issued) (sid : Sid) :
    st'.latest sid = if a.accessToken.sid = sid then some a else st.latest sid := by
  unfold latest
  rw [h, List.find?_cons]
  by_cases hsid : a.accessToken.sid = sid <;> simp [hsid]

/-- A new token, with a digest of its own. -/
theorem unique_cons {a : AuthResult} {drawn : Drawn} (h : st.Sound x) (hf : st.Fresh x drawn)
    (ha : a.refreshToken = drawn.refreshToken) :
    ∀ b ∈ a :: st.issued, ∀ b' ∈ a :: st.issued,
      hashRefreshToken x b.refreshToken = hashRefreshToken x b'.refreshToken → b = b' := by
  obtain ⟨-, -, hnew⟩ := hf
  rw [← ha] at hnew
  intro b hb b' hb' heq
  rcases List.mem_cons.1 hb with hb | hb
  · rcases List.mem_cons.1 hb' with hb' | hb'
    · rw [hb, hb']
    · rw [hb] at heq
      exact absurd heq.symm (hnew b' hb').1
  · rcases List.mem_cons.1 hb' with hb' | hb'
    · rw [hb'] at heq
      exact absurd heq (hnew b hb).1
    · exact h.unique b hb b' hb' heq

/-- No refresh token is empty, the new one included. -/
theorem nonempty_cons {a : AuthResult} {drawn : Drawn} (h : st.Sound x) (hf : st.Fresh x drawn)
    (ha : a.refreshToken = drawn.refreshToken) : ∀ b ∈ a :: st.issued, b.refreshToken ≠ "" := by
  intro b hb
  rcases List.mem_cons.1 hb with rfl | hb
  · rw [ha]
    exact hf.1
  · exact h.nonempty b hb

/-- A login: the session is new, and has the hash of the token that is issued with it. -/
theorem Sound.opened {drawn : Drawn} {a : AuthResult} (h : st.Sound x) (hf : st.Fresh x drawn)
    (ho : Opened x drawn st.backend a st'.backend) (hi : st'.issued = a :: st.issued) : st'.Sound x := by
  obtain ⟨hnow, ⟨address, user, hexec, -⟩, ⟨e, hhash, hsessions⟩, htoken, hsid⟩ := ho
  constructor
  · have hwf := h.accounts.upsert hf.2.1 address
    rw [hexec] at hwf
    exact hwf
  · rw [hi]
    exact unique_cons h hf htoken
  · rw [hi]
    exact nonempty_cons h hf htoken
  · intro sid e' he'
    rw [hsessions] at he'
    by_cases hs : sid = drawn.sid
    · subst hs
      rw [Function.update_self, Option.some.injEq] at he'
      subst he'
      refine ⟨a, by rw [hi]; exact List.mem_cons_self, hsid, by rw [hhash, htoken], ?_⟩
      intro hne
      rw [latest_cons hi, if_pos hsid] at hne
      exact absurd rfl hne
    · rw [Function.update_of_ne hs] at he'
      refine (h.stored sid e' he').mono ?_ ?_ hnow
      · intro b hb
        rw [hi]
        exact List.mem_cons_of_mem _ hb
      · rw [latest_cons hi, if_neg]
        rw [hsid]
        exact fun he => hs he.symm

/-- A refresh: the session gets the hash of the token that is issued, or it is about to expire. -/
theorem Sound.renewed {drawn : Drawn} {token : String} {a : AuthResult} (h : st.Sound x) (hf : st.Fresh x drawn)
    (hr : Refreshed x drawn token st.backend a st'.backend) (hi : st'.issued = a :: st.issued) : st'.Sound x := by
  obtain ⟨-, ⟨hnow, haccounts, hsessions⟩, htoken, -⟩ := hr
  have other : ∀ sid e, sid ≠ a.accessToken.sid → st.backend.sessions sid = some e → st'.StoredFor x sid e := by
    intro sid e hs he
    refine (h.stored sid e he).mono ?_ ?_ hnow
    · intro b hb
      rw [hi]
      exact List.mem_cons_of_mem _ hb
    · rw [latest_cons hi, if_neg (Ne.symm hs)]
  constructor
  · rw [haccounts]
    exact h.accounts
  · rw [hi]
    exact unique_cons h hf htoken
  · rw [hi]
    exact nonempty_cons h hf htoken
  · intro sid e he
    by_cases hs : sid = a.accessToken.sid
    · subst hs
      rcases hsessions with ⟨hsame, hold⟩ | ⟨_, e', -, -, hhash, hset⟩
      · rw [hsame] at he
        obtain ⟨b, hb, hsid, hstored, -⟩ := h.stored _ e he
        refine ⟨b, by rw [hi]; exact List.mem_cons_of_mem _ hb, hsid, hstored, ?_⟩
        intro _
        exact hold e he
      · rw [hset, Function.update_self, Option.some.injEq] at he
        subst he
        refine ⟨a, by rw [hi]; exact List.mem_cons_self, rfl, by rw [hhash, htoken], ?_⟩
        intro hne
        rw [latest_cons hi, if_pos rfl] at hne
        exact absurd rfl hne
    · refine other sid e hs ?_
      rcases hsessions with ⟨hsame, -⟩ | ⟨_, _, -, -, -, hset⟩
      · rwa [hsame] at he
      · rwa [hset, Function.update_of_ne hs] at he

/-- No tokens are issued, and every session that is left has been there before. -/
theorem Sound.kept (h : st.Sound x) (hnow : st.backend.now ≤ st'.backend.now) (haccounts : st'.backend.accounts.WellFormed)
    (hsessions : ∀ sid e, st'.backend.sessions sid = some e → st.backend.sessions sid = some e)
    (hi : st'.issued = st.issued) : st'.Sound x := by
  refine ⟨haccounts, hi ▸ h.unique, hi ▸ h.nonempty, ?_⟩
  intro sid e he
  refine (h.stored sid e (hsessions sid e he)).mono ?_ ?_ hnow
  · intro a ha
    rw [hi]
    exact ha
  · unfold latest
    rw [hi]

/-- Every request keeps the state sound. -/
theorem Sound.step (h : st.Sound x) (hs : st.step x t = .ok st') : st'.Sound x := by
  obtain ⟨hfresh, rfl⟩ := step_ok.1 hs
  have heffect := effect x st t
  generalize hr : st.answer x t = r at heffect
  generalize hb : (st.after x t).backend = b' at heffect
  cases heffect with
  | opened _ own opened => exact h.opened (hfresh _ own) (hb ▸ opened) (issued_after_tokens hr)
  | renewed own refreshed =>
    refine h.renewed (hfresh _ ?_) (hb ▸ refreshed) (issued_after_tokens hr)
    rw [own]
    rfl
  | @deleted _ _ k none now accounts sessions =>
    subst hb
    refine h.kept now (accounts ▸ h.accounts) ?_ (issued_after_noTokens (hr ▸ none))
    intro sid e he
    rw [sessions] at he
    by_cases hk : sid = k
    · rw [hk, Function.update_self] at he
      cases he
    · rwa [Function.update_of_ne hk] at he
  | kept none enrolled =>
    subst hb
    refine h.kept enrolled.now (enrolled.accounts h.accounts) ?_ (issued_after_noTokens (hr ▸ none))
    intro sid e he
    rwa [enrolled.sessions] at he

theorem Sound.run {ts : List Served} (h : st.Sound x) (hr : st.run x ts = .ok st') : st'.Sound x :=
  Steps.run_preserves (Service.step x) (fun _ _ _ => Sound.step) hr h

/-- Every state that is reached is sound. -/
theorem sound_of_run {now : Nat} {ts : List Served} (hr : (start now).run x ts = .ok st) : st.Sound x :=
  (sound_start x now).run hr

end Service

end BrineVault
