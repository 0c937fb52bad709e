import BrineVault.Api.Alone

/-!
# `wallet-connect-button.tsx`: the login of a wallet

The web client signs a message over the timestamp of the challenge response, which is a number of seconds. The server verifies the
signature over the timestamp of the Redis record, which is an ISO text. The two texts are never the same.
-/

namespace BrineVault

open Interleaving
open IsoDate (toISOString)
open SessionService AuthService

/-- A wallet: its address, and how its key signs a message. -/
structure Wallet where
  address : String
  sign : String → String

/-- A signature of the wallet verifies for the message that was signed, and for no other. -/
def Wallet.VerifiesExactly (x : Crypto) (w : Wallet) : Prop :=
  ∀ message signed, x.verifyPersonalMessageSignature message (w.sign signed) = some w.address ↔ message = signed

/-- The message that the client builds from the response to `GET /auth/challenge`. -/
def clientMessage (challenge : AuthChallenge) : String :=
  "Sign in to BrineVault\nNonce: " ++ challenge.nonce ++ "\nTimestamp: " ++ toString challenge.timestamp

/-- The body that the client posts to `/auth/verify`. -/
def performWalletAuth (w : Wallet) (challenge : AuthChallenge) : VerifyDto :=
  { address := w.address, signature := w.sign (clientMessage challenge), nonce := challenge.nonce }

/-- The whole login, from the request for a challenge to the answer of `/auth/verify`. -/
def walletLogin (x : Crypto) (drawn : Drawn) (w : Wallet) (nonce ip userAgent : String) : Api AuthResult := do
  let challenge ← generateChallenge nonce ip
  verifyAndLogin x drawn (performWalletAuth w challenge) ip userAgent

/-- The two messages differ in what stands for the timestamp. -/
theorem signInMessage_ne_clientMessage (challenge : AuthChallenge) (ms : Nat) :
    signInMessage challenge.nonce (toISOString ms) ≠ clientMessage challenge := by
  intro h
  unfold signInMessage clientMessage at h
  have htimestamp : toISOString ms = toString challenge.timestamp := (String.append_right_inj _).1 h
  exact IsoDate.toISOString_ne_toString _ _ htimestamp

/-- The record of the nonce, as long as it is there, holds the ISO text of a time. -/
def StoredAsText (nonce : String) (b : Backend) : Prop :=
  ∀ e, b.challenges nonce = some e → ∃ ms, e.value.timestamp = toISOString ms

/-- A challenge is stored with its time as a text. -/
theorem ends_generateChallenge (nonce ip : String) (b : Backend) :
    Ends (generateChallenge nonce ip)
      (fun r b' => ∃ challenge, r = .ok challenge ∧ challenge.nonce = nonce ∧ StoredAsText nonce b') b := by
  simp only [generateChallenge, storeChallenge, dateNow, Prog.send_bind, Prog.call_bind, ends_call]
  intro ms ms' ms''
  refine ⟨_, rfl, rfl, ?_⟩
  intro e he
  simp only [Backend.exec, Backend.elapse, Redis.Keyspace.exec, Function.update_self, Option.some.injEq] at he
  subst he
  exact ⟨_, rfl⟩

/-- A challenge that is consumed was stored. -/
theorem ends_consumeChallenge (nonce : String) (b : Backend) :
    Ends (consumeChallenge nonce) (fun r _ => ∀ data, r = .ok (some data) → ∃ e, b.challenges nonce = some e ∧ e.value = data) b := by
  simp only [consumeChallenge, Prog.send_bind, ends_call]
  intro ms ms' data hdata
  obtain ⟨e, he, hv⟩ := Option.map_eq_some_iff.1 (Except.ok.inj hdata)
  exact ⟨e, (Redis.Keyspace.live_eq_some.1 he).1, hv⟩

/-- A login is refused when the signature does not verify for the address, over the message of the record. -/
theorem ends_verifyAndLogin_refused (x : Crypto) (drawn : Drawn) (dto : VerifyDto) (ip userAgent : String) {b : Backend}
    (hnot : ∀ e, b.challenges dto.nonce = some e →
      x.verifyPersonalMessageSignature (signInMessage dto.nonce e.value.timestamp) dto.signature ≠ some dto.address) :
    Ends (verifyAndLogin x drawn dto ip userAgent) (fun r _ => ∀ result, r ≠ .ok result) b := by
  refine (ends_consumeChallenge dto.nonce b).bind ?_ ?_
  · intro value b' hvalue
    cases value with
    | none =>
      intro result h
      cases h
    | some data =>
      obtain ⟨e, he, rfl⟩ := hvalue data rfl
      have hother := hnot e he
      dsimp only
      split
      · intro result h
        cases h
      · rename_i recovered hrecovered
        rw [hrecovered] at hother
        split
        · intro result h
          cases h
        · rename_i hsame
          exact absurd (congrArg some (not_not.1 hsame)) hother
  · intro exception b' _ result h
    cases h

/-- No wallet login succeeds, whatever the wallet, the clock and the time that passes. -/
theorem wallet_login_refused {x : Crypto} {w : Wallet} (hw : w.VerifiesExactly x) (drawn : Drawn) (nonce ip userAgent : String)
    (b : Backend) (waits : List Nat) : ¬ ∃ result, (runAlone (walletLogin x drawn w nonce ip userAgent) b waits).1 = .ok result := by
  have hends : Ends (walletLogin x drawn w nonce ip userAgent) (fun r _ => ∀ result, r ≠ .ok result) b := by
    refine (ends_generateChallenge nonce ip b).bind ?_ ?_
    · rintro challenge b' ⟨_, hr, rfl, hb'⟩
      cases hr
      refine ends_verifyAndLogin_refused x drawn (performWalletAuth w challenge) ip userAgent ?_
      intro e he hverified
      obtain ⟨ms, hms⟩ := hb' e he
      rw [hms] at hverified
      exact signInMessage_ne_clientMessage challenge ms ((hw _ _).1 hverified)
    · rintro exception b' ⟨_, hr, _⟩
      cases hr
  rintro ⟨result, hresult⟩
  exact runAlone_of_ends hends waits result hresult

namespace Sample

def walletAddress : String := "0x0000000000000000000000000000000000000000000000000000000000000007"

/-- A wallet whose signature shows the message, and the check that goes with it. -/
def wallet : Wallet := { address := walletAddress, sign := fun message => "7:" ++ message }

def walletCrypto : Crypto :=
  { crypto with
    verifyPersonalMessageSignature := fun message signature => if signature = "7:" ++ message then some walletAddress else none }

/-- The sample wallet signs what it is asked to sign, and nothing else verifies. -/
theorem wallet_verifiesExactly : wallet.VerifiesExactly walletCrypto := by
  intro message signed
  simp [wallet, walletCrypto, eq_comm]

/-- The login of the wallet, with no time between its steps. -/
def walletLogin : Except HttpException AuthResult :=
  (runAlone (BrineVault.walletLogin walletCrypto (drawn "1") wallet "00112233445566778899aabb" "10.0.0.1" "") backend []).1

end Sample

/-- The sample login is refused, right after its challenge. -/
theorem wallet_login_refused_atOnce : ¬ ∃ result, Sample.walletLogin = .ok result :=
  wallet_login_refused Sample.wallet_verifiesExactly _ _ _ _ _ _

/-- The signature is not one of the message that the server builds. -/
theorem honest_wallet_refused :
    Sample.wallet.VerifiesExactly Sample.walletCrypto ∧
      Sample.walletLogin = .error (UnauthorizedException "INVALID_SIGNATURE" "Signature verification failed") :=
  ⟨Sample.wallet_verifiesExactly, by decide +kernel⟩

end BrineVault
