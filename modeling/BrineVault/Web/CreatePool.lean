import BrineVault.Api.Requests
import BrineVault.Web.PoolWizard

/-!
# `use-create-pool.ts`: from the form to the package

The mutation hashes the names, posts the rest of the form to the API, and has the wallet sign the transaction that comes back. The form and the schema
of the API do not ask the same of the fields: what the form has checked is accepted under conditions of its own, and is then what the
package is called with.
-/

namespace BrineVault

open Js Zod Move

section Posting

variable (digest : Text → List UInt8) (toTime : Text → Option Int)

/-- `digest` is SHA-256 of the text in UTF-8. -/
def sha256Hex (s : Text) : Text := bufferToHex (digest s)

/-- `Math.floor(new Date(s).getTime() / 1000)`, which is written as `null` for an invalid date. -/
def maturityTimestamp (s : Text) : Value :=
  match toTime s with
  | some ms => .number (.finite (ms / 1000 : Int))
  | none => .null

/-- The body that is posted to `/pools`, for the organisation of the user. -/
def createPoolBody (adminConfigId orgId : Text) (input : CreatePoolInput) : Value := .object
  [("adminConfigId", .string adminConfigId), ("orgIdHash", .string (sha256Hex digest orgId)), ("name", .string input.name),
   ("borrowerNameHash", .string (sha256Hex digest input.borrowerEntity)), ("currency", .string input.currency),
   ("targetNotional", .string input.targetNotional), ("expectedMaturityDate", maturityTimestamp toTime input.maturityDate),
   ("encryptionScheme", .number (input.encryptionScheme.val : Number)), ("tags", .array (input.tags.map .string))]

end Posting

section Accepted

variable {digest : Text → List UInt8} {toNumber : Text → Number} {toTime : Text → Option Int} {adminConfigId orgId : Text}
  {input : CreatePoolInput}

/-- A finite number passes the checks of its schema as it is. -/
theorem number_finite_eq_ok {checks : List (Check Number)} {q : Rat} {y : Number} :
    number checks (some (.number (.finite q))) = .ok y ↔ (∀ check ∈ checks, check.passes (.finite q) = true) ∧ .finite q = y := validate_eq_ok

/-- A digest of 32 bytes has the 64 digits that the schema asks for. -/
theorem hexHash64_sha256Hex (hdigest : ∀ s, (digest s).length = 32) (s t : Text) :
    Schemas.hexHash64 (some (.string (sha256Hex digest s))) = .ok t ↔ sha256Hex digest s = t := by
  have hhex : isHex64 (sha256Hex digest s) = true := by
    rw [sha256Hex, bufferToHex_eq]
    exact @isHex64_of_hex64 "" _ (hex64_ok_iff.2 ⟨digest s, Hex.decode_encode _, hdigest s⟩)
  rw [Schemas.hexHash64, string_eq_ok]
  simp only [Option.some.injEq, Value.string.injEq, List.mem_singleton, regex, forall_eq]
  constructor
  · exact And.left
  · rintro rfl
    exact ⟨rfl, hhex⟩

/-- The page sends no tags. -/
theorem tags_nil {tags : List Text} : Schemas.tags (some (.array [])) = .ok tags ↔ tags = [] := by
  rw [show Schemas.tags (some (.array [])) = .ok [] from rfl, Parsed.ok.injEq, eq_comm]

/-- A time from the second second on gives a positive integer. -/
theorem maturity_eq_ok {s : Text} {x : Number} :
    number [int, positive] (some (maturityTimestamp toTime s)) = .ok x ↔
      ∃ ms, toTime s = some ms ∧ 1000 ≤ ms ∧ x = ((ms / 1000).toNat : Number) := by
  unfold maturityTimestamp
  cases htime : toTime s with
  | none => simp [number, invalidType]
  | some ms =>
    have hpositive : 0 < ms / 1000 ↔ 1000 ≤ ms := by omega
    have hchecks : (∀ check ∈ [int, positive], check.passes (.finite (ms / 1000 : Int)) = true) ↔ 1000 ≤ ms := by
      simp [int, positive, Number.isInteger, Number.lt, hpositive]
    rw [number_finite_eq_ok, hchecks]
    simp only [Option.some.injEq, exists_eq_left']
    refine and_congr_right fun hms => ?_
    have hnat : (((ms / 1000).toNat : Int) : Rat) = (ms / 1000 : Int) := by rw [Int.toNat_of_nonneg (by omega)]
    rw [Number.natCast_def, ← hnat, eq_comm]
    rfl

/-- The two schemes of the form are in the range of the schema. -/
theorem scheme_eq_ok {scheme : Fin 2} {x : Number} :
    number [int, minimum 0, maximum 1] (some (.number (scheme.val : Number))) = .ok x ↔ x = (scheme.val : Number) := by
  rw [Number.natCast_def, number_finite_eq_ok, eq_comm]
  simpa [int, minimum, maximum, Number.isInteger, Number.lt, Number.natCast_def] using fun _ => Nat.lt_succ_iff.1 scheme.isLt

/-- The schema, field by field. -/
theorem createPoolSchema_object_iff {members : List (String × Value)} {dto : CreatePoolDto} :
    createPoolSchema (some (.object members)) = .ok dto ↔
      string [minLength 1, maxLength 256] (members.lookup "name") = .ok dto.name ∧
      Schemas.adminConfigId (members.lookup "adminConfigId") = .ok dto.adminConfigId ∧
      Schemas.hexHash64 (members.lookup "orgIdHash") = .ok dto.orgIdHash ∧
      Schemas.hexHash64 (members.lookup "borrowerNameHash") = .ok dto.borrowerNameHash ∧
      string [minLength 1, maxLength 10] (members.lookup "currency") = .ok dto.currency ∧
      string [regex isNumeric "Must be a numeric string"] (members.lookup "targetNotional") = .ok dto.targetNotional ∧
      number [int, positive] (members.lookup "expectedMaturityDate") = .ok dto.expectedMaturityDate ∧
      number [int, minimum 0, maximum 1] (members.lookup "encryptionScheme") = .ok dto.encryptionScheme ∧
      Schemas.tags (members.lookup "tags") = .ok dto.tags := by
  unfold createPoolSchema object
  simp only [Parsed.seq_eq_ok, Parsed.map_eq_ok, field_eq_ok]
  constructor
  · rintro ⟨_, ⟨_, ⟨_, ⟨_, ⟨_, ⟨_, ⟨_, ⟨_, ⟨_, hname, rfl⟩, _, hadmin, rfl⟩, _, horg, rfl⟩, _, hborrower, rfl⟩, _, hcurrency, rfl⟩, _, hnotional, rfl⟩,
      _, hmaturity, rfl⟩, _, hscheme, rfl⟩, _, htags, rfl⟩
    exact ⟨hname, hadmin, horg, hborrower, hcurrency, hnotional, hmaturity, hscheme, htags⟩
  · rintro ⟨hname, hadmin, horg, hborrower, hcurrency, hnotional, hmaturity, hscheme, htags⟩
    exact ⟨_, ⟨_, ⟨_, ⟨_, ⟨_, ⟨_, ⟨_, ⟨_, ⟨_, hname, rfl⟩, _, hadmin, rfl⟩, _, horg, rfl⟩, _, hborrower, rfl⟩, _, hcurrency, rfl⟩, _, hnotional, rfl⟩,
      _, hmaturity, rfl⟩, _, hscheme, rfl⟩, _, htags, rfl⟩

/-- The body is accepted where the fields that the form does not check, or checks in another way, are as the schema asks. -/
theorem createPoolSchema_body {now : Int} (hdigest : ∀ s, (digest s).length = 32)
    (hc : input.Checked toNumber toTime now) {dto : CreatePoolDto} :
    createPoolSchema (some (createPoolBody digest toTime adminConfigId orgId input)) = .ok dto ↔
      adminConfigId ≠ [] ∧ input.currency ≠ [] ∧ input.currency.length ≤ 10 ∧ isNumeric input.targetNotional = true ∧
        ∃ ms, toTime input.maturityDate = some ms ∧ 1000 ≤ ms ∧
          dto = { name := input.name, adminConfigId, orgIdHash := sha256Hex digest orgId,
                  borrowerNameHash := sha256Hex digest input.borrowerEntity, currency := input.currency,
                  targetNotional := input.targetNotional, expectedMaturityDate := ((ms / 1000).toNat : Number),
                  encryptionScheme := (input.encryptionScheme.val : Number), tags := [] } := by
  have hname : input.name ≠ [] := by
    intro hnil
    have htrim := hc.name.1
    rw [hnil] at htrim
    exact htrim rfl
  have hbounded : ∀ {m k : Nat} {s t : Text}, string [minLength m, maxLength k] (some (.string s)) = .ok t ↔
      (m ≤ s.length ∧ s.length ≤ k) ∧ s = t := by
    intro m k s t
    simp only [string_eq_ok, Option.some.injEq, Value.string.injEq, List.forall_mem_cons, List.not_mem_nil, IsEmpty.forall_iff, implies_true,
      and_true, minLength, maxLength, decide_eq_true_eq]
    constructor
    · rintro ⟨rfl, h⟩
      exact ⟨h, rfl⟩
    · rintro ⟨h, rfl⟩
      exact ⟨rfl, h⟩
  have hadmin : ∀ {t : Text}, Schemas.adminConfigId (some (.string adminConfigId)) = .ok t ↔ adminConfigId ≠ [] ∧ adminConfigId = t := by
    intro t
    simp only [Schemas.adminConfigId, string_eq_ok, Option.some.injEq, Value.string.injEq, List.mem_singleton, forall_eq, minLength,
      decide_eq_true_eq]
    constructor
    · rintro ⟨rfl, h⟩
      exact ⟨List.ne_nil_of_length_pos h, rfl⟩
    · rintro ⟨h, rfl⟩
      exact ⟨rfl, List.length_pos_iff.2 h⟩
  rw [createPoolBody, createPoolSchema_object_iff]
  simp only [List.lookup_cons, String.reduceBEq, hbounded, hadmin, hexHash64_sha256Hex hdigest, maturity_eq_ok, scheme_eq_ok, hc.tags, List.map_nil,
    tags_nil, string_eq_ok, Option.some.injEq, Value.string.injEq, List.mem_singleton, forall_eq, regex]
  constructor
  · rintro ⟨⟨-, h₁⟩, ⟨ha, h₂⟩, h₃, h₄, ⟨⟨hpos, hshort⟩, h₅⟩, ⟨h₆, hnumeric⟩, ⟨ms, hms, hlate, h₇⟩, h₈, h₉⟩
    refine ⟨ha, List.ne_nil_of_length_pos hpos, hshort, h₆ ▸ hnumeric, ms, hms, hlate, ?_⟩
    cases dto
    simp only at h₁ h₂ h₃ h₄ h₅ h₆ h₇ h₈ h₉
    rw [h₁, h₂, h₃, h₄, h₅, h₆, h₇, h₈, h₉]
  · rintro ⟨ha, hne, hshort, hnumeric, ms, hms, hlate, rfl⟩
    exact ⟨⟨⟨List.length_pos_iff.2 hname, hc.name.2⟩, rfl⟩, ⟨ha, rfl⟩, rfl, rfl, ⟨⟨List.length_pos_iff.2 hne, hshort⟩, rfl⟩, ⟨rfl, hnumeric⟩,
      ⟨ms, hms, hlate, rfl⟩, rfl, rfl⟩

/-- The transaction of an accepted body asks for the pool of the form. -/
theorem call_of_body {now : Int} (hdigest : ∀ s, (digest s).length = 32) (hc : input.Checked toNumber toTime now) {dto : CreatePoolDto}
    (hdto : createPoolSchema (some (createPoolBody digest toTime adminConfigId orgId input)) = .ok dto) {service : SuiTxService}
    {sender : Text} {tx : Tx} (htx : service.buildCreatePoolTx sender dto = .ok tx) (utf8 : Text → MoveString) (objectId : Text → ID) :
    ∃ ms, toTime input.maturityDate = some ms ∧ now < ms ∧ tx.call utf8 objectId = some (.createPool
      { orgIdHash := digest orgId, name := utf8 input.name, borrowerNameHash := digest input.borrowerEntity, currency := utf8 input.currency,
        targetNotional := decimal input.targetNotional, expectedMaturityDate := (ms / 1000).toNat,
        encryptionScheme := input.encryptionScheme.val.toUInt8, tags := [] }) := by
  obtain ⟨-, -, -, hnumeric, ms, hms, -, rfl⟩ := (createPoolSchema_body hdigest hc).1 hdto
  refine ⟨ms, hms, hc.maturityDate.2 ms hms, ?_⟩
  have hscheme : input.encryptionScheme.val < 256 := by omega
  rw [SuiTxService.buildCreatePoolTx] at htx
  simp only [bigIntOfText, hnumeric, if_true, Number.toBigInt_natCast, sha256Hex, hexToBytes_bufferToHex, SuiTxService.toBigInt] at htx
  obtain ⟨htarget, harguments, hrange⟩ := SuiTxService.moveCall_ok htx
  simp only [List.forall_mem_cons, Argument.inRange_u64, decide_eq_true_eq] at hrange
  generalize (ms / 1000).toNat = date at harguments hrange ⊢
  rw [Tx.call, htarget, harguments]
  simp [SuiTxService.clock, mapM_readU8, readU64_natCast hrange.2.2.2.2.2.1, readU64_natCast hrange.2.2.2.2.2.2.1, readU8_natCast hscheme]

/-- A form that was submitted, in whatever way the user went through it, is accepted by the API exactly where its currency has one to ten code units, its
notional is written in digits, its date is valid and not in the first second of all time, and the page has the id of the configuration.
The transaction that is then built asks for the pool of the form, to mature after the time at which the page was left. -/
theorem PoolWizard.submitted_accepted (hdigest : ∀ s, (digest s).length = 32) {es : List PageEvent} {w : PoolWizard}
    (h : run toNumber toTime es = .ok w) (hin : input ∈ w.submitted) (adminConfigId orgId : Text) :
    ((∃ dto, createPoolSchema (some (createPoolBody digest toTime adminConfigId orgId input)) = .ok dto) ↔
      adminConfigId ≠ [] ∧ input.currency ≠ [] ∧ input.currency.length ≤ 10 ∧ isNumeric input.targetNotional = true ∧
        ∃ ms, toTime input.maturityDate = some ms ∧ 1000 ≤ ms) ∧
    ∀ dto (service : SuiTxService) sender tx (utf8 : Text → MoveString) (objectId : Text → ID),
      createPoolSchema (some (createPoolBody digest toTime adminConfigId orgId input)) = .ok dto →
      service.buildCreatePoolTx sender dto = .ok tx →
        ∃ now ms, .next now ∈ es ∧ now < ms ∧ toTime input.maturityDate = some ms ∧ tx.call utf8 objectId = some (.createPool
          { orgIdHash := digest orgId, name := utf8 input.name, borrowerNameHash := digest input.borrowerEntity,
            currency := utf8 input.currency, targetNotional := decimal input.targetNotional,
            expectedMaturityDate := (ms / 1000).toNat, encryptionScheme := input.encryptionScheme.val.toUInt8, tags := [] }) := by
  obtain ⟨now, hleft, hc⟩ := (ok_run h).submitted input hin
  constructor
  · constructor
    · rintro ⟨dto, hdto⟩
      obtain ⟨hadmin, hne, hshort, hnumeric, ms, hms, hlate, -⟩ := (createPoolSchema_body hdigest hc).1 hdto
      exact ⟨hadmin, hne, hshort, hnumeric, ms, hms, hlate⟩
    · rintro ⟨hadmin, hne, hshort, hnumeric, ms, hms, hlate⟩
      exact ⟨_, (createPoolSchema_body hdigest hc).2 ⟨hadmin, hne, hshort, hnumeric, ms, hms, hlate, rfl⟩⟩
  · intro dto service sender tx utf8 objectId hdto htx
    obtain ⟨ms, hms, hlater, hcall⟩ := call_of_body hdigest hc hdto htx utf8 objectId
    exact ⟨now, ms, hleft.mem, hlater, hms, hcall⟩

end Accepted

namespace Sample

/-- The form that is submitted first. -/
def submittedForm : CreatePoolInput :=
  { name := [80], borrowerEntity := [66], targetNotional := text "7", currency := text "USD", maturityDate := text "9000",
    encryptionScheme := ⟨0, by decide⟩, tags := [], members := [] }

def submittedRun : List PageEvent :=
  [.change (.name [80]), .change (.borrowerEntity [66]), .change (.targetNotional (text "7")), .change (.maturityDate (text "9000")), .next 6,
   .next 6, .next 6, .skip 6, .submit]

end Sample

/-- The sample form is submitted, and accepted by the API. -/
theorem PoolWizard.submitted_accepted_sample :
    ∃ w, run Sample.toNumber Sample.toTime Sample.submittedRun = .ok w ∧ Sample.submittedForm ∈ w.submitted ∧
      ((∃ dto, createPoolSchema (some (createPoolBody (fun _ => List.replicate 32 0) Sample.toTime [97] [111] Sample.submittedForm)) = .ok dto) ↔
        [97] ≠ ([] : Text) ∧ Sample.submittedForm.currency ≠ [] ∧ Sample.submittedForm.currency.length ≤ 10 ∧
          isNumeric Sample.submittedForm.targetNotional = true ∧
            ∃ ms, Sample.toTime Sample.submittedForm.maturityDate = some ms ∧ 1000 ≤ ms) := by
  obtain ⟨w, hw, hin⟩ := @exists_ok_of_any _ _ (run Sample.toNumber Sample.toTime Sample.submittedRun)
    (fun w => Sample.submittedForm ∈ w.submitted) (fun _ => inferInstance) (by decide +kernel)
  exact ⟨w, hw, hin, (submitted_accepted (fun _ => List.length_replicate ..) hw hin [97] [111]).1⟩

end BrineVault
