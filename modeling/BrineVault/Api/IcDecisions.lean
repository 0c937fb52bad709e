import BrineVault.Api.Reads
import BrineVault.Api.Requests
import BrineVault.Contract.Committees
import BrineVault.Indexer.DecisionCache

/-!
# Decisions of the committee through the API

`ic-decisions.schemas.ts`, the controller and the service of the same name, and the builders of `sui-tx.service.ts` that the service calls. A
decision is submitted as the body of a request, goes to the caller as a transaction, is recorded by the package, and is read from the tables of
the indexer.
-/

namespace BrineVault

open Js Zod Move

/-! ## The body -/

structure SubmitIcDecisionDto where
  adminConfigId : Text
  decisionType : Number
  decisionText : Text
  pdfBlobId : Text
  committeeMembers : List Text
  votes : List Number
  relatedDocIds : List Text
  deriving DecidableEq, Repr

def submitIcDecisionSchema : Schema SubmitIcDecisionDto := refine
  (object fun body =>
    SubmitIcDecisionDto.mk
      <$> field "adminConfigId" Schemas.adminConfigId body
      <*> field "decisionType" (number [int, minimum 0, maximum 2]) body
      <*> field "decisionText" (string [minLength 1, maxLength 10000]) body
      <*> field "pdfBlobId" (string [minLength 1]) body
      <*> field "committeeMembers" (array [minLength 1, maxLength 50] (string [minLength 1])) body
      <*> field "votes" (array [minLength 1, maxLength 50] (number [int, minimum 0, maximum 2])) body
      <*> field "relatedDocIds" (default (.array []) (array [] (string [minLength 1]))) body)
  ⟨fun dto => dto.committeeMembers.length = dto.votes.length, .message "committeeMembers and votes must have the same length"⟩

/-! ## The transaction -/

inductive IcDecisionTarget where
  | recordIcApproval
  | recordIcRejection
  | recordIcRequestChanges
  deriving DecidableEq, Repr

/-- A call of a function of `pool_entry`, with its arguments as they are serialized. -/
structure IcDecisionTx where
  sender : Address
  packageId : Text
  target : IcDecisionTarget
  adminConfigId : Text
  poolObjectId : ID
  decisionText : Text
  pdfBlobId : Text
  committeeMembers : List Address
  votes : List UInt8
  relatedDocIds : List Address
  deriving DecidableEq, Repr

section Submitting

variable (pureAddress : Text → Option Address)

namespace SuiTxService

variable (service : SuiTxService) (senderAddress : Address) (poolObjectId : ID) (params : SubmitIcDecisionDto)

/-- `pureAddress` is the serializer of `address`, which throws on a text that is none. -/
def buildIcDecisionTx (target : IcDecisionTarget) : Except TxError IcDecisionTx :=
  match params.committeeMembers.mapM pureAddress, params.votes.mapM readU8, params.relatedDocIds.mapM pureAddress with
  | some committeeMembers, some votes, some relatedDocIds =>
    .ok { sender := senderAddress, packageId := service.packageId, target, adminConfigId := params.adminConfigId, poolObjectId,
          decisionText := params.decisionText, pdfBlobId := params.pdfBlobId, committeeMembers, votes, relatedDocIds }
  | _, _, _ => .error .invalidValue

def buildRecordIcApprovalTx : Except TxError IcDecisionTx :=
  service.buildIcDecisionTx pureAddress senderAddress poolObjectId params .recordIcApproval

def buildRecordIcRejectionTx : Except TxError IcDecisionTx :=
  service.buildIcDecisionTx pureAddress senderAddress poolObjectId params .recordIcRejection

def buildRecordIcRequestChangesTx : Except TxError IcDecisionTx :=
  service.buildIcDecisionTx pureAddress senderAddress poolObjectId params .recordIcRequestChanges

end SuiTxService

/-- Why a decision is not submitted. The type in the third is that of the message `Unknown decision type`. -/
inductive SubmitError where
  | validation (issues : List Issue)
  | http (e : HttpException)
  | unknownDecisionType (decisionType : Number)
  | tx (e : TxError)
  deriving DecidableEq, Repr

namespace IcDecisionTypes

def approve : Number := 0
def reject : Number := 1
def requestChanges : Number := 2

end IcDecisionTypes

def ICDecisionsService.buildSubmitDecision (service : SuiTxService) (db : Db) (poolId : Uuid) (senderAddress : Address)
    (userOrgId : Option Uuid) (dto : SubmitIcDecisionDto) : Except SubmitError IcDecisionTx := do
  let pool ← (poolInOrg db poolId userOrgId).mapError .http
  if dto.decisionType = IcDecisionTypes.approve then
    (service.buildRecordIcApprovalTx pureAddress senderAddress pool.suiObjectId dto).mapError .tx
  else if dto.decisionType = IcDecisionTypes.reject then
    (service.buildRecordIcRejectionTx pureAddress senderAddress pool.suiObjectId dto).mapError .tx
  else if dto.decisionType = IcDecisionTypes.requestChanges then
    (service.buildRecordIcRequestChangesTx pureAddress senderAddress pool.suiObjectId dto).mapError .tx
  else .error (.unknownDecisionType dto.decisionType)

def ICDecisionsController.submit (service : SuiTxService) (db : Db) (poolId : Uuid) (user : Caller) (body : Value) :
    Except SubmitError IcDecisionTx :=
  match submitIcDecisionSchema (some body) with
  | .error issues => .error (.validation issues)
  | .ok dto => ICDecisionsService.buildSubmitDecision pureAddress service db poolId user.address user.orgId dto

end Submitting

/-! ## Reading -/

def ICDecisionsRepository.findByPoolId (db : Db) (poolId : Uuid) : List IcDecisionRow :=
  (db.icDecisions.filter fun r => r.poolId = poolId).mergeSort fun a b => a.decisionIndex ≤ b.decisionIndex

def ICDecisionsRepository.findByPoolAndIndex (db : Db) (poolId : Uuid) (decisionIndex : Nat) : Option IcDecisionRow :=
  db.icDecisions.find? fun r => r.poolId = poolId ∧ r.decisionIndex = decisionIndex

def ICDecisionsService.listDecisions (db : Db) (poolId : Uuid) (userOrgId : Option Uuid) : Except HttpException (List IcDecisionRow) := do
  let _ ← poolInOrg db poolId userOrgId
  return ICDecisionsRepository.findByPoolId db poolId

def ICDecisionsService.getDecision (db : Db) (poolId : Uuid) (index : Nat) (userOrgId : Option Uuid) :
    Except HttpException IcDecisionRow := do
  let _ ← poolInOrg db poolId userOrgId
  match ICDecisionsRepository.findByPoolAndIndex db poolId index with
  | none => .error (NotFoundException "IC_DECISION_NOT_FOUND" "IC decision not found")
  | some decision => return decision

/-! ## The row of a pool -/

/-- The pool has a row in the second, of the same id and organisation. -/
def Db.PoolStays (k : ID) (db db' : Db) : Prop :=
  ∀ r, db.poolOf k = some r → ∃ r', db'.poolOf k = some r' ∧ r'.id = r.id ∧ r'.orgId = r.orgId

theorem Db.PoolStays.refl (k : ID) (db : Db) : PoolStays k db db := fun r hr => ⟨r, hr, rfl, rfl⟩

theorem Db.PoolStays.trans {k : ID} {a b c : Db} (h : PoolStays k a b) (h' : PoolStays k b c) : PoolStays k a c := by
  intro r hr
  obtain ⟨r₁, hr₁, hid₁, horg₁⟩ := h r hr
  obtain ⟨r₂, hr₂, hid₂, horg₂⟩ := h' r₁ hr₁
  exact ⟨r₂, hr₂, hid₂.trans hid₁, horg₂.trans horg₁⟩

/-- No statement takes a pool away or gives it another organisation. -/
theorem poolStays_act (k : ID) (db : Db) (s : Stmt) : db.PoolStays k (Statements.act db s) := by
  intro r hr
  cases s with
  | insertPool row => exact ⟨r, Rows.find_insertNew_of_some hr, rfl, rfl⟩
  | updatePoolState k' state digest =>
    refine ⟨if k = k' then Stmt.setState state digest r else r, ?_, ?_, ?_⟩
    · rw [Db.poolOf, Statements.act]
      exact (Rows.find_updateAt (f := Stmt.setState state digest) (fun _ => rfl) ..).trans (by rw [Db.poolOf] at hr; rw [hr]; rfl)
    · split <;> rfl
    · split <;> rfl
  | _ => exact ⟨r, hr, rfl, rfl⟩

theorem poolStays_actAll (k : ID) (db : Db) (ss : List Stmt) : db.PoolStays k (Statements.actAll db ss) := by
  induction ss generalizing db with
  | nil => exact Db.PoolStays.refl k db
  | cons s ss ih => exact (poolStays_act k db s).trans (ih _)

theorem poolStays_deliver (k : ID) (stream : List SuiEvent) (db : Db) (before after : List Attempt) :
    (deliver stream db before).db.PoolStays k (deliver stream db (before ++ after)).db := by
  induction after using List.reverseRecOn with
  | nil =>
    rw [List.append_nil]
    exact Db.PoolStays.refl k _
  | append_singleton after a ih =>
    refine ih.trans ?_
    rw [← List.append_assoc, deliver_snoc]
    by_cases hs : a.Saved stream (deliver stream db (before ++ after))
    · rw [Attempt.run_saved hs, ← actAll_stmtsOfAll]
      exact poolStays_actAll k _ _
    · rw [Attempt.run_lost hs]
      exact poolStays_actAll k _ _

/-- The two ways to find the row of a pool, by its object and by its id. -/
theorem Db.Consistent.poolOf_iff {db : Db} (h : db.Consistent) {row : PoolRow} :
    PoolsRepository.findById db row.id = some row ↔ db.poolOf row.suiObjectId = some row := by
  constructor
  · exact fun hfind => Rows.find_of_mem h.pools (List.mem_of_find?_eq_some hfind)
  · exact fun hof => Rows.find_of_mem h.poolIds (Rows.find_some hof).1

/-- The decision is found by its key. -/
theorem findByPoolAndIndex_eq (db : Db) (poolId : Uuid) (i : Nat) :
    ICDecisionsRepository.findByPoolAndIndex db poolId i = Rows.find IcDecisionRow.key (poolId, i) db.icDecisions := by
  simp only [ICDecisionsRepository.findByPoolAndIndex, Rows.find, IcDecisionRow.key, Prod.mk.injEq]

/-! ## On chain -/

namespace IcDecisionTarget

def call : IcDecisionTarget → IcRecord → PoolCall
  | .recordIcApproval, record => .recordIcApproval record
  | .recordIcRejection, record => .recordIcRejection record
  | .recordIcRequestChanges, record => .recordIcRequestChanges record

def decisionType : IcDecisionTarget → UInt8
  | .recordIcApproval => Types.icApprove
  | .recordIcRejection => Types.icReject
  | .recordIcRequestChanges => Types.icRequestChanges

def toState : IcDecisionTarget → UInt8
  | .recordIcApproval => Types.poolStateApprovedInternal
  | .recordIcRejection => Types.poolStateRejected
  | .recordIcRequestChanges => Types.poolStateDdInProgress

/-- The call of a target records its decision. -/
theorem exec_call (target : IcDecisionTarget) (record : IcRecord) (config : AdminConfig) (freshId : ID) (ctx : Ctx) (pool : Pool) :
    (target.call record).exec config freshId ctx pool = pool.recordIcDecision config target.decisionType target.toState record ctx := by
  cases target <;> rfl

/-- Every target may follow the committee's review. -/
theorem isValidTransition_toState (target : IcDecisionTarget) :
    Pool.isValidTransition Types.poolStateIcReview target.toState = true := by
  cases target <;> rfl

/-- Every target is a state of a pool. -/
theorem toState_le (target : IcDecisionTarget) : target.toState ≤ 8 := by
  cases target <;> decide

/-- Every target is a type of decision. -/
theorem decisionType_le (target : IcDecisionTarget) : target.decisionType ≤ 2 := by
  cases target <;> decide

end IcDecisionTarget

/-- `utf8` encodes the texts. -/
def IcDecisionTx.record (utf8 : Text → MoveString) (tx : IcDecisionTx) : IcRecord :=
  { decisionText := utf8 tx.decisionText, pdfBlobId := utf8 tx.pdfBlobId, committeeMembers := tx.committeeMembers, votes := tx.votes,
    relatedDocIds := tx.relatedDocIds }

def IcDecisionTx.call (utf8 : Text → MoveString) (tx : IcDecisionTx) : Call := .onPool tx.poolObjectId (tx.target.call (tx.record utf8))

/-! ## What is submitted -/

/-- What the schema lets through. -/
theorem submitIcDecisionSchema_ok {v : Option Value} {dto : SubmitIcDecisionDto} (h : submitIcDecisionSchema v = .ok dto) :
    Passed [int, minimum 0, maximum 2] dto.decisionType ∧ dto.committeeMembers ≠ [] ∧ dto.committeeMembers.length = dto.votes.length ∧
      ∀ vote ∈ dto.votes, Passed [int, minimum 0, maximum 2] vote := by
  obtain ⟨h, hlength⟩ := refine_eq_ok.1 h
  obtain ⟨members, -, h⟩ := object_ok h
  simp only [Parsed.seq_eq_ok, Parsed.map_eq_ok, field_eq_ok] at h
  obtain ⟨_, ⟨_, ⟨_, ⟨_, ⟨_, ⟨_, ⟨_, _, rfl⟩, _, htype, rfl⟩, _, _, rfl⟩, _, _, rfl⟩, _, hcommittee, rfl⟩, _, hvotes, rfl⟩, _, _, rfl⟩ := h
  obtain ⟨vs, -, hchecks, hcount, -⟩ := array_ok hcommittee
  obtain ⟨_, -, -, -, hitems⟩ := array_ok hvotes
  refine ⟨(number_ok htype).2, ?_, of_decide_eq_true hlength, fun vote hvote => ?_⟩
  · have hmin : 1 ≤ vs.length := of_decide_eq_true (hchecks (minLength 1) (by simp))
    exact List.ne_nil_of_length_pos (hcount.symm ▸ hmin)
  · obtain ⟨v, -, hv⟩ := hitems vote hvote
    exact (number_ok hv).2

/-- The transaction says what the body says, and the row of the pool and the caller. -/
structure IcDecisionTx.Says (pureAddress : Text → Option Address) (tx : IcDecisionTx) (dto : SubmitIcDecisionDto) (row : PoolRow)
    (user : Caller) : Prop where
  sender : tx.sender = user.address
  pool : tx.poolObjectId = row.suiObjectId
  decisionType : dto.decisionType = (tx.target.decisionType.toNat : Number)
  text : tx.decisionText = dto.decisionText
  pdf : tx.pdfBlobId = dto.pdfBlobId
  committee : dto.committeeMembers.mapM pureAddress = some tx.committeeMembers
  votes : dto.votes = numbers tx.votes
  related : dto.relatedDocIds.mapM pureAddress = some tx.relatedDocIds

/-- A number read as a byte is that byte. -/
theorem readU8_eq_some {x : Number} {b : UInt8} (h : readU8 x = some b) : x = (b.toNat : Number) := by
  obtain ⟨n, hn, rfl⟩ := Option.map_eq_some_iff.1 h
  obtain ⟨hn, hlt⟩ := Option.filter_eq_some_iff.1 hn
  rw [UInt8.toNat_ofNat_of_lt' (of_decide_eq_true hlt)]
  exact Number.arrayIndex_eq_some.1 hn

/-- Numbers read as bytes are those bytes. -/
theorem eq_numbers_of_mapM {xs : List Number} {bytes : List UInt8} (h : xs.mapM readU8 = some bytes) : xs = numbers bytes := by
  induction xs generalizing bytes with
  | nil =>
    cases h
    rfl
  | cons x xs ih =>
    obtain ⟨b, hb, h⟩ := Option.bind_eq_some_iff.1 (List.mapM_cons.symm.trans h)
    obtain ⟨bytes, hbytes, h⟩ := Option.bind_eq_some_iff.1 h
    cases h
    rw [readU8_eq_some hb, ih hbytes, numbers, numbers, List.map_cons]

/-- As many values are read as there were texts. -/
theorem length_of_mapM_some {α β : Type} {f : α → Option β} {as : List α} {bs : List β} (h : as.mapM f = some bs) :
    bs.length = as.length := by
  induction as generalizing bs with
  | nil =>
    cases h
    rfl
  | cons a as ih =>
    obtain ⟨b, -, h⟩ := Option.bind_eq_some_iff.1 (List.mapM_cons.symm.trans h)
    obtain ⟨bs, hbs, h⟩ := Option.bind_eq_some_iff.1 h
    cases h
    exact congrArg (· + 1) (ih hbs)

/-- Renaming errors leaves the results. -/
theorem mapError_eq_ok {ε ε' α : Type} {x : Except ε α} {f : ε → ε'} {a : α} : x.mapError f = .ok a ↔ x = .ok a := by
  cases x <;> simp [Except.mapError]

section Submitted

variable {pureAddress : Text → Option Address} {service : SuiTxService} {db : Db} {poolId : Uuid} {user : Caller} {body : Value}
  {tx : IcDecisionTx}

/-- The built transaction says what the body does. -/
theorem says_of_build {target : IcDecisionTarget} {dto : SubmitIcDecisionDto} {row : PoolRow}
    (h : service.buildIcDecisionTx pureAddress user.address row.suiObjectId dto target = .ok tx)
    (htype : dto.decisionType = (target.decisionType.toNat : Number)) : tx.Says pureAddress dto row user := by
  unfold SuiTxService.buildIcDecisionTx at h
  split at h
  · rename_i committee votes related hcommittee hvotes hrelated
    cases h
    exact ⟨rfl, rfl, htype, rfl, rfl, hcommittee, eq_numbers_of_mapM hvotes, hrelated⟩
  · cases h

/-- A body that becomes a transaction is one that the schema accepts, and the pool is of the organisation of the caller. -/
theorem ICDecisionsController.submit_ok (h : submit pureAddress service db poolId user body = .ok tx) :
    ∃ dto row, submitIcDecisionSchema (some body) = .ok dto ∧ PoolsRepository.findById db poolId = some row ∧
      user.orgId = some row.orgId ∧ tx.Says pureAddress dto row user := by
  unfold submit at h
  split at h
  · cases h
  · rename_i dto hdto
    obtain ⟨row, hrow, h⟩ := bind_eq_ok.1 h
    obtain ⟨hfind, horg⟩ := poolInOrg_eq_ok.1 (mapError_eq_ok.1 hrow)
    refine ⟨dto, row, hdto, hfind, horg, ?_⟩
    split at h
    · rename_i htype
      exact says_of_build (mapError_eq_ok.1 h) htype
    · split at h
      · rename_i htype
        exact says_of_build (mapError_eq_ok.1 h) htype
      · split at h
        · rename_i htype
          exact says_of_build (mapError_eq_ok.1 h) htype
        · cases h

/-- The decision of the transaction, as it is recorded under a number. -/
def IcDecisionTx.decision (utf8 : Text → MoveString) (tx : IcDecisionTx) (index : Nat) (ctx : Ctx) : IcDecision :=
  { index, decisionType := tx.target.decisionType, decisionText := utf8 tx.decisionText, decisionPdfBlobId := utf8 tx.pdfBlobId,
    createdBy := ctx.sender, committeeMembers := tx.committeeMembers, votes := tx.votes, createdAt := ctx.now,
    relatedDocIds := tx.relatedDocIds }

/-- `ic_decision::new` has nothing to object to in a transaction that was built. -/
theorem IcDecisionTx.Says.new_ok {dto : SubmitIcDecisionDto} {row : PoolRow} (hs : tx.Says pureAddress dto row user)
    (hdto : submitIcDecisionSchema (some body) = .ok dto) (utf8 : Text → MoveString) (index : Nat) (ctx : Ctx) :
    IcDecision.new index tx.target.decisionType (tx.record utf8) ctx = .ok (tx.decision utf8 index ctx) := by
  obtain ⟨-, hne, hlength, -⟩ := submitIcDecisionSchema_ok hdto
  have hmembers : tx.committeeMembers.length = dto.committeeMembers.length := length_of_mapM_some hs.committee
  have hvotes : tx.votes.length = dto.votes.length := by rw [hs.votes, numbers, List.length_map]
  have hlen : (tx.record utf8).committeeMembers.length = (tx.record utf8).votes.length := hmembers.trans (hlength.trans hvotes.symm)
  have hnonempty : (tx.record utf8).committeeMembers ≠ [] := by
    rw [← List.length_pos_iff, IcDecisionTx.record, hmembers]
    exact List.length_pos_iff.2 hne
  simp only [IcDecision.new, bind_eq_ok, assert_eq_ok, pure_eq_ok]
  exact ⟨(), tx.target.decisionType_le, (), hlen, (), hnonempty, rfl⟩

/-! ## What is recorded -/

/-- After every run the pool has a ledger of its decisions. -/
theorem World.ledger {publisher : Ctx} {steps : List Step} {w : World} (hr : run publisher steps = .ok w) {k : ID} {pool : Pool}
    (hl : w.pools.lookup k = some pool) : pool.DecisionLedger :=
  pools_run (fun _ _ _ _ _ _ _ => Pool.DecisionLedger.createPool) (fun _ _ _ _ _ _ _ => Pool.DecisionLedger.exec) hr hl

/-- No decision of a pool is under the next number. -/
theorem World.decision_free {publisher : Ctx} {steps : List Step} {w : World} (hr : run publisher steps = .ok w) {k : ID} {pool : Pool}
    (hl : w.pools.lookup k = some pool) : pool.icDecisions.lookup pool.icDecisionCount = none := by
  rw [AList.lookup_eq_none, (ledger hr hl).numbered.keys]
  omega

/-- The pool takes a decision of the caller: he is an owner or an administrator of the room, and the pool is in review. -/
def Pool.TakesDecision (pool : Pool) (caller : Address) : Prop :=
  (∃ m, pool.dataroom.members.lookup caller = some m ∧ m.isActive = true ∧ Types.hasRole m.role Types.roleOwnerUp = true) ∧
    pool.currentState = Types.poolStateIcReview

/-- Recording the decision of a transaction, where no decision is under the next number. -/
theorem IcDecisionTx.Says.exec_ok_iff {dto : SubmitIcDecisionDto} {row : PoolRow} (hs : tx.Says pureAddress dto row user)
    (hdto : submitIcDecisionSchema (some body) = .ok dto) (utf8 : Text → MoveString) (config : AdminConfig) {pool : Pool} (ctx : Ctx)
    (hfree : pool.icDecisions.lookup pool.icDecisionCount = none) :
    (∃ r, pool.recordIcDecision config tx.target.decisionType tx.target.toState (tx.record utf8) ctx = .ok r) ↔
      config.paused = false ∧ pool.TakesDecision ctx.sender ∧ pool.icDecisionCount + 1 < 2 ^ 64 := by
  simp only [Pool.recordIcDecision, Pool.assertRole, Pool.assertState, Pool.attachIcDecision, Pool.setState, Types.assertValidPoolState,
    AdminConfig.assertNotPaused, bind_eq_ok, assert_eq_ok, pure_eq_ok, DataRoom.assertMemberRole_ok, Table.add_eq_ok, addU64_eq_ok,
    hs.new_ok hdto utf8]
  constructor
  · rintro ⟨_, _, hp, _, hm, _, hstate, _, _, _, ⟨_, -, _, ⟨hcount, -⟩, -⟩, -⟩
    exact ⟨hp, ⟨hm, hstate⟩, hcount⟩
  · rintro ⟨hp, ⟨hm, hstate⟩, hcount⟩
    have hvalid : Types.isValidPoolState tx.target.toState = true := decide_eq_true tx.target.toState_le
    have htransition := tx.target.isValidTransition_toState
    rw [← hstate] at htransition
    exact ⟨_, (), hp, (), hm, (), hstate, _, rfl, _, ⟨_, ⟨hfree, rfl⟩, _, ⟨hcount, rfl⟩, rfl⟩, _, ⟨(), hvalid, (), htransition, rfl⟩, rfl⟩

namespace World

variable {publisher : Ctx} {steps : List Step} {w w' : World} {utf8 : Text → MoveString} {ctx : Ctx}

/-- A submitted decision is recorded exactly where the package is not paused, the caller is an owner or an administrator of the pool's room, the
pool is in review, and the count of its decisions has room for one more. -/
theorem submitted_recorded_iff (hr : run publisher steps = .ok w)
    (hsubmit : ICDecisionsController.submit pureAddress service db poolId user body = .ok tx) :
    (∃ w', w.step ⟨some ctx, tx.call utf8⟩ = .ok w') ↔
      w.adminConfig.paused = false ∧ ∃ pool, w.pools.lookup tx.poolObjectId = some pool ∧ pool.TakesDecision ctx.sender ∧
        pool.icDecisionCount + 1 < 2 ^ 64 := by
  obtain ⟨dto, row, hdto, -, -, hs⟩ := ICDecisionsController.submit_ok hsubmit
  have hiff : ∀ {pool}, w.pools.lookup tx.poolObjectId = some pool →
      ((∃ r, pool.recordIcDecision w.adminConfig tx.target.decisionType tx.target.toState (tx.record utf8) ctx = .ok r) ↔
        w.adminConfig.paused = false ∧ pool.TakesDecision ctx.sender ∧ pool.icDecisionCount + 1 < 2 ^ 64) := fun hl =>
    hs.exec_ok_iff hdto utf8 w.adminConfig ctx (decision_free hr hl)
  constructor
  · rintro ⟨w', hstep⟩
    obtain ⟨pool, pool', evs, hl, -, hx⟩ := step_onPool hstep rfl
    rw [IcDecisionTarget.exec_call] at hx
    obtain ⟨hp, htakes, hcount⟩ := (hiff hl).1 ⟨_, hx⟩
    exact ⟨hp, pool, hl, htakes, hcount⟩
  · rintro ⟨hp, pool, hl, htakes, hcount⟩
    obtain ⟨⟨pool', evs⟩, hx⟩ := (hiff hl).2 ⟨hp, htakes, hcount⟩
    refine ⟨_, bind_eq_ok.2 ⟨_, bind_eq_ok.2 ⟨pool, Table.borrow_eq_ok.2 hl, bind_eq_ok.2 ⟨(pool', evs), ?_, rfl⟩⟩, rfl⟩⟩
    rw [IcDecisionTarget.exec_call]
    exact hx

end World

end Submitted

namespace Sample

/-- The address whose text is one code unit. -/
def unitAddress : Text → Option Address
  | [u] => some u.toNat
  | _ => none

def decisionBody : Value := .object
  [("adminConfigId", .string [97]), ("decisionType", .number 1), ("decisionText", .string [110]), ("pdfBlobId", .string [98]),
   ("committeeMembers", .array [.string [7], .string [8]]), ("votes", .array [.number 1, .number 0])]

def decisionTx : IcDecisionTx :=
  { sender := 7, packageId := service.packageId, target := .recordIcRejection, adminConfigId := [97], poolObjectId := 2, decisionText := [110],
    pdfBlobId := [98], committeeMembers := [7, 8], votes := [1, 0], relatedDocIds := [] }

/-- The first decision of a pool in the cache is built and submitted. -/
theorem decision_submitted :
    ICDecisionsController.submit unitAddress service withPool (.given 0) { address := 7, orgId := some .zero } decisionBody =
      .ok decisionTx := by
  decide +kernel

end Sample

/-- A rejection of a pool in review. -/
theorem World.submitted_recorded_iff_sample :
    ∃ w, run Sample.owner [Sample.createPool, Sample.byOwner .progressToDd, Sample.byOwner (.progressToIcReview [])] = .ok w ∧
      ((∃ w', w.step ⟨some Sample.owner, Sample.decisionTx.call fun s => s.map UInt16.toUInt8⟩ = .ok w') ↔
        w.adminConfig.paused = false ∧ ∃ pool, w.pools.lookup 2 = some pool ∧ pool.TakesDecision Sample.owner.sender ∧
          pool.icDecisionCount + 1 < 2 ^ 64) :=
  ⟨_, rfl, @submitted_recorded_iff Sample.unitAddress Sample.service Sample.withPool (.given 0) { address := 7, orgId := some .zero }
    Sample.decisionBody Sample.decisionTx Sample.owner
    [Sample.createPool, Sample.byOwner .progressToDd, Sample.byOwner (.progressToIcReview [])] _ _ Sample.owner rfl Sample.decision_submitted⟩

section Submitted

variable {pureAddress : Text → Option Address} {service : SuiTxService} {poolId : Uuid} {user : Caller} {body : Value} {tx : IcDecisionTx}

namespace World

variable {publisher : Ctx} {steps : List Step} {w w' : World} {utf8 : Text → MoveString} {ctx : Ctx}

/-- The decision of the transaction is recorded under the next number of the pool, and stays there. -/
theorem submitted_recorded {db : Db} (hr : run publisher steps = .ok w)
    (hsubmit : ICDecisionsController.submit pureAddress service db poolId user body = .ok tx)
    (hstep : w.step ⟨some ctx, tx.call utf8⟩ = .ok w') {more : List Step} {wEnd : World} (hmore : Steps.run step w' more = .ok wEnd) :
    ∃ pool, w.pools.lookup tx.poolObjectId = some pool ∧
      wEnd.decisionAt tx.poolObjectId pool.icDecisionCount = some (tx.decision utf8 pool.icDecisionCount ctx) := by
  obtain ⟨dto, row, hdto, -, -, hs⟩ := ICDecisionsController.submit_ok hsubmit
  obtain ⟨pool, pool', evs, hl, hl', hx⟩ := step_onPool hstep rfl
  rw [IcDecisionTarget.exec_call] at hx
  obtain ⟨-, ⟨d, hnew, -, rfl⟩, -⟩ := Pool.recordIcDecision_eq hx
  rw [hs.new_ok hdto utf8, Except.ok.injEq] at hnew
  subst hnew
  have hafter : w'.decisionAt tx.poolObjectId pool.icDecisionCount = some (tx.decision utf8 pool.icDecisionCount ctx) := by
    rw [decisionAt, hl', Option.bind_some, Table.lookup_insert, if_pos rfl]
    rfl
  have hstays := Steps.run_preserves step
    (P := fun m => Wf m ∧ m.decisionAt tx.poolObjectId pool.icDecisionCount = some (tx.decision utf8 pool.icDecisionCount ctx))
    (fun _ _ _ hP ht => ⟨wf_step hP.1 ht, step_keepsDecision hP.1 ht hP.2⟩) hmore ⟨wf_step (wf_run hr) hstep, hafter⟩
  exact ⟨pool, hl, hstays.2⟩

/-- What is submitted is what is read: a decision that the API makes a transaction of, where the caller signs it and the package records it, is
in the package for ever after, with the text, the committee and the votes of the body, and once the indexer has caught up with the log
the caller reads it under its number, with its type and himself as who recorded it. -/
theorem submitted_read (hr : run publisher steps = .ok w) {start : Db} (hdb : start.Consistent) (hstart : start.icDecisions = [])
    {more : List Step} {wEnd : World} {before after : List Attempt}
    (hsubmit : ICDecisionsController.submit pureAddress service (deliver wEnd.log start before).db poolId user body = .ok tx)
    (hsender : ctx.sender = tx.sender) (hstep : w.step ⟨some ctx, tx.call utf8⟩ = .ok w') (hmore : Steps.run step w' more = .ok wEnd)
    (hend : (deliver wEnd.log start (before ++ after)).cursor = wEnd.log.length) :
    ∃ dto index d, submitIcDecisionSchema (some body) = .ok dto ∧ wEnd.decisionAt tx.poolObjectId index = some d ∧
      dto.decisionType = (d.decisionType.toNat : Number) ∧ d.decisionText = utf8 dto.decisionText ∧
      d.decisionPdfBlobId = utf8 dto.pdfBlobId ∧ dto.committeeMembers.mapM pureAddress = some d.committeeMembers ∧
      dto.votes = numbers d.votes ∧ dto.relatedDocIds.mapM pureAddress = some d.relatedDocIds ∧ d.createdBy = user.address ∧
      ICDecisionsService.getDecision (deliver wEnd.log start (before ++ after)).db poolId index user.orgId =
        .ok { poolId, decisionIndex := index, decisionType := d.decisionType, createdByAddress := user.address } := by
  obtain ⟨dto, row, hdto, hfind, horg, hs⟩ := ICDecisionsController.submit_ok hsubmit
  obtain ⟨pool, hl, hd⟩ := submitted_recorded hr hsubmit hstep hmore
  have hrun : run publisher (steps ++ ⟨some ctx, tx.call utf8⟩ :: more) = .ok wEnd :=
    (Steps.run_append_ok step).2 ⟨w, hr, (Steps.run_cons_ok step).2 ⟨w', hstep, hmore⟩⟩
  have hannounced := decisionsAnnounced hrun
  have hbefore := decisionsCaught_deliver hannounced hdb hstart before
  have hafter := decisionsCaught_deliver hannounced hdb hstart (before ++ after)
  -- The row of the pool that the request found is there at the end, of the same id and organisation.
  have hid : row.id = poolId := by simpa using List.find?_some hfind
  subst hid
  have hrow := hbefore.consistent.poolOf_iff.1 hfind
  obtain ⟨row', hrow', hid, horg'⟩ := poolStays_deliver row.suiObjectId wEnd.log start before after row hrow
  have hfind' := hafter.consistent.poolOf_iff.2 ((Rows.find_some hrow').2.symm ▸ hrow')
  rw [hid] at hfind'
  rw [hs.pool] at hd
  obtain ⟨cached, hcached⟩ := hafter.find_of_decided hrun hend hrow' hd
  obtain ⟨pool', d', hl', hd', htype, hby⟩ := hafter.decided hrun hrow' hcached
  have hsame : wEnd.decisionAt row.suiObjectId pool.icDecisionCount = some d' := Option.bind_eq_some_iff.2 ⟨pool', hl', hd'⟩
  rw [hd, Option.some.injEq] at hsame
  subst hsame
  have hby' : cached.createdByAddress = user.address := hby.symm.trans (hsender.trans hs.sender)
  obtain ⟨-, hkey⟩ := Rows.find_some hcached
  refine ⟨dto, pool.icDecisionCount, _, hdto, by rw [hs.pool]; exact hd, hs.decisionType, congrArg utf8 hs.text, congrArg utf8 hs.pdf, hs.committee,
    hs.votes, hs.related, hsender.trans hs.sender, ?_⟩
  have hin : poolInOrg (deliver wEnd.log start (before ++ after)).db row.id user.orgId = .ok row' :=
    poolInOrg_eq_ok.2 ⟨hfind', by rw [horg, horg']⟩
  rw [ICDecisionsService.getDecision, hin]
  rw [hid] at hcached hkey
  simp only [findByPoolAndIndex_eq, hcached, bind, Except.bind, pure, Except.pure, Except.ok.injEq]
  obtain ⟨hpool, hindex⟩ := Prod.mk.inj hkey
  cases cached
  cases hpool
  cases hindex
  cases htype
  cases hby'
  rfl

/-- The rejection, read after a process that died before it had written it. -/
theorem submitted_read_sample :
    ∃ w w' dto index d, run Sample.owner [Sample.createPool, Sample.byOwner .progressToDd, Sample.byOwner (.progressToIcReview [])] = .ok w ∧
      w.step ⟨some Sample.owner, Sample.decisionTx.call fun s => s.map UInt16.toUInt8⟩ = .ok w' ∧
      submitIcDecisionSchema (some Sample.decisionBody) = .ok dto ∧ w'.decisionAt 2 index = some d ∧
      ICDecisionsService.getDecision (deliver w'.log Sample.withPool ([⟨6, none⟩] ++ [⟨4, some 1⟩, ⟨9, none⟩])).db (.given 0) index
        (some .zero) = .ok { poolId := .given 0, decisionIndex := index, decisionType := d.decisionType, createdByAddress := 7 } := by
  have hdb : Sample.withPool.Consistent := by
    constructor <;> simp [Sample.withPool, Db.empty, Db.PoolsNamed]
  obtain ⟨dto, index, d, hdto, hd, -, -, -, -, -, -, -, hread⟩ := @submitted_read Sample.unitAddress Sample.service (.given 0)
    { address := 7, orgId := some .zero } Sample.decisionBody Sample.decisionTx Sample.owner
    [Sample.createPool, Sample.byOwner .progressToDd, Sample.byOwner (.progressToIcReview [])] _ _ (fun s => s.map UInt16.toUInt8)
    Sample.owner rfl Sample.withPool hdb rfl [] _ [⟨6, none⟩] [⟨4, some 1⟩, ⟨9, none⟩] (by decide +kernel) rfl rfl rfl (by decide +kernel)
  exact ⟨_, _, dto, index, d, rfl, rfl, hdto, hd, hread⟩

/-- The decisions of a pool are listed each once, in the order in which they were recorded, to a caller of its organisation: once the indexer has
caught up with the log, in whatever pages and with whatever crashes, the numbers of the rows are those from 0 to the count of the
pool's decisions, and each row has the type of its decision and who recorded it. -/
theorem decisions_listed (hr : run publisher steps = .ok w) {start : Db} (hdb : start.Consistent) (hstart : start.icDecisions = [])
    {attempts : List Attempt} (hend : (deliver w.log start attempts).cursor = w.log.length) {k : ID} {pool : Pool}
    (hl : w.pools.lookup k = some pool) {row : PoolRow} (hrow : (deliver w.log start attempts).db.poolOf k = some row) :
    ∃ rows, ICDecisionsService.listDecisions (deliver w.log start attempts).db row.id (some row.orgId) = .ok rows ∧
      rows.map IcDecisionRow.decisionIndex = List.range pool.icDecisionCount ∧
      ∀ r ∈ rows, ∃ d, pool.icDecisions.lookup r.decisionIndex = some d ∧
        r = { poolId := row.id, decisionIndex := r.decisionIndex, decisionType := d.decisionType, createdByAddress := d.createdBy } := by
  have hc := decisionsCaught_deliver (decisionsAnnounced hr) hdb hstart attempts
  have hkeys := @decisionKeys_deliver w.log _ hstart attempts
  have hfind := hc.consistent.poolOf_iff.2 ((Rows.find_some hrow).2.symm ▸ hrow)
  have hin : poolInOrg (deliver w.log start attempts).db row.id (some row.orgId) = .ok row := poolInOrg_eq_ok.2 ⟨hfind, rfl⟩
  have hledger := ledger hr hl
  -- A row of the pool is of a decision that it keeps.
  have hdecided : ∀ r ∈ (deliver w.log start attempts).db.icDecisions, r.poolId = row.id →
      ∃ d, pool.icDecisions.lookup r.decisionIndex = some d ∧ d.decisionType = r.decisionType ∧ d.createdBy = r.createdByAddress := by
    intro r hmem hpool
    have hcached := Rows.find_of_mem hkeys hmem
    rw [IcDecisionRow.key, hpool] at hcached
    obtain ⟨pool', d, hl', hd, htype, hby⟩ := hc.decided hr hrow hcached
    rw [hl, Option.some.injEq] at hl'
    subst hl'
    exact ⟨d, hd, htype, hby⟩
  have hnodup : (((deliver w.log start attempts).db.icDecisions.filter fun r => r.poolId = row.id).map IcDecisionRow.decisionIndex).Nodup := by
    have hpairs := hkeys.sublist ((List.filter_sublist (p := fun r => decide (r.poolId = row.id))).map IcDecisionRow.key)
    refine (List.nodup_map_iff_inj_on (List.Nodup.of_map _ hpairs)).2 fun r hr' r' hr'' hindex => ?_
    have hpool := of_decide_eq_true (List.mem_filter.1 hr').2
    have hpool' := of_decide_eq_true (List.mem_filter.1 hr'').2
    exact List.inj_on_of_nodup_map hpairs hr' hr'' (Prod.ext (hpool.trans hpool'.symm) hindex)
  refine ⟨_, by rw [ICDecisionsService.listDecisions, hin]; rfl, Rows.map_mergeSort_eq_range hnodup fun i => ?_, fun r hmem => ?_⟩
  · rw [List.mem_map]
    constructor
    · rintro ⟨r, hmem, rfl⟩
      obtain ⟨hmem, hpool⟩ := List.mem_filter.1 hmem
      obtain ⟨d, hd, -⟩ := hdecided r hmem (of_decide_eq_true hpool)
      exact ((hledger.numbered.keys _).1 (AList.lookup_isSome.1 (by rw [hd]; rfl))).2
    · intro hlt
      obtain ⟨d, hd⟩ := Option.isSome_iff_exists.1 (AList.lookup_isSome.2 ((hledger.numbered.keys i).2 ⟨Nat.zero_le i, hlt⟩))
      obtain ⟨r, hr'⟩ := hc.find_of_decided hr hend hrow (Option.bind_eq_some_iff.2 ⟨pool, hl, hd⟩)
      obtain ⟨hmem, hkey⟩ := Rows.find_some hr'
      obtain ⟨hpool, hindex⟩ := Prod.mk.inj hkey
      exact ⟨r, List.mem_filter.2 ⟨hmem, decide_eq_true hpool⟩, hindex⟩
  · obtain ⟨hmem, hpool⟩ := List.mem_filter.1 ((List.mergeSort_perm ..).mem_iff.1 hmem)
    obtain ⟨d, hd, htype, hby⟩ := hdecided r hmem (of_decide_eq_true hpool)
    refine ⟨d, hd, ?_⟩
    rw [htype, hby, ← of_decide_eq_true hpool]

/-- The list of a pool that was rejected. -/
theorem decisions_listed_sample :
    ∃ w pool, ∃ row : PoolRow, ∃ rows, run Sample.owner [Sample.createPool, Sample.byOwner .progressToDd,
        Sample.byOwner (.progressToIcReview []), Sample.byOwner (.recordIcRejection Sample.decision)] = .ok w ∧
      w.pools.lookup 2 = some pool ∧
      ICDecisionsService.listDecisions (deliver w.log Sample.withPool [⟨6, none⟩, ⟨4, some 1⟩, ⟨9, none⟩]).db row.id (some row.orgId) =
        .ok rows ∧ rows.map IcDecisionRow.decisionIndex = List.range pool.icDecisionCount := by
  have hdb : Sample.withPool.Consistent := by
    constructor <;> simp [Sample.withPool, Db.empty, Db.PoolsNamed]
  obtain ⟨w, hw, hpool, hrow, hend⟩ := @exists_ok_of_any _ _ (run Sample.owner [Sample.createPool, Sample.byOwner .progressToDd,
      Sample.byOwner (.progressToIcReview []), Sample.byOwner (.recordIcRejection Sample.decision)])
    (fun w => (w.pools.lookup 2).isSome = true ∧
      ((deliver w.log Sample.withPool [⟨6, none⟩, ⟨4, some 1⟩, ⟨9, none⟩]).db.poolOf 2).isSome = true ∧
      (deliver w.log Sample.withPool [⟨6, none⟩, ⟨4, some 1⟩, ⟨9, none⟩]).cursor = w.log.length) (fun _ => inferInstance) (by decide +kernel)
  obtain ⟨pool, hpool⟩ := Option.isSome_iff_exists.1 hpool
  obtain ⟨row, hrow⟩ := Option.isSome_iff_exists.1 hrow
  obtain ⟨rows, hrows, hnumbers, -⟩ := decisions_listed hw hdb rfl hend hpool hrow
  exact ⟨w, pool, row, rows, hw, hpool, hrows, hnumbers⟩

end World

end Submitted

end BrineVault
