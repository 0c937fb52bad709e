import BrineVault.Contract.Dataroom
import BrineVault.Contract.Document

/-!
# `admin.move`, `ic_decision.move`, `pool.move`: the configuration and the pool

The dynamic fields of a pool are its data room, its documents (keyed by `ID`) and its IC decisions (keyed by `u64`); the three key
types keep them apart.
-/

namespace BrineVault

open Move

/-! ## Admin -/

structure AdminConfig where
  paused : Bool
  pauseAuthority : Address
  platformAddress : Address
  maxMembersPerRoom : Nat
  maxDocVersions : Nat
  deriving DecidableEq, Repr

namespace AdminConfig

/-- `admin::init`: the configuration as the publisher creates it. -/
def init (sender : Address) : AdminConfig :=
  { paused := false, pauseAuthority := sender, platformAddress := sender, maxMembersPerRoom := 200, maxDocVersions := 500 }

/-- `admin::pause`. The capability in the argument list is what lets a caller call it. -/
def pause (config : AdminConfig) (ctx : Ctx) : Exec (AdminConfig × List Event) := do
  assert (config.paused = false) Errors.alreadyPaused
  return ({ config with paused := true }, [.adminPauseToggled true ctx.sender ctx.now])

/-- `admin::unpause`. -/
def unpause (config : AdminConfig) (ctx : Ctx) : Exec (AdminConfig × List Event) := do
  assert (config.paused = true) Errors.notPaused
  return ({ config with paused := false }, [.adminPauseToggled false ctx.sender ctx.now])

/-- `admin::update_config`. It emits nothing. -/
def updateConfig (config : AdminConfig) (maxMembersPerRoom maxDocVersions : Nat) (platformAddress pauseAuthority : Address) :
    Exec (AdminConfig × List Event) := do
  assert (maxMembersPerRoom > 0) Errors.invalidConfig
  assert (maxDocVersions > 0) Errors.invalidConfig
  return ({ config with maxMembersPerRoom, maxDocVersions, platformAddress, pauseAuthority }, [])

/-- `admin::assert_not_paused`. -/
def assertNotPaused (config : AdminConfig) : Exec Unit := assert (config.paused = false) Errors.poolPaused

end AdminConfig

/-! ## IC decisions -/

/-- What a caller records about a decision of the investment committee. -/
structure IcRecord where
  decisionText : MoveString
  pdfBlobId : MoveString
  committeeMembers : List Address
  votes : List UInt8
  relatedDocIds : List ID
  deriving DecidableEq, Repr

structure IcDecision where
  index : Nat
  decisionType : UInt8
  decisionText : MoveString
  decisionPdfBlobId : MoveString
  createdBy : Address
  committeeMembers : List Address
  votes : List UInt8
  createdAt : Nat
  relatedDocIds : List ID
  deriving DecidableEq, Repr

/-- `ic_decision::new`. -/
def IcDecision.new (index : Nat) (decisionType : UInt8) (record : IcRecord) (ctx : Ctx) : Exec IcDecision := do
  assert (decisionType ≤ 2) Errors.invalidConfig
  assert (record.committeeMembers.length = record.votes.length) Errors.invalidConfig
  assert (record.committeeMembers ≠ []) Errors.emptyCommittee
  return { index, decisionType, decisionText := record.decisionText, decisionPdfBlobId := record.pdfBlobId,
           createdBy := ctx.sender, committeeMembers := record.committeeMembers, votes := record.votes,
           createdAt := ctx.now, relatedDocIds := record.relatedDocIds }

/-- What a new decision needs and holds. -/
theorem IcDecision.new_ok {index : Nat} {decisionType : UInt8} {record : IcRecord} {ctx : Ctx} {d : IcDecision}
    (h : IcDecision.new index decisionType record ctx = .ok d) :
    decisionType ≤ 2 ∧ record.committeeMembers.length = record.votes.length ∧ record.committeeMembers ≠ [] ∧
      d = { index, decisionType, decisionText := record.decisionText, decisionPdfBlobId := record.pdfBlobId,
            createdBy := ctx.sender, committeeMembers := record.committeeMembers, votes := record.votes,
            createdAt := ctx.now, relatedDocIds := record.relatedDocIds } := by
  simp only [new, bind_eq_ok, assert_eq_ok, pure_eq_ok] at h
  obtain ⟨_, ht, _, hlen, _, hne, rfl⟩ := h
  exact ⟨ht, hlen, hne, rfl⟩

/-! ## Pools -/

structure Pool where
  id : ID
  orgIdHash : List UInt8
  name : MoveString
  borrowerNameHash : List UInt8
  currency : MoveString
  targetNotional : Nat
  expectedMaturityDate : Nat
  createdAt : Nat
  createdBy : Address
  currentState : UInt8
  encryptionScheme : UInt8
  tags : List MoveString
  icDecisionCount : Nat
  hasIcApprovalCached : Bool
  lastUpdatedAt : Nat
  dataroom : DataRoom
  documents : Table ID Document
  icDecisions : Table Nat IcDecision

namespace Pool

/-- The arguments of `create_pool`. -/
structure Params where
  orgIdHash : List UInt8
  name : MoveString
  borrowerNameHash : List UInt8
  currency : MoveString
  targetNotional : Nat
  expectedMaturityDate : Nat
  encryptionScheme : UInt8
  tags : List MoveString
  deriving DecidableEq, Repr

/-- `pool::create_pool`, with the ids `object::new` gives to the pool and to its data room. The events of the data room come
before the pool's own. -/
def createPool (config : AdminConfig) (id dataroomId : ID) (p : Params) (ctx : Ctx) : Exec (Pool × List Event) := do
  config.assertNotPaused
  assert (p.orgIdHash.length = 32) Errors.invalidHashLength
  assert (p.borrowerNameHash.length = 32) Errors.invalidHashLength
  Types.assertValidEncryptionScheme p.encryptionScheme
  let (dataroom, evs) ← DataRoom.new dataroomId id ctx.sender ctx
  return ({ id, orgIdHash := p.orgIdHash, name := p.name, borrowerNameHash := p.borrowerNameHash, currency := p.currency,
            targetNotional := p.targetNotional, expectedMaturityDate := p.expectedMaturityDate, createdAt := ctx.now,
            createdBy := ctx.sender, currentState := Types.poolStateDraft, encryptionScheme := p.encryptionScheme,
            tags := p.tags, icDecisionCount := 0, hasIcApprovalCached := false, lastUpdatedAt := ctx.now,
            dataroom, documents := ∅, icDecisions := ∅ },
    evs ++ [.poolCreated id p.name p.orgIdHash ctx.sender p.encryptionScheme ctx.now])

/-- `pool::attach_document`. -/
def attachDocument (pool : Pool) (docId : ID) (doc : Document) : Exec Pool := do
  let documents ← Table.add pool.documents docId doc
  return { pool with documents }

/-- `pool::borrow_document`. -/
def borrowDocument (pool : Pool) (docId : ID) : Exec Document := Table.borrow pool.documents docId

/-- What a mutable borrow of a document leaves behind. -/
def setDocument (pool : Pool) (docId : ID) (doc : Document) : Pool :=
  { pool with documents := pool.documents.insert docId doc }

def hasDocument (pool : Pool) (docId : ID) : Bool := decide (docId ∈ pool.documents)

/-- `pool::attach_ic_decision`. -/
def attachIcDecision (pool : Pool) (decision : IcDecision) (ctx : Ctx) : Exec Pool := do
  let icDecisions ← Table.add pool.icDecisions pool.icDecisionCount decision
  let icDecisionCount ← addU64 pool.icDecisionCount 1
  return { pool with
    icDecisions
    icDecisionCount
    hasIcApprovalCached := pool.hasIcApprovalCached || decision.decisionType == Types.icApprove
    lastUpdatedAt := ctx.now }

/-- `pool::is_valid_transition`: the legal changes of state. -/
def isValidTransition (fromState toState : UInt8) : Bool :=
  (fromState == Types.poolStateDraft && (toState == Types.poolStateDdInProgress || toState == Types.poolStateCancelled)) ||
  (fromState == Types.poolStateDdInProgress && (toState == Types.poolStateIcReview || toState == Types.poolStateCancelled)) ||
  (fromState == Types.poolStateIcReview &&
    (toState == Types.poolStateApprovedInternal || toState == Types.poolStateRejected ||
      toState == Types.poolStateDdInProgress)) ||
  (fromState == Types.poolStateApprovedInternal && toState == Types.poolStateReadyToIssue) ||
  (fromState == Types.poolStateReadyToIssue && toState == Types.poolStateIssued) ||
  (fromState == Types.poolStateRejected && toState == Types.poolStateDraft) ||
  (fromState == Types.poolStateIssued && toState == Types.poolStateClosed)

/-- `pool::set_state`. -/
def setState (pool : Pool) (newState : UInt8) (ctx : Ctx) : Exec Pool := do
  Types.assertValidPoolState newState
  assert (isValidTransition pool.currentState newState) Errors.invalidStateTransition
  return { pool with currentState := newState, lastUpdatedAt := ctx.now }

/-- `pool::assert_state`. -/
def assertState (pool : Pool) (expected : UInt8) : Exec Unit :=
  assert (pool.currentState = expected) Errors.invalidStateTransition

/-- `pool::assert_state_one_of`. -/
def assertStateOneOf (pool : Pool) (s1 s2 : UInt8) : Exec Unit :=
  assert (pool.currentState = s1 ∨ pool.currentState = s2) Errors.invalidStateTransition

/-- `pool::assert_role`. -/
def assertRole (pool : Pool) (caller : Address) (requiredRole : UInt8) : Exec Unit :=
  pool.dataroom.assertMemberRole caller requiredRole

/-! ## What each function does -/

/-- What a new pool needs and holds. -/
theorem createPool_ok {config : AdminConfig} {id dataroomId : ID} {p : Params} {ctx : Ctx} {pool : Pool} {evs : List Event}
    (h : createPool config id dataroomId p ctx = .ok (pool, evs)) :
    config.paused = false ∧ pool.id = id ∧ pool.currentState = Types.poolStateDraft ∧ pool.documents = ∅ ∧
      pool.dataroom.id = dataroomId ∧ pool.dataroom.poolId = id ∧ pool.dataroom.owner = ctx.sender ∧
      pool.dataroom.memberCount = 1 ∧ p.encryptionScheme ≤ 1 ∧
      pool.dataroom.members = (∅ : Table _ _).insert ctx.sender
        { role := Types.roleOwner, addedBy := ctx.sender, addedAt := ctx.now, isActive := true, revokedAt := none,
          tags := [] } ∧
      evs = [.dataRoomCreated id dataroomId ctx.sender ctx.now,
        .memberAdded id ctx.sender Types.roleOwner ctx.sender ctx.now,
        .poolCreated id p.name p.orgIdHash ctx.sender p.encryptionScheme ctx.now] := by
  simp only [createPool, AdminConfig.assertNotPaused, Types.assertValidEncryptionScheme, Types.isValidEncryptionScheme,
    bind_eq_ok, assert_eq_ok, pure_eq_ok, decide_eq_true_eq, Prod.mk.injEq, Prod.exists] at h
  obtain ⟨_, hp, _, _, _, _, _, hs, dr, devs, hd, rfl, rfl⟩ := h
  obtain ⟨h1, h2, h3, h4, h5, rfl⟩ := DataRoom.new_ok hd
  exact ⟨hp, rfl, rfl, rfl, h1, h2, h3, h4, hs, h5, rfl⟩

/-- A new pool has no decision of the committee. -/
theorem createPool_decisions {config : AdminConfig} {id dataroomId : ID} {p : Params} {ctx : Ctx} {pool : Pool}
    {evs : List Event} (h : createPool config id dataroomId p ctx = .ok (pool, evs)) :
    pool.icDecisions = ∅ ∧ pool.icDecisionCount = 0 ∧ pool.hasIcApprovalCached = false := by
  simp only [createPool, bind_eq_ok, pure_eq_ok, Prod.mk.injEq, Prod.exists] at h
  obtain ⟨_, _, _, _, _, _, _, _, dr, devs, _, rfl, _⟩ := h
  exact ⟨rfl, rfl, rfl⟩

/-- When a document is attached. -/
theorem attachDocument_ok {pool pool' : Pool} {docId : ID} {doc : Document} :
    pool.attachDocument docId doc = .ok pool' ↔ pool.documents.lookup docId = none ∧ pool' = pool.setDocument docId doc := by
  simp only [attachDocument, bind_eq_ok, pure_eq_ok, Table.add_eq_ok, setDocument]
  constructor
  · rintro ⟨_, ⟨hl, rfl⟩, rfl⟩
    exact ⟨hl, rfl⟩
  · rintro ⟨hl, rfl⟩
    exact ⟨_, ⟨hl, rfl⟩, rfl⟩

/-- When a document is borrowed. -/
theorem borrowDocument_ok {pool : Pool} {docId : ID} {doc : Document} :
    pool.borrowDocument docId = .ok doc ↔ pool.documents.lookup docId = some doc := Table.borrow_eq_ok

/-- A decision is attached under the next number, and an approval is remembered. -/
theorem attachIcDecision_ok {pool pool' : Pool} {decision : IcDecision} {ctx : Ctx}
    (h : pool.attachIcDecision decision ctx = .ok pool') :
    pool.icDecisions.lookup pool.icDecisionCount = none ∧
      pool' = { pool with
        icDecisions := pool.icDecisions.insert pool.icDecisionCount decision
        icDecisionCount := pool.icDecisionCount + 1
        hasIcApprovalCached := pool.hasIcApprovalCached || decision.decisionType == Types.icApprove
        lastUpdatedAt := ctx.now } := by
  simp only [attachIcDecision, bind_eq_ok, pure_eq_ok, Table.add_eq_ok, addU64_eq_ok] at h
  obtain ⟨_, ⟨hl, rfl⟩, _, ⟨_, rfl⟩, rfl⟩ := h
  exact ⟨hl, rfl⟩

/-- What a change of state needs and does. -/
theorem setState_ok {pool pool' : Pool} {newState : UInt8} {ctx : Ctx} (h : pool.setState newState ctx = .ok pool') :
    newState ≤ 8 ∧ isValidTransition pool.currentState newState = true ∧
      pool' = { pool with currentState := newState, lastUpdatedAt := ctx.now } := by
  simp only [setState, Types.assertValidPoolState, Types.isValidPoolState, bind_eq_ok, pure_eq_ok, assert_eq_ok,
    decide_eq_true_eq] at h
  obtain ⟨_, hs, _, ht, rfl⟩ := h
  exact ⟨hs, ht, rfl⟩

end Pool

end BrineVault
