import BrineVault.Contract.Pool

/-!
# `pool_entry.move`, `dataroom_entry.move`, `document_entry.move`: the public functions on a pool

Each function takes the configuration, the pool and the caller's context, and returns the pool as it leaves it with the events in
the order they are emitted. `PoolCall` is a call of one of them with its arguments, and `PoolCall.exec` runs it.
-/

namespace BrineVault

open Move

/-- `events::emit_audit_event` as the entry functions use it: without a metadata hash. -/
def auditEvent (poolId : ID) (actor : Address) (actionType : UInt8) (targetId : Option ID) (now : Nat) : Event :=
  .auditEvent poolId actor actionType targetId now none

namespace Pool

/-! ## Lifecycle of the pool -/

/-- `all_docs_have_approval`: the loop over the caller's list. It aborts on an unknown document and stops at the first one without
an approval. -/
def allDocsHaveApproval (pool : Pool) : List ID → Exec Bool
  | [] => .ok true
  | docId :: docIds => do
    assert (pool.hasDocument docId) Errors.documentNotFound
    let doc ← pool.borrowDocument docId
    if !doc.hasAnyApproval then .ok false else allDocsHaveApproval pool docIds

/-- The shape of the functions that move a pool from one state to the next: the owner-level check, the state it must be in, the
function's own gate, the change, and the two events. -/
def progress (config : AdminConfig) (pool : Pool) (fromState toState : UInt8) (gate : Exec Unit) (ctx : Ctx) :
    Exec (Pool × List Event) := do
  config.assertNotPaused
  pool.assertRole ctx.sender Types.roleOwnerUp
  pool.assertState fromState
  gate
  let pool ← pool.setState toState ctx
  return (pool, [.poolStateChanged pool.id fromState toState ctx.sender ctx.now,
    auditEvent pool.id ctx.sender Types.actionStateChanged none ctx.now])

/-- The gate of the required documents. -/
def docsGate (pool : Pool) (requiredDocIds : List ID) : Exec Unit := do
  let approved ← pool.allDocsHaveApproval requiredDocIds
  assert approved Errors.requiredDocsNotReviewed

def progressToDd (config : AdminConfig) (pool : Pool) (ctx : Ctx) : Exec (Pool × List Event) :=
  pool.progress config Types.poolStateDraft Types.poolStateDdInProgress (.ok ()) ctx

def progressToIcReview (config : AdminConfig) (pool : Pool) (requiredDocIds : List ID) (ctx : Ctx) :
    Exec (Pool × List Event) :=
  pool.progress config Types.poolStateDdInProgress Types.poolStateIcReview (pool.docsGate requiredDocIds) ctx

/-- Besides the documents, the pool must have an approval of the committee. -/
def progressToReadyToIssue (config : AdminConfig) (pool : Pool) (requiredDocIds : List ID) (ctx : Ctx) :
    Exec (Pool × List Event) :=
  pool.progress config Types.poolStateApprovedInternal Types.poolStateReadyToIssue
    (do assert pool.hasIcApprovalCached Errors.noIcApproval; pool.docsGate requiredDocIds) ctx

def reopenRejectedPool (config : AdminConfig) (pool : Pool) (ctx : Ctx) : Exec (Pool × List Event) :=
  pool.progress config Types.poolStateRejected Types.poolStateDraft (.ok ()) ctx

/-- The only change of state with two states to start from, and with an event of its own. -/
def cancelPool (config : AdminConfig) (pool : Pool) (ctx : Ctx) : Exec (Pool × List Event) := do
  config.assertNotPaused
  pool.assertRole ctx.sender Types.roleOwnerUp
  pool.assertStateOneOf Types.poolStateDraft Types.poolStateDdInProgress
  let oldState := pool.currentState
  let pool ← pool.setState Types.poolStateCancelled ctx
  return (pool, [.poolCancelled pool.id ctx.sender ctx.now,
    .poolStateChanged pool.id oldState Types.poolStateCancelled ctx.sender ctx.now,
    auditEvent pool.id ctx.sender Types.actionPoolCancelled none ctx.now])

/-- The shape of the functions that record a decision of the committee and leave IC review. -/
def recordIcDecision (config : AdminConfig) (pool : Pool) (decisionType toState : UInt8) (record : IcRecord) (ctx : Ctx) :
    Exec (Pool × List Event) := do
  config.assertNotPaused
  pool.assertRole ctx.sender Types.roleOwnerUp
  pool.assertState Types.poolStateIcReview
  let idx := pool.icDecisionCount
  let decision ← IcDecision.new idx decisionType record ctx
  let pool ← pool.attachIcDecision decision ctx
  let pool ← pool.setState toState ctx
  return (pool, [.icDecisionCreated pool.id idx decisionType ctx.sender ctx.now,
    .poolStateChanged pool.id Types.poolStateIcReview toState ctx.sender ctx.now,
    auditEvent pool.id ctx.sender Types.actionIcDecision none ctx.now])

def recordIcApproval (config : AdminConfig) (pool : Pool) (record : IcRecord) (ctx : Ctx) : Exec (Pool × List Event) :=
  pool.recordIcDecision config Types.icApprove Types.poolStateApprovedInternal record ctx

def recordIcRejection (config : AdminConfig) (pool : Pool) (record : IcRecord) (ctx : Ctx) : Exec (Pool × List Event) :=
  pool.recordIcDecision config Types.icReject Types.poolStateRejected record ctx

def recordIcRequestChanges (config : AdminConfig) (pool : Pool) (record : IcRecord) (ctx : Ctx) : Exec (Pool × List Event) :=
  pool.recordIcDecision config Types.icRequestChanges Types.poolStateDdInProgress record ctx

/-! ## Members and folders -/

/-- The branch of `add_member` on whether the address has an entry: a revoked member is reactivated, and the limit on members is
checked for a new one only. -/
def addOrReactivate (config : AdminConfig) (dr : DataRoom) (memberAddr : Address) (role : UInt8) (tags : List MoveString)
    (ctx : Ctx) : Exec (DataRoom × List Event) :=
  if dr.hasMember memberAddr then do
    assert (dr.isActiveMember memberAddr = false) Errors.memberAlreadyExists
    dr.reactivateMember memberAddr role ctx.sender tags ctx
  else do
    assert (dr.memberCount < config.maxMembersPerRoom) Errors.maxMembersReached
    dr.addMember memberAddr role ctx.sender tags ctx

def addMember (config : AdminConfig) (pool : Pool) (memberAddr : Address) (role : UInt8) (tags : List MoveString)
    (ctx : Ctx) : Exec (Pool × List Event) := do
  config.assertNotPaused
  pool.dataroom.assertMemberRole ctx.sender Types.roleOwnerUp
  assert (Types.isValidRole role) Errors.invalidRole
  let (dataroom, evs) ← addOrReactivate config pool.dataroom memberAddr role tags ctx
  return ({ pool with dataroom }, evs ++ [auditEvent pool.id ctx.sender Types.actionMemberAdded none ctx.now])

def removeMember (config : AdminConfig) (pool : Pool) (memberAddr : Address) (ctx : Ctx) : Exec (Pool × List Event) := do
  config.assertNotPaused
  pool.dataroom.assertMemberRole ctx.sender Types.roleOwnerUp
  assert (memberAddr ≠ pool.dataroom.owner) Errors.cannotRemoveOwner
  let (dataroom, evs) ← pool.dataroom.revokeMember memberAddr ctx.sender ctx
  return ({ pool with dataroom }, evs ++ [auditEvent pool.id ctx.sender Types.actionMemberRemoved none ctx.now])

/-- The owner keeps the OWNER bit. -/
def assertOwnerKept (dr : DataRoom) (memberAddr : Address) (newRole : UInt8) : Exec Unit :=
  if memberAddr = dr.owner then assert (Types.hasRole newRole Types.roleOwner) Errors.cannotDemoteOwner else .ok ()

def updateMemberRole (config : AdminConfig) (pool : Pool) (memberAddr : Address) (newRole : UInt8) (ctx : Ctx) :
    Exec (Pool × List Event) := do
  config.assertNotPaused
  pool.dataroom.assertMemberRole ctx.sender Types.roleOwnerUp
  assert (Types.isValidRole newRole) Errors.invalidRole
  assertOwnerKept pool.dataroom memberAddr newRole
  let (dataroom, oldRole) ← pool.dataroom.updateMemberRole memberAddr newRole ctx
  return ({ pool with dataroom },
    [.memberRoleUpdated dataroom.id memberAddr oldRole newRole ctx.sender ctx.now,
     auditEvent pool.id ctx.sender Types.actionMemberRoleUpdated none ctx.now])

def createCustomFolder (config : AdminConfig) (pool : Pool) (name : MoveString) (parentId : Option Nat)
    (visibleToRoles : UInt8) (ctx : Ctx) : Exec (Pool × List Event) := do
  config.assertNotPaused
  assert (name ≠ []) Errors.emptyName
  pool.dataroom.assertMemberRole ctx.sender Types.roleEditorUp
  let (dataroom, evs) ← pool.dataroom.createCustomFolder name parentId visibleToRoles ctx.sender ctx
  return ({ pool with dataroom }, evs ++ [auditEvent pool.id ctx.sender Types.actionFolderCreated none ctx.now])

/-- The audit event of a stored key carries the action of an added member. -/
def storeEncryptedFolderKey (config : AdminConfig) (pool : Pool) (folderId : Nat) (memberAddr : Address)
    (encryptedKey : List UInt8) (ctx : Ctx) : Exec (Pool × List Event) := do
  config.assertNotPaused
  pool.dataroom.assertMemberRole ctx.sender Types.roleOwnerUp
  assert (pool.dataroom.folderExists folderId) Errors.folderNotFound
  assert (pool.dataroom.isActiveMember memberAddr) Errors.notMember
  let dataroom := pool.dataroom.setFolderKey folderId memberAddr encryptedKey
  return ({ pool with dataroom },
    [.folderKeyStored dataroom.id folderId memberAddr ctx.sender ctx.now,
     auditEvent pool.id ctx.sender Types.actionMemberAdded none ctx.now])

/-! ## Documents -/

/-- What the caller of `create_document` says about the document, besides the file of its first version. -/
structure DocParams where
  folderId : Nat
  docType : UInt8
  title : MoveString
  requiredFlag : Bool
  visibleToRoles : UInt8
  tags : List MoveString
  deriving DecidableEq, Repr

/-- `create_document`, with the id `object::new` gives the document. The function returns that id. -/
def createDocument (config : AdminConfig) (docId : ID) (pool : Pool) (p : DocParams) (up : Document.Upload) (ctx : Ctx) :
    Exec (Pool × List Event) := do
  config.assertNotPaused
  pool.dataroom.assertMemberRole ctx.sender Types.roleEditorUp
  assert (pool.dataroom.folderExists p.folderId) Errors.folderNotFound
  assert (Types.isValidDocType p.docType) Errors.invalidDocType
  assert (up.walrusBlobId ≠ []) Errors.emptyBlobId
  let doc ← Document.new docId pool.id p.folderId p.docType p.title p.requiredFlag p.visibleToRoles pool.encryptionScheme
    p.tags up ctx
  let pool ← pool.attachDocument docId doc
  return (pool,
    [.documentCreated pool.id docId p.folderId p.docType p.title 1 up.walrusBlobId up.contentHash ctx.sender ctx.now,
     auditEvent pool.id ctx.sender Types.actionDocCreated (some docId) ctx.now])

def addVersion (config : AdminConfig) (pool : Pool) (docId : ID) (up : Document.Upload) (ctx : Ctx) :
    Exec (Pool × List Event) := do
  config.assertNotPaused
  pool.dataroom.assertMemberRole ctx.sender Types.roleEditorUp
  assert (up.walrusBlobId ≠ []) Errors.emptyBlobId
  let doc ← pool.borrowDocument docId
  assert (doc.versionCount < config.maxDocVersions) Errors.maxVersionsReached
  let (doc, evs) ← doc.addVersion up ctx
  return (pool.setDocument docId doc,
    evs ++ [auditEvent pool.id ctx.sender Types.actionDocVersionAdded (some docId) ctx.now])

def submitReview (config : AdminConfig) (pool : Pool) (docId : ID) (status : UInt8) (commentHash : Option (List UInt8))
    (ctx : Ctx) : Exec (Pool × List Event) := do
  config.assertNotPaused
  pool.dataroom.assertMemberRole ctx.sender Types.roleReviewerUp
  let doc ← pool.borrowDocument docId
  let uploader ← doc.currentVersionUploader
  assert (ctx.sender ≠ uploader) Errors.selfReview
  let (doc, evs) ← doc.submitReview ctx.sender status commentHash ctx
  return (pool.setDocument docId doc,
    evs ++ [auditEvent pool.id ctx.sender Types.actionDocReviewed (some docId) ctx.now])

/-- The audit event of a changed flag carries the action of a created document. -/
def markAsRequired (config : AdminConfig) (pool : Pool) (docId : ID) (required : Bool) (ctx : Ctx) :
    Exec (Pool × List Event) := do
  config.assertNotPaused
  pool.dataroom.assertMemberRole ctx.sender Types.roleOwnerUp
  assert (pool.hasDocument docId) Errors.documentNotFound
  let doc ← pool.borrowDocument docId
  return (pool.setDocument docId (doc.setRequiredFlag required ctx),
    [auditEvent pool.id ctx.sender Types.actionDocCreated (some docId) ctx.now])

def archiveDocument (config : AdminConfig) (pool : Pool) (docId : ID) (ctx : Ctx) : Exec (Pool × List Event) := do
  config.assertNotPaused
  pool.dataroom.assertMemberRole ctx.sender Types.roleOwnerUp
  assert (pool.hasDocument docId) Errors.documentNotFound
  let doc ← pool.borrowDocument docId
  assert (doc.isArchived = false) Errors.documentArchived
  return (pool.setDocument docId (doc.archive ctx),
    [.documentArchived pool.id docId ctx.sender ctx.now,
     auditEvent pool.id ctx.sender Types.actionDocArchived (some docId) ctx.now])

end Pool

/-! ## Calls -/

/-- A call of a public function on a pool, with its arguments. -/
inductive PoolCall where
  | progressToDd
  | progressToIcReview (requiredDocIds : List ID)
  | recordIcApproval (record : IcRecord)
  | recordIcRejection (record : IcRecord)
  | recordIcRequestChanges (record : IcRecord)
  | progressToReadyToIssue (requiredDocIds : List ID)
  | cancelPool
  | reopenRejectedPool
  | addMember (memberAddr : Address) (role : UInt8) (tags : List MoveString)
  | removeMember (memberAddr : Address)
  | updateMemberRole (memberAddr : Address) (newRole : UInt8)
  | createCustomFolder (name : MoveString) (parentId : Option Nat) (visibleToRoles : UInt8)
  | storeEncryptedFolderKey (folderId : Nat) (memberAddr : Address) (encryptedKey : List UInt8)
  | createDocument (p : Pool.DocParams) (up : Document.Upload)
  | addVersion (docId : ID) (up : Document.Upload)
  | submitReview (docId : ID) (status : UInt8) (commentHash : Option (List UInt8))
  | markAsRequired (docId : ID) (required : Bool)
  | archiveDocument (docId : ID)
  deriving DecidableEq, Repr

/-- Run a call on a pool; `freshId` is the id a new object gets. -/
def PoolCall.exec (config : AdminConfig) (freshId : ID) (ctx : Ctx) (pool : Pool) : PoolCall → Exec (Pool × List Event)
  | .progressToDd => pool.progressToDd config ctx
  | .progressToIcReview ids => pool.progressToIcReview config ids ctx
  | .recordIcApproval r => pool.recordIcApproval config r ctx
  | .recordIcRejection r => pool.recordIcRejection config r ctx
  | .recordIcRequestChanges r => pool.recordIcRequestChanges config r ctx
  | .progressToReadyToIssue ids => pool.progressToReadyToIssue config ids ctx
  | .cancelPool => pool.cancelPool config ctx
  | .reopenRejectedPool => pool.reopenRejectedPool config ctx
  | .addMember a role tags => pool.addMember config a role tags ctx
  | .removeMember a => pool.removeMember config a ctx
  | .updateMemberRole a role => pool.updateMemberRole config a role ctx
  | .createCustomFolder name parent roles => pool.createCustomFolder config name parent roles ctx
  | .storeEncryptedFolderKey folder a key => pool.storeEncryptedFolderKey config folder a key ctx
  | .createDocument p up => pool.createDocument config freshId p up ctx
  | .addVersion docId up => pool.addVersion config docId up ctx
  | .submitReview docId status comment => pool.submitReview config docId status comment ctx
  | .markAsRequired docId required => pool.markAsRequired config docId required ctx
  | .archiveDocument docId => pool.archiveDocument config docId ctx

/-! ## What a call does -/

namespace Pool

/-- A change of state touches the state only, and its gate was passed. -/
theorem progress_ok {config : AdminConfig} {pool pool' : Pool} {fromState toState : UInt8} {gate : Exec Unit} {ctx : Ctx}
    {evs : List Event} (h : pool.progress config fromState toState gate ctx = .ok (pool', evs)) :
    pool.currentState = fromState ∧ gate = .ok () ∧
      pool' = { pool with currentState := toState, lastUpdatedAt := ctx.now } ∧
      evs = [.poolStateChanged pool.id fromState toState ctx.sender ctx.now,
        auditEvent pool.id ctx.sender Types.actionStateChanged none ctx.now] := by
  simp only [progress, assertState, bind_eq_ok, assert_eq_ok, pure_eq_ok, Prod.mk.injEq] at h
  obtain ⟨_, _, _, _, _, hf, _, hg, _, hs, rfl, rfl⟩ := h
  obtain ⟨_, _, rfl⟩ := setState_ok hs
  exact ⟨hf, hg, rfl, rfl⟩

theorem cancelPool_ok {config : AdminConfig} {pool pool' : Pool} {ctx : Ctx} {evs : List Event}
    (h : pool.cancelPool config ctx = .ok (pool', evs)) :
    pool' = { pool with currentState := Types.poolStateCancelled, lastUpdatedAt := ctx.now } ∧
      evs = [.poolCancelled pool.id ctx.sender ctx.now,
        .poolStateChanged pool.id pool.currentState Types.poolStateCancelled ctx.sender ctx.now,
        auditEvent pool.id ctx.sender Types.actionPoolCancelled none ctx.now] := by
  simp only [cancelPool, bind_eq_ok, pure_eq_ok, Prod.mk.injEq] at h
  obtain ⟨_, _, _, _, _, _, _, hs, rfl, rfl⟩ := h
  obtain ⟨_, _, rfl⟩ := setState_ok hs
  exact ⟨rfl, rfl⟩

/-- A pool is cancelled before its review by the committee only. -/
theorem cancelPool_from {config : AdminConfig} {pool pool' : Pool} {ctx : Ctx} {evs : List Event}
    (h : pool.cancelPool config ctx = .ok (pool', evs)) :
    pool.currentState = Types.poolStateDraft ∨ pool.currentState = Types.poolStateDdInProgress := by
  simp only [cancelPool, assertStateOneOf, bind_eq_ok, assert_eq_ok] at h
  obtain ⟨_, _, _, _, _, hf, _⟩ := h
  exact hf

/-- What is recorded is a decision of the type, under the next number. -/
theorem recordIcDecision_eq {config : AdminConfig} {pool pool' : Pool} {decisionType toState : UInt8} {record : IcRecord}
    {ctx : Ctx} {evs : List Event}
    (h : pool.recordIcDecision config decisionType toState record ctx = .ok (pool', evs)) :
    pool.currentState = Types.poolStateIcReview ∧
      (∃ decision, IcDecision.new pool.icDecisionCount decisionType record ctx = .ok decision ∧
        pool.icDecisions.lookup pool.icDecisionCount = none ∧
        pool' = { pool with
          icDecisions := pool.icDecisions.insert pool.icDecisionCount decision
          icDecisionCount := pool.icDecisionCount + 1
          hasIcApprovalCached := pool.hasIcApprovalCached || decision.decisionType == Types.icApprove
          currentState := toState
          lastUpdatedAt := ctx.now }) ∧
      evs = [.icDecisionCreated pool.id pool.icDecisionCount decisionType ctx.sender ctx.now,
        .poolStateChanged pool.id Types.poolStateIcReview toState ctx.sender ctx.now,
        auditEvent pool.id ctx.sender Types.actionIcDecision none ctx.now] := by
  simp only [recordIcDecision, assertState, bind_eq_ok, assert_eq_ok, pure_eq_ok, Prod.mk.injEq] at h
  obtain ⟨_, _, _, _, _, hf, decision, hnew, mid, hm, _, hs, rfl, rfl⟩ := h
  obtain ⟨hl, rfl⟩ := attachIcDecision_ok hm
  obtain ⟨_, _, rfl⟩ := setState_ok hs
  exact ⟨hf, ⟨decision, hnew, hl, rfl⟩, rfl⟩

/-- A recorded decision leaves the data room and the documents alone. -/
theorem recordIcDecision_ok {config : AdminConfig} {pool pool' : Pool} {decisionType toState : UInt8} {record : IcRecord}
    {ctx : Ctx} {evs : List Event}
    (h : pool.recordIcDecision config decisionType toState record ctx = .ok (pool', evs)) :
    pool.currentState = Types.poolStateIcReview ∧ pool'.id = pool.id ∧ pool'.currentState = toState ∧
      pool'.dataroom = pool.dataroom ∧ pool'.documents = pool.documents ∧
      evs = [.icDecisionCreated pool.id pool.icDecisionCount decisionType ctx.sender ctx.now,
        .poolStateChanged pool.id Types.poolStateIcReview toState ctx.sender ctx.now,
        auditEvent pool.id ctx.sender Types.actionIcDecision none ctx.now] := by
  obtain ⟨hf, ⟨decision, _, _, rfl⟩, rfl⟩ := recordIcDecision_eq h
  exact ⟨hf, rfl, rfl, rfl, rfl, rfl⟩

/-- Adding a member gives the address an active entry with the role; an entry it had was not active. -/
theorem addOrReactivate_ok {config : AdminConfig} {dr dr' : DataRoom} {addr : Address} {role : UInt8}
    {tags : List MoveString} {ctx : Ctx} {evs : List Event}
    (h : addOrReactivate config dr addr role tags ctx = .ok (dr', evs)) :
    dr.isActiveMember addr = false ∧
      (∃ m, m.role = role ∧ m.isActive = true ∧ m.revokedAt = none ∧
        dr' = { dr with
          members := dr.members.insert addr m
          memberCount := dr.memberCount + 1
          lastUpdatedAt := ctx.now }) ∧
      evs = [.memberAdded dr.poolId addr role ctx.sender ctx.now] := by
  unfold addOrReactivate at h
  split at h
  · simp only [bind_eq_ok, assert_eq_ok] at h
    obtain ⟨_, hi, h⟩ := h
    obtain ⟨m, _, _, rfl, rfl⟩ := DataRoom.reactivateMember_ok h
    exact ⟨hi, ⟨_, rfl, rfl, rfl, rfl⟩, rfl⟩
  · simp only [bind_eq_ok, assert_eq_ok] at h
    obtain ⟨_, _, h⟩ := h
    obtain ⟨hl, _, _, _, rfl, rfl⟩ := DataRoom.addMember_ok h
    refine ⟨?_, ⟨_, rfl, rfl, rfl, rfl⟩, rfl⟩
    rw [DataRoom.isActiveMember, hl]

theorem addMember_ok {config : AdminConfig} {pool pool' : Pool} {addr : Address} {role : UInt8} {tags : List MoveString}
    {ctx : Ctx} {evs : List Event} (h : pool.addMember config addr role tags ctx = .ok (pool', evs)) :
    Types.isValidRole role = true ∧
      (∃ dr, addOrReactivate config pool.dataroom addr role tags ctx =
          .ok (dr, [.memberAdded pool.dataroom.poolId addr role ctx.sender ctx.now]) ∧
        pool' = { pool with dataroom := dr }) ∧
      evs = [.memberAdded pool.dataroom.poolId addr role ctx.sender ctx.now,
        auditEvent pool.id ctx.sender Types.actionMemberAdded none ctx.now] := by
  simp only [addMember, bind_eq_ok, assert_eq_ok, pure_eq_ok, Prod.mk.injEq, Prod.exists] at h
  obtain ⟨_, _, _, _, _, hr, dr, devs, hd, rfl, rfl⟩ := h
  obtain ⟨_, _, rfl⟩ := addOrReactivate_ok hd
  exact ⟨hr, ⟨dr, hd, rfl⟩, rfl⟩

theorem removeMember_ok {config : AdminConfig} {pool pool' : Pool} {addr : Address} {ctx : Ctx} {evs : List Event}
    (h : pool.removeMember config addr ctx = .ok (pool', evs)) :
    addr ≠ pool.dataroom.owner ∧
      (∃ dr, pool.dataroom.revokeMember addr ctx.sender ctx =
          .ok (dr, [.memberRemoved pool.dataroom.poolId addr ctx.sender ctx.now]) ∧
        pool' = { pool with dataroom := dr }) ∧
      evs = [.memberRemoved pool.dataroom.poolId addr ctx.sender ctx.now,
        auditEvent pool.id ctx.sender Types.actionMemberRemoved none ctx.now] := by
  simp only [removeMember, bind_eq_ok, assert_eq_ok, pure_eq_ok, Prod.mk.injEq, Prod.exists] at h
  obtain ⟨_, _, _, _, _, ho, dr, devs, hd, rfl, rfl⟩ := h
  obtain ⟨_, _, _, _, _, rfl⟩ := DataRoom.revokeMember_ok hd
  exact ⟨ho, ⟨dr, hd, rfl⟩, rfl⟩

/-- The owner keeps the owner's role. -/
theorem assertOwnerKept_ok {dr : DataRoom} {addr : Address} {newRole : UInt8} {u : Unit}
    (h : assertOwnerKept dr addr newRole = .ok u) (ho : addr = dr.owner) : Types.hasRole newRole Types.roleOwner = true := by
  rw [assertOwnerKept, if_pos ho, assert_eq_ok] at h
  exact h

theorem updateMemberRole_ok {config : AdminConfig} {pool pool' : Pool} {addr : Address} {newRole : UInt8} {ctx : Ctx}
    {evs : List Event} (h : pool.updateMemberRole config addr newRole ctx = .ok (pool', evs)) :
    Types.isValidRole newRole = true ∧ (addr = pool.dataroom.owner → Types.hasRole newRole Types.roleOwner = true) ∧
      ∃ m, pool.dataroom.members.lookup addr = some m ∧ m.isActive = true ∧ pool' = { pool with
        dataroom := { pool.dataroom with
          members := pool.dataroom.members.insert addr { m with role := newRole }
          lastUpdatedAt := ctx.now } } ∧
      evs = [.memberRoleUpdated pool.dataroom.id addr m.role newRole ctx.sender ctx.now,
        auditEvent pool.id ctx.sender Types.actionMemberRoleUpdated none ctx.now] := by
  simp only [updateMemberRole, bind_eq_ok, assert_eq_ok, pure_eq_ok, Prod.mk.injEq, Prod.exists] at h
  obtain ⟨_, _, _, _, _, hv, _, ho, dr, old, hd, rfl, rfl⟩ := h
  obtain ⟨m, hm, ha, rfl, rfl⟩ := DataRoom.updateMemberRole_ok hd
  exact ⟨hv, assertOwnerKept_ok ho, m, hm, ha, rfl, rfl⟩

theorem createCustomFolder_ok {config : AdminConfig} {pool pool' : Pool} {name : MoveString} {parentId : Option Nat}
    {visibleToRoles : UInt8} {ctx : Ctx} {evs : List Event}
    (h : pool.createCustomFolder config name parentId visibleToRoles ctx = .ok (pool', evs)) :
    (∃ fs, pool' = { pool with
      dataroom := { pool.dataroom with
        folders := fs
        customFolderCount := pool.dataroom.customFolderCount + 1
        lastUpdatedAt := ctx.now } }) ∧
      pool.dataroom.customFolderCount + 1 < 2 ^ 64 ∧
      evs = [.folderCreated pool.dataroom.poolId pool.dataroom.customFolderCount name parentId ctx.sender ctx.now,
        auditEvent pool.id ctx.sender Types.actionFolderCreated none ctx.now] := by
  simp only [createCustomFolder, bind_eq_ok, assert_eq_ok, pure_eq_ok, Prod.mk.injEq, Prod.exists] at h
  obtain ⟨_, _, _, _, _, _, dr, devs, hd, rfl, rfl⟩ := h
  obtain ⟨hc, _, _, rfl, rfl⟩ := DataRoom.createCustomFolder_ok hd
  exact ⟨⟨_, rfl⟩, hc, rfl⟩

theorem storeEncryptedFolderKey_ok {config : AdminConfig} {pool pool' : Pool} {folderId : Nat} {addr : Address}
    {key : List UInt8} {ctx : Ctx} {evs : List Event}
    (h : pool.storeEncryptedFolderKey config folderId addr key ctx = .ok (pool', evs)) :
    pool' = { pool with dataroom := pool.dataroom.setFolderKey folderId addr key } ∧
      evs = [.folderKeyStored pool.dataroom.id folderId addr ctx.sender ctx.now,
        auditEvent pool.id ctx.sender Types.actionMemberAdded none ctx.now] := by
  simp only [storeEncryptedFolderKey, bind_eq_ok, pure_eq_ok, Prod.mk.injEq] at h
  obtain ⟨_, _, _, _, _, _, _, _, rfl, rfl⟩ := h
  exact ⟨rfl, rfl⟩

theorem createDocument_ok {config : AdminConfig} {docId : ID} {pool pool' : Pool} {p : DocParams} {up : Document.Upload}
    {ctx : Ctx} {evs : List Event} (h : pool.createDocument config docId p up ctx = .ok (pool', evs)) :
    (∃ doc, Document.new docId pool.id p.folderId p.docType p.title p.requiredFlag p.visibleToRoles pool.encryptionScheme
        p.tags up ctx = .ok doc ∧ pool.documents.lookup docId = none ∧ pool' = pool.setDocument docId doc) ∧
      evs = [.documentCreated pool.id docId p.folderId p.docType p.title 1 up.walrusBlobId up.contentHash ctx.sender ctx.now,
        auditEvent pool.id ctx.sender Types.actionDocCreated (some docId) ctx.now] := by
  simp only [createDocument, bind_eq_ok, pure_eq_ok, attachDocument_ok, Prod.mk.injEq] at h
  obtain ⟨_, _, _, _, _, _, _, _, _, _, doc, hd, _, ⟨hl, rfl⟩, rfl, rfl⟩ := h
  exact ⟨⟨doc, hd, hl, rfl⟩, rfl⟩

theorem addVersion_ok {config : AdminConfig} {pool pool' : Pool} {docId : ID} {up : Document.Upload} {ctx : Ctx}
    {evs : List Event} (h : pool.addVersion config docId up ctx = .ok (pool', evs)) :
    ∃ doc doc' devs, pool.documents.lookup docId = some doc ∧ doc.addVersion up ctx = .ok (doc', devs) ∧
      pool' = pool.setDocument docId doc' ∧
      evs = devs ++ [auditEvent pool.id ctx.sender Types.actionDocVersionAdded (some docId) ctx.now] := by
  simp only [addVersion, bind_eq_ok, pure_eq_ok, borrowDocument_ok, Prod.mk.injEq, Prod.exists] at h
  obtain ⟨_, _, _, _, _, _, doc, hl, _, _, doc', devs, hd, rfl, rfl⟩ := h
  exact ⟨doc, doc', devs, hl, hd, rfl, rfl⟩

theorem submitReview_ok {config : AdminConfig} {pool pool' : Pool} {docId : ID} {status : UInt8}
    {commentHash : Option (List UInt8)} {ctx : Ctx} {evs : List Event}
    (h : pool.submitReview config docId status commentHash ctx = .ok (pool', evs)) :
    ∃ doc doc' devs, pool.documents.lookup docId = some doc ∧
      doc.submitReview ctx.sender status commentHash ctx = .ok (doc', devs) ∧
      pool' = pool.setDocument docId doc' ∧
      evs = devs ++ [auditEvent pool.id ctx.sender Types.actionDocReviewed (some docId) ctx.now] := by
  simp only [submitReview, bind_eq_ok, pure_eq_ok, borrowDocument_ok, Prod.mk.injEq, Prod.exists] at h
  obtain ⟨_, _, _, _, doc, hl, _, _, _, _, doc', devs, hd, rfl, rfl⟩ := h
  exact ⟨doc, doc', devs, hl, hd, rfl, rfl⟩

theorem markAsRequired_ok {config : AdminConfig} {pool pool' : Pool} {docId : ID} {required : Bool} {ctx : Ctx}
    {evs : List Event} (h : pool.markAsRequired config docId required ctx = .ok (pool', evs)) :
    ∃ doc, pool.documents.lookup docId = some doc ∧ pool' = pool.setDocument docId (doc.setRequiredFlag required ctx) ∧
      evs = [auditEvent pool.id ctx.sender Types.actionDocCreated (some docId) ctx.now] := by
  simp only [markAsRequired, bind_eq_ok, pure_eq_ok, borrowDocument_ok, Prod.mk.injEq] at h
  obtain ⟨_, _, _, _, _, _, doc, hl, rfl, rfl⟩ := h
  exact ⟨doc, hl, rfl, rfl⟩

theorem archiveDocument_ok {config : AdminConfig} {pool pool' : Pool} {docId : ID} {ctx : Ctx} {evs : List Event}
    (h : pool.archiveDocument config docId ctx = .ok (pool', evs)) :
    ∃ doc, pool.documents.lookup docId = some doc ∧ pool' = pool.setDocument docId (doc.archive ctx) ∧
      evs = [.documentArchived pool.id docId ctx.sender ctx.now,
        auditEvent pool.id ctx.sender Types.actionDocArchived (some docId) ctx.now] := by
  simp only [archiveDocument, bind_eq_ok, pure_eq_ok, borrowDocument_ok, Prod.mk.injEq] at h
  obtain ⟨_, _, _, _, _, _, doc, hl, _, _, rfl, rfl⟩ := h
  exact ⟨doc, hl, rfl, rfl⟩

/-! ## The gate -/

/-- The loop returns `true` exactly on a list of attached documents with an approval each. -/
theorem allDocsHaveApproval_eq_true {pool : Pool} {ids : List ID} :
    pool.allDocsHaveApproval ids = .ok true ↔
      ∀ docId ∈ ids, ∃ doc, pool.documents.lookup docId = some doc ∧ doc.hasAnyApproval = true := by
  induction ids with
  | nil => simp [allDocsHaveApproval]
  | cons docId ids ih =>
    simp only [allDocsHaveApproval, bind_eq_ok, assert_eq_ok, borrowDocument_ok, List.forall_mem_cons, hasDocument,
      decide_eq_true_eq]
    constructor
    · rintro ⟨_, _, doc, hl, h⟩
      split at h
      · simp at h
      · rename_i ha
        exact ⟨⟨doc, hl, by simpa using ha⟩, ih.1 h⟩
    · rintro ⟨⟨doc, hl, ha⟩, h⟩
      refine ⟨(), AList.lookup_isSome.1 (by rw [hl]; rfl), doc, hl, ?_⟩
      rw [if_neg (by simp [ha])]
      exact ih.2 h

/-- The gate lets through when every document it asks for has an approval. -/
theorem docsGate_ok {pool : Pool} {ids : List ID} {u : Unit} :
    pool.docsGate ids = .ok u ↔
      ∀ docId ∈ ids, ∃ doc, pool.documents.lookup docId = some doc ∧ doc.hasAnyApproval = true := by
  rw [← allDocsHaveApproval_eq_true, docsGate, bind_eq_ok]
  constructor
  · rintro ⟨approved, h, ha⟩
    rw [assert_eq_ok] at ha
    rw [h, ha]
  · intro h
    exact ⟨true, h, assert_eq_ok.2 rfl⟩

end Pool

end BrineVault
