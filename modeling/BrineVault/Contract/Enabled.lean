import BrineVault.Contract.Access
import BrineVault.Contract.Decisions
import BrineVault.Contract.DocumentEvents
import BrineVault.Contract.Folders
import BrineVault.Contract.Gate
import BrineVault.Contract.Members
import BrineVault.Contract.Records

/-!
# When a call succeeds

For each public function, what it asks for besides a caller with the role. In the states that the package reaches these are all the
reasons to abort: no table has an entry where one is added, the current version of a document is there, nothing is counted below zero, and
a pool that is approved has the approval that is asked for. What is left is that a counter is full.
-/

namespace BrineVault

open Move

/-! ## Rooms and documents -/

namespace DataRoom

/-- The caller is an active member whose role meets the mask. -/
def Permits (dr : DataRoom) (caller : Address) (requiredRole : UInt8) : Prop :=
  ∃ m, dr.members.lookup caller = some m ∧ m.isActive = true ∧ Types.hasRole m.role requiredRole = true

variable {dr : DataRoom}

/-- The check of a role succeeds for whom the room permits it. -/
theorem succeeds_assertMemberRole {caller : Address} {requiredRole : UInt8} :
    Succeeds (dr.assertMemberRole caller requiredRole) ↔ dr.Permits caller requiredRole :=
  ⟨fun ⟨_, h⟩ => assertMemberRole_ok.1 h, fun h => ⟨(), assertMemberRole_ok.2 h⟩⟩

/-- An active member is one in the table who is active. -/
theorem isActiveMember_iff {addr : Address} :
    dr.isActiveMember addr = true ↔ ∃ m, dr.members.lookup addr = some m ∧ m.isActive = true := by
  unfold isActiveMember
  cases dr.members.lookup addr <;> simp

/-- A member is one in the table. -/
theorem hasMember_iff {addr : Address} : dr.hasMember addr = true ↔ addr ∈ dr.members := decide_eq_true_iff

/-- Revoking succeeds for an active member. -/
theorem succeeds_revokeMember (hb : dr.Bookkept) {addr removedBy : Address} {ctx : Ctx} :
    Succeeds (dr.revokeMember addr removedBy ctx) ↔ dr.isActiveMember addr = true := by
  simp only [revokeMember, succeeds_bind_unit, succeeds_assert, Table.succeeds_borrow_bind, succeeds_subU64_bind, succeeds_pure,
    and_true, isActiveMember_iff]
  constructor
  · rintro ⟨-, m, hm, ha, -⟩
    exact ⟨m, hm, ha⟩
  · rintro ⟨m, hm, ha⟩
    have hpos : 1 ≤ dr.memberCount := by
      rw [hb.count]
      exact (Table.count_pos_iff _ _).2 ⟨addr, m, hm, ha⟩
    exact ⟨AList.lookup_isSome.1 (by rw [hm]; rfl), m, hm, ha, hpos⟩

theorem succeeds_updateMemberRole {addr : Address} {newRole : UInt8} {ctx : Ctx} :
    Succeeds (dr.updateMemberRole addr newRole ctx) ↔ dr.isActiveMember addr = true := by
  simp only [updateMemberRole, succeeds_bind_unit, succeeds_assert, Table.succeeds_borrow_bind, succeeds_pure, and_true,
    isActiveMember_iff]
  constructor
  · intro h
    rcases h with ⟨_, m, hm, ha⟩
    exact ⟨m, hm, ha⟩
  · intro h
    rcases h with ⟨m, hm, ha⟩
    exact ⟨AList.lookup_isSome.1 (by rw [hm]; rfl), m, hm, ha⟩

/-- When adding a member or taking one back succeeds. -/
theorem succeeds_addOrReactivate {config : AdminConfig} {addr : Address} {role : UInt8} {tags : List MoveString} {ctx : Ctx}
    (hrole : Types.isValidRole role = true) :
    Succeeds (Pool.addOrReactivate config dr addr role tags ctx) ↔
      dr.isActiveMember addr = false ∧ (addr ∈ dr.members ∨ dr.memberCount < config.maxMembersPerRoom) ∧ dr.memberCount + 1 < 2 ^ 64 := by
  unfold Pool.addOrReactivate
  split
  · rename_i hmember
    have hmember : addr ∈ dr.members := hasMember_iff.1 hmember
    obtain ⟨m, hm⟩ := Option.isSome_iff_exists.1 (AList.lookup_isSome.2 hmember)
    simp only [reactivateMember, succeeds_bind_unit, succeeds_assert, Table.succeeds_borrow_bind, succeeds_addU64_bind, succeeds_pure,
      and_true, hm, Option.some.injEq, exists_eq_left', hmember, true_or, true_and]
  · rename_i hmember
    have hmember : addr ∉ dr.members := fun h => hmember (hasMember_iff.2 h)
    have hnone : dr.members.lookup addr = none := AList.lookup_eq_none.2 hmember
    have hactive : dr.isActiveMember addr = false := by
      rw [isActiveMember, hnone]
    have hbounds : role > 0 ∧ role ≤ Types.roleAll := Types.isValidRole_iff.1 hrole
    simp only [DataRoom.addMember, succeeds_bind_unit, succeeds_assert, Table.succeeds_add_bind, succeeds_addU64_bind, succeeds_pure,
      and_true, hnone, hactive, hmember, not_false_eq_true, hbounds, true_and, false_or]

theorem succeeds_createCustomFolder (hf : dr.FolderTree) {name : MoveString} {parentId : Option Nat} {visibleToRoles : UInt8}
    {creator : Address} {ctx : Ctx} :
    Succeeds (dr.createCustomFolder name parentId visibleToRoles creator ctx) ↔
      (∀ p, parentId = some p → p ∈ dr.folders) ∧ dr.customFolderCount + 1 < 2 ^ 64 := by
  have hfree : dr.folders.lookup dr.customFolderCount = none := by
    rw [AList.lookup_eq_none, hf.keys]
    have := hf.counter
    simp only [customFolderStartId] at this
    simp only [defaultFolderNames, List.length_cons, List.length_nil]
    omega
  have hparent : Succeeds (dr.assertParentExists parentId) ↔ ∀ p, parentId = some p → p ∈ dr.folders := by
    cases parentId with
    | none => simp [assertParentExists]
    | some p => simp [assertParentExists, succeeds_assert]
  simp only [createCustomFolder, succeeds_addU64_bind, succeeds_bind_unit, Table.succeeds_add_bind, hparent, hfree, succeeds_pure, and_true]
  exact And.comm

end DataRoom

namespace Document

variable {doc : Document}

theorem succeeds_addVersion (hh : doc.History) {up : Upload} {ctx : Ctx} :
    Succeeds (doc.addVersion up ctx) ↔ doc.isArchived = false ∧ up.contentHash.length = 32 ∧ doc.versionCount + 1 < 2 ^ 64 := by
  have hfree : doc.versions.lookup (doc.versionCount + 1) = none := by
    rw [AList.lookup_eq_none, hh.numbered.keys]
    omega
  simp only [addVersion, succeeds_bind_unit, succeeds_assert, succeeds_addU64_bind, Table.succeeds_add_bind, succeeds_pure, and_true, hfree]

/-- The current version is there, so a reviewer is told apart from its uploader. -/
theorem succeeds_notUploader (hh : doc.History) (hpos : 0 < doc.versionCount) {caller : Address} {β : Type} {next : Exec β} {n : Nat} :
    Succeeds (doc.currentVersionUploader >>= fun uploader => assert (caller ≠ uploader) n >>= fun _ => next) ↔
      (∀ ver, doc.versions.lookup doc.currentVersion = some ver → caller ≠ ver.uploadedBy) ∧ Succeeds next := by
  have hmem : doc.currentVersion ∈ doc.versions := by
    rw [hh.current, hh.numbered.keys]
    omega
  obtain ⟨ver, hver⟩ := Option.isSome_iff_exists.1 (AList.lookup_isSome.2 hmem)
  simp only [currentVersionUploader, bind_assoc, pure_bind, Table.succeeds_borrow_bind, succeeds_bind_unit, succeeds_assert, hver,
    Option.some.injEq, exists_eq_left', forall_eq']

/-- The counter moves when it is not counted down from zero, nor up beyond the last value. -/
theorem succeeds_moveCount {count : Nat} {was now : Bool} :
    Succeeds (moveCount count was now) ↔
      (was = true → now = false → 0 < count) ∧ (was = false → now = true → count + 1 < 2 ^ 64) := by
  have hdown : Succeeds (subU64 count 1) ↔ 0 < count := by
    simp only [Succeeds, subU64_eq_ok, exists_and_left, exists_eq, and_true]
    rfl
  have hup : Succeeds (addU64 count 1) ↔ count + 1 < 2 ^ 64 := by
    simp only [Succeeds, addU64_eq_ok, exists_and_left, exists_eq, and_true]
  cases was <;> cases now <;> simp [moveCount, hdown, hup]

/-- The hash of a comment has 32 bytes, if there is one. -/
theorem succeeds_assertCommentHash {commentHash : Option (List UInt8)} :
    Succeeds (assertCommentHash commentHash) ↔ ∀ h, commentHash = some h → h.length = 32 := by
  cases commentHash with
  | none => simp [assertCommentHash]
  | some h => simp [assertCommentHash, succeeds_assert]

/-- A reviewer whose approval is stored is counted. -/
theorem approvalCount_pos (hcount : doc.approvalCount = Table.count ReviewRecord.isApproval doc.reviews) {reviewer : Address}
    (h : doc.hasApprovedReview reviewer = true) : 0 < doc.approvalCount := by
  rw [hcount, Table.count_pos_iff]
  unfold hasApprovedReview at h
  split at h
  · cases h
  · exact ⟨reviewer, _, ‹_›, h⟩

theorem succeeds_submitReview (hcount : doc.approvalCount = Table.count ReviewRecord.isApproval doc.reviews) {reviewer : Address}
    {status : UInt8} {commentHash : Option (List UInt8)} {ctx : Ctx} :
    Succeeds (doc.submitReview reviewer status commentHash ctx) ↔
      doc.isArchived = false ∧ status ≤ Types.reviewNeedsRevision ∧ (∀ h, commentHash = some h → h.length = 32) ∧
        (status = Types.reviewApproved → doc.hasApprovedReview reviewer = false → doc.approvalCount + 1 < 2 ^ 64) := by
  -- Whether there is a record or not, the counter is moved from what the reviewer's record was to what it is.
  have hmove : Succeeds (moveCount doc.approvalCount (doc.hasApprovedReview reviewer) (status == Types.reviewApproved)) ↔
      (status = Types.reviewApproved → doc.hasApprovedReview reviewer = false → doc.approvalCount + 1 < 2 ^ 64) := by
    rw [succeeds_moveCount, and_iff_right fun hwas _ => approvalCount_pos hcount hwas, beq_iff_eq]
    exact ⟨fun h hnow hwas => h hwas hnow, fun h hwas hnow => h hnow hwas⟩
  simp only [submitReview, Types.assertValidReviewStatus, succeeds_bind_unit, succeeds_assert, succeeds_assertCommentHash, ← hmove]
  refine and_congr_right fun _ => and_congr_right fun _ => and_congr_right fun _ => ?_
  unfold hasApprovedReview
  split
  · rename_i existing hlookup
    simp only [hlookup, succeeds_bind_pure]
    rfl
  · rename_i hlookup
    simp only [hlookup, Table.succeeds_add_bind, succeeds_bind_pure, true_and]
    rfl

end Document

/-! ## Pools -/

namespace Pool

/-- What every pool of the package keeps. -/
structure Sound (pool : Pool) : Prop where
  folders : pool.dataroom.FolderTree
  members : pool.dataroom.Bookkept
  decisions : pool.DecisionLedger
  documents : ∀ {docId doc}, pool.documents.lookup docId = some doc →
    (doc.History ∧ 0 < doc.versionCount) ∧ World.WfDocument pool.id docId doc

/-- Each document of the list is in the pool, with an approval. -/
def AllApproved (pool : Pool) (docIds : List ID) : Prop :=
  ∀ docId ∈ docIds, ∃ doc, pool.documents.lookup docId = some doc ∧ doc.HasStoredApproval

theorem allApproved_nil (pool : Pool) : pool.AllApproved [] := by
  intro docId hmem
  cases hmem

variable {config : AdminConfig} {pool : Pool} {ctx : Ctx}

/-- The gate succeeds when all documents it asks for are approved. -/
theorem succeeds_docsGate (hp : pool.Sound) {docIds : List ID} : Succeeds (pool.docsGate docIds) ↔ pool.AllApproved docIds := by
  have happroved : ∀ docId, (∃ doc, pool.documents.lookup docId = some doc ∧ doc.hasAnyApproval = true) ↔
      ∃ doc, pool.documents.lookup docId = some doc ∧ doc.HasStoredApproval := fun docId =>
    exists_congr fun doc => and_congr_right fun hl => Document.hasAnyApproval_iff (hp.documents hl).2
  simp only [Succeeds, docsGate_ok, exists_const, happroved, AllApproved]

/-- The check of a role succeeds for whom the pool's room permits it. -/
theorem succeeds_assertRole {caller : Address} {requiredRole : UInt8} :
    Succeeds (pool.assertRole caller requiredRole) ↔ pool.dataroom.Permits caller requiredRole := DataRoom.succeeds_assertMemberRole

/-- The check for a pause succeeds when there is none. -/
theorem succeeds_assertNotPaused : Succeeds config.assertNotPaused ↔ config.paused = false := succeeds_assert

/-- The two checks that most functions for members and documents start with. -/
theorem succeeds_guarded {β : Type} {requiredRole : UInt8} {body : Exec β} {ready : Prop} (h : Succeeds body ↔ ready) :
    Succeeds (config.assertNotPaused >>= fun _ => pool.dataroom.assertMemberRole ctx.sender requiredRole >>= fun _ => body) ↔
      config.paused = false ∧ pool.dataroom.Permits ctx.sender requiredRole ∧ ready := by
  rw [succeeds_bind_unit, succeeds_bind_unit, succeeds_assertNotPaused, DataRoom.succeeds_assertMemberRole, h]

theorem succeeds_setState {newState : UInt8} :
    Succeeds (pool.setState newState ctx) ↔ newState ≤ 8 ∧ isValidTransition pool.currentState newState = true := by
  simp only [setState, Types.assertValidPoolState, Types.isValidPoolState, succeeds_bind_unit, succeeds_assert, succeeds_pure, and_true,
    decide_eq_true_eq]

/-- The functions that move a pool on ask for the state they start from, and pass their gate. -/
theorem succeeds_progress {fromState toState : UInt8} {gate : Exec Unit} (hto : toState ≤ 8)
    (hmove : isValidTransition fromState toState = true) :
    Succeeds (pool.progress config fromState toState gate ctx) ↔
      config.paused = false ∧ pool.dataroom.Permits ctx.sender Types.roleOwnerUp ∧ pool.currentState = fromState ∧ Succeeds gate := by
  simp only [progress, assertState, succeeds_bind_unit, succeeds_bind_pure, succeeds_assertNotPaused, succeeds_assertRole, succeeds_assert,
    succeeds_setState, hto, true_and]
  refine and_congr_right fun _ => and_congr_right fun _ => and_congr_right fun hfrom => ?_
  rw [hfrom, hmove, and_iff_left rfl]

theorem succeeds_cancelPool :
    Succeeds (pool.cancelPool config ctx) ↔ config.paused = false ∧ pool.dataroom.Permits ctx.sender Types.roleOwnerUp ∧
      (pool.currentState = Types.poolStateDraft ∨ pool.currentState = Types.poolStateDdInProgress) := by
  simp only [cancelPool, assertStateOneOf, succeeds_bind_unit, succeeds_bind_pure, succeeds_assertNotPaused, succeeds_assertRole,
    succeeds_assert, succeeds_setState]
  refine and_congr_right fun _ => and_congr_right fun _ => and_iff_left_of_imp ?_
  rintro (hfrom | hfrom) <;> rw [hfrom] <;> decide

theorem succeeds_newDecision {index : Nat} {decisionType : UInt8} {record : IcRecord} (htype : decisionType ≤ 2) :
    Succeeds (IcDecision.new index decisionType record ctx) ↔
      record.committeeMembers.length = record.votes.length ∧ record.committeeMembers ≠ [] := by
  simp only [IcDecision.new, succeeds_bind_unit, succeeds_assert, succeeds_pure, and_true, htype, true_and]

/-- A decision is attached while the count has room. -/
theorem succeeds_attachIcDecision (hp : pool.Sound) {decision : IcDecision} :
    Succeeds (pool.attachIcDecision decision ctx) ↔ pool.icDecisionCount + 1 < 2 ^ 64 := by
  have hfree : pool.icDecisions.lookup pool.icDecisionCount = none := by
    rw [AList.lookup_eq_none, hp.decisions.numbered.keys]
    omega
  simp only [attachIcDecision, Table.succeeds_add_bind, succeeds_addU64_bind, succeeds_pure, and_true, hfree, true_and]

theorem succeeds_recordIcDecision (hp : pool.Sound) {decisionType toState : UInt8} {record : IcRecord} (htype : decisionType ≤ 2)
    (hto : toState ≤ 8) (hmove : isValidTransition Types.poolStateIcReview toState = true) :
    Succeeds (pool.recordIcDecision config decisionType toState record ctx) ↔
      config.paused = false ∧ pool.dataroom.Permits ctx.sender Types.roleOwnerUp ∧ pool.currentState = Types.poolStateIcReview ∧
        (record.committeeMembers.length = record.votes.length ∧ record.committeeMembers ≠ []) ∧ pool.icDecisionCount + 1 < 2 ^ 64 := by
  simp only [recordIcDecision, assertState, succeeds_bind_unit, succeeds_assertNotPaused, succeeds_assertRole, succeeds_assert]
  refine and_congr_right fun _ => and_congr_right fun _ => and_congr_right fun hfrom => ?_
  rw [succeeds_bind_of, succeeds_newDecision htype]
  intro decision
  -- The state is the one before, so the change of state is legal.
  rw [succeeds_bind, ← @succeeds_attachIcDecision pool ctx hp decision]
  refine exists_congr fun mid => and_iff_left_of_imp fun hmid => ?_
  obtain ⟨-, rfl⟩ := attachIcDecision_ok hmid
  rw [succeeds_bind_pure, succeeds_setState]
  exact ⟨hto, hfrom ▸ hmove⟩

end Pool

/-! ## Calls -/

/-- What the function of a call asks for, besides a caller with the role. -/
def PoolCall.Ready (config : AdminConfig) (ctx : Ctx) (pool : Pool) : PoolCall → Prop
  | .progressToDd => pool.currentState = Types.poolStateDraft
  | .progressToIcReview docIds => pool.currentState = Types.poolStateDdInProgress ∧ pool.AllApproved docIds
  | .recordIcApproval record | .recordIcRejection record | .recordIcRequestChanges record =>
    pool.currentState = Types.poolStateIcReview ∧
      (record.committeeMembers.length = record.votes.length ∧ record.committeeMembers ≠ []) ∧ pool.icDecisionCount + 1 < 2 ^ 64
  | .progressToReadyToIssue docIds => pool.currentState = Types.poolStateApprovedInternal ∧ pool.AllApproved docIds
  | .cancelPool => pool.currentState = Types.poolStateDraft ∨ pool.currentState = Types.poolStateDdInProgress
  | .reopenRejectedPool => pool.currentState = Types.poolStateRejected
  | .addMember addr role _ =>
    Types.isValidRole role = true ∧ pool.dataroom.isActiveMember addr = false ∧
      (addr ∈ pool.dataroom.members ∨ pool.dataroom.memberCount < config.maxMembersPerRoom) ∧ pool.dataroom.memberCount + 1 < 2 ^ 64
  | .removeMember addr => addr ≠ pool.dataroom.owner ∧ pool.dataroom.isActiveMember addr = true
  | .updateMemberRole addr newRole =>
    Types.isValidRole newRole = true ∧ (addr = pool.dataroom.owner → Types.hasRole newRole Types.roleOwner = true) ∧
      pool.dataroom.isActiveMember addr = true
  | .createCustomFolder name parentId _ =>
    name ≠ [] ∧ (∀ p, parentId = some p → p ∈ pool.dataroom.folders) ∧ pool.dataroom.customFolderCount + 1 < 2 ^ 64
  | .storeEncryptedFolderKey folderId addr _ => folderId ∈ pool.dataroom.folders ∧ pool.dataroom.isActiveMember addr = true
  | .createDocument p up =>
    p.folderId ∈ pool.dataroom.folders ∧ p.docType ≤ 9 ∧ up.walrusBlobId ≠ [] ∧ up.contentHash.length = 32
  | .addVersion docId up =>
    up.walrusBlobId ≠ [] ∧ ∃ doc, pool.documents.lookup docId = some doc ∧ doc.versionCount < config.maxDocVersions ∧
      doc.isArchived = false ∧ up.contentHash.length = 32 ∧ doc.versionCount + 1 < 2 ^ 64
  | .submitReview docId status commentHash =>
    ∃ doc, pool.documents.lookup docId = some doc ∧
      (∀ ver, doc.versions.lookup doc.currentVersion = some ver → ctx.sender ≠ ver.uploadedBy) ∧
      doc.isArchived = false ∧ status ≤ Types.reviewNeedsRevision ∧ (∀ h, commentHash = some h → h.length = 32) ∧
      (status = Types.reviewApproved → doc.hasApprovedReview ctx.sender = false → doc.approvalCount + 1 < 2 ^ 64)
  | .markAsRequired docId _ => docId ∈ pool.documents
  | .archiveDocument docId => ∃ doc, pool.documents.lookup docId = some doc ∧ doc.isArchived = false

namespace PoolCall

variable {config : AdminConfig} {freshId : ID} {ctx : Ctx} {pool : Pool}

/-- A call of a caller with the role succeeds exactly when the function is ready for it. -/
theorem succeeds_exec (hp : pool.Sound) (hfresh : pool.documents.lookup freshId = none) (call : PoolCall) :
    Succeeds (call.exec config freshId ctx pool) ↔
      config.paused = false ∧ pool.dataroom.Permits ctx.sender call.requiredRole ∧ call.Ready config ctx pool := by
  cases call with
  | progressToDd =>
    rw [exec, Pool.progressToDd, Pool.succeeds_progress (by decide) (by decide), and_iff_left (succeeds_ok ())]
    rfl
  | progressToIcReview docIds =>
    rw [exec, Pool.progressToIcReview, Pool.succeeds_progress (by decide) (by decide), Pool.succeeds_docsGate hp]
    rfl
  | recordIcApproval record =>
    exact Pool.succeeds_recordIcDecision hp (by decide) (by decide) (by decide)
  | recordIcRejection record =>
    exact Pool.succeeds_recordIcDecision hp (by decide) (by decide) (by decide)
  | recordIcRequestChanges record =>
    exact Pool.succeeds_recordIcDecision hp (by decide) (by decide) (by decide)
  | progressToReadyToIssue docIds =>
    -- A pool in this state has the approval that is asked for.
    have hcached : pool.currentState = Types.poolStateApprovedInternal → pool.hasIcApprovalCached = true := fun hstate =>
      hp.decisions.state.2 (.inl hstate)
    rw [exec, Pool.progressToReadyToIssue, Pool.succeeds_progress (by decide) (by decide), succeeds_bind_unit, succeeds_assert,
      Pool.succeeds_docsGate hp]
    exact and_congr_right fun _ => and_congr_right fun _ => and_congr_right fun hstate => and_iff_right (hcached hstate)
  | cancelPool => exact Pool.succeeds_cancelPool
  | reopenRejectedPool =>
    rw [exec, Pool.reopenRejectedPool, Pool.succeeds_progress (by decide) (by decide), and_iff_left (succeeds_ok ())]
    rfl
  | addMember addr role tags =>
    rw [exec, Pool.addMember]
    refine Pool.succeeds_guarded ?_
    simp only [succeeds_bind_unit, succeeds_assert, succeeds_bind_pure, Ready]
    exact and_congr_right fun hrole => DataRoom.succeeds_addOrReactivate hrole
  | removeMember addr =>
    rw [exec, Pool.removeMember]
    refine Pool.succeeds_guarded ?_
    simp only [succeeds_bind_unit, succeeds_assert, succeeds_bind_pure, DataRoom.succeeds_revokeMember hp.members, Ready]
  | updateMemberRole addr newRole =>
    have howner : Succeeds (Pool.assertOwnerKept pool.dataroom addr newRole) ↔
        (addr = pool.dataroom.owner → Types.hasRole newRole Types.roleOwner = true) := by
      unfold Pool.assertOwnerKept
      split
      · rename_i ho
        rw [succeeds_assert, forall_prop_of_true ho]
      · rename_i ho
        simp [ho]
    rw [exec, Pool.updateMemberRole]
    refine Pool.succeeds_guarded ?_
    simp only [succeeds_bind_unit, succeeds_assert, howner, succeeds_bind_pure, DataRoom.succeeds_updateMemberRole, Ready]
  | createCustomFolder name parentId visibleToRoles =>
    -- The name is checked before the role.
    simp only [exec, Pool.createCustomFolder, succeeds_bind_unit, Pool.succeeds_assertNotPaused, DataRoom.succeeds_assertMemberRole,
      succeeds_assert, succeeds_bind_pure, DataRoom.succeeds_createCustomFolder hp.folders, requiredRole, Ready]
    exact and_congr_right fun _ => and_left_comm
  | storeEncryptedFolderKey folderId addr key =>
    rw [exec, Pool.storeEncryptedFolderKey]
    refine Pool.succeeds_guarded ?_
    simp only [succeeds_bind_unit, succeeds_assert, succeeds_pure, and_true, DataRoom.folderExists, decide_eq_true_eq, Ready]
  | createDocument p up =>
    rw [exec, Pool.createDocument]
    refine Pool.succeeds_guarded ?_
    simp only [Pool.attachDocument, Document.new, Types.assertValidDocType, bind_assoc, pure_bind, succeeds_bind_unit, succeeds_assert,
      Table.succeeds_add_bind, succeeds_pure, and_true, DataRoom.folderExists, Types.isValidDocType, decide_eq_true_eq, hfresh,
      AList.lookup_empty, Ready]
    exact and_congr_right fun _ => and_congr_right fun htype => and_congr_right fun _ => and_iff_left htype
  | addVersion docId up =>
    rw [exec, Pool.addVersion]
    refine Pool.succeeds_guarded ?_
    simp only [Pool.borrowDocument, succeeds_bind_unit, succeeds_assert, Table.succeeds_borrow_bind, succeeds_bind_pure, Ready]
    refine and_congr_right fun _ => exists_congr fun doc => and_congr_right fun hl => and_congr_right fun _ => ?_
    exact Document.succeeds_addVersion (hp.documents hl).1.1
  | submitReview docId status commentHash =>
    rw [exec, Pool.submitReview]
    refine Pool.succeeds_guarded ?_
    simp only [Pool.borrowDocument, Table.succeeds_borrow_bind, Ready]
    refine exists_congr fun doc => and_congr_right fun hl => ?_
    obtain ⟨⟨hhistory, hpos⟩, hwf⟩ := hp.documents hl
    rw [Document.succeeds_notUploader hhistory hpos, succeeds_bind_pure, Document.succeeds_submitReview hwf.count]
  | markAsRequired docId required =>
    rw [exec, Pool.markAsRequired]
    refine Pool.succeeds_guarded ?_
    simp only [Pool.borrowDocument, succeeds_bind_unit, succeeds_assert, Table.succeeds_borrow_bind, succeeds_pure, and_true,
      Pool.hasDocument, decide_eq_true_eq, Ready]
    refine and_iff_left_of_imp fun hmem => ?_
    exact Option.isSome_iff_exists.1 (AList.lookup_isSome.2 hmem)
  | archiveDocument docId =>
    rw [exec, Pool.archiveDocument]
    refine Pool.succeeds_guarded ?_
    simp only [Pool.borrowDocument, succeeds_bind_unit, succeeds_assert, Table.succeeds_borrow_bind, succeeds_pure, and_true,
      Pool.hasDocument, decide_eq_true_eq, Ready]
    refine and_iff_right_of_imp fun h => ?_
    rcases h with ⟨doc, hl, _⟩
    exact AList.lookup_isSome.1 (by rw [hl]; rfl)

end PoolCall

/-! ## The package -/

/-- A document has a version from the start. -/
theorem Document.versionCount_pos {publisher : Ctx} {steps : List Step} {w : World} (hr : World.run publisher steps = .ok w)
    {poolId docId : ID} {pool : Pool} {doc : Document} (hl : w.pools.lookup poolId = some pool)
    (hd : pool.documents.lookup docId = some doc) : 0 < doc.versionCount := by
  refine World.documents_run (P := fun doc => 0 < doc.versionCount) ?_ ?_ hr hl hd
  · intro freshId ctx pool call doc ha _
    cases ha with
    | createDocument h =>
      obtain ⟨_, _, rfl⟩ := Document.new_ok h
      exact Nat.one_pos
  · intro docId ctx pool call doc doc' hpos hch _
    cases hch with
    | addVersion h =>
      obtain ⟨_, _, _, _, rfl, _⟩ := Document.addVersion_ok h
      exact Nat.succ_pos _
    | submitReview h =>
      obtain ⟨_, _, ⟨_, rfl, _⟩, _⟩ := Document.submitReview_ok h
      exact hpos
    | markAsRequired => exact hpos
    | archiveDocument => exact hpos

namespace World

/-- The pool of every run is sound. -/
theorem sound_run {publisher : Ctx} {steps : List Step} {w : World} (hr : run publisher steps = .ok w) {poolId : ID} {pool : Pool}
    (hl : w.pools.lookup poolId = some pool) : pool.Sound where
  folders := folderTree_run hr hl
  members := bookkept_run hr hl
  decisions :=
    pools_run (fun _ _ _ _ _ _ _ => Pool.DecisionLedger.createPool) (fun _ _ _ _ _ _ _ => Pool.DecisionLedger.exec) hr hl
  documents hd := by
    have hw := wf_run hr
    rw [(hw.ids hl).1]
    exact ⟨⟨documents_run (fun _ _ _ _ _ => Document.History.new) (fun _ _ _ _ _ _ => Document.History.changes) hr hl hd,
      Document.versionCount_pos hr hl hd⟩, hw.documents hl hd⟩

/-- What a step asks for. -/
def Enables (w : World) (s : Step) : Prop :=
  match s.call with
  | .admin .pause => w.adminConfig.paused = false
  | .admin .unpause => w.adminConfig.paused = true
  | .admin (.updateConfig maxMembersPerRoom maxDocVersions _ _) => 0 < maxMembersPerRoom ∧ 0 < maxDocVersions
  | .createPool p =>
    w.adminConfig.paused = false ∧ p.orgIdHash.length = 32 ∧ p.borrowerNameHash.length = 32 ∧ p.encryptionScheme ≤ 1
  | .onPool poolId call => ∃ pool, w.pools.lookup poolId = some pool ∧ w.adminConfig.paused = false ∧
      pool.dataroom.Permits (w.ctxOf s).sender call.requiredRole ∧ call.Ready w.adminConfig (w.ctxOf s) pool

/-- A new room has room for its first member and its default folders. -/
theorem succeeds_newDataRoom {id poolId : ID} {owner : Address} {ctx : Ctx} : Succeeds (DataRoom.new id poolId owner ctx) :=
  ⟨_, rfl⟩

/-- A call on a pool. -/
theorem succeeds_onPool {publisher : Ctx} {past : List Step} {w : World} (hr : run publisher past = .ok w) {tx : Option Ctx}
    {poolId : ID} {call : PoolCall} : Succeeds (w.step ⟨tx, .onPool poolId call⟩) ↔ w.Enables ⟨tx, .onPool poolId call⟩ := by
  have hexec : Succeeds (w.step ⟨tx, .onPool poolId call⟩) ↔ Succeeds ((w.openTx tx).exec (.onPool poolId call)) := succeeds_bind_pure
  rw [hexec]
  simp only [exec, Table.succeeds_borrow_bind, succeeds_bind_pure, openTx_adminConfig, openTx_idsCreated, openTx_pools, Enables]
  refine exists_congr fun pool => and_congr_right fun hl => ?_
  have hfresh : pool.documents.lookup w.idsCreated = none := by
    rw [Option.eq_none_iff_forall_not_mem]
    exact fun doc hd => Nat.lt_irrefl _ ((documentsTold_run hr).lt_idsCreated hl hd)
  exact PoolCall.succeeds_exec (sound_run hr hl) hfresh call

/-- When a step succeeds, in any state that the package reaches: for each function, the caller has the role and the function is ready.
There is no other reason to abort. -/
theorem step_succeeds_iff {publisher : Ctx} {past : List Step} {w : World} (hr : run publisher past = .ok w) (s : Step) :
    Succeeds (w.step s) ↔ w.Enables s := by
  obtain ⟨tx, call⟩ := s
  have hexec : Succeeds (w.step ⟨tx, call⟩) ↔ Succeeds ((w.openTx tx).exec call) := succeeds_bind_pure
  rw [hexec]
  cases call with
  | admin call =>
    cases call with
    | pause =>
      simp only [exec, AdminCall.exec, AdminConfig.pause, succeeds_bind_pure, succeeds_assert, openTx_adminConfig, Enables]
    | unpause =>
      simp only [exec, AdminCall.exec, AdminConfig.unpause, succeeds_bind_pure, succeeds_assert, openTx_adminConfig, Enables]
    | updateConfig =>
      simp only [exec, AdminCall.exec, AdminConfig.updateConfig, succeeds_bind_pure, succeeds_bind_unit, succeeds_assert, Enables,
        gt_iff_lt]
  | createPool p =>
    simp only [exec, Pool.createPool, succeeds_bind_pure, succeeds_bind_unit, succeeds_assert, openTx_adminConfig,
      Pool.succeeds_assertNotPaused, Types.assertValidEncryptionScheme, Types.isValidEncryptionScheme, decide_eq_true_eq,
      succeeds_newDataRoom, and_true, Enables]
  | onPool poolId call =>
    rw [← hexec]
    exact succeeds_onPool hr

/-- A review of the uploader's own document, which is refused, and the state it is refused in. -/
theorem step_succeeds_iff_sample :
    ∃ w, run Sample.owner [Sample.createPool, Sample.createDocument] = .ok w ∧
      (Succeeds (w.step (Sample.byOwner (.submitReview 5 Types.reviewApproved none))) ↔
        w.Enables (Sample.byOwner (.submitReview 5 Types.reviewApproved none))) := by
  obtain ⟨w, hr⟩ := exists_ok_of_returns (x := run Sample.owner [Sample.createPool, Sample.createDocument]) rfl
  exact ⟨w, hr, step_succeeds_iff hr _⟩

end World

end BrineVault
