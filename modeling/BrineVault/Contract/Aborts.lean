import BrineVault.Contract.World

/-!
# The checks that are looked at by their codes

Three codes of the package stand for one kind of check each: that the caller has the role, and that the hashes of a pool, and those of a version
or of a review's comment, have 32 bytes. A function aborts with one of them only where that check of its own fails.
-/

namespace BrineVault

open Move

/-- The codes of the three checks. -/
def IsWatched (n : Nat) : Prop := n = Errors.insufficientRole ∨ n = Errors.invalidHashLength ∨ n = Errors.invalidContentHashLen

/-- The codes of the checks of a length. -/
def IsHashCode (n : Nat) : Prop := n = Errors.invalidHashLength ∨ n = Errors.invalidContentHashLen

variable {n : Nat}

/-- The codes of the hashes are watched. -/
theorem IsHashCode.watched (h : IsHashCode n) : IsWatched n := .inr h

/-- None of them is the code of a missing role. -/
theorem IsHashCode.ne_role (h : IsHashCode n) : n ≠ Errors.insufficientRole := by
  obtain rfl | rfl := h <;> decide

/-- A check with another code. -/
theorem IsWatched.avoids {m : Nat} {c : Prop} [Decidable c] (h : IsWatched n)
    (hm : m ∉ [Errors.insufficientRole, Errors.invalidHashLength, Errors.invalidContentHashLen]) : Avoids n (assert c m) := by
  refine avoids_assert fun hmn => absurd ?_ hm
  subst hmn
  simpa [IsWatched] using h

/-- The check that the package runs does not end with a watched code. -/
theorem avoids_assertNotPaused (config : AdminConfig) (h : IsWatched n) : Avoids n config.assertNotPaused := h.avoids (by decide)

/-- The check of the caller, which passes where its own code is looked at. -/
theorem avoids_assertMemberRole {dr : DataRoom} {caller : Address} {role : UInt8} (h : IsWatched n)
    (hrole : n = Errors.insufficientRole → dr.assertMemberRole caller role = .ok ()) : Avoids n (dr.assertMemberRole caller role) := by
  by_cases hn : n = Errors.insufficientRole
  · rw [hrole hn]
    exact avoids_ok ()
  · refine (h.avoids (by decide)).bind fun _ => (Table.avoids_borrow _ _).bind fun m => ?_
    exact (h.avoids (by decide)).bind fun _ => avoids_assert fun hm => absurd hm.symm hn

/-! ## Members and folders -/

namespace DataRoom

variable (dr : DataRoom) (addr : Address) (ctx : Ctx)

/-- The names of the default folders are added to the room one after the other. -/
theorem avoids_createDefaultFolders (creator : Address) (now i : Nat) (names : List MoveString) :
    Avoids n (dr.createDefaultFolders creator now i names) := by
  induction names generalizing dr i with
  | nil => exact avoids_ok dr
  | cons name names ih => exact (Table.avoids_add _ _ _).bind fun folders => ih _ _

/-- Adding a member does not. -/
theorem avoids_addMember (role : UInt8) (addedBy : Address) (tags : List MoveString) (h : IsWatched n) :
    Avoids n (dr.addMember addr role addedBy tags ctx) := by
  refine (h.avoids (by decide)).bind fun _ => (h.avoids (by decide)).bind fun _ => ?_
  exact (Table.avoids_add _ _ _).bind fun _ => (avoids_addU64 _ _).bind fun _ => avoids_ok _

theorem avoids_reactivateMember (role : UInt8) (addedBy : Address) (tags : List MoveString) :
    Avoids n (dr.reactivateMember addr role addedBy tags ctx) :=
  (Table.avoids_borrow _ _).bind fun _ => (avoids_addU64 _ _).bind fun _ => avoids_ok _

theorem avoids_revokeMember (removedBy : Address) (h : IsWatched n) : Avoids n (dr.revokeMember addr removedBy ctx) := by
  refine (h.avoids (by decide)).bind fun _ => (Table.avoids_borrow _ _).bind fun _ => ?_
  exact (h.avoids (by decide)).bind fun _ => (avoids_subU64 _ _).bind fun _ => avoids_ok _

theorem avoids_updateMemberRole (newRole : UInt8) (h : IsWatched n) : Avoids n (dr.updateMemberRole addr newRole ctx) := by
  refine (h.avoids (by decide)).bind fun _ => (Table.avoids_borrow _ _).bind fun _ => ?_
  exact (h.avoids (by decide)).bind fun _ => avoids_ok _

theorem avoids_createCustomFolder (name : MoveString) (parentId : Option Nat) (visibleToRoles : UInt8) (creator : Address)
    (h : IsWatched n) : Avoids n (dr.createCustomFolder name parentId visibleToRoles creator ctx) := by
  have hparent : Avoids n (dr.assertParentExists parentId) := by
    cases parentId with
    | none => exact avoids_ok ()
    | some parentId => exact h.avoids (by decide)
  exact (avoids_addU64 _ _).bind fun _ => hparent.bind fun _ => (Table.avoids_add _ _ _).bind fun _ => avoids_ok _

end DataRoom

/-! ## Documents -/

namespace Document

variable (doc : Document) (ctx : Ctx)

/-- A new document does so only for a hash of another length. -/
theorem avoids_new (id poolId : ID) (folderId : Nat) (docType : UInt8) (title : MoveString) (requiredFlag : Bool)
    (visibleToRoles encryptionScheme : UInt8) (tags : List MoveString) {up : Upload} (h : IsWatched n)
    (hhash : n = Errors.invalidContentHashLen → up.contentHash.length = 32) :
    Avoids n (Document.new id poolId folderId docType title requiredFlag visibleToRoles encryptionScheme tags up ctx) := by
  refine (avoids_assert fun hn => hhash hn.symm).bind fun _ => (h.avoids (by decide)).bind fun _ => ?_
  exact (Table.avoids_add _ _ _).bind fun _ => avoids_ok _

theorem avoids_addVersion {up : Upload} (h : IsWatched n) (hhash : n = Errors.invalidContentHashLen → up.contentHash.length = 32) :
    Avoids n (doc.addVersion up ctx) := by
  refine (h.avoids (by decide)).bind fun _ => (avoids_assert fun hn => hhash hn.symm).bind fun _ => ?_
  exact (avoids_addU64 _ _).bind fun _ => (Table.avoids_add _ _ _).bind fun _ => avoids_ok _

/-- Moving the count of approvals ends with no watched code. -/
theorem avoids_moveCount (count : Nat) (was isNow : Bool) : Avoids n (moveCount count was isNow) := by
  unfold moveCount
  split
  · exact avoids_subU64 _ _
  · split
    · exact avoids_addU64 _ _
    · exact avoids_ok _

/-- A review does so only for the hash of its comment. -/
theorem avoids_submitReview (reviewer : Address) (status : UInt8) {commentHash : Option (List UInt8)} (h : IsWatched n)
    (hhash : n = Errors.invalidContentHashLen → ∀ hash, commentHash = some hash → hash.length = 32) :
    Avoids n (doc.submitReview reviewer status commentHash ctx) := by
  have hcomment : Avoids n (assertCommentHash commentHash) := by
    cases commentHash with
    | none => exact avoids_ok ()
    | some hash => exact avoids_assert fun hn => hhash hn.symm hash rfl
  refine (h.avoids (by decide)).bind fun _ => (h.avoids (by decide)).bind fun _ => hcomment.bind fun _ => ?_
  split
  · exact (avoids_moveCount _ _ _).bind fun _ => avoids_ok _
  · exact (Table.avoids_add _ _ _).bind fun _ => (avoids_moveCount _ _ _).bind fun _ => avoids_ok _

end Document

/-! ## Pools -/

namespace Pool

variable (pool : Pool) (ctx : Ctx)

/-- A new pool ends with no code of a hash when its own two are of the right length. -/
theorem avoids_createPool (config : AdminConfig) (id dataroomId : ID) {p : Params} (h : IsHashCode n) (horg : p.orgIdHash.length = 32)
    (hborrower : p.borrowerNameHash.length = 32) : Avoids n (createPool config id dataroomId p ctx) := by
  refine (avoids_assertNotPaused config h.watched).bind fun _ => ?_
  refine (avoids_assert fun _ => horg).bind fun _ => (avoids_assert fun _ => hborrower).bind fun _ => ?_
  refine (h.watched.avoids (by decide)).bind fun _ => ?_
  have hroom : Avoids n (DataRoom.new dataroomId id ctx.sender ctx) :=
    (Table.avoids_add _ _ _).bind fun members => (DataRoom.avoids_createDefaultFolders _ _ _ _ _).bind fun dr => avoids_ok _
  exact hroom.bind fun _ => avoids_ok _

/-- A change of state ends with no watched code. -/
theorem avoids_setState (newState : UInt8) (h : IsWatched n) : Avoids n (pool.setState newState ctx) :=
  (h.avoids (by decide)).bind fun _ => (h.avoids (by decide)).bind fun _ => avoids_ok _

/-- The loop over the list of the caller. -/
theorem avoids_allDocsHaveApproval (docIds : List ID) (h : IsWatched n) : Avoids n (pool.allDocsHaveApproval docIds) := by
  induction docIds with
  | nil => exact avoids_ok true
  | cons docId docIds ih =>
    refine (h.avoids (by decide)).bind fun _ => (Table.avoids_borrow _ _).bind fun doc => ?_
    split
    · exact avoids_ok false
    · exact ih

theorem avoids_docsGate (docIds : List ID) (h : IsWatched n) : Avoids n (pool.docsGate docIds) :=
  (pool.avoids_allDocsHaveApproval docIds h).bind fun _ => h.avoids (by decide)

theorem avoids_newDecision (index : Nat) (decisionType : UInt8) (record : IcRecord) (h : IsWatched n) :
    Avoids n (IcDecision.new index decisionType record ctx) :=
  (h.avoids (by decide)).bind fun _ => (h.avoids (by decide)).bind fun _ => (h.avoids (by decide)).bind fun _ => avoids_ok _

/-- Adding a member or taking one back does not end with a watched code. -/
theorem avoids_addOrReactivate (config : AdminConfig) (dr : DataRoom) (addr : Address) (role : UInt8) (tags : List MoveString)
    (h : IsWatched n) : Avoids n (addOrReactivate config dr addr role tags ctx) := by
  unfold addOrReactivate
  split
  · exact (h.avoids (by decide)).bind fun _ => dr.avoids_reactivateMember addr ctx role ctx.sender tags
  · exact (h.avoids (by decide)).bind fun _ => dr.avoids_addMember addr ctx role ctx.sender tags h

/-- Nor does the check that the owner keeps the role. -/
theorem avoids_assertOwnerKept (dr : DataRoom) (addr : Address) (newRole : UInt8) (h : IsWatched n) :
    Avoids n (assertOwnerKept dr addr newRole) := by
  unfold assertOwnerKept
  split
  · exact h.avoids (by decide)
  · exact avoids_ok ()

/-! ### The public functions -/

variable {pool ctx} {config : AdminConfig} (h : IsWatched n)

include h

/-- What every function on a pool begins with. -/
theorem avoids_guarded {α : Type} {role : UInt8} {rest : Exec α}
    (hrole : n = Errors.insufficientRole → pool.assertRole ctx.sender role = .ok ()) (hrest : Avoids n rest) :
    Avoids n (config.assertNotPaused >>= fun _ => pool.dataroom.assertMemberRole ctx.sender role >>= fun _ => rest) :=
  (avoids_assertNotPaused config h).bind fun _ => (avoids_assertMemberRole h hrole).bind fun _ => hrest

/-- A step of the lifecycle ends with a watched code only when its gate does, or the role is missing. -/
theorem avoids_progress {fromState toState : UInt8} {gate : Exec Unit} (hgate : Avoids n gate)
    (hrole : n = Errors.insufficientRole → pool.assertRole ctx.sender Types.roleOwnerUp = .ok ()) :
    Avoids n (pool.progress config fromState toState gate ctx) := by
  refine avoids_guarded h hrole ?_
  exact (h.avoids (by decide)).bind fun _ => hgate.bind fun _ => (pool.avoids_setState ctx toState h).bind fun _ => avoids_ok _

/-- Cancelling does so only when the role is missing. -/
theorem avoids_cancelPool (hrole : n = Errors.insufficientRole → pool.assertRole ctx.sender Types.roleOwnerUp = .ok ()) :
    Avoids n (pool.cancelPool config ctx) := by
  refine avoids_guarded h hrole ?_
  exact (h.avoids (by decide)).bind fun _ => (pool.avoids_setState ctx _ h).bind fun _ => avoids_ok _

theorem avoids_recordIcDecision {decisionType toState : UInt8} {record : IcRecord}
    (hrole : n = Errors.insufficientRole → pool.assertRole ctx.sender Types.roleOwnerUp = .ok ()) :
    Avoids n (pool.recordIcDecision config decisionType toState record ctx) := by
  refine avoids_guarded h hrole ?_
  refine (h.avoids (by decide)).bind fun _ => (avoids_newDecision ctx _ decisionType record h).bind fun decision => ?_
  have hattach : Avoids n (pool.attachIcDecision decision ctx) :=
    (Table.avoids_add _ _ _).bind fun _ => (avoids_addU64 _ _).bind fun _ => avoids_ok _
  exact hattach.bind fun pool => (pool.avoids_setState ctx toState h).bind fun _ => avoids_ok _

theorem avoids_addMember (addr : Address) (role : UInt8) (tags : List MoveString)
    (hrole : n = Errors.insufficientRole → pool.assertRole ctx.sender Types.roleOwnerUp = .ok ()) :
    Avoids n (pool.addMember config addr role tags ctx) := by
  refine avoids_guarded h hrole ?_
  exact (h.avoids (by decide)).bind fun _ => (avoids_addOrReactivate ctx config _ addr role tags h).bind fun _ => avoids_ok _

theorem avoids_removeMember (addr : Address)
    (hrole : n = Errors.insufficientRole → pool.assertRole ctx.sender Types.roleOwnerUp = .ok ()) :
    Avoids n (pool.removeMember config addr ctx) := by
  refine avoids_guarded h hrole ?_
  exact (h.avoids (by decide)).bind fun _ => (pool.dataroom.avoids_revokeMember addr ctx ctx.sender h).bind fun _ => avoids_ok _

theorem avoids_updateMemberRole (addr : Address) (newRole : UInt8)
    (hrole : n = Errors.insufficientRole → pool.assertRole ctx.sender Types.roleOwnerUp = .ok ()) :
    Avoids n (pool.updateMemberRole config addr newRole ctx) := by
  refine avoids_guarded h hrole ?_
  refine (h.avoids (by decide)).bind fun _ => (avoids_assertOwnerKept _ addr newRole h).bind fun _ => ?_
  exact (pool.dataroom.avoids_updateMemberRole addr ctx newRole h).bind fun _ => avoids_ok _

theorem avoids_createCustomFolder (name : MoveString) (parentId : Option Nat) (visibleToRoles : UInt8)
    (hrole : n = Errors.insufficientRole → pool.assertRole ctx.sender Types.roleEditorUp = .ok ()) :
    Avoids n (pool.createCustomFolder config name parentId visibleToRoles ctx) := by
  refine (avoids_assertNotPaused config h).bind fun _ => (h.avoids (by decide)).bind fun _ => ?_
  refine (avoids_assertMemberRole h hrole).bind fun _ => ?_
  exact (pool.dataroom.avoids_createCustomFolder ctx name parentId visibleToRoles ctx.sender h).bind fun _ => avoids_ok _

theorem avoids_storeEncryptedFolderKey (folderId : Nat) (addr : Address) (key : List UInt8)
    (hrole : n = Errors.insufficientRole → pool.assertRole ctx.sender Types.roleOwnerUp = .ok ()) :
    Avoids n (pool.storeEncryptedFolderKey config folderId addr key ctx) := by
  refine avoids_guarded h hrole ?_
  exact (h.avoids (by decide)).bind fun _ => (h.avoids (by decide)).bind fun _ => avoids_ok _

/-- A new document does so only when the role is missing, or for its hash. -/
theorem avoids_createDocument (docId : ID) (p : DocParams) {up : Document.Upload}
    (hrole : n = Errors.insufficientRole → pool.assertRole ctx.sender Types.roleEditorUp = .ok ())
    (hhash : n = Errors.invalidContentHashLen → up.contentHash.length = 32) : Avoids n (pool.createDocument config docId p up ctx) := by
  refine avoids_guarded h hrole ?_
  refine (h.avoids (by decide)).bind fun _ => (h.avoids (by decide)).bind fun _ => (h.avoids (by decide)).bind fun _ => ?_
  refine (Document.avoids_new ctx _ _ _ _ _ _ _ _ _ h hhash).bind fun doc => ?_
  have hattach : Avoids n (pool.attachDocument docId doc) := (Table.avoids_add _ _ _).bind fun _ => avoids_ok _
  exact hattach.bind fun _ => avoids_ok _

theorem avoids_addVersion (docId : ID) {up : Document.Upload}
    (hrole : n = Errors.insufficientRole → pool.assertRole ctx.sender Types.roleEditorUp = .ok ())
    (hhash : n = Errors.invalidContentHashLen → up.contentHash.length = 32) : Avoids n (pool.addVersion config docId up ctx) := by
  refine avoids_guarded h hrole ?_
  refine (h.avoids (by decide)).bind fun _ => (Table.avoids_borrow _ _).bind fun doc => (h.avoids (by decide)).bind fun _ => ?_
  exact (doc.avoids_addVersion ctx h hhash).bind fun _ => avoids_ok _

/-- A review does so only when the role is missing, or for the hash of its comment. -/
theorem avoids_submitReview (docId : ID) (status : UInt8) {commentHash : Option (List UInt8)}
    (hrole : n = Errors.insufficientRole → pool.assertRole ctx.sender Types.roleReviewerUp = .ok ())
    (hhash : n = Errors.invalidContentHashLen → ∀ hash, commentHash = some hash → hash.length = 32) :
    Avoids n (pool.submitReview config docId status commentHash ctx) := by
  refine avoids_guarded h hrole ?_
  refine (Table.avoids_borrow _ _).bind fun doc => ?_
  have huploader : Avoids n doc.currentVersionUploader := (Table.avoids_borrow _ _).bind fun _ => avoids_ok _
  refine huploader.bind fun uploader => (h.avoids (by decide)).bind fun _ => ?_
  exact (doc.avoids_submitReview ctx ctx.sender status h hhash).bind fun _ => avoids_ok _

/-- Marking a document does so only when the role is missing. -/
theorem avoids_markAsRequired (docId : ID) (required : Bool)
    (hrole : n = Errors.insufficientRole → pool.assertRole ctx.sender Types.roleOwnerUp = .ok ()) :
    Avoids n (pool.markAsRequired config docId required ctx) := by
  refine avoids_guarded h hrole ?_
  exact (h.avoids (by decide)).bind fun _ => (Table.avoids_borrow _ _).bind fun _ => avoids_ok _

theorem avoids_archiveDocument (docId : ID)
    (hrole : n = Errors.insufficientRole → pool.assertRole ctx.sender Types.roleOwnerUp = .ok ()) :
    Avoids n (pool.archiveDocument config docId ctx) := by
  refine avoids_guarded h hrole ?_
  exact (h.avoids (by decide)).bind fun _ => (Table.avoids_borrow _ _).bind fun _ => (h.avoids (by decide)).bind fun _ => avoids_ok _

end Pool

namespace World

/-- In the world as for the pool. -/
theorem avoids_createPool (w : World) {p : Pool.Params} (h : IsHashCode n) (horg : p.orgIdHash.length = 32)
    (hborrower : p.borrowerNameHash.length = 32) : Avoids n (w.exec (.createPool p)) :=
  (Pool.avoids_createPool _ _ _ _ h horg hborrower).bind fun _ => avoids_ok _

/-- A call on a pool avoids in the world what it avoids on every pool. -/
theorem avoids_onPool (w : World) (poolId : ID) {call : PoolCall} (h : ∀ config id ctx pool, Avoids n (call.exec config id ctx pool)) :
    Avoids n (w.exec (.onPool poolId call)) :=
  (Table.avoids_borrow _ _).bind fun pool => (h _ _ _ pool).bind fun _ => avoids_ok _

end World

end BrineVault
