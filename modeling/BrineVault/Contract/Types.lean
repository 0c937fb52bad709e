import BrineVault.Lib.Move

/-!
# `types.move`, `errors.move`: constants, validators and abort codes

`u8` values are `UInt8`; `u64` values are natural numbers, with the arithmetic of `Move.addU64` and `Move.subU64`. Object ids are
numbered in the order `object::new` creates them, so that a new object has a new id. A Move `String` is its UTF-8 bytes.
-/

namespace BrineVault

open Move

abbrev Address := Nat
abbrev ID := Nat
abbrev MoveString := List UInt8

/-- What a public function reads of its transaction and of the clock: `ctx.sender()` and `clock.timestamp_ms()`. -/
structure Ctx where
  sender : Address
  now : Nat
  deriving DecidableEq, Repr

namespace Types

/-! ## Roles -/

def roleViewer : UInt8 := 1
def roleReviewer : UInt8 := 2
def roleEditor : UInt8 := 4
def roleOwner : UInt8 := 8
def roleAuditor : UInt8 := 16
def roleOrgAdmin : UInt8 := 32
/-- REVIEWER, OWNER or ORG_ADMIN. -/
def roleReviewerUp : UInt8 := 42
/-- EDITOR or OWNER. -/
def roleEditorUp : UInt8 := 12
/-- OWNER or ORG_ADMIN. -/
def roleOwnerUp : UInt8 := 40
def roleAll : UInt8 := 63

/-! ## Pool states -/

def poolStateDraft : UInt8 := 0
def poolStateDdInProgress : UInt8 := 1
def poolStateIcReview : UInt8 := 2
def poolStateApprovedInternal : UInt8 := 3
def poolStateReadyToIssue : UInt8 := 4
def poolStateRejected : UInt8 := 5
def poolStateCancelled : UInt8 := 6
def poolStateIssued : UInt8 := 7
def poolStateClosed : UInt8 := 8

/-! ## Reviews, decisions, audit actions -/

def reviewPending : UInt8 := 0
def reviewApproved : UInt8 := 1
def reviewNeedsRevision : UInt8 := 2

def icApprove : UInt8 := 0
def icReject : UInt8 := 1
def icRequestChanges : UInt8 := 2

def actionPoolCreated : UInt8 := 0
def actionStateChanged : UInt8 := 1
def actionMemberAdded : UInt8 := 2
def actionMemberRemoved : UInt8 := 3
def actionMemberRoleUpdated : UInt8 := 4
def actionDocCreated : UInt8 := 5
def actionDocVersionAdded : UInt8 := 6
def actionDocReviewed : UInt8 := 7
def actionDocArchived : UInt8 := 8
def actionIcDecision : UInt8 := 9
def actionFolderCreated : UInt8 := 10
def actionPoolCancelled : UInt8 := 11

/-! ## Validators -/

/-- A member has a required role when the two bitmasks meet. -/
def hasRole (role required : UInt8) : Bool := decide (role &&& required > 0)

def isValidPoolState (state : UInt8) : Bool := decide (state ≤ 8)
def isValidEncryptionScheme (scheme : UInt8) : Bool := decide (scheme ≤ 1)
def isValidDocType (docType : UInt8) : Bool := decide (docType ≤ 9)
def isValidRole (role : UInt8) : Bool := decide (role > 0) && decide (role ≤ roleAll)

/-- A role meets a mask of two parts when it meets one of the parts. -/
theorem hasRole_or (role a b : UInt8) :
    hasRole role (a ||| b) = (hasRole role a || hasRole role b) := by
  have hsplit : role &&& (a ||| b) = (role &&& a) ||| (role &&& b) := by
    rw [← UInt8.toBitVec_inj]
    exact BitVec.and_or_distrib_left
  simp only [hasRole, hsplit, gt_iff_lt, UInt8.pos_iff_ne_zero]
  by_cases ha : role &&& a = 0 <;> by_cases hb : role &&& b = 0 <;> simp [ha, hb]

/-- A role is a mask of the six roles, and not empty. -/
theorem isValidRole_iff {role : UInt8} : isValidRole role = true ↔ 0 < role ∧ role ≤ 63 := by
  rw [isValidRole, Bool.and_eq_true, decide_eq_true_eq, decide_eq_true_eq]
  rfl

def assertValidEncryptionScheme (scheme : UInt8) : Exec Unit := assert (isValidEncryptionScheme scheme) 600
def assertValidPoolState (state : UInt8) : Exec Unit := assert (isValidPoolState state) 100
def assertValidDocType (docType : UInt8) : Exec Unit := assert (isValidDocType docType) 303
def assertValidReviewStatus (status : UInt8) : Exec Unit := assert (status ≤ reviewNeedsRevision) 601

end Types

namespace Errors

def notMember : Nat := 2
def insufficientRole : Nat := 3

def invalidStateTransition : Nat := 100
def poolPaused : Nat := 101

def memberAlreadyExists : Nat := 200
def cannotRemoveOwner : Nat := 202
def maxMembersReached : Nat := 203

def documentNotFound : Nat := 300
def maxVersionsReached : Nat := 301
def documentArchived : Nat := 302
def invalidDocType : Nat := 303
def emptyBlobId : Nat := 304
def invalidContentHashLen : Nat := 306

def folderNotFound : Nat := 400

def alreadyPaused : Nat := 500
def notPaused : Nat := 501
def invalidConfig : Nat := 502

def invalidRole : Nat := 601
def emptyName : Nat := 602
def invalidHashLength : Nat := 603
def emptyCommittee : Nat := 604

def requiredDocsNotReviewed : Nat := 700
def noIcApproval : Nat := 800
def selfReview : Nat := 801
def cannotDemoteOwner : Nat := 802

end Errors

end BrineVault
