import BrineVault.Contract.Types

/-!
# `events.move`: the events the package emits

One constructor per event struct, with its fields. `emit_*` of the source builds the struct and emits it; here a function that
emits returns the events in the order it emits them. On chain an event has an id: the digest of its transaction and its place
in the transaction.
-/

namespace BrineVault

/-- The event structs of the package. -/
inductive Event where
  | poolCreated (poolId : ID) (name : MoveString) (orgIdHash : List UInt8) (createdBy : Address)
      (encryptionScheme : UInt8) (timestamp : Nat)
  | dataRoomCreated (poolId dataroomId : ID) (owner : Address) (timestamp : Nat)
  | poolStateChanged (poolId : ID) (fromState toState : UInt8) (actor : Address) (timestamp : Nat)
  | poolCancelled (poolId : ID) (actor : Address) (timestamp : Nat)
  | memberAdded (dataroomId : ID) (member : Address) (role : UInt8) (addedBy : Address) (timestamp : Nat)
  | memberRemoved (dataroomId : ID) (member removedBy : Address) (timestamp : Nat)
  | memberRoleUpdated (dataroomId : ID) (member : Address) (oldRole newRole : UInt8) (actor : Address) (timestamp : Nat)
  | documentCreated (poolId docId : ID) (folderId : Nat) (docType : UInt8) (title : MoveString) (version : Nat)
      (blobId : MoveString) (contentHash : List UInt8) (uploader : Address) (timestamp : Nat)
  | documentVersionAdded (poolId docId : ID) (version : Nat) (blobId : MoveString) (contentHash : List UInt8)
      (uploader : Address) (timestamp : Nat)
  | documentReviewed (poolId docId : ID) (reviewer : Address) (status : UInt8) (timestamp : Nat)
  | documentArchived (poolId docId : ID) (actor : Address) (timestamp : Nat)
  | icDecisionCreated (poolId : ID) (decisionIndex : Nat) (decisionType : UInt8) (createdBy : Address) (timestamp : Nat)
  | folderCreated (dataroomId : ID) (folderId : Nat) (name : MoveString) (parentId : Option Nat) (createdBy : Address)
      (timestamp : Nat)
  | folderKeyStored (dataroomId : ID) (folderId : Nat) (member storedBy : Address) (timestamp : Nat)
  | adminPauseToggled (paused : Bool) (actor : Address) (timestamp : Nat)
  | auditEvent (poolId : ID) (actor : Address) (actionType : UInt8) (targetId : Option ID) (timestamp : Nat)
      (metadataHash : Option (List UInt8))
  deriving DecidableEq, Repr

/-- The id of an event on chain. -/
structure EventId where
  txDigest : Nat
  eventSeq : Nat
  deriving DecidableEq, Repr

/-- An event as the chain serves it. -/
structure SuiEvent where
  id : EventId
  event : Event
  deriving DecidableEq, Repr

/-- The events of one transaction, numbered from `seq` on. -/
def numberFrom (digest : Nat) (seq : Nat) : List Event → List SuiEvent
  | [] => []
  | e :: es => ⟨⟨digest, seq⟩, e⟩ :: numberFrom digest (seq + 1) es

/-- Numbering leaves the events. -/
@[simp] theorem map_event_numberFrom (digest seq : Nat) (es : List Event) :
    (numberFrom digest seq es).map (·.event) = es := by
  induction es generalizing seq with
  | nil => rfl
  | cons e es ih => simp [numberFrom, ih]

end BrineVault
