import BrineVault.Api.SuiTx
import BrineVault.Lib.Steps

/-!
# `pools/new/page.tsx`: the form that creates a pool

A form of five steps, with the reducer and the handlers of the page and those of its steps. An event is something that the user does where the page
shows it and it is not disabled, or the end of the mutation of `useCreatePool`. The page is rendered between two events. `toNumber` is
`Number(s)`, and `toTime` is `new Date(s)` in milliseconds, with `none` for an invalid date.
-/

namespace BrineVault

open Js Move

/-! ## The state -/

inductive RequirementLevel where
  | required
  | recommended
  | optional
  deriving DecidableEq, Repr

structure ChecklistItemData where
  id : Nat
  folderId : Nat
  label : Text
  description : Text
  requirementLevel : RequirementLevel
  expectedDocType : Nat
  sortOrder : Nat
  deriving DecidableEq, Repr

structure MemberInviteData where
  id : Nat
  address : Text
  role : Nat
  deriving DecidableEq, Repr

structure PoolFormState where
  name : Text
  borrowerEntity : Text
  targetNotional : Text
  currency : Text
  maturityDate : Text
  encryptionScheme : Fin 2
  sealBetaAcknowledged : Bool
  checklistItems : List ChecklistItemData
  members : List MemberInviteData
  currentStep : Nat
  errors : List (String × String)
  isSubmitting : Bool
  returnToReview : Bool
  deriving DecidableEq, Repr

/-- A field that a step shows, with what the user enters. -/
inductive FormField where
  | name (value : Text)
  | borrowerEntity (value : Text)
  | targetNotional (value : Text)
  | currency (value : Text)
  | maturityDate (value : Text)
  | encryptionScheme (value : Fin 2)
  | sealBetaAcknowledged (value : Bool)
  deriving DecidableEq, Repr

inductive FormAction where
  | setField (field : FormField)
  | setStep (step : Nat)
  | setErrors (errors : List (String × String))
  | setChecklist (items : List ChecklistItemData)
  | setMembers (members : List MemberInviteData)
  | setSubmitting (value : Bool)
  | editFromReview (step : Nat)
  | returnToReview
  deriving DecidableEq, Repr

namespace PoolFormState

def setField (state : PoolFormState) : FormField → PoolFormState
  | .name value => { state with name := value, errors := [] }
  | .borrowerEntity value => { state with borrowerEntity := value, errors := [] }
  | .targetNotional value => { state with targetNotional := value, errors := [] }
  | .currency value => { state with currency := value, errors := [] }
  | .maturityDate value => { state with maturityDate := value, errors := [] }
  | .encryptionScheme value => { state with encryptionScheme := value, errors := [] }
  | .sealBetaAcknowledged value => { state with sealBetaAcknowledged := value, errors := [] }

def formReducer (state : PoolFormState) : FormAction → PoolFormState
  | .setField field => state.setField field
  | .setStep step => { state with currentStep := step, errors := [], returnToReview := false }
  | .setErrors errors => { state with errors }
  | .setChecklist items => { state with checklistItems := items }
  | .setMembers members => { state with members }
  | .setSubmitting value => { state with isSubmitting := value }
  | .editFromReview step => { state with currentStep := step, returnToReview := true }
  | .returnToReview => { state with currentStep := 4, returnToReview := false }

end PoolFormState

/-! ## The steps -/

/-- `s.trim()`. -/
def trim (s : Text) : Text := ((s.dropWhile fun u => blanks.contains u).reverse.dropWhile fun u => blanks.contains u).reverse

def text (s : String) : Text := s.toList.map Hex.unit

/-- Without the ids and the places, which `buildDefaultItems` adds. -/
def defaultDdChecklistItems : List (Nat × Text × Text × RequirementLevel × Nat) :=
  [(0, text "Credit Agreement", text "Executed credit agreement or term sheet", .required, 1),
   (0, text "Security Agreement", text "Security and collateral pledge agreements", .required, 1),
   (1, text "Audited Financial Statements", text "Last 3 years audited financial statements", .required, 0),
   (1, text "Interim Financials", text "Most recent interim / management accounts", .recommended, 0),
   (2, text "Collateral Valuation", text "Independent collateral valuation report", .required, 4),
   (2, text "Insurance Certificate", text "Insurance coverage for pledged assets", .recommended, 5),
   (3, text "KYC / AML Package", text "KYC, AML, and sanctions screening documentation", .required, 2),
   (3, text "Corporate Documents", text "Articles of incorporation, board resolutions, signatories", .required, 6),
   (4, text "IC Memo", text "Investment Committee memorandum", .required, 8)]

/-- `crypto.randomUUID()` does not give an id twice; the ids that it gives to the items are their places. -/
def buildDefaultItems : List ChecklistItemData :=
  defaultDdChecklistItems.mapIdx fun idx item =>
    { id := idx, folderId := item.1, label := item.2.1, description := item.2.2.1, requirementLevel := item.2.2.2.1,
      expectedDocType := item.2.2.2.2, sortOrder := idx }

/-- `REQUIREMENT_CYCLE`. -/
def RequirementLevel.next : RequirementLevel → RequirementLevel
  | .required => .recommended
  | .recommended => .optional
  | .optional => .required

/-- `arrayMove`: an item is taken out and put in at another place. -/
def arrayMove (items : List ChecklistItemData) (oldIndex newIndex : Nat) : List ChecklistItemData :=
  match items[oldIndex]? with
  | some item => (items.eraseIdx oldIndex).insertIdx newIndex item
  | none => items

namespace StepChecklist

variable (items : List ChecklistItemData)

def indexOf (id : Nat) : Nat := items.findIdx fun i => i.id = id

def handleDragEnd (active overId : Nat) : List ChecklistItemData :=
  if active = overId then items
  else (arrayMove items (indexOf items active) (indexOf items overId)).mapIdx fun idx item => { item with sortOrder := idx }

def toggleRequirement (id : Nat) : List ChecklistItemData :=
  items.map fun item => if item.id ≠ id then item else { item with requirementLevel := item.requirementLevel.next }

/-- At least one item stays. -/
def removeItem (id : Nat) : List ChecklistItemData := if items.length ≤ 1 then items else items.filter fun i => i.id ≠ id

/-- `fresh` is the id that the new item gets. -/
def addCustomItem (newItemLabel : Text) (fresh : Nat) : List ChecklistItemData :=
  if trim newItemLabel = [] then items
  else items ++ [{ id := fresh, folderId := 5, label := trim newItemLabel, description := [], requirementLevel := .optional,
                   expectedDocType := 9, sortOrder := items.length }]

end StepChecklist

namespace StepMembers

variable (members : List MemberInviteData)

def updateAddress (id : Nat) (value : Text) : List MemberInviteData :=
  members.map fun m => if m.id = id then { m with address := value } else m

def updateRole (id : Nat) (value : Nat) : List MemberInviteData :=
  members.map fun m => if m.id = id then { m with role := value } else m

def removeMember (id : Nat) : List MemberInviteData := members.filter fun m => m.id ≠ id

/-- A new member is a viewer without an address. -/
def addMember (fresh : Nat) : List MemberInviteData := members ++ [{ id := fresh, address := [], role := 1 }]

end StepMembers

/-! ## The checks -/

/-- `x <= 0`, which is false of `NaN`. -/
def isAtMostZero (x : Number) : Bool := x ≠ .nan && !Number.lt 0 x

section Checks

variable (toNumber : Text → Number) (toTime : Text → Option Int)

namespace PoolFormState

variable (state : PoolFormState)

/-- The message for the length takes the place of the one for a name that is blank. -/
def nameError : Option String :=
  if 256 < state.name.length then some "Pool name must be 256 characters or less"
  else if trim state.name = [] then some "Pool name is required"
  else none

def borrowerError : Option String := if trim state.borrowerEntity = [] then some "Borrower entity is required" else none

def notionalError : Option String :=
  if state.targetNotional = [] ∨ isAtMostZero (toNumber state.targetNotional) = true then some "Target notional must be greater than 0" else none

/-- An invalid date is not at most the present. -/
def maturityError (now : Int) : Option String :=
  if state.maturityDate = [] then some "Maturity date is required"
  else if (toTime state.maturityDate).any fun ms => ms ≤ now then some "Maturity date must be in the future"
  else none

def validateStep1 (now : Int) : List (String × String) :=
  [("name", state.nameError), ("borrowerEntity", state.borrowerError), ("targetNotional", state.notionalError toNumber),
   ("maturityDate", state.maturityError toTime now)].filterMap fun e => e.2.map fun message => (e.1, message)

def validateStep2 : List (String × String) :=
  if state.encryptionScheme = 1 ∧ state.sealBetaAcknowledged = false then
    [("sealBetaAcknowledged", "Please acknowledge the Beta disclaimer")]
  else []

/-! ## The handlers of the page -/

/-- What `handleNext` dispatches after its checks. -/
def goOn : PoolFormState :=
  if state.returnToReview then state.formReducer .returnToReview else state.formReducer (.setStep (state.currentStep + 1))

def handleNext (now : Int) : PoolFormState :=
  if state.currentStep = 0 ∧ state.validateStep1 toNumber toTime now ≠ [] then
    state.formReducer (.setErrors (state.validateStep1 toNumber toTime now))
  else if state.currentStep = 1 ∧ state.validateStep2 ≠ [] then state.formReducer (.setErrors state.validateStep2)
  else state.goOn

/-- The button is disabled at the first step. -/
def handleBack : PoolFormState :=
  if state.returnToReview then state.formReducer .returnToReview else state.formReducer (.setStep (state.currentStep - 1))

end PoolFormState

/-! ## The page -/

/-- What `handleSubmit` hands to the mutation. -/
structure CreatePoolInput where
  name : Text
  borrowerEntity : Text
  targetNotional : Text
  currency : Text
  maturityDate : Text
  encryptionScheme : Fin 2
  tags : List Text
  members : List MemberInviteData
  deriving DecidableEq, Repr

def PoolFormState.input (state : PoolFormState) : CreatePoolInput :=
  { name := state.name, borrowerEntity := state.borrowerEntity, targetNotional := state.targetNotional, currency := state.currency,
    maturityDate := state.maturityDate, encryptionScheme := state.encryptionScheme, tags := [],
    members := state.members.filter fun m => m.address ≠ [] }

/-- The page with its mutation: what is pending, what was handed to it so far, and the ids given. -/
structure PoolWizard where
  form : PoolFormState
  pending : Option CreatePoolInput
  submitted : List CreatePoolInput
  idsGiven : Nat
  deriving DecidableEq, Repr

/-- An event of the page. The two that go on carry the time, in milliseconds. -/
inductive PageEvent where
  | change (field : FormField)
  | drag (active overId : Nat)
  | toggleRequirement (id : Nat)
  | removeItem (id : Nat)
  | addCustomItem (newItemLabel : Text)
  | updateAddress (id : Nat) (value : Text)
  | updateRole (id : Nat) (value : Nat)
  | removeMember (id : Nat)
  | addMember
  | skip (now : Int)
  | next (now : Int)
  | back
  | edit (step : Nat)
  | submit
  | resolved
  | rejected
  deriving DecidableEq, Repr

namespace PoolWizard

def start : PoolWizard where
  form :=
    { name := [], borrowerEntity := [], targetNotional := [], currency := text "USD", maturityDate := [], encryptionScheme := 0,
      sealBetaAcknowledged := false, checklistItems := buildDefaultItems, members := [], currentStep := 0, errors := [],
      isSubmitting := false, returnToReview := false }
  pending := none
  submitted := []
  idsGiven := buildDefaultItems.length

/-- The step that shows a field. The acknowledgement is shown for Seal only. -/
def shows (state : PoolFormState) : FormField → Bool
  | .sealBetaAcknowledged _ => state.currentStep = 1 && state.encryptionScheme = 1
  | .encryptionScheme _ => state.currentStep = 1
  | _ => state.currentStep = 0

/-- Whether the page has what the event is done with, and has it enabled; a mutation ends where one is pending. -/
def enabled (w : PoolWizard) : PageEvent → Bool
  | .change field => shows w.form field
  | .drag active overId =>
    w.form.currentStep = 2 && (w.form.checklistItems.any fun i => i.id = active) && w.form.checklistItems.any fun i => i.id = overId
  | .toggleRequirement id | .removeItem id => w.form.currentStep = 2 && w.form.checklistItems.any fun i => i.id = id
  | .addCustomItem _ => w.form.currentStep = 2
  | .updateAddress id _ | .updateRole id _ | .removeMember id => w.form.currentStep = 3 && w.form.members.any fun m => m.id = id
  | .addMember | .skip _ => w.form.currentStep = 3
  | .next _ => w.form.currentStep < 4
  | .back => w.form.currentStep ≠ 0 && !w.form.isSubmitting
  | .edit step => w.form.currentStep = 4 && step < 4
  | .submit => w.form.currentStep = 4 && !(w.form.isSubmitting || w.pending.isSome)
  | .resolved | .rejected => w.pending.isSome

/-- What the page does at an event. Where the mutation resolves, `isSubmitting` stays. -/
def handle (w : PoolWizard) : PageEvent → PoolWizard
  | .change field => { w with form := w.form.formReducer (.setField field) }
  | .drag active overId =>
    { w with form := w.form.formReducer (.setChecklist (StepChecklist.handleDragEnd w.form.checklistItems active overId)) }
  | .toggleRequirement id =>
    { w with form := w.form.formReducer (.setChecklist (StepChecklist.toggleRequirement w.form.checklistItems id)) }
  | .removeItem id => { w with form := w.form.formReducer (.setChecklist (StepChecklist.removeItem w.form.checklistItems id)) }
  | .addCustomItem label =>
    { w with
      form := w.form.formReducer (.setChecklist (StepChecklist.addCustomItem w.form.checklistItems label w.idsGiven))
      idsGiven := w.idsGiven + 1 }
  | .updateAddress id value => { w with form := w.form.formReducer (.setMembers (StepMembers.updateAddress w.form.members id value)) }
  | .updateRole id value => { w with form := w.form.formReducer (.setMembers (StepMembers.updateRole w.form.members id value)) }
  | .removeMember id => { w with form := w.form.formReducer (.setMembers (StepMembers.removeMember w.form.members id)) }
  | .addMember =>
    { w with form := w.form.formReducer (.setMembers (StepMembers.addMember w.form.members w.idsGiven)), idsGiven := w.idsGiven + 1 }
  | .skip now | .next now => { w with form := w.form.handleNext toNumber toTime now }
  | .back => { w with form := w.form.handleBack }
  | .edit step => { w with form := w.form.formReducer (.editFromReview step) }
  | .submit =>
    { w with
      form := w.form.formReducer (.setSubmitting true)
      pending := some w.form.input
      submitted := w.submitted ++ [w.form.input] }
  | .resolved => { w with pending := none }
  | .rejected => { w with form := w.form.formReducer (.setSubmitting false), pending := none }

/-- An event that the page does not offer does not happen. -/
def step (w : PoolWizard) (e : PageEvent) : Except Unit PoolWizard :=
  if w.enabled e then .ok (w.handle toNumber toTime e) else .error ()

/-- A run of the page, from when it is opened. -/
def run (es : List PageEvent) : Except Unit PoolWizard := Steps.run (step toNumber toTime) start es

end PoolWizard

end Checks

end BrineVault
