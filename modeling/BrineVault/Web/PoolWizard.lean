import BrineVault.Web.PoolForm

/-!
# Runs of the form that creates a pool

What the user enters is checked before it is submitted, whatever way he takes through the steps, and one form makes one pool. The disclaimer of Seal
has one way around it.
-/

namespace BrineVault

open Js Move

section Checks

variable {toNumber : Text → Number} {toTime : Text → Option Int}

/-! ## What an event does -/

/-- The fields of the first step are the same in both. -/
structure PoolFormState.SameBasics (state state' : PoolFormState) : Prop where
  name : state'.name = state.name
  borrowerEntity : state'.borrowerEntity = state.borrowerEntity
  targetNotional : state'.targetNotional = state.targetNotional
  maturityDate : state'.maturityDate = state.maturityDate

/-- The fields of the first step are those of the input. -/
structure PoolFormState.Enters (state : PoolFormState) (input : CreatePoolInput) : Prop where
  name : state.name = input.name
  borrowerEntity : state.borrowerEntity = input.borrowerEntity
  targetNotional : state.targetNotional = input.targetNotional
  maturityDate : state.maturityDate = input.maturityDate

/-- The fields of the second step are the same in both. -/
structure PoolFormState.SameEngine (state state' : PoolFormState) : Prop where
  encryptionScheme : state'.encryptionScheme = state.encryptionScheme
  sealBetaAcknowledged : state'.sealBetaAcknowledged = state.sealBetaAcknowledged

namespace PoolFormState

variable {state state' : PoolFormState}

/-- The checks of the first step look at its fields alone. -/
theorem SameBasics.validateStep1 (h : SameBasics state state') (now : Int) :
    state'.validateStep1 toNumber toTime now = state.validateStep1 toNumber toTime now := by
  simp only [PoolFormState.validateStep1, nameError, borrowerError, notionalError, maturityError, h.name, h.borrowerEntity, h.targetNotional,
    h.maturityDate]

/-- What is submitted has the fields of the form. -/
theorem enters_input (state : PoolFormState) : state.Enters state.input := ⟨rfl, rfl, rfl, rfl⟩

/-- A form that enters the input of another enters that of every form with the same fields. -/
theorem Enters.same {start : PoolFormState} (h : start.Enters state.input) (hsame : SameBasics state state') : start.Enters state'.input where
  name := h.name.trans hsame.name.symm
  borrowerEntity := h.borrowerEntity.trans hsame.borrowerEntity.symm
  targetNotional := h.targetNotional.trans hsame.targetNotional.symm
  maturityDate := h.maturityDate.trans hsame.maturityDate.symm

theorem SameEngine.validateStep2 (h : SameEngine state state') : state'.validateStep2 = state.validateStep2 := by
  simp only [PoolFormState.validateStep2, h.encryptionScheme, h.sealBetaAcknowledged]

/-- Going on leaves everything that was entered. -/
theorem goOn_same (state : PoolFormState) : SameBasics state state.goOn ∧ SameEngine state state.goOn := by
  unfold goOn
  split <;> exact ⟨⟨rfl, rfl, rfl, rfl⟩, ⟨rfl, rfl⟩⟩

/-- Going on leads to the next step, or back to the review from which the step was edited. -/
theorem goOn_currentStep (state : PoolFormState) : state.goOn.currentStep = if state.returnToReview then 4 else state.currentStep + 1 := by
  unfold goOn
  split <;> rfl

/-- The page stays busy with a mutation, whatever step it shows. -/
theorem goOn_isSubmitting (state : PoolFormState) : state.goOn.isSubmitting = state.isSubmitting := by
  unfold goOn
  split <;> rfl

/-- The page goes on where the checks of the step pass, and stays with the errors where they do not. -/
theorem handleNext_cases (state : PoolFormState) (now : Int) :
    (∃ errors, state.handleNext toNumber toTime now = { state with errors }) ∨
      (state.handleNext toNumber toTime now = state.goOn ∧
        (state.currentStep = 0 → state.validateStep1 toNumber toTime now = []) ∧ (state.currentStep = 1 → state.validateStep2 = [])) := by
  unfold handleNext
  split
  · exact .inl ⟨_, rfl⟩
  · rename_i hfirst
    split
    · exact .inl ⟨_, rfl⟩
    · rename_i hsecond
      exact .inr ⟨rfl, fun hstep => not_not.1 fun hne => hfirst ⟨hstep, hne⟩, fun hstep => not_not.1 fun hne => hsecond ⟨hstep, hne⟩⟩

/-- Going back leads to the step before, or to the review from which the step was edited. -/
theorem handleBack_eq (state : PoolFormState) :
    ∃ errors, state.handleBack =
      { state with currentStep := if state.returnToReview then 4 else state.currentStep - 1, errors, returnToReview := false } := by
  unfold handleBack
  split <;> exact ⟨_, rfl⟩

/-- The first step is left with its checks passed. -/
theorem handleNext_basics (state : PoolFormState) {now : Int} (hstep : 1 ≤ (state.handleNext toNumber toTime now).currentStep) :
    state.SameBasics (state.handleNext toNumber toTime now) ∧
      (1 ≤ state.currentStep ∨ state.validateStep1 toNumber toTime now = []) := by
  obtain ⟨errors, h⟩ | ⟨h, hfirst, -⟩ := @handleNext_cases toNumber toTime state now
  · rw [h] at hstep ⊢
    exact ⟨⟨rfl, rfl, rfl, rfl⟩, .inl hstep⟩
  · rw [h]
    refine ⟨state.goOn_same.1, ?_⟩
    by_cases hzero : state.currentStep = 0
    · exact .inr (hfirst hzero)
    · exact .inl (Nat.pos_of_ne_zero hzero)

/-- Pressing Next begins no mutation and ends none. -/
theorem handleNext_isSubmitting (state : PoolFormState) (now : Int) :
    (state.handleNext toNumber toTime now).isSubmitting = state.isSubmitting := by
  obtain ⟨errors, h⟩ | ⟨h, -, -⟩ := @handleNext_cases toNumber toTime state now
  · rw [h]
  · rw [h, goOn_isSubmitting]

theorem handleBack_isSubmitting (state : PoolFormState) : state.handleBack.isSubmitting = state.isSubmitting := by
  obtain ⟨errors, h⟩ := state.handleBack_eq
  rw [h]

/-- Entering a field leaves the step and the mutation alone. -/
theorem setField_steps (state : PoolFormState) (field : FormField) :
    (state.setField field).currentStep = state.currentStep ∧ (state.setField field).isSubmitting = state.isSubmitting := by
  cases field <;> exact ⟨rfl, rfl⟩

end PoolFormState

/-- The event is none of the mutation. -/
def PageEvent.isQuiet : PageEvent → Bool
  | .submit | .resolved | .rejected => false
  | _ => true

namespace PoolWizard

variable {w w' : PoolWizard} {e : PageEvent} {es : List PageEvent}

/-- The page handles the events that it offers. -/
theorem step_eq_ok : w.step toNumber toTime e = .ok w' ↔ w.enabled e = true ∧ w.handle toNumber toTime e = w' := by
  unfold step
  split
  · rename_i h
    simp [h]
  · rename_i h
    simp [h]

/-- The other events leave the mutation alone. -/
theorem handle_quiet (h : e.isQuiet = true) :
    (w.handle toNumber toTime e).submitted = w.submitted ∧ (w.handle toNumber toTime e).pending = w.pending ∧
      (w.handle toNumber toTime e).form.isSubmitting = w.form.isSubmitting := by
  cases e with
  | change field => exact ⟨rfl, rfl, (w.form.setField_steps field).2⟩
  | skip now | next now => exact ⟨rfl, rfl, w.form.handleNext_isSubmitting now⟩
  | back => exact ⟨rfl, rfl, w.form.handleBack_isSubmitting⟩
  | submit | resolved | rejected => cases h
  | _ => exact ⟨rfl, rfl, rfl⟩

/-- After an event the page is past the first step only where it was before, with the same fields, or has checked them. -/
theorem handle_basics (he : w.enabled e = true) (hstep : 1 ≤ (w.handle toNumber toTime e).form.currentStep) :
    w.form.SameBasics (w.handle toNumber toTime e).form ∧
      (1 ≤ w.form.currentStep ∨ ∃ now, e = .next now ∧ w.form.currentStep = 0 ∧ w.form.validateStep1 toNumber toTime now = []) := by
  cases e with
  | change field =>
    have hstep' : 1 ≤ w.form.currentStep := (w.form.setField_steps field).1 ▸ hstep
    refine ⟨?_, .inl hstep'⟩
    cases field with
    | encryptionScheme | sealBetaAcknowledged => exact ⟨rfl, rfl, rfl, rfl⟩
    | _ =>
      simp only [enabled, shows, decide_eq_true_eq] at he
      omega
  | skip now =>
    simp only [enabled, decide_eq_true_eq] at he
    exact ⟨(w.form.handleNext_basics hstep).1, .inl (by omega)⟩
  | next now =>
    obtain ⟨hsame, hchecked⟩ := w.form.handleNext_basics hstep
    refine ⟨hsame, ?_⟩
    by_cases hzero : w.form.currentStep = 0
    · exact .inr ⟨now, rfl, hzero, hchecked.resolve_left (by omega)⟩
    · exact .inl (by omega)
  | back =>
    obtain ⟨errors, h⟩ := w.form.handleBack_eq
    simp only [enabled, ne_eq, Bool.and_eq_true, decide_eq_true_eq] at he
    rw [handle, h]
    exact ⟨⟨rfl, rfl, rfl, rfl⟩, .inl (Nat.pos_of_ne_zero he.1)⟩
  | edit step =>
    simp only [enabled, Bool.and_eq_true, decide_eq_true_eq] at he
    refine ⟨⟨rfl, rfl, rfl, rfl⟩, .inl ?_⟩
    omega
  | _ => exact ⟨⟨rfl, rfl, rfl, rfl⟩, .inl hstep⟩

/-- There are five steps. -/
theorem handle_currentStep (he : w.enabled e = true) (hw : w.form.currentStep ≤ 4) : (w.handle toNumber toTime e).form.currentStep ≤ 4 := by
  cases e with
  | change field => exact (w.form.setField_steps field).1.le.trans hw
  | skip now | next now =>
    simp only [enabled, decide_eq_true_eq] at he
    obtain ⟨errors, h⟩ | ⟨h, -, -⟩ := @PoolFormState.handleNext_cases toNumber toTime w.form now
    · rw [handle, h]
      exact hw
    · rw [handle, h, PoolFormState.goOn_currentStep]
      split <;> omega
  | back =>
    obtain ⟨errors, h⟩ := w.form.handleBack_eq
    rw [handle, h]
    dsimp only
    split <;> omega
  | edit step =>
    simp only [enabled, Bool.and_eq_true, decide_eq_true_eq] at he
    exact Nat.le_of_lt he.2
  | _ => exact hw

end PoolWizard

/-! ## Runs -/

variable (toNumber toTime) in
/-- What the page has checked of an input, at a time. -/
structure CreatePoolInput.Checked (input : CreatePoolInput) (now : Int) : Prop where
  name : trim input.name ≠ [] ∧ input.name.length ≤ 256
  borrowerEntity : trim input.borrowerEntity ≠ []
  targetNotional : input.targetNotional ≠ [] ∧ isAtMostZero (toNumber input.targetNotional) = false
  maturityDate : input.maturityDate ≠ [] ∧ ∀ ms, toTime input.maturityDate = some ms → now < ms
  tags : input.tags = []
  members : ∀ m ∈ input.members, m.address ≠ []

/-- What is submitted of a form whose checks pass is checked. -/
theorem PoolFormState.checked {state : PoolFormState} {now : Int} (h : state.validateStep1 toNumber toTime now = []) :
    state.input.Checked toNumber toTime now := by
  simp only [validateStep1, nameError, borrowerError, notionalError, maturityError, List.filterMap_eq_nil_iff, List.forall_mem_cons,
    List.not_mem_nil, Option.map_eq_none_iff, IsEmpty.forall_iff, implies_true, and_true] at h
  obtain ⟨hname, hborrower, hnotional, hmaturity⟩ := h
  constructor
  · split at hname
    · cases hname
    · split at hname
      · cases hname
      · rename_i hlength hblank
        exact ⟨hblank, Nat.le_of_not_lt hlength⟩
  · split at hborrower
    · cases hborrower
    · assumption
  · split at hnotional
    · cases hnotional
    · rename_i hpositive
      rw [not_or, Bool.not_eq_true] at hpositive
      exact hpositive
  · split at hmaturity
    · cases hmaturity
    · split at hmaturity
      · cases hmaturity
      · rename_i hempty hpast
        refine ⟨hempty, fun ms hms => ?_⟩
        rw [show state.input.maturityDate = state.maturityDate from rfl] at hms
        simpa [hms] using hpast
  · rfl
  · intro m hm
    exact of_decide_eq_true (List.mem_filter.1 hm).2

namespace PoolWizard

variable {w w' : PoolWizard} {e : PageEvent} {es : List PageEvent}

variable (toNumber toTime) in
/-- At a press of the run, at the time `now`, the page left its first step, whose checks passed, with the fields of the input. -/
def LeftWith (es : List PageEvent) (now : Int) (input : CreatePoolInput) : Prop :=
  ∃ past rest before, es = past ++ .next now :: rest ∧ run toNumber toTime past = .ok before ∧ before.form.currentStep = 0 ∧
    before.form.validateStep1 toNumber toTime now = [] ∧ before.form.Enters input

/-- It stays so as the run goes on. -/
theorem LeftWith.snoc {now : Int} {input : CreatePoolInput} (h : LeftWith toNumber toTime es now input) (e : PageEvent) :
    LeftWith toNumber toTime (es ++ [e]) now input := by
  obtain ⟨past, rest, before, rfl, hbefore⟩ := h
  exact ⟨past, rest ++ [e], before, by simp, hbefore⟩

/-- It stays so for every form with the same fields. -/
theorem LeftWith.same {now : Int} {state state' : PoolFormState} (h : LeftWith toNumber toTime es now state.input)
    (hsame : state.SameBasics state') : LeftWith toNumber toTime es now state'.input := by
  obtain ⟨past, rest, before, hes, hrun, hstep, hvalid, henters⟩ := h
  exact ⟨past, rest, before, hes, hrun, hstep, hvalid, henters.same hsame⟩

/-- The press is an event of the run. -/
theorem LeftWith.mem {now : Int} {input : CreatePoolInput} (h : LeftWith toNumber toTime es now input) : .next now ∈ es := by
  obtain ⟨past, rest, before, rfl, -⟩ := h
  simp

variable (toNumber toTime) in
/-- What holds of the page after a run: every step after the first has its fields checked; what was handed to the mutation was checked; and
every mutation but the last was rejected. -/
structure Ok (es : List PageEvent) (w : PoolWizard) : Prop where
  step_le : w.form.currentStep ≤ 4
  basics : 1 ≤ w.form.currentStep → ∃ now, LeftWith toNumber toTime es now w.form.input ∧ w.form.validateStep1 toNumber toTime now = []
  submitted : ∀ input ∈ w.submitted, ∃ now, LeftWith toNumber toTime es now input ∧ input.Checked toNumber toTime now
  counted : w.submitted.length = es.count .submit
  settled : es.count .submit = es.count .rejected + es.count .resolved + w.pending.toList.length
  pending : w.pending ≠ none → w.form.isSubmitting = true
  resolved : es.count .resolved ≠ 0 → w.form.isSubmitting = true ∧ w.pending = none
  once : es.count .resolved ≤ 1

/-- The page when it is opened. -/
theorem ok_start : Ok toNumber toTime [] start := by
  constructor <;> simp [start]

namespace Ok

/-- After one event more, too, the page is past its first step only with fields that were checked at the press that left it. -/
theorem basics_snoc (h : Ok toNumber toTime es w) (hr : run toNumber toTime es = .ok w) (he : w.enabled e = true)
    (hstep : 1 ≤ (w.handle toNumber toTime e).form.currentStep) :
    ∃ now, LeftWith toNumber toTime (es ++ [e]) now (w.handle toNumber toTime e).form.input ∧
      (w.handle toNumber toTime e).form.validateStep1 toNumber toTime now = [] := by
  obtain ⟨hsame, hpast | ⟨now, rfl, hfirst, hvalid⟩⟩ := handle_basics he hstep
  · obtain ⟨now, hleft, hvalid⟩ := h.basics hpast
    exact ⟨now, (hleft.snoc e).same hsame, by rw [hsame.validateStep1, hvalid]⟩
  · have hleft : LeftWith toNumber toTime (es ++ [.next now]) now w.form.input :=
      ⟨es, [], w, rfl, hr, hfirst, hvalid, w.form.enters_input⟩
    exact ⟨now, hleft.same hsame, by rw [hsame.validateStep1, hvalid]⟩

/-- What was submitted before has been checked before. -/
theorem submitted_snoc (h : Ok toNumber toTime es w) (e : PageEvent) :
    ∀ input ∈ w.submitted, ∃ now, LeftWith toNumber toTime (es ++ [e]) now input ∧ input.Checked toNumber toTime now := by
  intro input hinput
  obtain ⟨now, hleft, hchecked⟩ := h.submitted input hinput
  exact ⟨now, hleft.snoc e, hchecked⟩

/-- No mutation has resolved while the form may be submitted, or one is pending. -/
theorem unresolved (h : Ok toNumber toTime es w) (hopen : w.form.isSubmitting = false ∨ w.pending ≠ none) : es.count .resolved = 0 := by
  by_contra hne
  obtain ⟨hsubmitting, hnone⟩ := h.resolved hne
  obtain hidle | hpending := hopen
  · rw [hsubmitting] at hidle
    cases hidle
  · exact hpending hnone

/-- An event that leaves the mutation alone. -/
theorem of_quiet (h : Ok toNumber toTime es w) (hr : run toNumber toTime es = .ok w) (he : w.enabled e = true) (hquiet : e.isQuiet = true) :
    Ok toNumber toTime (es ++ [e]) (w.handle toNumber toTime e) := by
  obtain ⟨hsubmitted, hpending, hsubmitting⟩ := @handle_quiet toNumber toTime w e hquiet
  have hcount : ∀ f : PageEvent, f.isQuiet = false → (es ++ [e]).count f = es.count f := by
    intro f hf
    rw [List.count_append, List.count_singleton, if_neg, Nat.add_zero]
    rintro hef
    rw [eq_of_beq hef, hf] at hquiet
    cases hquiet
  constructor
  · exact handle_currentStep he h.step_le
  · exact h.basics_snoc hr he
  · rw [hsubmitted]
    exact h.submitted_snoc e
  · rw [hsubmitted, hcount _ rfl, h.counted]
  · rw [hpending, hcount _ rfl, hcount _ rfl, hcount _ rfl, h.settled]
  · rw [hpending, hsubmitting]
    exact h.pending
  · rw [hpending, hsubmitting, hcount _ rfl]
    exact h.resolved
  · rw [hcount _ rfl]
    exact h.once

/-- The form is submitted: it is past the first step, and no mutation is pending or has resolved. -/
theorem of_submit (h : Ok toNumber toTime es w) (hr : run toNumber toTime es = .ok w) (he : w.enabled .submit = true) :
    Ok toNumber toTime (es ++ [.submit]) (w.handle toNumber toTime .submit) := by
  have hbasics := h.basics_snoc hr he
  simp only [enabled, Bool.and_eq_true, Bool.not_eq_true', Bool.or_eq_false_iff, decide_eq_true_eq, Option.isSome_eq_false_iff,
    Option.isNone_iff_eq_none] at he
  obtain ⟨hreview, hidle, hnone⟩ := he
  have hunresolved := h.unresolved (.inl hidle)
  have hsettled := h.settled
  rw [hnone] at hsettled
  constructor
  · exact h.step_le
  · exact hbasics
  · intro input hinput
    obtain hinput | hinput := List.mem_append.1 hinput
    · exact h.submitted_snoc _ input hinput
    · obtain ⟨now, hleft, hvalid⟩ := hbasics (show 1 ≤ w.form.currentStep by omega)
      rw [List.mem_singleton.1 hinput]
      exact ⟨now, hleft, PoolFormState.checked hvalid⟩
  · simp [handle, h.counted]
  · simp only [handle, List.count_append, List.count_singleton_self, List.count_singleton, Option.toList_some, List.length_singleton]
    simpa using hsettled
  · exact fun _ => rfl
  · simp [hunresolved]
  · simp [hunresolved]

/-- A pending mutation is the one that was submitted last, and none has resolved. -/
theorem pending_last (h : Ok toNumber toTime es w) (hsome : w.pending.isSome = true) :
    es.count .submit = es.count .rejected + 1 ∧ es.count .resolved = 0 ∧ w.form.isSubmitting = true := by
  obtain ⟨input, hinput⟩ := Option.isSome_iff_exists.1 hsome
  have hpending : w.pending ≠ none := by simp [hinput]
  have hunresolved := h.unresolved (.inr hpending)
  have hsettled := h.settled
  rw [hinput, Option.toList_some, List.length_singleton, hunresolved] at hsettled
  exact ⟨by omega, hunresolved, h.pending hpending⟩

/-- The mutation resolves. -/
theorem of_resolved (h : Ok toNumber toTime es w) (hr : run toNumber toTime es = .ok w) (he : w.enabled .resolved = true) :
    Ok toNumber toTime (es ++ [.resolved]) (w.handle toNumber toTime .resolved) := by
  obtain ⟨hlast, hunresolved, hsubmitting⟩ := h.pending_last he
  constructor
  · exact h.step_le
  · exact h.basics_snoc hr he
  · exact h.submitted_snoc _
  · simp [handle, h.counted]
  · simp [handle, hlast, hunresolved]
  · exact fun hne => absurd rfl hne
  · exact fun _ => ⟨hsubmitting, rfl⟩
  · simp [hunresolved]

/-- The mutation is rejected. -/
theorem of_rejected (h : Ok toNumber toTime es w) (hr : run toNumber toTime es = .ok w) (he : w.enabled .rejected = true) :
    Ok toNumber toTime (es ++ [.rejected]) (w.handle toNumber toTime .rejected) := by
  obtain ⟨hlast, hunresolved, -⟩ := h.pending_last he
  constructor
  · exact h.step_le
  · exact h.basics_snoc hr he
  · exact h.submitted_snoc _
  · simp [handle, h.counted]
  · simp [handle, hlast, hunresolved]
  · exact fun hne => absurd rfl hne
  · simp [hunresolved]
  · simp [hunresolved]

/-- One event keeps what holds of the page. -/
theorem step (h : Ok toNumber toTime es w) (hr : run toNumber toTime es = .ok w) (hs : w.step toNumber toTime e = .ok w') :
    Ok toNumber toTime (es ++ [e]) w' := by
  obtain ⟨he, rfl⟩ := step_eq_ok.1 hs
  by_cases hquiet : e.isQuiet = true
  · exact h.of_quiet hr he hquiet
  · cases e with
    | submit => exact h.of_submit hr he
    | resolved => exact h.of_resolved hr he
    | rejected => exact h.of_rejected hr he
    | _ => exact absurd rfl hquiet

end Ok

theorem ok_run (h : run toNumber toTime es = .ok w) : Ok toNumber toTime es w :=
  Steps.run_invariant (PoolWizard.step toNumber toTime) (Ok toNumber toTime) ok_start (fun _ _ _ _ hr hm hs => hm.step hr hs) h

end PoolWizard

end Checks

namespace Sample

/-- The value of decimal digits. -/
def toNumber (s : Text) : Number := if isNumeric s then (decimal s : Number) else .nan

/-- The digits are milliseconds. -/
def toTime (s : Text) : Option Int := if isNumeric s then some (decimal s) else none

/-- The fields of the first step, and on to the review, with Seal chosen and acknowledged. -/
def filledIn : List PageEvent :=
  [.change (.name [80]), .change (.borrowerEntity [66]), .next 5, .change (.targetNotional (text "7")), .change (.maturityDate (text "9")),
   .next 6, .change (.encryptionScheme ⟨1, by decide⟩), .next 6, .change (.sealBetaAcknowledged true), .next 6, .next 6, .addMember, .skip 6]

end Sample

section Checks

variable {toNumber : Text → Number} {toTime : Text → Option Int}

namespace PoolWizard

variable {w w' : PoolWizard} {e : PageEvent} {es : List PageEvent}

/-! ## The disclaimer -/

/-- Past the second step Seal is chosen only with its disclaimer acknowledged. -/
def Acknowledged (w : PoolWizard) : Prop := 2 ≤ w.form.currentStep → w.form.validateStep2 = []

/-- The way around the check: back from the second step, which was edited from the review. -/
def SkipsDisclaimer (w : PoolWizard) (e : PageEvent) : Prop :=
  e = .back ∧ w.form.currentStep = 1 ∧ w.form.returnToReview = true ∧ w.form.validateStep2 ≠ []

/-- What carries `Acknowledged` over an edit of the first step. -/
def EngineChecked (w : PoolWizard) : Prop :=
  2 ≤ w.form.currentStep ∨ (w.form.returnToReview = true ∧ w.form.currentStep = 0) → w.form.validateStep2 = []

/-- Going on reaches a later step with the second one checked. -/
theorem EngineChecked.goOn (h : w.EngineChecked) (hsecond : w.form.currentStep = 1 → w.form.validateStep2 = [])
    (hstep : 2 ≤ w.form.goOn.currentStep) : w.form.goOn.validateStep2 = [] := by
  rw [w.form.goOn_same.2.validateStep2]
  rw [PoolFormState.goOn_currentStep] at hstep
  by_cases hone : w.form.currentStep = 1
  · exact hsecond hone
  · split at hstep
    · rename_i hreturn
      by_cases hzero : w.form.currentStep = 0
      · exact h (.inr ⟨hreturn, hzero⟩)
      · exact h (.inl (by omega))
    · exact h (.inl (by omega))

/-- Going on does not remember the review. -/
theorem goOn_returnToReview (state : PoolFormState) : state.goOn.returnToReview = false := by
  unfold PoolFormState.goOn
  split <;> rfl

/-- One event keeps it, but for the way around the check. -/
theorem EngineChecked.handle (h : w.EngineChecked) (he : w.enabled e = true) (hskip : ¬ w.SkipsDisclaimer e) :
    (w.handle toNumber toTime e).EngineChecked := by
  intro hwhere
  cases e with
  | change field =>
    cases field with
    | encryptionScheme | sealBetaAcknowledged =>
      -- The engine is chosen at the second step only.
      simp only [enabled, shows, Bool.and_eq_true, decide_eq_true_eq] at he
      simp only [PoolWizard.handle, PoolFormState.formReducer, PoolFormState.setField] at hwhere
      omega
    | _ => exact h hwhere
  | skip now | next now =>
    obtain ⟨errors, hstay⟩ | ⟨hgo, -, hsecond⟩ := @PoolFormState.handleNext_cases toNumber toTime w.form now
    · rw [PoolWizard.handle, hstay] at hwhere ⊢
      exact h hwhere
    · rw [PoolWizard.handle, hgo] at hwhere ⊢
      obtain hwhere | ⟨hreturn, -⟩ := hwhere
      · exact h.goOn hsecond hwhere
      · rw [goOn_returnToReview] at hreturn
        cases hreturn
  | back =>
    simp only [enabled, ne_eq, Bool.and_eq_true, decide_eq_true_eq] at he
    obtain ⟨errors, hback⟩ := w.form.handleBack_eq
    rw [PoolWizard.handle, hback] at hwhere ⊢
    change w.form.validateStep2 = []
    by_cases hone : w.form.currentStep = 1
    · by_cases hreturn : w.form.returnToReview = true
      · exact not_not.1 fun hne => hskip ⟨rfl, hone, hreturn, hne⟩
      · simp [hreturn, hone] at hwhere
    · exact h (.inl (by omega))
  | edit step =>
    simp only [enabled, Bool.and_eq_true, decide_eq_true_eq] at he
    exact h (.inl (by omega))
  | _ => exact h hwhere

/-- In every state of a run Seal is past the second step only with its disclaimer acknowledged, if and only if the user never goes back to the
review from an edit of the second step in which Seal is chosen and not acknowledged. -/
theorem acknowledged_iff (h : run toNumber toTime es = .ok w) :
    (∀ past rest m, es = past ++ rest → run toNumber toTime past = .ok m → m.Acknowledged) ↔
      Steps.AllSteps (PoolWizard.step toNumber toTime) (fun m e => ¬ m.SkipsDisclaimer e) start es := by
  refine Steps.always_iff_allSteps (PoolWizard.step toNumber toTime) (fun _ m => m.EngineChecked) (fun _ m => m.Acknowledged) ?_ ?_ ?_ ?_ h
  · rintro (hstep | ⟨hreturn, -⟩)
    · cases hstep
    · cases hreturn
  · intro as m e m' hm hc hgood hs
    obtain ⟨he, rfl⟩ := step_eq_ok.1 hs
    exact hc.handle he hgood
  · exact fun as m hm hc hstep => hc (.inl hstep)
  · intro as m e m' hm hq hbad hs hack
    obtain ⟨he, rfl⟩ := step_eq_ok.1 hs
    obtain ⟨rfl, hone, hreturn, hne⟩ := not_not.1 hbad
    rw [Acknowledged, PoolWizard.handle, PoolFormState.handleBack, if_pos hreturn] at hack
    exact hne (hack (show 2 ≤ 4 by decide))

/-- The acknowledgement is taken back in an edit from the review, and the page left by the button that goes back. -/
theorem acknowledged_iff_sample :
    ∃ w, run Sample.toNumber Sample.toTime (Sample.filledIn ++ [.edit 1, .change (.sealBetaAcknowledged false), .back]) = .ok w ∧
      ((∀ past rest m, Sample.filledIn ++ [.edit 1, .change (.sealBetaAcknowledged false), .back] = past ++ rest →
          run Sample.toNumber Sample.toTime past = .ok m → m.Acknowledged) ↔
        Steps.AllSteps (PoolWizard.step Sample.toNumber Sample.toTime) (fun m e => ¬ m.SkipsDisclaimer e) start
          (Sample.filledIn ++ [.edit 1, .change (.sealBetaAcknowledged false), .back])) := by
  obtain ⟨w, hw⟩ := exists_ok_of_returns (show returns (run Sample.toNumber Sample.toTime (Sample.filledIn ++ [.edit 1,
    .change (.sealBetaAcknowledged false), .back])) = true by decide +kernel)
  exact ⟨w, hw, acknowledged_iff hw⟩

/-! ## The checklist -/

end PoolWizard

/-- The list has an item, and no two items of one id; the ids have all been given. -/
structure ChecklistOk (items : List ChecklistItemData) (idsGiven : Nat) : Prop where
  nonempty : items ≠ []
  distinct : (items.map ChecklistItemData.id).Nodup
  given : ∀ i ∈ items, i.id < idsGiven

namespace ChecklistOk

variable {items : List ChecklistItemData} {n : Nat}

/-- Items with the same ids, in another order. -/
theorem perm {items' : List ChecklistItemData} (h : ChecklistOk items n)
    (hp : (items'.map ChecklistItemData.id).Perm (items.map ChecklistItemData.id)) : ChecklistOk items' n := by
  constructor
  · rintro rfl
    exact h.nonempty (List.map_eq_nil_iff.1 hp.symm.eq_nil)
  · exact hp.nodup_iff.2 h.distinct
  · intro i hi
    obtain ⟨j, hj, hij⟩ := List.mem_map.1 (hp.mem_iff.1 (List.mem_map_of_mem hi))
    exact hij ▸ h.given j hj

/-- Moving an item only changes the order. -/
theorem arrayMove_perm {oldIndex newIndex : Nat} (hnew : newIndex < items.length) : (arrayMove items oldIndex newIndex).Perm items := by
  unfold arrayMove
  split
  · rename_i item hitem
    obtain ⟨hold, rfl⟩ := List.getElem?_eq_some_iff.1 hitem
    have hlen : newIndex ≤ (items.eraseIdx oldIndex).length := by
      rw [List.length_eraseIdx_of_lt hold]
      omega
    exact (List.perm_insertIdx _ _ hlen).trans (List.getElem_cons_eraseIdx_perm hold)
  · exact List.Perm.refl _

/-- Dragging an item loses none and adds none. -/
theorem handleDragEnd {active overId : Nat} (h : ChecklistOk items n) (hover : (items.any fun i => i.id = overId) = true) :
    ChecklistOk (StepChecklist.handleDragEnd items active overId) n := by
  unfold StepChecklist.handleDragEnd
  split
  · exact h
  · have hnew : StepChecklist.indexOf items overId < items.length := List.findIdx_lt_length.2 (by simpa using hover)
    have hids : ((arrayMove items (StepChecklist.indexOf items active) (StepChecklist.indexOf items overId)).mapIdx fun idx item =>
        { item with sortOrder := idx }).map ChecklistItemData.id =
        (arrayMove items (StepChecklist.indexOf items active) (StepChecklist.indexOf items overId)).map ChecklistItemData.id := by
      refine List.ext_getElem? fun i => ?_
      simp only [List.getElem?_map, List.getElem?_mapIdx, Option.map_map]
      rfl
    refine h.perm ?_
    rw [hids]
    exact (arrayMove_perm hnew).map _

theorem toggleRequirement (h : ChecklistOk items n) (id : Nat) : ChecklistOk (StepChecklist.toggleRequirement items id) n := by
  refine h.perm ?_
  rw [StepChecklist.toggleRequirement, List.map_map]
  refine List.Perm.of_eq (List.map_congr_left fun item _ => ?_)
  simp only [Function.comp_apply]
  split <;> rfl

/-- The last item is not removed. -/
theorem removeItem (h : ChecklistOk items n) (id : Nat) : ChecklistOk (StepChecklist.removeItem items id) n := by
  unfold StepChecklist.removeItem
  split
  · exact h
  · rename_i hlong
    constructor
    · -- Of the first two items at most one has the id.
      intro hnone
      cases items with
      | nil => exact h.nonempty rfl
      | cons a items =>
        cases items with
        | nil => exact hlong (Nat.le_refl 1)
        | cons b rest =>
          have hall : ∀ i ∈ a :: b :: rest, i.id = id := by simpa [List.filter_eq_nil_iff] using hnone
          have hdistinct := h.distinct
          rw [List.map_cons, List.map_cons, hall a (by simp), hall b (by simp)] at hdistinct
          simp at hdistinct
    · exact h.distinct.sublist (List.filter_sublist.map _)
    · exact fun i hi => h.given i (List.mem_of_mem_filter hi)

/-- An item that is added has an id of its own. -/
theorem addCustomItem (h : ChecklistOk items n) (label : Text) : ChecklistOk (StepChecklist.addCustomItem items label n) (n + 1) := by
  unfold StepChecklist.addCustomItem
  split
  · exact ⟨h.nonempty, h.distinct, fun i hi => Nat.lt_succ_of_lt (h.given i hi)⟩
  · constructor
    · simp
    · rw [List.map_append, List.nodup_append]
      refine ⟨h.distinct, by simp, ?_⟩
      intro a ha b hb
      obtain ⟨i, hi, rfl⟩ := List.mem_map.1 ha
      have hlt := h.given i hi
      simp only [List.map_cons, List.map_nil, List.mem_singleton] at hb
      omega
    · intro i hi
      obtain hi | hi := List.mem_append.1 hi
      · exact Nat.lt_succ_of_lt (h.given i hi)
      · rw [List.mem_singleton.1 hi]
        exact Nat.lt_succ_self n

end ChecklistOk

/-- Entering a field leaves the checklist alone. -/
theorem PoolFormState.setField_checklistItems (state : PoolFormState) (field : FormField) :
    (state.setField field).checklistItems = state.checklistItems := by
  cases field <;> rfl

theorem PoolFormState.handleNext_checklistItems (state : PoolFormState) (now : Int) :
    (state.handleNext toNumber toTime now).checklistItems = state.checklistItems := by
  obtain ⟨errors, h⟩ | ⟨h, -, -⟩ := @PoolFormState.handleNext_cases toNumber toTime state now
  · rw [h]
  · rw [h]
    unfold goOn
    split <;> rfl

namespace PoolWizard

variable {w : PoolWizard} {e : PageEvent} {es : List PageEvent}

/-- One event keeps the checklist in order. -/
theorem checklistOk_handle (h : ChecklistOk w.form.checklistItems w.idsGiven) (he : w.enabled e = true) :
    ChecklistOk (w.handle toNumber toTime e).form.checklistItems (w.handle toNumber toTime e).idsGiven := by
  cases e with
  | change field =>
    rw [handle, PoolFormState.formReducer, PoolFormState.setField_checklistItems]
    exact h
  | drag active overId =>
    simp only [enabled, Bool.and_eq_true] at he
    exact h.handleDragEnd he.2
  | toggleRequirement id => exact h.toggleRequirement id
  | removeItem id => exact h.removeItem id
  | addCustomItem label => exact h.addCustomItem label
  | addMember => exact ⟨h.nonempty, h.distinct, fun i hi => Nat.lt_succ_of_lt (h.given i hi)⟩
  | skip now | next now =>
    rw [handle, PoolFormState.handleNext_checklistItems]
    exact h
  | back =>
    obtain ⟨errors, hback⟩ := w.form.handleBack_eq
    rw [handle, hback]
    exact h
  | _ => exact h

/-- Whatever the user does with the checklist, it has an item, and its items have ids of their own. -/
theorem checklist_kept (h : run toNumber toTime es = .ok w) :
    w.form.checklistItems ≠ [] ∧ (w.form.checklistItems.map ChecklistItemData.id).Nodup := by
  have hok := Steps.run_preserves (PoolWizard.step toNumber toTime) (P := fun w => ChecklistOk w.form.checklistItems w.idsGiven) ?_ h ?_
  · exact ⟨hok.nonempty, hok.distinct⟩
  · intro m e m' hm hs
    obtain ⟨he, rfl⟩ := step_eq_ok.1 hs
    exact checklistOk_handle hm he
  · exact ⟨by decide +kernel, by decide +kernel, by decide +kernel⟩

end PoolWizard

end Checks

end BrineVault
