import BrineVault.Contract.World

/-!
# Archived documents

`archive_document` marks a document as archived, and `add_version`, `submit_review` and `archive_document` itself refuse a document
that is marked. `mark_as_required` does not look at the mark: it is the one function that changes an archived document.
-/

namespace BrineVault

open Move

/-- Only a document that is not archived is archived. -/
theorem Pool.archiveDocument_notArchived {config : AdminConfig} {pool pool' : Pool} {docId : ID} {ctx : Ctx} {evs : List Event}
    (h : pool.archiveDocument config docId ctx = .ok (pool', evs)) :
    ∃ doc, pool.documents.lookup docId = some doc ∧ doc.isArchived = false := by
  simp only [archiveDocument, bind_eq_ok, assert_eq_ok, borrowDocument_ok] at h
  obtain ⟨_, _, _, _, _, _, doc, hl, _, ha, _⟩ := h
  exact ⟨doc, hl, ha⟩

namespace World

/-- A document of a pool. -/
def document (w : World) (poolId docId : ID) : Option Document :=
  (w.pools.lookup poolId).bind fun pool => pool.documents.lookup docId

/-- The document of a pool. -/
theorem document_eq_some {w : World} {poolId docId : ID} {doc : Document} :
    w.document poolId docId = some doc ↔
      ∃ pool, w.pools.lookup poolId = some pool ∧ pool.documents.lookup docId = some doc := by
  rw [document, Option.bind_eq_some_iff]

/-- The step sets the flag of an archived document, and so changes the flag or the time of the last update. -/
def MarksArchived (w : World) (s : Step) : Prop :=
  ∃ poolId docId required doc, s.call = .onPool poolId (.markAsRequired docId required) ∧
    w.document poolId docId = some doc ∧ doc.isArchived = true ∧
    (doc.requiredFlag ≠ required ∨ doc.lastUpdatedAt ≠ (w.ctxOf s).now)

/-- Setting the flag a document has, at the time of its last update, is no change. -/
theorem setRequiredFlag_eq_self {doc : Document} {required : Bool} {ctx : Ctx} :
    doc.setRequiredFlag required ctx = doc ↔ doc.requiredFlag = required ∧ doc.lastUpdatedAt = ctx.now := by
  unfold Document.setRequiredFlag
  constructor
  · intro h
    have hflag := congrArg Document.requiredFlag h
    have htime := congrArg Document.lastUpdatedAt h
    exact ⟨hflag.symm, htime.symm⟩
  · rintro ⟨rfl, ht⟩
    rw [← ht]

/-! ## One step -/

/-- Archiving a document leaves it archived. -/
theorem step_archives {w w' : World} {s : Step} (h : w.step s = .ok w') {poolId docId : ID}
    (hc : s.call = .onPool poolId (.archiveDocument docId)) :
    ∃ doc, w'.document poolId docId = some doc ∧ doc.isArchived = true := by
  obtain ⟨pool, pool', _, _, hl', hx⟩ := step_onPool h hc
  obtain ⟨doc, _, rfl, _⟩ := Pool.archiveDocument_ok hx
  refine ⟨doc.archive (w.ctxOf s), document_eq_some.2 ⟨_, hl', ?_⟩, rfl⟩
  rw [Pool.setDocument, Table.lookup_insert, if_pos rfl]

/-- Setting the flag of a document leaves it with the flag and the time of the call. -/
theorem step_marks {w w' : World} {s : Step} (h : w.step s = .ok w') {poolId docId : ID} {required : Bool}
    (hc : s.call = .onPool poolId (.markAsRequired docId required)) {doc : Document}
    (hd : w.document poolId docId = some doc) :
    w'.document poolId docId = some (doc.setRequiredFlag required (w.ctxOf s)) := by
  obtain ⟨pool, pool', _, hl, hl', hx⟩ := step_onPool h hc
  obtain ⟨doc₀, hl₀, rfl, _⟩ := Pool.markAsRequired_ok hx
  have hdoc : doc₀ = doc := by
    rw [document, hl, Option.bind_some, hl₀, Option.some.injEq] at hd
    exact hd
  refine document_eq_some.2 ⟨_, hl', ?_⟩
  rw [Pool.setDocument, Table.lookup_insert, if_pos rfl, hdoc]

/-- A step that does not mark it keeps an archived document as it is. -/
theorem step_keepsArchived {w w' : World} {s : Step} (hw : Wf w) (hm : ¬ w.MarksArchived s) (h : w.step s = .ok w')
    {poolId docId : ID} {doc : Document} (hd : w.document poolId docId = some doc) (ha : doc.isArchived = true) :
    w'.document poolId docId = some doc := by
  obtain ⟨pool, hl, hdoc⟩ := document_eq_some.1 hd
  obtain ⟨pool', doc', hl', hdoc', hch⟩ := step_keepsDocument hw h hl hdoc
  have hsame : doc' = doc := by
    rcases hch with rfl | ⟨call, hc, hch⟩
    · rfl
    · cases hch with
      | addVersion hadd =>
        have hopen := (Document.addVersion_ok hadd).1
        rw [ha] at hopen
        cases hopen
      | submitReview hsub =>
        have hopen := (Document.submitReview_ok hsub).1
        rw [ha] at hopen
        cases hopen
      | markAsRequired docId required doc =>
        by_contra hne
        refine hm ⟨poolId, docId, required, doc, hc, hd, ha, ?_⟩
        rw [setRequiredFlag_eq_self, not_and_or] at hne
        exact hne
      | archiveDocument docId doc =>
        obtain ⟨pool₀, _, _, hl₀, _, hx⟩ := step_onPool h hc
        obtain ⟨doc₀, hdoc₀, hopen⟩ := Pool.archiveDocument_notArchived hx
        rw [hl, Option.some.injEq] at hl₀
        subst hl₀
        rw [hdoc, Option.some.injEq] at hdoc₀
        subst hdoc₀
        rw [ha] at hopen
        cases hopen
  exact document_eq_some.2 ⟨pool', hl', hsame ▸ hdoc'⟩

/-! ## Runs -/

/-- Every document the history has archived is as the call of `archive_document` left it. -/
def ArchivedFrozen (publisher : Ctx) (past : List Step) (m : World) : Prop :=
  ∀ before s after poolId docId w, past = before ++ s :: after → s.call = .onPool poolId (.archiveDocument docId) →
    run publisher (before ++ [s]) = .ok w →
    ∃ doc, w.document poolId docId = some doc ∧ doc.isArchived = true ∧ m.document poolId docId = some doc

/-- An archived document was archived by a step of the history. -/
theorem archived_by {publisher : Ctx} {past : List Step} {m : World} (hr : run publisher past = .ok m) :
    ∀ poolId docId doc, m.document poolId docId = some doc → doc.isArchived = true →
      ∃ before s after, past = before ++ s :: after ∧ s.call = .onPool poolId (.archiveDocument docId) := by
  refine Steps.run_invariant step (fun past (m : World) => ∀ poolId docId doc, m.document poolId docId = some doc →
    doc.isArchived = true → ∃ before s after, past = before ++ s :: after ∧
      s.call = .onPool poolId (.archiveDocument docId)) (fun _ _ _ hd => by cases hd) ?_ hr
  intro past m s m' _ ih h poolId docId doc hd ha
  have earlier : ∀ old, m.document poolId docId = some old → old.isArchived = true → ∃ before s' after,
      past ++ [s] = before ++ s' :: after ∧ s'.call = .onPool poolId (.archiveDocument docId) := by
    intro old hold hao
    obtain ⟨before, s', after, rfl, hc⟩ := ih poolId docId old hold hao
    exact ⟨before, s', after ++ [s], by simp, hc⟩
  obtain ⟨pool', hl', hdoc'⟩ := document_eq_some.1 hd
  cases step_document h hl' hdoc' with
  | kept hl hdoc => exact earlier doc (document_eq_some.2 ⟨_, hl, hdoc⟩) ha
  | attached _ _ _ hatt =>
    cases hatt with
    | createDocument hnew =>
      obtain ⟨_, _, rfl⟩ := Document.new_ok hnew
      cases ha
  | @changed pool call old hc hl hdoc hch =>
    have hold : m.document poolId docId = some old := document_eq_some.2 ⟨pool, hl, hdoc⟩
    cases hch with
    | addVersion hadd =>
      obtain ⟨hopen, _, _, _, rfl, _⟩ := Document.addVersion_ok hadd
      exact earlier old hold ha
    | submitReview hsub =>
      obtain ⟨hopen, _, ⟨_, rfl, _⟩, _⟩ := Document.submitReview_ok hsub
      exact earlier old hold ha
    | markAsRequired => exact earlier old hold ha
    | archiveDocument => exact ⟨past, s, [], rfl, hc⟩

/-- A step that does not mark an archived document keeps it frozen. -/
theorem archivedFrozen_step {publisher : Ctx} {past : List Step} {m m' : World} {s : Step} (hr : run publisher past = .ok m)
    (hf : ArchivedFrozen publisher past m) (hm : ¬ m.MarksArchived s) (h : m.step s = .ok m') :
    ArchivedFrozen publisher (past ++ [s]) m' := by
  intro before s' after poolId docId w he hc hw
  rcases Steps.snoc_eq_append_cons he with ⟨rfl, rfl, rfl⟩ | ⟨after', rfl, rfl⟩
  · -- The step itself archives the document.
    have hsnoc : run publisher (before ++ [s']) = .ok m' := (Steps.run_snoc_ok step).2 ⟨m, hr, h⟩
    rw [hsnoc, Except.ok.injEq] at hw
    subst hw
    obtain ⟨doc, hd, ha⟩ := step_archives h hc
    exact ⟨doc, hd, ha, hd⟩
  · obtain ⟨doc, hd, ha, hdm⟩ := hf before s' after' poolId docId w rfl hc hw
    exact ⟨doc, hd, ha, step_keepsArchived (wf_run hr) hm h hdm ha⟩

/-- A step that marks an archived document makes it differ from what it was archived as. -/
theorem not_archivedFrozen_of_marksArchived {publisher : Ctx} {past : List Step} {m m' : World} {s : Step}
    (hr : run publisher past = .ok m) (hf : ArchivedFrozen publisher past m) (hm : m.MarksArchived s)
    (h : m.step s = .ok m') : ¬ ArchivedFrozen publisher (past ++ [s]) m' := by
  obtain ⟨poolId, docId, required, doc, hc, hd, ha, hne⟩ := hm
  obtain ⟨before, s', after, rfl, hc'⟩ := archived_by hr poolId docId doc hd ha
  have hprefix : ∃ w, run publisher (before ++ [s']) = .ok w ∧ Steps.run step w after = .ok m :=
    Steps.run_prefix step hr (by simp)
  obtain ⟨w, hw, _⟩ := hprefix
  obtain ⟨old, hold, _, hm⟩ := hf before s' after poolId docId w rfl hc' hw
  intro hf'
  obtain ⟨new, hnew, _, hm'⟩ := hf' before s' (after ++ [s]) poolId docId w (by simp) hc' hw
  have hmarked := step_marks h hc hd
  have hsame : doc.setRequiredFlag required (m.ctxOf s) = doc := by
    rw [hd, Option.some.injEq] at hm
    rw [hmarked, Option.some.injEq] at hm'
    rw [hold, Option.some.injEq] at hnew
    rw [hm', ← hnew, hm]
  rw [setRequiredFlag_eq_self] at hsame
  rcases hne with hne | hne
  · exact hne hsame.1
  · exact hne hsame.2

/-- Along a run, what has been archived stays as it is in every state reached if and only if no step changes the flag, or the time
of the last update, of an archived document by `mark_as_required`. -/
theorem archived_frozen_iff {publisher : Ctx} {steps : List Step} {w : World} (hr : run publisher steps = .ok w) :
    (∀ past rest m, steps = past ++ rest → run publisher past = .ok m → ArchivedFrozen publisher past m) ↔
      Steps.AllSteps step (fun m s => ¬ m.MarksArchived s) (genesis publisher) steps := by
  refine Steps.always_iff_allSteps step (ArchivedFrozen publisher) (ArchivedFrozen publisher) ?_ ?_ ?_ ?_ hr
  · intro before s after poolId docId w he
    simp at he
  · intro past m s m' hm hf hs h
    exact archivedFrozen_step hm hf hs h
  · intro past m _ hf
    exact hf
  · intro past m s m' hm hf hs h
    exact not_archivedFrozen_of_marksArchived hm hf (not_not.1 hs) h

/-- A run in which a document is archived and then another one is created. -/
theorem archived_frozen_iff_sample :
    ∃ w, run Sample.owner [Sample.createPool, Sample.createDocument, Sample.byOwner (.archiveDocument 5),
        Sample.createDocument] = .ok w ∧
      ((∀ past rest m, [Sample.createPool, Sample.createDocument, Sample.byOwner (.archiveDocument 5),
            Sample.createDocument] = past ++ rest → run Sample.owner past = .ok m → ArchivedFrozen Sample.owner past m) ↔
        Steps.AllSteps step (fun m s => ¬ m.MarksArchived s) (genesis Sample.owner)
          [Sample.createPool, Sample.createDocument, Sample.byOwner (.archiveDocument 5), Sample.createDocument]) := by
  obtain ⟨w, hw⟩ := exists_ok_of_returns (x := run Sample.owner [Sample.createPool, Sample.createDocument,
    Sample.byOwner (.archiveDocument 5), Sample.createDocument]) rfl
  exact ⟨w, hw, archived_frozen_iff hw⟩

/-- The owner archives a document and then takes it off the list of required ones: the document has changed. -/
theorem markAsRequired_changes_archived :
    ∃ w, run Sample.owner [Sample.createPool, Sample.createDocument, Sample.byOwner (.archiveDocument 5),
        Sample.byOwner (.markAsRequired 5 false)] = .ok w ∧
      ¬ ArchivedFrozen Sample.owner [Sample.createPool, Sample.createDocument, Sample.byOwner (.archiveDocument 5),
        Sample.byOwner (.markAsRequired 5 false)] w := by
  obtain ⟨w, hw, hwf⟩ := exists_ok_of_any (x := run Sample.owner [Sample.createPool, Sample.createDocument,
    Sample.byOwner (.archiveDocument 5)]) (P := fun w => (w.document 2 5).map Document.requiredFlag = some true)
    (by decide +kernel)
  obtain ⟨w', hw', hwf'⟩ := exists_ok_of_any (x := run Sample.owner [Sample.createPool, Sample.createDocument,
    Sample.byOwner (.archiveDocument 5), Sample.byOwner (.markAsRequired 5 false)])
    (P := fun w => (w.document 2 5).map Document.requiredFlag = some false) (by decide +kernel)
  refine ⟨w', hw', fun h => ?_⟩
  obtain ⟨doc, hd, _, hd'⟩ := h [Sample.createPool, Sample.createDocument] (Sample.byOwner (.archiveDocument 5))
    [Sample.byOwner (.markAsRequired 5 false)] 2 5 w rfl rfl hw
  rw [hd, Option.map_some, Option.some.injEq] at hwf
  rw [hd', Option.map_some, Option.some.injEq, hwf] at hwf'
  cases hwf'

end World

end BrineVault
