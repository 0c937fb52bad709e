import BrineVault.Contract.Approvals
import BrineVault.Contract.Provenance
import BrineVault.Lib.Timeline

/-!
# The times a pool keeps

The clock of the chain does not go back. So what a pool keeps was made after the pool and before its last update, the versions, the
folders and the decisions are in the order of their numbers, and a member was revoked after being added.
-/

namespace BrineVault

open Move

/-- The times of a document: between its creation and its last update, which are between the two. -/
structure Document.Dated (first last : Nat) (doc : Document) : Prop where
  created : first ≤ doc.createdAt
  updated : doc.createdAt ≤ doc.lastUpdatedAt
  bounded : doc.lastUpdatedAt ≤ last
  versions : Table.Within DocVersion.uploadedAt doc.createdAt doc.lastUpdatedAt doc.versions
  inOrder : Table.InOrder DocVersion.uploadedAt doc.versions
  numbers : ∀ k ∈ doc.versions, k ≤ doc.versionCount
  reviews : Table.Within ReviewRecord.reviewedAt doc.createdAt doc.lastUpdatedAt doc.reviews

/-- The times of a data room. -/
structure DataRoom.Dated (last : Nat) (dr : DataRoom) : Prop where
  updated : dr.createdAt ≤ dr.lastUpdatedAt
  bounded : dr.lastUpdatedAt ≤ last
  members : Table.Within Membership.addedAt dr.createdAt dr.lastUpdatedAt dr.members
  revoked : ∀ addr m t, dr.members.lookup addr = some m → m.revokedAt = some t → m.addedAt ≤ t ∧ t ≤ dr.lastUpdatedAt
  folders : Table.Within FolderMeta.createdAt dr.createdAt dr.lastUpdatedAt dr.folders
  inOrder : Table.InOrder FolderMeta.createdAt dr.folders
  numbers : ∀ k ∈ dr.folders, k < dr.customFolderCount

/-- The times of a pool. The pool and its room are made together; each of the two and each document has a last update of its own. -/
structure Pool.Dated (last : Nat) (pool : Pool) : Prop where
  updated : pool.createdAt ≤ pool.lastUpdatedAt
  bounded : pool.lastUpdatedAt ≤ last
  decisions : Table.Within IcDecision.createdAt pool.createdAt pool.lastUpdatedAt pool.icDecisions
  inOrder : Table.InOrder IcDecision.createdAt pool.icDecisions
  numbers : ∀ k ∈ pool.icDecisions, k < pool.icDecisionCount
  together : pool.dataroom.createdAt = pool.createdAt
  dataroom : pool.dataroom.Dated last
  documents : ∀ docId doc, pool.documents.lookup docId = some doc → doc.Dated pool.createdAt last

/-! ## Documents -/

namespace Document.Dated

variable {first last : Nat} {doc : Document}

/-- Dates up to a time are dates up to a later one. -/
theorem mono {last' : Nat} (h : doc.Dated first last) (hle : last ≤ last') : doc.Dated first last' :=
  { h with bounded := Nat.le_trans h.bounded hle }

/-- A document is dated when it is created. -/
theorem new {freshId : ID} {ctx : Ctx} {pool : Pool} {call : PoolCall} (h : call.Attaches freshId ctx pool doc)
    (hle : first ≤ ctx.now) : doc.Dated first ctx.now := by
  cases h with
  | createDocument h =>
    obtain ⟨_, _, rfl⟩ := Document.new_ok h
    constructor
    · exact hle
    · exact Nat.le_refl _
    · exact Nat.le_refl _
    · exact Table.within_empty.insert (Nat.le_refl _) (Nat.le_refl _)
    · exact Table.inOrder_empty.insert (fun k hk => by simp at hk) (fun k v hl => by cases hl)
    · intro k hk
      rw [AList.mem_insert] at hk
      obtain rfl | hk := hk
      · exact Nat.le_refl 1
      · simp at hk
    · exact Table.within_empty

/-- A change that leaves versions and reviews alone. -/
theorem touch {doc' : Document} {now : Nat} (h : doc.Dated first last) (hle : last ≤ now)
    (hcreated : doc'.createdAt = doc.createdAt) (hupdated : doc'.lastUpdatedAt = now) (hversions : doc'.versions = doc.versions)
    (hcount : doc'.versionCount = doc.versionCount) (hreviews : doc'.reviews = doc.reviews) : doc'.Dated first now := by
  have hlast := Nat.le_trans h.bounded hle
  constructor
  · exact hcreated.symm ▸ h.created
  · exact hcreated.symm ▸ hupdated.symm ▸ Nat.le_trans h.updated hlast
  · exact Nat.le_of_eq hupdated
  · rw [hcreated, hupdated, hversions]
    exact h.versions.mono hlast
  · exact hversions.symm ▸ h.inOrder
  · rw [hversions, hcount]
    exact h.numbers
  · rw [hcreated, hupdated, hreviews]
    exact h.reviews.mono hlast

theorem changes {docId : ID} {ctx : Ctx} {call : PoolCall} {doc' : Document} (h : doc.Dated first last) (hle : last ≤ ctx.now)
    (hc : call.Changes ctx docId doc doc') : doc'.Dated first ctx.now := by
  have hlast := Nat.le_trans h.bounded hle
  have hcreated := Nat.le_trans h.updated hlast
  cases hc with
  | addVersion hadd =>
    obtain ⟨_, _, _, _, rfl, _⟩ := Document.addVersion_ok hadd
    constructor
    · exact h.created
    · exact hcreated
    · exact Nat.le_refl _
    · exact h.versions.insert_last rfl hcreated hlast
    · refine h.inOrder.insert (fun k hk => Nat.lt_succ_of_le (h.numbers k hk)) ?_
      intro k v hl
      exact Nat.le_trans (h.versions k v hl).2 hlast
    · intro k hk
      rw [AList.mem_insert] at hk
      obtain rfl | hk := hk
      · exact Nat.le_refl _
      · exact Nat.le_succ_of_le (h.numbers k hk)
    · exact h.reviews.mono hlast
  | submitReview hsub =>
    obtain ⟨_, _, ⟨_, rfl, _⟩, _⟩ := Document.submitReview_ok hsub
    exact { h with
      updated := hcreated
      bounded := Nat.le_refl _
      versions := h.versions.mono hlast
      reviews := h.reviews.insert_last rfl hcreated hlast }
  | markAsRequired => exact h.touch hle rfl rfl rfl rfl rfl
  | archiveDocument => exact h.touch hle rfl rfl rfl rfl rfl

end Document.Dated

/-! ## Data rooms -/

namespace DataRoom.Dated

variable {last : Nat} {dr : DataRoom}

/-- Dates up to a time are dates up to a later one. -/
theorem mono {last' : Nat} (h : dr.Dated last) (hle : last ≤ last') : dr.Dated last' :=
  { h with bounded := Nat.le_trans h.bounded hle }

/-- The loop over the default folders makes them all at the same time. -/
theorem createDefaultFolders {names : List MoveString} {dr dr' : DataRoom} {creator : Address} {now i : Nat}
    (h : dr.createDefaultFolders creator now i names = .ok dr')
    (hnow : ∀ k f, dr.folders.lookup k = some f → f.createdAt = now) :
    ∀ k f, dr'.folders.lookup k = some f → f.createdAt = now := by
  induction names generalizing dr i with
  | nil =>
    cases h
    exact hnow
  | cons name names ih =>
    simp only [DataRoom.createDefaultFolders, bind_eq_ok, Table.add_eq_ok] at h
    obtain ⟨_, ⟨_, rfl⟩, h⟩ := h
    refine ih h fun k f hl => ?_
    obtain ⟨rfl, rfl⟩ | hl := Table.lookup_insert_cases hl
    · rfl
    · exact hnow k f hl

/-- A room is dated when it is created. -/
theorem new {id poolId : ID} {owner : Address} {ctx : Ctx} {evs : List Event}
    (h : DataRoom.new id poolId owner ctx = .ok (dr, evs)) : dr.Dated ctx.now := by
  have htree := FolderTree.new h
  simp only [DataRoom.new, bind_eq_ok, pure_eq_ok, Table.add_eq_ok, Prod.mk.injEq] at h
  obtain ⟨_, ⟨_, rfl⟩, dr', hf, rfl, _⟩ := h
  have hfolders := createDefaultFolders hf (fun k f hl => by cases hl)
  obtain ⟨fs, ds, rfl⟩ := createDefaultFolders_ok hf
  constructor
  · exact Nat.le_refl _
  · exact Nat.le_refl _
  · exact Table.within_empty.insert (Nat.le_refl _) (Nat.le_refl _)
  · intro addr m t hl ht
    obtain ⟨rfl, rfl⟩ | hl := Table.lookup_insert_cases hl
    · cases ht
    · cases hl
  · intro k f hl
    have heq := hfolders k f hl
    exact ⟨Nat.le_of_eq heq.symm, Nat.le_of_eq heq⟩
  · intro k k' f f' _ hl hl'
    rw [hfolders k f hl, hfolders k' f' hl']
  · intro k hk
    have hdefault : defaultFolderNames.length ≤ customFolderStartId := by decide
    obtain hlt | ⟨_, hlt⟩ := (htree.keys k).1 hk
    · exact Nat.lt_of_lt_of_le hlt hdefault
    · exact hlt

/-- One entry of a member is written. -/
theorem member {addr : Address} {m : Membership} {n now : Nat} (h : dr.Dated last) (hle : last ≤ now)
    (hadded : dr.createdAt ≤ m.addedAt ∧ m.addedAt ≤ now) (hrevoked : ∀ t, m.revokedAt = some t → m.addedAt ≤ t ∧ t ≤ now) :
    DataRoom.Dated now { dr with members := dr.members.insert addr m, memberCount := n, lastUpdatedAt := now } := by
  have hlast := Nat.le_trans h.bounded hle
  refine { h with updated := Nat.le_trans h.updated hlast, bounded := Nat.le_refl _, members := ?_, revoked := ?_, folders := ?_ }
  · exact (h.members.mono hlast).insert hadded.1 hadded.2
  · intro addr' m' t hl ht
    obtain ⟨rfl, rfl⟩ | hl := Table.lookup_insert_cases hl
    · exact hrevoked t ht
    · obtain ⟨hfrom, hto⟩ := h.revoked addr' m' t hl ht
      exact ⟨hfrom, Nat.le_trans hto hlast⟩
  · exact h.folders.mono hlast

/-- A room stays dated with a member added or taken back. -/
theorem addOrReactivate {config : AdminConfig} {dr' : DataRoom} {addr : Address} {role : UInt8} {tags : List MoveString}
    {ctx : Ctx} {evs : List Event} (h : dr.Dated last) (hle : last ≤ ctx.now)
    (hok : Pool.addOrReactivate config dr addr role tags ctx = .ok (dr', evs)) : dr'.Dated ctx.now := by
  have hlast := Nat.le_trans h.bounded hle
  unfold Pool.addOrReactivate at hok
  split at hok
  · obtain ⟨_, _, hok⟩ := bind_eq_ok.1 hok
    obtain ⟨old, hl, _, rfl, _⟩ := DataRoom.reactivateMember_ok hok
    obtain ⟨hfrom, hto⟩ := h.members addr old hl
    refine h.member hle ⟨hfrom, Nat.le_trans hto hlast⟩ fun t ht => ?_
    cases ht
  · obtain ⟨_, _, hok⟩ := bind_eq_ok.1 hok
    obtain ⟨_, _, _, _, rfl, _⟩ := DataRoom.addMember_ok hok
    refine h.member hle ⟨Nat.le_trans h.updated hlast, Nat.le_refl _⟩ fun t ht => ?_
    cases ht

theorem revokeMember {dr' : DataRoom} {addr removedBy : Address} {ctx : Ctx} {evs : List Event} (h : dr.Dated last)
    (hle : last ≤ ctx.now) (hok : dr.revokeMember addr removedBy ctx = .ok (dr', evs)) : dr'.Dated ctx.now := by
  obtain ⟨m, hl, _, _, rfl, _⟩ := DataRoom.revokeMember_ok hok
  obtain ⟨hfrom, hto⟩ := h.members addr m hl
  have hnow := Nat.le_trans hto (Nat.le_trans h.bounded hle)
  refine h.member hle ⟨hfrom, hnow⟩ fun t ht => ?_
  cases ht
  exact ⟨hnow, Nat.le_refl _⟩

theorem createCustomFolder {dr' : DataRoom} {name : MoveString} {parentId : Option Nat} {visibleToRoles : UInt8}
    {creator : Address} {ctx : Ctx} {evs : List Event} (h : dr.Dated last) (hle : last ≤ ctx.now)
    (hok : dr.createCustomFolder name parentId visibleToRoles creator ctx = .ok (dr', evs)) : dr'.Dated ctx.now := by
  have hlast := Nat.le_trans h.bounded hle
  obtain ⟨_, _, _, rfl, _⟩ := DataRoom.createCustomFolder_ok hok
  constructor
  · exact Nat.le_trans h.updated hlast
  · exact Nat.le_refl _
  · exact h.members.mono hlast
  · intro addr m t hl ht
    obtain ⟨hfrom, hto⟩ := h.revoked addr m t hl ht
    exact ⟨hfrom, Nat.le_trans hto hlast⟩
  · exact h.folders.insert_last rfl (Nat.le_trans h.updated hlast) hlast
  · refine h.inOrder.insert h.numbers fun k f hl => ?_
    exact Nat.le_trans (h.folders k f hl).2 hlast
  · intro k hk
    rw [AList.mem_insert] at hk
    obtain rfl | hk := hk
    · exact Nat.lt_succ_self _
    · exact Nat.lt_succ_of_lt (h.numbers k hk)

end DataRoom.Dated

/-! ## Pools -/

namespace Pool.Dated

variable {last : Nat} {pool : Pool}

/-- Dates up to a time are dates up to a later one. -/
theorem mono {last' : Nat} (h : pool.Dated last) (hle : last ≤ last') : pool.Dated last' :=
  { h with
    bounded := Nat.le_trans h.bounded hle
    dataroom := h.dataroom.mono hle
    documents := fun docId doc hl => (h.documents docId doc hl).mono hle }

/-- A pool is dated when it is created. -/
theorem new {config : AdminConfig} {id dataroomId : ID} {p : Params} {ctx : Ctx} {evs : List Event}
    (h : createPool config id dataroomId p ctx = .ok (pool, evs)) : pool.Dated ctx.now := by
  simp only [createPool, bind_eq_ok, pure_eq_ok, Prod.mk.injEq, Prod.exists] at h
  obtain ⟨_, _, _, _, _, _, _, _, dr, devs, hnew, rfl, _⟩ := h
  have hroom := DataRoom.Dated.new hnew
  have htogether : dr.createdAt = ctx.now := by
    simp only [DataRoom.new, bind_eq_ok, pure_eq_ok, Prod.mk.injEq] at hnew
    obtain ⟨_, _, dr', hf, rfl, _⟩ := hnew
    obtain ⟨_, _, rfl⟩ := DataRoom.createDefaultFolders_ok hf
    rfl
  constructor
  · exact Nat.le_refl _
  · exact Nat.le_refl _
  · exact Table.within_empty
  · exact Table.inOrder_empty
  · intro k hk
    simp at hk
  · exact htogether
  · exact hroom
  · intro docId doc hl
    cases hl

/-- The pool moves to another state. -/
theorem move {toState : UInt8} {now : Nat} (h : pool.Dated last) (hle : last ≤ now) :
    Pool.Dated now { pool with currentState := toState, lastUpdatedAt := now } := by
  have hlast := Nat.le_trans h.bounded hle
  have hm := h.mono hle
  exact { hm with updated := Nat.le_trans h.updated hlast, bounded := Nat.le_refl _, decisions := h.decisions.mono hlast }

theorem decide {config : AdminConfig} {pool' : Pool} {decisionType toState : UInt8} {record : IcRecord} {ctx : Ctx}
    {evs : List Event} (h : pool.Dated last) (hle : last ≤ ctx.now)
    (hok : pool.recordIcDecision config decisionType toState record ctx = .ok (pool', evs)) : pool'.Dated ctx.now := by
  have hlast := Nat.le_trans h.bounded hle
  have hcreated := Nat.le_trans h.updated hlast
  obtain ⟨_, ⟨d, hd, _, rfl⟩, _⟩ := recordIcDecision_eq hok
  obtain ⟨_, _, _, rfl⟩ := IcDecision.new_ok hd
  have hm := h.mono hle
  refine { hm with
    updated := hcreated
    bounded := Nat.le_refl _
    decisions := h.decisions.insert_last rfl hcreated hlast
    inOrder := h.inOrder.insert h.numbers fun k d hl => Nat.le_trans (h.decisions k d hl).2 hlast
    numbers := ?_ }
  intro k hk
  rw [AList.mem_insert] at hk
  obtain rfl | hk := hk
  · exact Nat.lt_succ_self _
  · exact Nat.lt_succ_of_lt (h.numbers k hk)

/-- A pool stays dated with a change in its room that keeps the room's date. -/
theorem room {dr : DataRoom} {now : Nat} (h : pool.Dated last) (hle : last ≤ now) (hcreated : dr.createdAt = pool.dataroom.createdAt)
    (hr : dr.Dated now) : Pool.Dated now { pool with dataroom := dr } := by
  have hm := h.mono hle
  exact { hm with together := hcreated.trans h.together, dataroom := hr }

theorem setDocument {docId : ID} {doc : Document} {now : Nat} (h : pool.Dated last) (hle : last ≤ now)
    (hd : doc.Dated pool.createdAt now) : (pool.setDocument docId doc).Dated now := by
  have hm := h.mono hle
  refine { hm with documents := ?_ }
  intro docId' doc' hl
  obtain ⟨rfl, rfl⟩ | hl := Table.lookup_insert_cases hl
  · exact hd
  · exact hm.documents docId' doc' hl

theorem exec {config : AdminConfig} {freshId : ID} {ctx : Ctx} {call : PoolCall} {pool' : Pool} {evs : List Event}
    (h : pool.Dated last) (hle : last ≤ ctx.now) (hok : call.exec config freshId ctx pool = .ok (pool', evs)) :
    pool'.Dated ctx.now := by
  cases call with
  | progressToDd | progressToIcReview | progressToReadyToIssue | reopenRejectedPool =>
    obtain ⟨_, _, rfl, _⟩ := Pool.progress_ok hok
    exact h.move hle
  | cancelPool =>
    obtain ⟨rfl, _⟩ := Pool.cancelPool_ok hok
    exact h.move hle
  | recordIcApproval | recordIcRejection | recordIcRequestChanges => exact h.decide hle hok
  | addMember =>
    obtain ⟨_, ⟨dr, hd, rfl⟩, _⟩ := Pool.addMember_ok hok
    have hr := h.dataroom.addOrReactivate hle hd
    obtain ⟨_, ⟨_, _, _, _, rfl⟩, _⟩ := Pool.addOrReactivate_ok hd
    exact h.room hle rfl hr
  | removeMember =>
    obtain ⟨_, ⟨dr, hd, rfl⟩, _⟩ := Pool.removeMember_ok hok
    have hr := h.dataroom.revokeMember hle hd
    obtain ⟨_, _, _, _, rfl, _⟩ := DataRoom.revokeMember_ok hd
    exact h.room hle rfl hr
  | updateMemberRole addr role =>
    obtain ⟨_, _, m, hl, _, rfl, _⟩ := Pool.updateMemberRole_ok hok
    have hlast := Nat.le_trans h.dataroom.bounded hle
    obtain ⟨hfrom, hto⟩ := h.dataroom.members addr m hl
    refine h.room hle rfl (h.dataroom.member hle ⟨hfrom, Nat.le_trans hto hlast⟩ fun t ht => ?_)
    obtain ⟨hfrom, hto⟩ := h.dataroom.revoked addr m t hl ht
    exact ⟨hfrom, Nat.le_trans hto hlast⟩
  | createCustomFolder =>
    simp only [PoolCall.exec, Pool.createCustomFolder, bind_eq_ok, pure_eq_ok, Prod.mk.injEq, Prod.exists] at hok
    obtain ⟨_, _, _, _, _, _, dr, devs, hd, rfl, _⟩ := hok
    have hr := h.dataroom.createCustomFolder hle hd
    obtain ⟨_, _, _, rfl, _⟩ := DataRoom.createCustomFolder_ok hd
    exact h.room hle rfl hr
  | storeEncryptedFolderKey =>
    obtain ⟨rfl, _⟩ := Pool.storeEncryptedFolderKey_ok hok
    have hr := h.dataroom.mono hle
    exact h.room hle rfl { hr with }
  | createDocument =>
    obtain ⟨⟨doc, hd, _, rfl⟩, _⟩ := Pool.createDocument_ok hok
    exact h.setDocument hle (.new (.createDocument hd) (Nat.le_trans h.updated (Nat.le_trans h.bounded hle)))
  | addVersion docId up =>
    obtain ⟨doc, doc', _, hl, hd, rfl, _⟩ := Pool.addVersion_ok hok
    have hc : PoolCall.Changes ctx (.addVersion docId up) docId doc doc' := .addVersion hd
    exact h.setDocument hle ((h.documents docId doc hl).changes hle hc)
  | submitReview docId status commentHash =>
    obtain ⟨doc, doc', _, hl, hd, rfl, _⟩ := Pool.submitReview_ok hok
    have hc : PoolCall.Changes ctx (.submitReview docId status commentHash) docId doc doc' := .submitReview hd
    exact h.setDocument hle ((h.documents docId doc hl).changes hle hc)
  | markAsRequired docId required =>
    obtain ⟨doc, hl, rfl, _⟩ := Pool.markAsRequired_ok hok
    exact h.setDocument hle ((h.documents docId doc hl).changes hle (.markAsRequired docId required doc))
  | archiveDocument docId =>
    obtain ⟨doc, hl, rfl, _⟩ := Pool.archiveDocument_ok hok
    exact h.setDocument hle ((h.documents docId doc hl).changes hle (.archiveDocument docId doc))

end Pool.Dated

namespace World

/-- The clock does not go back in the step. -/
def Clocked (w : World) (s : Step) : Prop := w.ctx.now ≤ (w.ctxOf s).now

instance (w : World) (s : Step) : Decidable (Clocked w s) := inferInstanceAs (Decidable (_ ≤ _))

/-- While the clock does not go back, the times of every pool are in order in every state: nothing is older than what it is part of or
newer than its last update, versions, folders and decisions are in the order of their numbers, and a revocation comes after the
addition of the member. -/
theorem pools_dated {publisher : Ctx} {steps : List Step} {w : World} (hr : run publisher steps = .ok w)
    (hclock : Steps.AllSteps step Clocked (genesis publisher) steps) {poolId : ID} {pool : Pool}
    (hl : w.pools.lookup poolId = some pool) : pool.Dated w.ctx.now := by
  refine Steps.run_invariant_of_allSteps step (fun _ m => ∀ poolId pool, m.pools.lookup poolId = some pool → pool.Dated m.ctx.now)
    ?_ ?_ hr hclock poolId pool hl
  · intro poolId pool hl
    cases hl
  · intro _ m s m' _ ih hc hs poolId pool hl
    rw [step_ctx hs]
    obtain ⟨evs, hd, _⟩ := step_does hs
    cases hd with
    | admin _ _ hp =>
      rw [hp] at hl
      exact (ih poolId pool hl).mono hc
    | createPool _ hnew hp =>
      rw [hp] at hl
      obtain ⟨rfl, rfl⟩ | hl := Table.lookup_insert_cases hl
      · exact .new hnew
      · exact (ih poolId pool hl).mono hc
    | onPool _ hl₀ hx hp =>
      rw [hp] at hl
      obtain ⟨rfl, rfl⟩ | hl := Table.lookup_insert_cases hl
      · exact (ih _ _ hl₀).exec hc hx
      · exact (ih poolId pool hl).mono hc

/-- A document that a reviewer approved after it was created, by the clock. -/
theorem pools_dated_sample :
    ∃ w pool, run Sample.owner [Sample.createPool, Sample.createDocument, Sample.byOwner (.addMember 8 Types.roleReviewer []),
        Sample.approve] = .ok w ∧
      Steps.AllSteps step Clocked (genesis Sample.owner) [Sample.createPool, Sample.createDocument,
        Sample.byOwner (.addMember 8 Types.roleReviewer []), Sample.approve] ∧
      w.pools.lookup 2 = some pool ∧ pool.Dated w.ctx.now := by
  have hclock : Steps.AllSteps step Clocked (genesis Sample.owner) [Sample.createPool, Sample.createDocument,
    Sample.byOwner (.addMember 8 Types.roleReviewer []), Sample.approve] := by decide
  refine ⟨_, _, rfl, hclock, rfl, ?_⟩
  exact @pools_dated Sample.owner [Sample.createPool, Sample.createDocument,
    Sample.byOwner (.addMember 8 Types.roleReviewer []), Sample.approve] _ rfl hclock 2 _ rfl

end World

end BrineVault
