import BrineVault.Contract.Entry

/-!
# What a call changes

A call that succeeds on a pool leaves the documents alone, attaches a new one, or changes one; and it leaves the members alone,
adds one, revokes one or changes the role of one. Which of these it is, is said here once; the invariants of the package are read off it.
-/

namespace BrineVault

open Move

/-! ## Documents -/

/-- The call changes the document `docId` of its pool from the first document to the second. -/
inductive PoolCall.Changes (ctx : Ctx) : PoolCall → ID → Document → Document → Prop where
  | addVersion {docId : ID} {up : Document.Upload} {doc doc' : Document} {evs : List Event}
      (h : doc.addVersion up ctx = .ok (doc', evs)) : Changes ctx (.addVersion docId up) docId doc doc'
  | submitReview {docId : ID} {status : UInt8} {commentHash : Option (List UInt8)} {doc doc' : Document} {evs : List Event}
      (h : doc.submitReview ctx.sender status commentHash ctx = .ok (doc', evs)) :
      Changes ctx (.submitReview docId status commentHash) docId doc doc'
  | markAsRequired (docId : ID) (required : Bool) (doc : Document) :
      Changes ctx (.markAsRequired docId required) docId doc (doc.setRequiredFlag required ctx)
  | archiveDocument (docId : ID) (doc : Document) : Changes ctx (.archiveDocument docId) docId doc (doc.archive ctx)

/-- The call attaches a new document to the pool. -/
inductive PoolCall.Attaches (freshId : ID) (ctx : Ctx) (pool : Pool) : PoolCall → Document → Prop where
  | createDocument {p : Pool.DocParams} {up : Document.Upload} {doc : Document}
      (h : Document.new freshId pool.id p.folderId p.docType p.title p.requiredFlag p.visibleToRoles pool.encryptionScheme
        p.tags up ctx = .ok doc) : Attaches freshId ctx pool (.createDocument p up) doc

/-- The document a call is about, when it is about one. -/
def PoolCall.target : PoolCall → Option ID
  | .addVersion docId _ | .submitReview docId _ _ | .markAsRequired docId _ | .archiveDocument docId => some docId
  | _ => none

section Exec

variable {config : AdminConfig} {freshId : ID} {ctx : Ctx} {pool pool' : Pool} {call : PoolCall} {evs : List Event}

/-- A call that attaches a document is aimed at none. -/
theorem PoolCall.Attaches.target {doc : Document} (h : call.Attaches freshId ctx pool doc) : call.target = none := by
  cases h
  rfl

/-- A call that changes a document is aimed at it. -/
theorem PoolCall.Changes.target {docId : ID} {doc doc' : Document} (h : call.Changes ctx docId doc doc') :
    call.target = some docId := by
  cases h <;> rfl

/-- A changed document keeps its identity. -/
theorem PoolCall.Changes.frame {docId : ID} {doc doc' : Document} (h : call.Changes ctx docId doc doc') :
    doc'.id = doc.id ∧ doc'.poolId = doc.poolId := by
  cases h with
  | addVersion h =>
    obtain ⟨_, _, _, _, rfl, _⟩ := Document.addVersion_ok h
    exact ⟨rfl, rfl⟩
  | submitReview h =>
    obtain ⟨_, _, ⟨_, rfl, _⟩, _⟩ := Document.submitReview_ok h
    exact ⟨rfl, rfl⟩
  | markAsRequired => exact ⟨rfl, rfl⟩
  | archiveDocument => exact ⟨rfl, rfl⟩

/-- What the function of a call checks before it hands a document on: a new file has a blob, and nobody reviews a version of
their own. -/
def PoolCall.Checked (ctx : Ctx) (pool : Pool) : PoolCall → Prop
  | .createDocument _ up | .addVersion _ up => up.walrusBlobId ≠ []
  | .submitReview docId _ _ => ∀ doc ver, pool.documents.lookup docId = some doc →
      doc.versions.lookup doc.currentVersion = some ver → ctx.sender ≠ ver.uploadedBy
  | _ => True

/-- A call that succeeds has passed the checks of its arguments. -/
theorem PoolCall.exec_checked (h : call.exec config freshId ctx pool = .ok (pool', evs)) : call.Checked ctx pool := by
  cases call with
  | createDocument p up =>
    simp only [exec, Pool.createDocument, bind_eq_ok, assert_eq_ok] at h
    obtain ⟨_, _, _, _, _, _, _, _, _, hb, _⟩ := h
    exact hb
  | addVersion docId up =>
    simp only [exec, Pool.addVersion, bind_eq_ok, assert_eq_ok] at h
    obtain ⟨_, _, _, _, _, hb, _⟩ := h
    exact hb
  | submitReview docId status comment =>
    simp only [exec, Pool.submitReview, Document.currentVersionUploader, bind_eq_ok, assert_eq_ok, pure_eq_ok,
      Pool.borrowDocument_ok, Table.borrow_eq_ok] at h
    obtain ⟨_, _, _, _, doc, hl, _, ⟨ver, hv, rfl⟩, _, hne, _⟩ := h
    intro doc' ver' hl' hv'
    rw [hl, Option.some.injEq] at hl'
    subst hl'
    rw [hv, Option.some.injEq] at hv'
    subst hv'
    exact hne
  | _ => trivial

/-! ## Members -/

/-- The members of a room as the outside is told of them: the role of an address and whether it is active. -/
def DataRoom.roster (dr : DataRoom) (addr : Address) : Option (UInt8 × Bool) :=
  (dr.members.lookup addr).map fun m => (m.role, m.isActive)

/-- A member put into the table is entered in the roster. -/
theorem DataRoom.roster_insert (dr : DataRoom) (addr : Address) (m : Membership) (n t : Nat) :
    DataRoom.roster { dr with members := dr.members.insert addr m, memberCount := n, lastUpdatedAt := t } =
      Function.update dr.roster addr (some (m.role, m.isActive)) := by
  funext a
  simp only [roster, Table.lookup_insert, Function.update_apply]
  split <;> rfl

/-- The events that tell of the members of a room. -/
def Event.isMembership : Event → Bool
  | .dataRoomCreated .. | .memberAdded .. | .memberRemoved .. | .memberRoleUpdated .. => true
  | _ => false

/-- The call changes the members of a room, and this is the event that tells of it. -/
inductive PoolCall.Enrols (ctx : Ctx) (dr : DataRoom) : PoolCall → (Address → Option (UInt8 × Bool)) → Event → Prop where
  | addMember {addr : Address} {role : UInt8} {tags : List MoveString} (hn : dr.isActiveMember addr = false) :
      Enrols ctx dr (.addMember addr role tags) (Function.update dr.roster addr (some (role, true)))
        (.memberAdded dr.poolId addr role ctx.sender ctx.now)
  | removeMember {addr : Address} {role : UInt8} (hm : dr.roster addr = some (role, true)) (ho : addr ≠ dr.owner) :
      Enrols ctx dr (.removeMember addr) (Function.update dr.roster addr (some (role, false)))
        (.memberRemoved dr.poolId addr ctx.sender ctx.now)
  | updateMemberRole {addr : Address} {role newRole : UInt8} (hm : dr.roster addr = some (role, true)) :
      Enrols ctx dr (.updateMemberRole addr newRole) (Function.update dr.roster addr (some (newRole, true)))
        (.memberRoleUpdated dr.id addr role newRole ctx.sender ctx.now)

/-- The calls on the members of the room. -/
def PoolCall.onMembers : PoolCall → Bool
  | .addMember .. | .removeMember .. | .updateMemberRole .. => true
  | _ => false

/-- A call that enrols is aimed at no document, and works on the members. -/
theorem PoolCall.Enrols.target {dr : DataRoom} {roster : Address → Option (UInt8 × Bool)} {e : Event}
    (h : call.Enrols ctx dr roster e) : call.target = none ∧ call.onMembers = true := by
  cases h with
  | addMember => exact ⟨rfl, rfl⟩
  | removeMember => exact ⟨rfl, rfl⟩
  | updateMemberRole => exact ⟨rfl, rfl⟩

/-! ## Decisions and states -/

/-- The decision a call records, where it records one: its type, and the state it takes the pool to. -/
def PoolCall.decision : PoolCall → Option (UInt8 × UInt8 × IcRecord)
  | .recordIcApproval r => some (Types.icApprove, Types.poolStateApprovedInternal, r)
  | .recordIcRejection r => some (Types.icReject, Types.poolStateRejected, r)
  | .recordIcRequestChanges r => some (Types.icRequestChanges, Types.poolStateDdInProgress, r)
  | _ => none

/-- The changes of state made without a decision. -/
def Pool.moves : List (UInt8 × UInt8) :=
  [(Types.poolStateDraft, Types.poolStateDdInProgress), (Types.poolStateDdInProgress, Types.poolStateIcReview),
   (Types.poolStateApprovedInternal, Types.poolStateReadyToIssue), (Types.poolStateRejected, Types.poolStateDraft),
   (Types.poolStateDraft, Types.poolStateCancelled), (Types.poolStateDdInProgress, Types.poolStateCancelled)]

/-- The decisions, their number and the remembered approval are the same. -/
def Pool.SameDecisions (pool pool' : Pool) : Prop :=
  pool'.icDecisions = pool.icDecisions ∧ pool'.icDecisionCount = pool.icDecisionCount ∧
    pool'.hasIcApprovalCached = pool.hasIcApprovalCached

/-! ## The parts of a pool -/

/-- The identities of a room and its owner are the same. -/
def DataRoom.SameFrame (dr dr' : DataRoom) : Prop := dr'.id = dr.id ∧ dr'.poolId = dr.poolId ∧ dr'.owner = dr.owner

/-- What a call does to its pool, by the part of it that changes. -/
inductive PoolCall.Effect (config : AdminConfig) (freshId : ID) (ctx : Ctx) (pool : Pool) : PoolCall → Pool → List Event → Prop where
  | moved {call : PoolCall} {toState : UInt8} {evs : List Event} (move : (pool.currentState, toState) ∈ Pool.moves)
      (target : call.target = none) (quiet : evs.filter Event.isMembership = []) :
      Effect config freshId ctx pool call { pool with currentState := toState, lastUpdatedAt := ctx.now } evs
  | decided {call : PoolCall} {decisionType toState : UInt8} {record : IcRecord} {pool' : Pool} {evs : List Event}
      (decision : call.decision = some (decisionType, toState, record))
      (recorded : pool.recordIcDecision config decisionType toState record ctx = .ok (pool', evs)) :
      Effect config freshId ctx pool call pool' evs
  | enrolled {call : PoolCall} {dr : DataRoom} {e : Event} {evs : List Event} (enrols : call.Enrols ctx pool.dataroom dr.roster e)
      (frame : pool.dataroom.SameFrame dr) (told : evs.filter Event.isMembership = [e]) :
      Effect config freshId ctx pool call { pool with dataroom := dr } evs
  | arranged {call : PoolCall} {dr : DataRoom} {evs : List Event} (target : call.target = none) (frame : pool.dataroom.SameFrame dr)
      (members : dr.members = pool.dataroom.members) (memberCount : dr.memberCount = pool.dataroom.memberCount)
      (quiet : evs.filter Event.isMembership = []) : Effect config freshId ctx pool call { pool with dataroom := dr } evs
  | attached {call : PoolCall} {doc : Document} {evs : List Event} (attaches : call.Attaches freshId ctx pool doc)
      (fresh : pool.documents.lookup freshId = none) (quiet : evs.filter Event.isMembership = []) :
      Effect config freshId ctx pool call (pool.setDocument freshId doc) evs
  | changed {call : PoolCall} {docId : ID} {doc doc' : Document} {evs : List Event} (changes : call.Changes ctx docId doc doc')
      (attached : pool.documents.lookup docId = some doc) (quiet : evs.filter Event.isMembership = []) :
      Effect config freshId ctx pool call (pool.setDocument docId doc') evs

/-- What a call that succeeds has done, in one of these ways. -/
theorem PoolCall.exec_effect (h : call.exec config freshId ctx pool = .ok (pool', evs)) :
    call.Effect config freshId ctx pool pool' evs := by
  cases call with
  | progressToDd =>
    obtain ⟨hf, _, rfl, rfl⟩ := Pool.progress_ok h
    exact .moved (by simp [Pool.moves, hf]) rfl rfl
  | progressToIcReview ids =>
    obtain ⟨hf, _, rfl, rfl⟩ := Pool.progress_ok h
    exact .moved (by simp [Pool.moves, hf]) rfl rfl
  | progressToReadyToIssue ids =>
    obtain ⟨hf, _, rfl, rfl⟩ := Pool.progress_ok h
    exact .moved (by simp [Pool.moves, hf]) rfl rfl
  | reopenRejectedPool =>
    obtain ⟨hf, _, rfl, rfl⟩ := Pool.progress_ok h
    exact .moved (by simp [Pool.moves, hf]) rfl rfl
  | cancelPool =>
    have hf := Pool.cancelPool_from h
    obtain ⟨rfl, rfl⟩ := Pool.cancelPool_ok h
    refine .moved ?_ rfl rfl
    rcases hf with hf | hf <;> simp [Pool.moves, hf]
  | recordIcApproval r => exact .decided rfl h
  | recordIcRejection r => exact .decided rfl h
  | recordIcRequestChanges r => exact .decided rfl h
  | addMember a role tags =>
    obtain ⟨_, ⟨dr, hd, rfl⟩, rfl⟩ := Pool.addMember_ok h
    obtain ⟨hn, ⟨m, rfl, ha, _, rfl⟩, _⟩ := Pool.addOrReactivate_ok hd
    refine .enrolled ?_ ⟨rfl, rfl, rfl⟩ rfl
    rw [DataRoom.roster_insert, ha]
    exact .addMember hn
  | removeMember a =>
    obtain ⟨ho, ⟨dr, hd, rfl⟩, rfl⟩ := Pool.removeMember_ok h
    obtain ⟨m, hm, ha, _, rfl, _⟩ := DataRoom.revokeMember_ok hd
    refine .enrolled ?_ ⟨rfl, rfl, rfl⟩ rfl
    rw [DataRoom.roster_insert]
    exact .removeMember (by rw [DataRoom.roster, hm, Option.map_some, ha]) ho
  | updateMemberRole a role =>
    obtain ⟨_, _, m, hm, ha, rfl, rfl⟩ := Pool.updateMemberRole_ok h
    refine .enrolled ?_ ⟨rfl, rfl, rfl⟩ rfl
    rw [DataRoom.roster_insert]
    simp only [ha]
    exact .updateMemberRole (by rw [DataRoom.roster, hm, Option.map_some, ha])
  | createCustomFolder name parent roles =>
    obtain ⟨⟨_, rfl⟩, _, rfl⟩ := Pool.createCustomFolder_ok h
    exact .arranged rfl ⟨rfl, rfl, rfl⟩ rfl rfl rfl
  | storeEncryptedFolderKey folder a key =>
    obtain ⟨rfl, rfl⟩ := Pool.storeEncryptedFolderKey_ok h
    exact .arranged rfl ⟨rfl, rfl, rfl⟩ rfl rfl rfl
  | createDocument p up =>
    obtain ⟨⟨doc, hd, hl, rfl⟩, rfl⟩ := Pool.createDocument_ok h
    exact .attached (.createDocument hd) hl rfl
  | addVersion docId up =>
    obtain ⟨doc, doc', _, hl, hd, rfl, rfl⟩ := Pool.addVersion_ok h
    obtain ⟨_, _, _, _, _, rfl⟩ := Document.addVersion_ok hd
    exact .changed (.addVersion hd) hl rfl
  | submitReview docId status comment =>
    obtain ⟨doc, doc', _, hl, hd, rfl, rfl⟩ := Pool.submitReview_ok h
    obtain ⟨_, _, _, rfl⟩ := Document.submitReview_ok hd
    exact .changed (.submitReview hd) hl rfl
  | markAsRequired docId required =>
    obtain ⟨doc, hl, rfl, rfl⟩ := Pool.markAsRequired_ok h
    exact .changed (.markAsRequired docId required doc) hl rfl
  | archiveDocument docId =>
    obtain ⟨doc, hl, rfl, rfl⟩ := Pool.archiveDocument_ok h
    exact .changed (.archiveDocument docId doc) hl rfl

/-! ## What an effect leaves alone -/

/-- A call that records a decision is about no document. -/
theorem PoolCall.target_of_decision {d : UInt8 × UInt8 × IcRecord} (h : call.decision = some d) : call.target = none := by
  cases call with
  | recordIcApproval => rfl
  | recordIcRejection => rfl
  | recordIcRequestChanges => rfl
  | _ => cases h

/-- What a call does to the documents of its pool. -/
theorem PoolCall.exec_documents (h : call.exec config freshId ctx pool = .ok (pool', evs)) :
    (call.target = none ∧ pool'.documents = pool.documents) ∨
      (∃ doc, call.Attaches freshId ctx pool doc ∧ pool.documents.lookup freshId = none ∧
        pool'.documents = pool.documents.insert freshId doc) ∨
      (∃ docId doc doc', call.Changes ctx docId doc doc' ∧ pool.documents.lookup docId = some doc ∧
        pool'.documents = pool.documents.insert docId doc') := by
  cases exec_effect h with
  | moved _ target => exact .inl ⟨target, rfl⟩
  | decided decision recorded =>
    obtain ⟨_, _, _, _, hdocuments, _⟩ := Pool.recordIcDecision_ok recorded
    exact .inl ⟨target_of_decision decision, hdocuments⟩
  | enrolled enrols => exact .inl ⟨enrols.target.1, rfl⟩
  | arranged target => exact .inl ⟨target, rfl⟩
  | attached attaches fresh => exact .inr (.inl ⟨_, attaches, fresh, rfl⟩)
  | changed changes hl => exact .inr (.inr ⟨_, _, _, changes, hl, rfl⟩)

/-- What a call does to the members of its pool, and what it tells of it. -/
theorem PoolCall.exec_members (h : call.exec config freshId ctx pool = .ok (pool', evs)) :
    (pool'.dataroom.roster = pool.dataroom.roster ∧ evs.filter Event.isMembership = []) ∨
      ∃ e, call.Enrols ctx pool.dataroom pool'.dataroom.roster e ∧ evs.filter Event.isMembership = [e] := by
  cases exec_effect h with
  | moved _ _ quiet => exact .inl ⟨rfl, quiet⟩
  | decided decision recorded =>
    obtain ⟨_, _, _, hroom, _, rfl⟩ := Pool.recordIcDecision_ok recorded
    exact .inl ⟨by rw [hroom], rfl⟩
  | enrolled enrols _ told => exact .inr ⟨_, enrols, told⟩
  | arranged _ _ members _ quiet =>
    refine .inl ⟨?_, quiet⟩
    funext a
    rw [DataRoom.roster, DataRoom.roster, members]
  | attached _ _ quiet => exact .inl ⟨rfl, quiet⟩
  | changed _ _ quiet => exact .inl ⟨rfl, quiet⟩

/-- Every other call leaves the members and their number alone. -/
theorem PoolCall.exec_onMembers (h : call.exec config freshId ctx pool = .ok (pool', evs)) (hc : call.onMembers = false) :
    pool'.dataroom.members = pool.dataroom.members ∧ pool'.dataroom.memberCount = pool.dataroom.memberCount := by
  cases exec_effect h with
  | moved => exact ⟨rfl, rfl⟩
  | decided _ recorded =>
    obtain ⟨_, _, _, hroom, _, _⟩ := Pool.recordIcDecision_ok recorded
    exact ⟨by rw [hroom], by rw [hroom]⟩
  | enrolled enrols =>
    rw [enrols.target.2] at hc
    cases hc
  | arranged _ _ members memberCount => exact ⟨members, memberCount⟩
  | attached => exact ⟨rfl, rfl⟩
  | changed => exact ⟨rfl, rfl⟩

/-- What a call does to the decisions and to the state of its pool: it records a decision, or it leaves the decisions alone and
makes one of the other changes of state, or none. -/
theorem PoolCall.exec_decisions (h : call.exec config freshId ctx pool = .ok (pool', evs)) :
    (∃ decisionType toState record, call.decision = some (decisionType, toState, record) ∧
      pool.recordIcDecision config decisionType toState record ctx = .ok (pool', evs)) ∨
    (pool.SameDecisions pool' ∧
      (pool'.currentState = pool.currentState ∨ (pool.currentState, pool'.currentState) ∈ Pool.moves)) := by
  cases exec_effect h with
  | moved move => exact .inr ⟨⟨rfl, rfl, rfl⟩, .inr move⟩
  | decided decision recorded => exact .inl ⟨_, _, _, decision, recorded⟩
  | enrolled => exact .inr ⟨⟨rfl, rfl, rfl⟩, .inl rfl⟩
  | arranged => exact .inr ⟨⟨rfl, rfl, rfl⟩, .inl rfl⟩
  | attached => exact .inr ⟨⟨rfl, rfl, rfl⟩, .inl rfl⟩
  | changed => exact .inr ⟨⟨rfl, rfl, rfl⟩, .inl rfl⟩

/-- A call keeps the identities of the pool and of its room, and the owner. -/
theorem PoolCall.exec_frame (h : call.exec config freshId ctx pool = .ok (pool', evs)) :
    pool'.id = pool.id ∧ pool'.dataroom.id = pool.dataroom.id ∧ pool'.dataroom.poolId = pool.dataroom.poolId ∧
      pool'.dataroom.owner = pool.dataroom.owner := by
  cases exec_effect h with
  | moved => exact ⟨rfl, rfl, rfl, rfl⟩
  | decided _ recorded =>
    obtain ⟨_, hid, _, hroom, _, _⟩ := Pool.recordIcDecision_ok recorded
    simp only [hid, hroom, and_self]
  | enrolled _ frame => exact ⟨rfl, frame⟩
  | arranged _ frame => exact ⟨rfl, frame⟩
  | attached => exact ⟨rfl, rfl, rfl, rfl⟩
  | changed => exact ⟨rfl, rfl, rfl, rfl⟩

end Exec

end BrineVault
