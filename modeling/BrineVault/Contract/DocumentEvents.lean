import BrineVault.Contract.Records
import BrineVault.Contract.StateChanges

/-!
# What the events tell of the documents

Every version of a document is told in the log, the first by the event that creates the document, and that event comes after the
announcements of the pool. Whether a document is required is told by no event.
-/

namespace BrineVault

open Move

/-- The number of the version of the document that an event tells of. -/
def Event.tellsVersion (k : ID) : Event → Option Nat
  | .documentCreated _ docId _ _ _ version _ _ _ _ => if docId = k then some version else none
  | .documentVersionAdded _ docId version _ _ _ _ => if docId = k then some version else none
  | _ => none

/-- The pool in which an event creates the document. -/
def Event.createsDocument (k : ID) : Event → Option ID
  | .documentCreated poolId docId _ _ _ _ _ _ _ _ => if docId = k then some poolId else none
  | _ => none

/-- The versions of the document that are told, in their order. -/
def versionsTold (k : ID) (es : List Event) : List Nat := es.filterMap (Event.tellsVersion k)

@[simp] theorem versionsTold_append (k : ID) (es fs : List Event) :
    versionsTold k (es ++ fs) = versionsTold k es ++ versionsTold k fs := List.filterMap_append

theorem versionsTold_eq_nil {k : ID} {es : List Event} (h : ∀ e ∈ es, e.tellsVersion k = none) : versionsTold k es = [] :=
  List.filterMap_eq_nil_iff.2 h

/-- The event that creates a document tells of its first version. -/
theorem tellsVersion_ne_none {k poolId : ID} {e : Event} (h : e.createsDocument k = some poolId) : e.tellsVersion k ≠ none := by
  cases e with
  | documentCreated _ docId =>
    simp only [Event.createsDocument] at h
    split at h
    · rename_i hk
      simp [Event.tellsVersion, hk]
    · cases h
  | _ => cases h

/-- A document that is created in the log is told of. -/
theorem versionsTold_ne_nil {k poolId : ID} {es : List Event} {e : Event} (hm : e ∈ es) (h : e.createsDocument k = some poolId) :
    versionsTold k es ≠ [] := by
  intro hnil
  exact tellsVersion_ne_none h (List.filterMap_eq_nil_iff.1 hnil e hm)

/-- An event with the audit event after it. -/
theorem versionsTold_pair {k : ID} {e audit : Event} (haudit : audit.tellsVersion k = none) :
    versionsTold k [e, audit] = (e.tellsVersion k).toList := by
  rw [versionsTold, List.filterMap_cons, List.filterMap_cons, haudit, List.filterMap_nil]
  cases e.tellsVersion k <;> rfl

/-- Of an event and the audit event after it, the first creates the document. -/
theorem first_of_pair {k q : ID} {e f audit : Event} {part rest : List Event} (haudit : audit.tellsVersion k = none)
    (hsplit : [e, audit] = part ++ f :: rest) (hcreate : f.createsDocument k = some q) : part = [] ∧ f = e := by
  cases part with
  | nil =>
    rw [List.nil_append, List.cons.injEq] at hsplit
    exact ⟨rfl, hsplit.1.symm⟩
  | cons a part =>
    rw [List.cons_append, List.cons.injEq] at hsplit
    have hf : f = audit := List.mem_singleton.1 (by rw [hsplit.2]; simp)
    rw [← hf] at haudit
    exact absurd haudit (tellsVersion_ne_none hcreate)

/-- An event and its entry in the audit trail, of which neither tells of a version. -/
theorem forall_tellsVersion_pair {k : ID} {e audit : Event} (he : e.tellsVersion k = none) (haudit : audit.tellsVersion k = none) :
    ∀ f ∈ [e, audit], f.tellsVersion k = none :=
  List.forall_mem_cons.2 ⟨he, List.forall_mem_singleton.2 haudit⟩

/-! ## One call -/

/-- What a call does to the versions of the documents of its pool, and what it tells of them: nothing, a new document or a new version. -/
inductive PoolCall.Tells (freshId : ID) (pool : Pool) (call : PoolCall) (pool' : Pool) (evs : List Event) : Prop where
  | quiet (hquiet : ∀ k, ∀ e ∈ evs, e.tellsVersion k = none)
      (hkept : ∀ k doc, pool'.documents.lookup k = some doc → ∃ old, pool.documents.lookup k = some old ∧
        doc.versionCount = old.versionCount ∧ doc.folderId = old.folderId)
  | created {doc : Document} {docType : UInt8} {title blobId : MoveString} {hash : List UInt8} {uploader : Address} {t : Nat}
      {audit : Event} (hevs : evs = [.documentCreated pool.id freshId doc.folderId docType title 1 blobId hash uploader t, audit])
      (haudit : ∀ k, audit.tellsVersion k = none) (hobjects : call.objectsCreated = 1) (hcount : doc.versionCount = 1)
      (hdocs : pool'.documents = pool.documents.insert freshId doc)
  | versionAdded {k : ID} {old doc : Document} {poolId : ID} {blobId : MoveString} {hash : List UInt8} {uploader : Address} {t : Nat}
      {audit : Event} (hevs : evs = [.documentVersionAdded poolId old.id (old.versionCount + 1) blobId hash uploader t, audit])
      (haudit : ∀ k, audit.tellsVersion k = none) (hold : pool.documents.lookup k = some old)
      (hdocs : pool'.documents = pool.documents.insert k doc) (hcount : doc.versionCount = old.versionCount + 1)
      (hfolder : doc.folderId = old.folderId)

section Calls

variable {config : AdminConfig} {freshId : ID} {ctx : Ctx} {pool pool' : Pool} {call : PoolCall} {evs : List Event}

/-- A call that leaves the documents alone. -/
theorem PoolCall.Tells.of_documents (hd : pool'.documents = pool.documents) (hquiet : ∀ k, ∀ e ∈ evs, e.tellsVersion k = none) :
    call.Tells freshId pool pool' evs :=
  .quiet hquiet fun _ doc hl => ⟨doc, hd ▸ hl, rfl, rfl⟩

/-- A call that changes a document, and neither its versions nor its folder. -/
theorem PoolCall.Tells.of_setDocument {k : ID} {old doc : Document} (hl : pool.documents.lookup k = some old)
    (hcount : doc.versionCount = old.versionCount) (hfolder : doc.folderId = old.folderId)
    (hquiet : ∀ k, ∀ e ∈ evs, e.tellsVersion k = none) : call.Tells freshId pool (pool.setDocument k doc) evs := by
  refine .quiet hquiet fun k' doc' hl' => ?_
  rw [Pool.setDocument, Table.lookup_insert] at hl'
  split at hl'
  · rename_i hk
    cases hl'
    exact ⟨old, hk ▸ hl, hcount, hfolder⟩
  · exact ⟨doc', hl', rfl, rfl⟩

/-- Every call on a pool tells of the versions it makes. -/
theorem PoolCall.exec_tells (h : call.exec config freshId ctx pool = .ok (pool', evs)) : call.Tells freshId pool pool' evs := by
  cases call with
  | progressToDd | progressToIcReview | progressToReadyToIssue | reopenRejectedPool =>
    obtain ⟨_, _, rfl, rfl⟩ := Pool.progress_ok h
    exact .of_documents rfl fun k => forall_tellsVersion_pair rfl rfl
  | cancelPool =>
    obtain ⟨rfl, rfl⟩ := Pool.cancelPool_ok h
    exact .of_documents rfl fun k => List.forall_mem_cons.2 ⟨rfl, forall_tellsVersion_pair rfl rfl⟩
  | recordIcApproval | recordIcRejection | recordIcRequestChanges =>
    obtain ⟨_, _, _, _, hdocs, rfl⟩ := Pool.recordIcDecision_ok h
    exact .of_documents hdocs fun k => List.forall_mem_cons.2 ⟨rfl, forall_tellsVersion_pair rfl rfl⟩
  | addMember =>
    obtain ⟨_, ⟨_, _, rfl⟩, rfl⟩ := Pool.addMember_ok h
    exact .of_documents rfl fun k => forall_tellsVersion_pair rfl rfl
  | removeMember =>
    obtain ⟨_, ⟨_, _, rfl⟩, rfl⟩ := Pool.removeMember_ok h
    exact .of_documents rfl fun k => forall_tellsVersion_pair rfl rfl
  | updateMemberRole =>
    obtain ⟨_, _, _, _, _, rfl, rfl⟩ := Pool.updateMemberRole_ok h
    exact .of_documents rfl fun k => forall_tellsVersion_pair rfl rfl
  | createCustomFolder =>
    obtain ⟨⟨_, rfl⟩, _, rfl⟩ := Pool.createCustomFolder_ok h
    exact .of_documents rfl fun k => forall_tellsVersion_pair rfl rfl
  | storeEncryptedFolderKey =>
    obtain ⟨rfl, rfl⟩ := Pool.storeEncryptedFolderKey_ok h
    exact .of_documents rfl fun k => forall_tellsVersion_pair rfl rfl
  | createDocument =>
    obtain ⟨⟨doc, hnew, _, rfl⟩, hevs⟩ := Pool.createDocument_ok h
    obtain ⟨_, _, rfl⟩ := Document.new_ok hnew
    exact .created hevs (fun _ => rfl) rfl rfl rfl
  | addVersion docId =>
    obtain ⟨old, doc, _, hl, hd, rfl, hevs⟩ := Pool.addVersion_ok h
    obtain ⟨_, _, _, _, rfl, rfl⟩ := Document.addVersion_ok hd
    exact .versionAdded hevs (fun _ => rfl) hl rfl rfl rfl
  | submitReview =>
    obtain ⟨_, _, _, hl, hd, rfl, rfl⟩ := Pool.submitReview_ok h
    obtain ⟨_, _, ⟨_, rfl, _⟩, rfl⟩ := Document.submitReview_ok hd
    exact .of_setDocument hl rfl rfl fun k => forall_tellsVersion_pair rfl rfl
  | markAsRequired =>
    obtain ⟨_, hl, rfl, rfl⟩ := Pool.markAsRequired_ok h
    exact .of_setDocument hl rfl rfl fun k => List.forall_mem_singleton.2 rfl
  | archiveDocument =>
    obtain ⟨_, hl, rfl, rfl⟩ := Pool.archiveDocument_ok h
    exact .of_setDocument hl rfl rfl fun k => forall_tellsVersion_pair rfl rfl

/-- The admin's calls tell of none. -/
theorem AdminCall.exec_tells {call : AdminCall} {config config' : AdminConfig} (h : call.exec config ctx = .ok (config', evs))
    (k : ID) : ∀ e ∈ evs, e.tellsVersion k = none := by
  obtain ⟨_, _, _, _, rfl⟩ | ⟨_, _, rfl⟩ := AdminCall.exec_ok h
  · simp [Event.tellsVersion]
  · simp

end Calls

namespace World

/-- What the log tells of the documents. -/
structure DocumentsTold (w : World) : Prop where
  versions : ∀ poolId pool k doc, w.pools.lookup poolId = some pool → pool.documents.lookup k = some doc →
    versionsTold k w.events = List.range' 1 doc.versionCount
  created : ∀ poolId pool k doc, w.pools.lookup poolId = some pool → pool.documents.lookup k = some doc →
    ∃ docType title blobId hash uploader t,
      .documentCreated poolId k doc.folderId docType title 1 blobId hash uploader t ∈ w.events
  first : ∀ past e rest k poolId, w.events = past ++ e :: rest → e.createsDocument k = some poolId →
    versionsTold k past = [] ∧ (∃ room owner t, .dataRoomCreated poolId room owner t ∈ past) ∧
      ∃ name org createdBy scheme t, .poolCreated poolId name org createdBy scheme t ∈ past
  fresh : ∀ k, w.idsCreated ≤ k → versionsTold k w.events = []

/-- A document is created once, so it is in one pool. -/
theorem DocumentsTold.pool_unique {w : World} (ht : DocumentsTold w) {e f : Event} {k p q : ID} (he : e ∈ w.events)
    (hf : f ∈ w.events) (hp : e.createsDocument k = some p) (hq : f.createsDocument k = some q) : p = q := by
  obtain ⟨past, rest, hsplit⟩ := List.append_of_mem he
  rw [hsplit, List.mem_append, List.mem_cons] at hf
  obtain hf | rfl | hf := hf
  · exact absurd (ht.first past e rest k p hsplit hp).1 (versionsTold_ne_nil hf hq)
  · rw [hp, Option.some.injEq] at hq
    exact hq
  · obtain ⟨mid, tail, rfl⟩ := List.append_of_mem hf
    have hpast := (ht.first (past ++ e :: mid) f tail k q (by simp [hsplit]) hq).1
    exact absurd hpast (versionsTold_ne_nil (by simp) hp)

/-- Two pools do not hold one document. -/
theorem DocumentsTold.documents_apart {w : World} (ht : DocumentsTold w) {p q k : ID} {pool pool' : Pool} {doc doc' : Document}
    (hp : w.pools.lookup p = some pool) (hd : pool.documents.lookup k = some doc) (hq : w.pools.lookup q = some pool')
    (hd' : pool'.documents.lookup k = some doc') : p = q := by
  obtain ⟨_, _, _, _, _, _, hm⟩ := ht.created p pool k doc hp hd
  obtain ⟨_, _, _, _, _, _, hm'⟩ := ht.created q pool' k doc' hq hd'
  exact ht.pool_unique hm hm' (if_pos rfl) (if_pos rfl)

/-- An object of a pool is not fresh. -/
theorem DocumentsTold.lt_idsCreated {w : World} (ht : DocumentsTold w) {p k : ID} {pool : Pool} {doc : Document}
    (hp : w.pools.lookup p = some pool) (hd : pool.documents.lookup k = some doc) : k < w.idsCreated := by
  obtain ⟨_, _, _, _, _, _, hm⟩ := ht.created p pool k doc hp hd
  by_contra hle
  exact versionsTold_ne_nil hm (if_pos rfl) (ht.fresh k (Nat.not_lt.1 hle))

/-- A step that tells of no version and leaves every document the versions it had. -/
theorem DocumentsTold.quiet {w w' : World} {evs : List Event} (ht : DocumentsTold w) (he : w'.events = w.events ++ evs)
    (hi : w.idsCreated ≤ w'.idsCreated) (hquiet : ∀ k, ∀ e ∈ evs, e.tellsVersion k = none)
    (hkept : ∀ poolId pool k doc, w'.pools.lookup poolId = some pool → pool.documents.lookup k = some doc →
      ∃ pool₀ old, w.pools.lookup poolId = some pool₀ ∧ pool₀.documents.lookup k = some old ∧
        doc.versionCount = old.versionCount ∧ doc.folderId = old.folderId) : DocumentsTold w' := by
  have htold : ∀ k, versionsTold k w'.events = versionsTold k w.events := fun k => by
    rw [he, versionsTold_append, versionsTold_eq_nil (hquiet k), List.append_nil]
  constructor
  · intro poolId pool k doc hl hd
    obtain ⟨pool₀, old, hl₀, hd₀, hcount, _⟩ := hkept poolId pool k doc hl hd
    rw [htold, ht.versions poolId pool₀ k old hl₀ hd₀, hcount]
  · intro poolId pool k doc hl hd
    obtain ⟨pool₀, old, hl₀, hd₀, _, hfolder⟩ := hkept poolId pool k doc hl hd
    obtain ⟨docType, title, blobId, hash, uploader, t, hm⟩ := ht.created poolId pool₀ k old hl₀ hd₀
    exact ⟨docType, title, blobId, hash, uploader, t, by rw [he, hfolder]; exact List.mem_append_left _ hm⟩
  · intro past e rest k poolId hsplit hcreate
    obtain ⟨mid, hold⟩ | ⟨part, rfl, hnew⟩ := place_in_append (he.symm.trans hsplit)
    · exact ht.first past e mid k poolId hold hcreate
    · exact absurd (hquiet k e (by rw [hnew]; simp)) (tellsVersion_ne_none hcreate)
  · intro k hk
    rw [htold]
    exact ht.fresh k (hi.trans hk)

/-- The documents after a step that sets one: it, and the others as they were. -/
theorem lookup_setDocument {w w' : World} {poolId k₀ : ID} {pool pool' : Pool} {doc : Document}
    (hl : w.pools.lookup poolId = some pool) (hp : w'.pools = w.pools.insert poolId pool')
    (hdocs : pool'.documents = pool.documents.insert k₀ doc) {q k : ID} {p : Pool} {d : Document}
    (hq : w'.pools.lookup q = some p) (hd : p.documents.lookup k = some d) :
    (q = poolId ∧ k = k₀ ∧ d = doc) ∨
      (¬ (q = poolId ∧ k = k₀) ∧ ∃ p₀, w.pools.lookup q = some p₀ ∧ p₀.documents.lookup k = some d) := by
  rw [hp, Table.lookup_insert] at hq
  split at hq
  · rename_i hqq
    cases hq
    rw [hdocs, Table.lookup_insert] at hd
    split at hd
    · rename_i hkk
      cases hd
      exact .inl ⟨hqq, hkk, rfl⟩
    · rename_i hkk
      exact .inr ⟨fun h => hkk h.2, pool, hqq ▸ hl, hd⟩
  · rename_i hqq
    exact .inr ⟨fun h => hqq h.1, p, hq, hd⟩

/-- A step that tells of the next version of one document. -/
theorem DocumentsTold.tell {w w' : World} {evs : List Event} (ht : DocumentsTold w) (he : w'.events = w.events ++ evs)
    (hi : w.idsCreated ≤ w'.idsCreated) {poolId k₀ : ID} {pool pool' : Pool} {doc : Document}
    (hl : w.pools.lookup poolId = some pool) (hp : w'.pools = w.pools.insert poolId pool')
    (hdocs : pool'.documents = pool.documents.insert k₀ doc) (hk₀ : k₀ < w'.idsCreated)
    (hapart : ∀ q p d, w.pools.lookup q = some p → p.documents.lookup k₀ = some d → q = poolId)
    (hevs : ∀ k, versionsTold k evs = if k = k₀ then [doc.versionCount] else [])
    (hnext : versionsTold k₀ w.events ++ [doc.versionCount] = List.range' 1 doc.versionCount)
    (hcreated : ∃ docType title blobId hash uploader t,
      .documentCreated poolId k₀ doc.folderId docType title 1 blobId hash uploader t ∈ w'.events)
    (hfirst : ∀ part e rest k q, evs = part ++ e :: rest → e.createsDocument k = some q →
      part = [] ∧ q = poolId ∧ versionsTold k w.events = [])
    (hann : (∃ room owner t, .dataRoomCreated poolId room owner t ∈ w.events) ∧
      ∃ name org createdBy scheme t, .poolCreated poolId name org createdBy scheme t ∈ w.events) : DocumentsTold w' := by
  constructor
  · intro q p k d hq hd
    rw [he, versionsTold_append, hevs]
    obtain ⟨_, rfl, rfl⟩ | ⟨hne, p₀, hq₀, hd₀⟩ := lookup_setDocument hl hp hdocs hq hd
    · rw [if_pos rfl, hnext]
    · have hk : k ≠ k₀ := by
        rintro rfl
        exact hne ⟨hapart q p₀ d hq₀ hd₀, rfl⟩
      rw [if_neg hk, List.append_nil, ht.versions q p₀ k d hq₀ hd₀]
  · intro q p k d hq hd
    obtain ⟨rfl, rfl, rfl⟩ | ⟨_, p₀, hq₀, hd₀⟩ := lookup_setDocument hl hp hdocs hq hd
    · exact hcreated
    · obtain ⟨docType, title, blobId, hash, uploader, t, hm⟩ := ht.created q p₀ k d hq₀ hd₀
      exact ⟨docType, title, blobId, hash, uploader, t, by rw [he]; exact List.mem_append_left _ hm⟩
  · intro past e rest k q hsplit hcreate
    obtain ⟨mid, hold⟩ | ⟨part, rfl, hnew⟩ := place_in_append (he.symm.trans hsplit)
    · exact ht.first past e mid k q hold hcreate
    · obtain ⟨rfl, rfl, hnone⟩ := hfirst part e rest k q hnew hcreate
      rw [List.append_nil]
      exact ⟨hnone, hann⟩
  · intro k hk
    have hne : k ≠ k₀ := (hk₀.trans_le hk).ne'
    rw [he, versionsTold_append, hevs, if_neg hne, List.append_nil]
    exact ht.fresh k (hi.trans hk)

/-- A step keeps that the events tell of the documents and their versions. -/
theorem DocumentsTold.step {publisher : Ctx} {steps : List Step} {w w' : World} {s : Step} (hr : run publisher steps = .ok w)
    (ht : DocumentsTold w) (h : w.step s = .ok w') : DocumentsTold w' := by
  have hw := wf_run hr
  have hi := idsCreated_le h
  obtain ⟨evs, hdoes, he⟩ := step_events h
  cases hdoes with
  | admin _ hx hp =>
    exact ht.quiet he hi (AdminCall.exec_tells hx) fun poolId pool k doc hl hd => ⟨pool, doc, hp ▸ hl, hd, rfl, rfl⟩
  | createPool _ hx hp =>
    obtain ⟨_, _, _, hempty, _, _, _, _, _, _, rfl⟩ := Pool.createPool_ok hx
    refine ht.quiet he hi (fun k => by simp [Event.tellsVersion]) fun poolId pool k doc hl hd => ?_
    rw [hp, Table.lookup_insert] at hl
    split at hl
    · cases hl
      rw [hempty] at hd
      cases hd
    · exact ⟨pool, doc, hl, hd, rfl, rfl⟩
  | @onPool poolId call pool pool' _ hl hx hp hids =>
    have hann := announced_of_lookup hr poolId pool hl
    have hid : pool.id = poolId := (hw.ids hl).1
    cases PoolCall.exec_tells hx with
    | quiet hquiet hkept =>
      refine ht.quiet he hi hquiet fun q p k doc hq hd => ?_
      rw [hp, Table.lookup_insert] at hq
      split at hq
      · rename_i hqq
        cases hq
        obtain ⟨old, hold, hcount, hfolder⟩ := hkept k doc hd
        exact ⟨pool, old, hqq ▸ hl, hold, hcount, hfolder⟩
      · exact ⟨p, doc, hq, hd, rfl, rfl⟩
    | @created doc docType title blobId hash uploader t audit hevs haudit hobjects hcount hdocs =>
      subst hevs
      have hnone := ht.fresh w.idsCreated (Nat.le_refl _)
      refine ht.tell he hi hl hp hdocs ?_ ?_ ?_ ?_ ?_ ?_ hann
      · rw [hids, hobjects]
        exact Nat.lt_succ_self _
      · intro q p d hq hd
        exact absurd (ht.lt_idsCreated hq hd) (Nat.lt_irrefl _)
      · intro k
        rw [versionsTold_pair (haudit k), hcount, Event.tellsVersion]
        by_cases hk : k = w.idsCreated
        · rw [if_pos hk.symm, if_pos hk]
          rfl
        · rw [if_neg (Ne.symm hk), if_neg hk]
          rfl
      · rw [hnone, hcount]
        rfl
      · exact ⟨docType, title, blobId, hash, uploader, t, by rw [he, hid]; simp⟩
      · intro part e rest k q hsplit hcreate
        obtain ⟨rfl, rfl⟩ := first_of_pair (haudit k) hsplit hcreate
        simp only [Event.createsDocument] at hcreate
        split at hcreate
        · rename_i hk
          cases hcreate
          exact ⟨rfl, hid, hk ▸ hnone⟩
        · cases hcreate
    | @versionAdded k old doc _ blobId hash uploader t audit hevs haudit hold hdocs hcount hfolder =>
      subst hevs
      have hdoc : old.id = k := (hw.documents hl hold).id
      obtain ⟨docType, title, blob, hash₀, by', t₀, hcreated⟩ := ht.created poolId pool k old hl hold
      refine ht.tell he hi hl hp hdocs ((ht.lt_idsCreated hl hold).trans_le hi) ?_ ?_ ?_ ?_ ?_ hann
      · intro q p d hq hd
        exact ht.documents_apart hq hd hl hold
      · intro k'
        rw [versionsTold_pair (haudit k'), hcount, Event.tellsVersion, hdoc]
        by_cases hk : k' = k
        · rw [if_pos hk.symm, if_pos hk]
          rfl
        · rw [if_neg (Ne.symm hk), if_neg hk]
          rfl
      · rw [ht.versions poolId pool k old hl hold, hcount, List.range'_1_concat, Nat.add_comm 1]
      · exact ⟨docType, title, blob, hash₀, by', t₀, by rw [he, hfolder]; exact List.mem_append_left _ hcreated⟩
      · intro part e rest k' q hsplit hcreate
        obtain ⟨_, rfl⟩ := first_of_pair (haudit k') hsplit hcreate
        cases hcreate

/-- The log of every run tells of its documents. -/
theorem documentsTold_run {publisher : Ctx} {steps : List Step} {w : World} (hr : run publisher steps = .ok w) :
    DocumentsTold w := by
  refine Steps.run_invariant World.step (fun _ m => DocumentsTold m) ?_ ?_ hr
  · refine ⟨fun _ _ _ _ hl => ?_, fun _ _ _ _ hl => ?_, fun past e rest k poolId he => ?_, fun _ _ => rfl⟩
    · cases hl
    · cases hl
    · simp [events, genesis] at he
  · exact fun _ _ _ _ hm ht hs => ht.step hm hs

end World

end BrineVault
