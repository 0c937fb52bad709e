import BrineVault.Contract.Effects
import BrineVault.Lib.Numbered
import BrineVault.Lib.Steps

/-!
# The package on chain

The state of the package is its configuration, the shared pools, and the log of the events it has emitted. A step is one call of
a public function; calls of one programmable transaction share the context and the digest, so a step either opens a transaction or
continues the one that is open. A call that aborts leaves no trace, so a run consists of calls that succeed.
-/

namespace BrineVault

open Move

/-- A call of an administrator. -/
inductive AdminCall where
  | pause
  | unpause
  | updateConfig (maxMembersPerRoom maxDocVersions : Nat) (platformAddress pauseAuthority : Address)
  deriving DecidableEq, Repr

/-- A call of a public function of the package. -/
inductive Call where
  | admin (call : AdminCall)
  | createPool (p : Pool.Params)
  | onPool (poolId : ID) (call : PoolCall)
  deriving DecidableEq, Repr

/-- A call, in a new transaction with its context, or in the open one. -/
structure Step where
  tx : Option Ctx
  call : Call
  deriving DecidableEq, Repr

structure World where
  adminConfig : AdminConfig
  pools : Table ID Pool
  idsCreated : Nat
  ctx : Ctx
  txDigest : Nat
  eventSeq : Nat
  log : List SuiEvent

/-- How many objects a call creates, where it succeeds. -/
def PoolCall.objectsCreated : PoolCall → Nat
  | .createDocument .. => 1
  | _ => 0

def AdminCall.exec (config : AdminConfig) (ctx : Ctx) : AdminCall → Exec (AdminConfig × List Event)
  | .pause => config.pause ctx
  | .unpause => config.unpause ctx
  | .updateConfig members versions platform pauser => config.updateConfig members versions platform pauser

/-- An administrator turns the switch, which is told, or changes the rest of the configuration, of which nothing is told. -/
theorem AdminCall.exec_ok {call : AdminCall} {config config' : AdminConfig} {ctx : Ctx} {evs : List Event}
    (h : call.exec config ctx = .ok (config', evs)) :
    (∃ paused, call = (if paused then .pause else .unpause) ∧ config.paused = !paused ∧ config'.paused = paused ∧
        evs = [.adminPauseToggled paused ctx.sender ctx.now]) ∨
      ((∃ members versions platform pauser, call = .updateConfig members versions platform pauser) ∧
        config'.paused = config.paused ∧ evs = []) := by
  cases call with
  | pause =>
    obtain ⟨_, hp, h⟩ := bind_eq_ok.1 h
    cases h
    exact .inl ⟨true, rfl, (assert_eq_ok.1 hp), rfl, rfl⟩
  | unpause =>
    obtain ⟨_, hp, h⟩ := bind_eq_ok.1 h
    cases h
    exact .inl ⟨false, rfl, (assert_eq_ok.1 hp), rfl, rfl⟩
  | updateConfig members versions platform pauser =>
    obtain ⟨_, _, h⟩ := bind_eq_ok.1 h
    obtain ⟨_, _, h⟩ := bind_eq_ok.1 h
    cases h
    exact .inr ⟨⟨members, versions, platform, pauser, rfl⟩, rfl, rfl⟩

namespace World

/-- The package as published: `init` has created the configuration and the capability. -/
def genesis (publisher : Ctx) : World :=
  { adminConfig := AdminConfig.init publisher.sender, pools := ∅, idsCreated := 2, ctx := publisher, txDigest := 0,
    eventSeq := 0, log := [] }

/-- Open a transaction, when there is one to open. -/
def openTx (w : World) : Option Ctx → World
  | none => w
  | some ctx => { w with ctx, txDigest := w.txDigest + 1, eventSeq := 0 }

/-- Run a call. `create_pool` creates three objects: the pool, its data room and the room's table of members. -/
def exec (w : World) : Call → Exec (World × List Event)
  | .admin call => do
    let (adminConfig, evs) ← call.exec w.adminConfig w.ctx
    return ({ w with adminConfig }, evs)
  | .createPool p => do
    let (pool, evs) ← Pool.createPool w.adminConfig w.idsCreated (w.idsCreated + 1) p w.ctx
    return ({ w with pools := w.pools.insert w.idsCreated pool, idsCreated := w.idsCreated + 3 }, evs)
  | .onPool poolId call => do
    let pool ← Table.borrow w.pools poolId
    let (pool, evs) ← call.exec w.adminConfig w.idsCreated w.ctx pool
    return ({ w with pools := w.pools.insert poolId pool, idsCreated := w.idsCreated + call.objectsCreated }, evs)

/-- Append the events of a call to the log. -/
def emit (w : World) (evs : List Event) : World :=
  { w with eventSeq := w.eventSeq + evs.length, log := w.log ++ numberFrom w.txDigest w.eventSeq evs }

def step (w : World) (s : Step) : Exec World := do
  let (w, evs) ← (w.openTx s.tx).exec s.call
  return w.emit evs

/-- A run of the package, from its publication. -/
def run (publisher : Ctx) (steps : List Step) : Exec World := Steps.run step (genesis publisher) steps

/-- The events of the log, without their ids. -/
def events (w : World) : List Event := w.log.map (·.event)

/-- The context a step runs in. -/
def ctxOf (w : World) (s : Step) : Ctx := (w.openTx s.tx).ctx

@[simp] theorem openTx_adminConfig (w : World) (tx : Option Ctx) : (w.openTx tx).adminConfig = w.adminConfig := by
  cases tx <;> rfl

@[simp] theorem openTx_pools (w : World) (tx : Option Ctx) : (w.openTx tx).pools = w.pools := by cases tx <;> rfl

@[simp] theorem openTx_idsCreated (w : World) (tx : Option Ctx) : (w.openTx tx).idsCreated = w.idsCreated := by
  cases tx <;> rfl

@[simp] theorem openTx_log (w : World) (tx : Option Ctx) : (w.openTx tx).log = w.log := by cases tx <;> rfl

/-- What a step does to the pools, with the events it emits. -/
inductive Does (w : World) (s : Step) (w' : World) (evs : List Event) : Prop where
  | admin {call : AdminCall} {config : AdminConfig} (hc : s.call = .admin call)
      (h : call.exec w.adminConfig (w.ctxOf s) = .ok (config, evs)) (hp : w'.pools = w.pools)
      (hi : w'.idsCreated = w.idsCreated)
  | createPool {p : Pool.Params} {pool : Pool} (hc : s.call = .createPool p)
      (h : Pool.createPool w.adminConfig w.idsCreated (w.idsCreated + 1) p (w.ctxOf s) = .ok (pool, evs))
      (hp : w'.pools = w.pools.insert w.idsCreated pool) (hi : w'.idsCreated = w.idsCreated + 3)
  | onPool {poolId : ID} {call : PoolCall} {pool pool' : Pool} (hc : s.call = .onPool poolId call)
      (hl : w.pools.lookup poolId = some pool)
      (h : call.exec w.adminConfig w.idsCreated (w.ctxOf s) pool = .ok (pool', evs))
      (hp : w'.pools = w.pools.insert poolId pool') (hi : w'.idsCreated = w.idsCreated + call.objectsCreated)

/-- A step does one of three things, and appends its events to the log. -/
theorem step_does {w w' : World} {s : Step} (h : w.step s = .ok w') :
    ∃ evs, Does w s w' evs ∧ w'.txDigest = (w.openTx s.tx).txDigest ∧
      w'.eventSeq = (w.openTx s.tx).eventSeq + evs.length ∧
      w'.log = w.log ++ numberFrom (w.openTx s.tx).txDigest (w.openTx s.tx).eventSeq evs := by
  simp only [step, bind_eq_ok, pure_eq_ok, Prod.exists] at h
  obtain ⟨m, evs, he, rfl⟩ := h
  cases hc : s.call with
  | admin call =>
    simp only [hc, exec, bind_eq_ok, pure_eq_ok, Prod.mk.injEq, Prod.exists, openTx_adminConfig] at he
    obtain ⟨config, _, h, rfl, rfl⟩ := he
    exact ⟨_, .admin hc h (openTx_pools _ _) (openTx_idsCreated _ _), rfl, rfl, by rw [emit, openTx_log]⟩
  | createPool p =>
    simp only [hc, exec, bind_eq_ok, pure_eq_ok, Prod.mk.injEq, Prod.exists, openTx_adminConfig, openTx_idsCreated,
      openTx_pools] at he
    obtain ⟨pool, _, h, rfl, rfl⟩ := he
    exact ⟨_, .createPool hc h rfl rfl, rfl, rfl, by rw [emit, openTx_log]⟩
  | onPool poolId call =>
    simp only [hc, exec, bind_eq_ok, pure_eq_ok, Prod.mk.injEq, Prod.exists, openTx_adminConfig, openTx_idsCreated,
      openTx_pools, Table.borrow_eq_ok] at he
    obtain ⟨pool, hl, pool', _, h, rfl, rfl⟩ := he
    exact ⟨_, .onPool hc hl h rfl rfl, rfl, rfl, by rw [emit, openTx_log]⟩

/-- A call on a pool finds the pool, and leaves it as the call does. -/
theorem step_onPool {w w' : World} {s : Step} (h : w.step s = .ok w') {poolId : ID} {call : PoolCall}
    (hc : s.call = .onPool poolId call) :
    ∃ pool pool' evs, w.pools.lookup poolId = some pool ∧ w'.pools.lookup poolId = some pool' ∧
      call.exec w.adminConfig w.idsCreated (w.ctxOf s) pool = .ok (pool', evs) := by
  obtain ⟨evs, hd, _⟩ := step_does h
  cases hd with
  | admin hc' =>
    rw [hc] at hc'
    cases hc'
  | createPool hc' =>
    rw [hc] at hc'
    cases hc'
  | @onPool _ _ pool pool' hc' hl hx hp =>
    rw [hc] at hc'
    cases hc'
    exact ⟨pool, pool', evs, hl, by rw [hp, Table.lookup_insert, if_pos rfl], hx⟩

/-- A step adds the events of what it does. -/
theorem step_events {w w' : World} {s : Step} (h : w.step s = .ok w') :
    ∃ evs, Does w s w' evs ∧ w'.events = w.events ++ evs := by
  obtain ⟨evs, hd, _, _, hl⟩ := step_does h
  refine ⟨evs, hd, ?_⟩
  simp only [events, hl, List.map_append, map_event_numberFrom]

/-- Where a document after a step comes from: it was there and the step is not about it, it is new, or the step changed it. -/
inductive DocumentFrom (w : World) (s : Step) (poolId docId : ID) (doc : Document) : Prop where
  | kept {pool : Pool} (hl : w.pools.lookup poolId = some pool) (hd : pool.documents.lookup docId = some doc)
      (hc : ∀ call, s.call = .onPool poolId call → call.target ≠ some docId)
  | attached {pool : Pool} {call : PoolCall} (hc : s.call = .onPool poolId call) (hl : w.pools.lookup poolId = some pool)
      (hd : docId = w.idsCreated) (h : call.Attaches docId (w.ctxOf s) pool doc)
  | changed {pool : Pool} {call : PoolCall} {old : Document} (hc : s.call = .onPool poolId call)
      (hl : w.pools.lookup poolId = some pool) (hd : pool.documents.lookup docId = some old)
      (h : call.Changes (w.ctxOf s) docId old doc)

/-- Where a document comes from. -/
theorem step_document {w w' : World} {s : Step} (h : w.step s = .ok w') {poolId docId : ID} {pool : Pool} {doc : Document}
    (hk : w'.pools.lookup poolId = some pool) (hdoc : pool.documents.lookup docId = some doc) :
    DocumentFrom w s poolId docId doc := by
  obtain ⟨evs, hd, _⟩ := step_does h
  cases hd with
  | admin hc h hp =>
    rw [hp] at hk
    exact .kept hk hdoc (by simp [hc])
  | createPool hc h hp =>
    obtain ⟨_, _, _, hempty, _⟩ := Pool.createPool_ok h
    rw [hp, Table.lookup_insert] at hk
    split at hk
    · cases hk
      rw [hempty] at hdoc
      cases hdoc
    · exact .kept hk hdoc (by simp [hc])
  | @onPool poolId₀ call pool₀ pool' hc hl h hp =>
    rw [hp, Table.lookup_insert] at hk
    split at hk
    · rename_i hkk
      subst hkk
      cases hk
      obtain ⟨ht, he⟩ | ⟨doc₀, ha, _, he⟩ | ⟨docId₀, old, doc', hch, hl', he⟩ := PoolCall.exec_documents h
      · rw [he] at hdoc
        refine .kept hl hdoc fun call' hc' => ?_
        rw [hc, Call.onPool.injEq] at hc'
        rw [← hc'.2, ht]
        simp
      · rw [he, Table.lookup_insert] at hdoc
        split at hdoc
        · rename_i hdd
          cases hdoc
          exact .attached hc hl hdd (hdd ▸ ha)
        · refine .kept hl hdoc fun call' hc' => ?_
          rw [hc, Call.onPool.injEq] at hc'
          rw [← hc'.2, ha.target]
          simp
      · rw [he, Table.lookup_insert] at hdoc
        split at hdoc
        · rename_i hdd
          cases hdoc
          exact .changed hc hl (hdd ▸ hl') (hdd ▸ hch)
        · rename_i hdd
          refine .kept hl hdoc fun call' hc' => ?_
          rw [hc, Call.onPool.injEq] at hc'
          rw [← hc'.2, hch.target, ne_eq, Option.some.injEq]
          exact fun he => hdd he.symm
    · rename_i hkk
      refine .kept hk hdoc fun call' hc' => ?_
      rw [hc, Call.onPool.injEq] at hc'
      exact absurd hc'.1.symm hkk

/-! ## Invariants of pools and documents -/

/-- What a new pool has and every call keeps, every pool of a run has. -/
theorem pools_run {P : Pool → Prop}
    (hnew : ∀ (config : AdminConfig) (id room : ID) (p : Pool.Params) (ctx : Ctx) (pool : Pool) (evs : List Event),
      Pool.createPool config id room p ctx = .ok (pool, evs) → P pool)
    (hcall : ∀ (config : AdminConfig) (freshId : ID) (ctx : Ctx) (call : PoolCall) (pool pool' : Pool) (evs : List Event),
      P pool → call.exec config freshId ctx pool = .ok (pool', evs) → P pool')
    {publisher : Ctx} {steps : List Step} {w : World} (hr : run publisher steps = .ok w) {poolId : ID} {pool : Pool}
    (hl : w.pools.lookup poolId = some pool) : P pool := by
  have key : ∀ poolId pool, w.pools.lookup poolId = some pool → P pool := by
    refine Steps.run_preserves step (P := fun m => ∀ poolId pool, m.pools.lookup poolId = some pool → P pool) ?_ hr ?_
    swap
    · intro poolId pool hl
      cases hl
    intro m s m' ih hs poolId pool hl
    obtain ⟨evs, hd, _⟩ := step_does hs
    cases hd with
    | admin _ _ hp =>
      rw [hp] at hl
      exact ih _ _ hl
    | createPool _ h hp =>
      rw [hp, Table.lookup_insert] at hl
      split at hl
      · cases hl
        exact hnew _ _ _ _ _ _ _ h
      · exact ih _ _ hl
    | onPool _ hl₀ h hp =>
      rw [hp, Table.lookup_insert] at hl
      split at hl
      · cases hl
        exact hcall _ _ _ _ _ _ _ (ih _ _ hl₀) h
      · exact ih _ _ hl
  exact key poolId pool hl

/-- What a new document has and every change keeps, every document of a run has. -/
theorem documents_run {P : Document → Prop}
    (hnew : ∀ (freshId : ID) (ctx : Ctx) (pool : Pool) (call : PoolCall) (doc : Document),
      call.Attaches freshId ctx pool doc → call.Checked ctx pool → P doc)
    (hchange : ∀ (docId : ID) (ctx : Ctx) (pool : Pool) (call : PoolCall) (doc doc' : Document),
      P doc → call.Changes ctx docId doc doc' → call.Checked ctx pool → P doc')
    {publisher : Ctx} {steps : List Step} {w : World} (hr : run publisher steps = .ok w) {poolId docId : ID} {pool : Pool}
    {doc : Document} (hl : w.pools.lookup poolId = some pool) (hd : pool.documents.lookup docId = some doc) : P doc := by
  refine pools_run (P := fun pool => ∀ docId doc, pool.documents.lookup docId = some doc → P doc) ?_ ?_ hr hl docId doc hd
  · intro config id room p ctx pool evs h docId doc hd
    obtain ⟨_, _, _, hempty, _⟩ := Pool.createPool_ok h
    rw [hempty] at hd
    cases hd
  · intro config freshId ctx call pool pool' evs ih h docId doc hd
    have hc := PoolCall.exec_checked h
    obtain ⟨_, he⟩ | ⟨doc₀, ha, _, he⟩ | ⟨docId₀, old, doc', hch, hl', he⟩ := PoolCall.exec_documents h
    · rw [he] at hd
      exact ih _ _ hd
    · rw [he, Table.lookup_insert] at hd
      split at hd
      · cases hd
        exact hnew _ _ _ _ _ ha hc
      · exact ih _ _ hd
    · rw [he, Table.lookup_insert] at hd
      split at hd
      · cases hd
        exact hchange _ _ _ _ _ _ (ih _ _ hl') hch hc
      · exact ih _ _ hd

/-! ## Well-formed states -/

/-- A document of the pool `poolId` under the key `docId`: it carries both ids, and its counter counts its approvals. -/
structure WfDocument (poolId docId : ID) (doc : Document) : Prop where
  id : doc.id = docId
  poolId : doc.poolId = poolId
  count : doc.approvalCount = Table.count ReviewRecord.isApproval doc.reviews

/-- What holds in every state of the package: ids are what the keys say and are not used twice. -/
structure Wf (w : World) : Prop where
  fresh : ∀ {k p}, w.pools.lookup k = some p → k < w.idsCreated ∧ p.dataroom.id < w.idsCreated
  ids : ∀ {k p}, w.pools.lookup k = some p → p.id = k ∧ p.dataroom.poolId = k
  apart : ∀ {k k' p p'}, w.pools.lookup k = some p → w.pools.lookup k' = some p' → p.dataroom.id ≠ k'
  rooms : ∀ {k k' p p'}, w.pools.lookup k = some p → w.pools.lookup k' = some p' → p.dataroom.id = p'.dataroom.id → k = k'
  documents : ∀ {k p d doc}, w.pools.lookup k = some p → p.documents.lookup d = some doc → WfDocument k d doc

/-- The world starts well formed. -/
theorem wf_genesis (publisher : Ctx) : Wf (genesis publisher) := by
  constructor <;> intros <;> contradiction

/-- The next id is nobody's. -/
theorem Wf.ne_idsCreated {w : World} (hw : Wf w) {k : ID} {p : Pool} (hl : w.pools.lookup k = some p) : k ≠ w.idsCreated :=
  Nat.ne_of_lt (hw.fresh hl).1

/-- The id that a new pool is given is free. -/
theorem Wf.lookup_idsCreated {w : World} (hw : Wf w) : w.pools.lookup w.idsCreated = none := by
  rw [Option.eq_none_iff_forall_not_mem]
  intro p hl
  exact hw.ne_idsCreated hl rfl

/-- A document that is created or changed is well-formed. -/
theorem WfDocument.new {freshId : ID} {ctx : Ctx} {pool : Pool} {call : PoolCall} {doc : Document}
    (h : call.Attaches freshId ctx pool doc) : WfDocument pool.id freshId doc := by
  cases h with
  | createDocument h =>
    obtain ⟨_, _, rfl⟩ := Document.new_ok h
    exact ⟨rfl, rfl, rfl⟩

/-- A change keeps a document well formed. -/
theorem WfDocument.changes {poolId docId docId' : ID} {ctx : Ctx} {call : PoolCall} {doc doc' : Document}
    (hw : WfDocument poolId docId doc) (h : call.Changes ctx docId' doc doc') : WfDocument poolId docId doc' := by
  obtain ⟨h1, h2⟩ := h.frame
  refine ⟨h1.trans hw.id, h2.trans hw.poolId, ?_⟩
  cases h with
  | addVersion h =>
    obtain ⟨_, _, _, _, rfl, _⟩ := Document.addVersion_ok h
    exact hw.count
  | submitReview h =>
    obtain ⟨_, _, ⟨count, rfl, hc⟩, _⟩ := Document.submitReview_ok h
    have := hw.count
    simp only at hc ⊢
    omega
  | markAsRequired => exact hw.count
  | archiveDocument => exact hw.count

theorem wfDocument_step {w w' : World} {s : Step} (hw : Wf w) (h : w.step s = .ok w') {poolId docId : ID} {pool : Pool}
    {doc : Document} (hk : w'.pools.lookup poolId = some pool) (hdoc : pool.documents.lookup docId = some doc) :
    WfDocument poolId docId doc := by
  cases step_document h hk hdoc with
  | kept hl hd => exact hw.documents hl hd
  | attached _ hl _ ha => exact (hw.ids hl).1 ▸ .new ha
  | changed _ hl hd hch => exact (hw.documents hl hd).changes hch

/-- Ids are only added. -/
theorem idsCreated_le {w w' : World} {s : Step} (h : w.step s = .ok w') : w.idsCreated ≤ w'.idsCreated := by
  obtain ⟨evs, hd, _⟩ := step_does h
  cases hd with
  | admin _ _ _ hi => exact Nat.le_of_eq hi.symm
  | createPool _ _ _ hi => omega
  | onPool _ _ _ _ hi => omega

/-- A pool after a step, seen from before: it is there with the same identities, or the step creates it. -/
theorem step_pool {w w' : World} {s : Step} (h : w.step s = .ok w') {k : ID} {p : Pool} (hk : w'.pools.lookup k = some p) :
    (∃ q, w.pools.lookup k = some q ∧ p.id = q.id ∧ p.dataroom.id = q.dataroom.id ∧ p.dataroom.poolId = q.dataroom.poolId) ∨
      (k = w.idsCreated ∧ p.id = k ∧ p.dataroom.id = k + 1 ∧ p.dataroom.poolId = k ∧ k + 1 < w'.idsCreated) := by
  obtain ⟨evs, hd, _⟩ := step_does h
  cases hd with
  | admin _ _ hp =>
    rw [hp] at hk
    exact .inl ⟨p, hk, rfl, rfl, rfl⟩
  | createPool _ hc hp hi =>
    rw [hp, Table.lookup_insert] at hk
    split at hk
    · rename_i hkk
      cases hk
      obtain ⟨_, hid, _, _, hroom, hpool, _⟩ := Pool.createPool_ok hc
      subst hkk
      exact .inr ⟨rfl, hid, hroom, hpool, by grind⟩
    · exact .inl ⟨p, hk, rfl, rfl, rfl⟩
  | @onPool _ _ pool _ _ hl hc hp =>
    rw [hp, Table.lookup_insert] at hk
    split at hk
    · rename_i hkk
      cases hk
      obtain ⟨hid, hroom, hpool, _⟩ := PoolCall.exec_frame hc
      exact .inl ⟨pool, by rw [hkk, hl], hid, hroom, hpool⟩
    · exact .inl ⟨p, hk, rfl, rfl, rfl⟩

/-- A step keeps a state well-formed. -/
theorem wf_step {w w' : World} {s : Step} (hw : Wf w) (hs : w.step s = .ok w') : Wf w' := by
  have hle := idsCreated_le hs
  constructor
  · intro k p hk
    rcases step_pool hs hk with ⟨q, hq, -, hroom, -⟩ | ⟨rfl, -, hroom, -, hlt⟩
    · have := hw.fresh hq
      grind
    · grind
  · intro k p hk
    rcases step_pool hs hk with ⟨q, hq, hid, -, hpool⟩ | ⟨-, hid, -, hpool, -⟩
    · rw [hid, hpool]
      exact hw.ids hq
    · exact ⟨hid, hpool⟩
  · intro k k' p p' hk hk'
    rcases step_pool hs hk with ⟨q, hq, -, hroom, -⟩ | ⟨rfl, -, hroom, -⟩
    · have := hw.fresh hq
      rcases step_pool hs hk' with ⟨q', hq', -⟩ | ⟨rfl, -⟩
      · rw [hroom]
        exact hw.apart hq hq'
      · grind
    · rcases step_pool hs hk' with ⟨q', hq', -⟩ | ⟨rfl, -⟩
      · have := hw.fresh hq'
        grind
      · grind
  · intro k k' p p' hk hk' he
    rcases step_pool hs hk with ⟨q, hq, -, hroom, -⟩ | ⟨rfl, -, hroom, -⟩
    · have := hw.fresh hq
      rcases step_pool hs hk' with ⟨q', hq', -, hroom', -⟩ | ⟨rfl, -, hroom', -⟩
      · exact hw.rooms hq hq' (by rw [← hroom, ← hroom', he])
      · grind
    · rcases step_pool hs hk' with ⟨q', hq', -, hroom', -⟩ | ⟨rfl, -⟩
      · have := hw.fresh hq'
        grind
      · rfl
  · intro k p d doc hk hdoc
    exact wfDocument_step hw hs hk hdoc

/-- A document after a step, seen from before: it is there, and the step changed it or left it alone. -/
theorem step_keepsDocument {w w' : World} {s : Step} (hw : Wf w) (h : w.step s = .ok w') {poolId docId : ID} {pool : Pool}
    {doc : Document} (hl : w.pools.lookup poolId = some pool) (hd : pool.documents.lookup docId = some doc) :
    ∃ pool' doc', w'.pools.lookup poolId = some pool' ∧ pool'.documents.lookup docId = some doc' ∧
      (doc' = doc ∨ ∃ call, s.call = .onPool poolId call ∧ call.Changes (w.ctxOf s) docId doc doc') := by
  obtain ⟨evs, hdoes, _⟩ := step_does h
  cases hdoes with
  | admin _ _ hp => exact ⟨pool, doc, by rw [hp, hl], hd, .inl rfl⟩
  | createPool _ _ hp =>
    exact ⟨pool, doc, by rw [hp, Table.lookup_insert, if_neg (hw.ne_idsCreated hl), hl], hd, .inl rfl⟩
  | @onPool poolId₀ call pool₀ pool' hc hl₀ h hp =>
    by_cases hk : poolId = poolId₀
    · subst hk
      rw [hl, Option.some.injEq] at hl₀
      subst hl₀
      have hl' : w'.pools.lookup poolId = some pool' := by rw [hp, Table.lookup_insert, if_pos rfl]
      obtain ⟨_, he⟩ | ⟨doc₀, _, hn, he⟩ | ⟨docId₀, old, doc', hch, hold, he⟩ := PoolCall.exec_documents h
      · exact ⟨pool', doc, hl', by rw [he, hd], .inl rfl⟩
      · exact ⟨pool', doc, hl', by rw [he]; exact Table.extends_insert doc₀ hn _ _ hd, .inl rfl⟩
      · by_cases hdd : docId = docId₀
        · subst hdd
          rw [hd, Option.some.injEq] at hold
          subst hold
          exact ⟨pool', doc', hl', by rw [he, Table.lookup_insert, if_pos rfl], .inr ⟨call, hc, hch⟩⟩
        · exact ⟨pool', doc, hl', by rw [he, Table.lookup_insert, if_neg hdd, hd], .inl rfl⟩
    · exact ⟨pool, doc, by rw [hp, Table.lookup_insert, if_neg hk, hl], hd, .inl rfl⟩

/-- What the function of a call on a pool checked. -/
theorem step_checked {w w' : World} {s : Step} (h : w.step s = .ok w') {poolId : ID} {pool : Pool} {call : PoolCall}
    (hc : s.call = .onPool poolId call) (hl : w.pools.lookup poolId = some pool) : call.Checked (w.ctxOf s) pool := by
  obtain ⟨pool₀, _, _, hl₀, _, hx⟩ := step_onPool h hc
  rw [hl, Option.some.injEq] at hl₀
  subst hl₀
  exact PoolCall.exec_checked hx

/-- A call of `add_version` leaves the document as `document::add_version` does. -/
theorem step_addVersion {w w' : World} {s : Step} (h : w.step s = .ok w') {poolId docId : ID} {up : Document.Upload}
    {pool : Pool} {doc : Document} (hc : s.call = .onPool poolId (.addVersion docId up))
    (hl : w.pools.lookup poolId = some pool) (hd : pool.documents.lookup docId = some doc) :
    ∃ pool' doc' evs, w'.pools.lookup poolId = some pool' ∧ pool'.documents.lookup docId = some doc' ∧
      doc.addVersion up (w.ctxOf s) = .ok (doc', evs) := by
  obtain ⟨pool₀, pool', _, hl₀, hl', hx⟩ := step_onPool h hc
  rw [hl, Option.some.injEq] at hl₀
  subst hl₀
  obtain ⟨old, doc', evs, hd', hn, rfl, _⟩ := Pool.addVersion_ok hx
  rw [hd, Option.some.injEq] at hd'
  subst hd'
  refine ⟨_, doc', evs, hl', ?_, hn⟩
  rw [Pool.setDocument, Table.lookup_insert, if_pos rfl]

/-- Every state of a run is well-formed. -/
theorem wf_run {publisher : Ctx} {steps : List Step} {w : World} (h : run publisher steps = .ok w) : Wf w :=
  Steps.run_preserves step (fun _ _ _ => wf_step) h (wf_genesis publisher)

end World

/-! ## A sample -/

namespace Sample

def owner : Ctx := { sender := 7, now := 1000 }
def reviewer : Ctx := { sender := 8, now := 2000 }

/-- The first pool has id 2 and its room id 3; the first document has id 5. -/
def createPool : Step :=
  { tx := some owner
    call := .createPool { orgIdHash := List.replicate 32 0, name := [80], borrowerNameHash := List.replicate 32 0,
                          currency := [85], targetNotional := 5, expectedMaturityDate := 9, encryptionScheme := 0, tags := [] } }

/-- A call of the owner on the first pool, in a transaction of its own. -/
def byOwner (call : PoolCall) : Step := { tx := some owner, call := .onPool 2 call }

def upload : Document.Upload := { walrusBlobId := [98], contentHash := List.replicate 32 1, sizeBytes := 3, changeLog := [] }

/-- A document that is required from the start. -/
def createDocument : Step :=
  byOwner (.createDocument { folderId := 0, docType := 0, title := [84], requiredFlag := true, visibleToRoles := 63, tags := [] }
    upload)

/-- A decision of a committee of one. -/
def decision : IcRecord := { decisionText := [68], pdfBlobId := [112], committeeMembers := [7], votes := [1], relatedDocIds := [] }

/-- The reviewer approves the first document. -/
def approve : Step := { tx := some reviewer, call := .onPool 2 (.submitReview 5 Types.reviewApproved none) }

end Sample

end BrineVault
