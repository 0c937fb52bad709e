import BrineVault.Lib.Steps
import BrineVault.Walrus.RoundTrip

/-!
# Progress reports

An upload or a download of chunks, one event after the other: a request of the batch settles, or the loop goes on after a batch. The chunks of a
batch share one `progress`, and they go on when another one has failed. A report is what the callback is given; the percentage in it, a rounded
quotient, is left out.
-/

namespace BrineVault

open Js (Number)

/-! ## The loop and its chunks -/

/-- The values of `status` in `UploadProgress` and `DownloadProgress`. -/
inductive ProgressStatus where
  | uploading
  | downloading
  | retrying
  | completed
  | failed
  deriving DecidableEq, Repr

structure Progress where
  totalChunks : Nat
  completedChunks : Nat
  failedChunks : List Number
  status : ProgressStatus
  deriving DecidableEq, Repr

/-- What `ChunkedUploader.upload` and `ChunkedDownloader.download` differ in: the chunks and their indices, the status that they begin with, and what
they make of the results of the requests. -/
structure Transfer (κ ρ σ β : Type) where
  chunks : List κ
  index : κ → Number
  concurrency : Nat
  begun : ProgressStatus
  begun_ne : begun ≠ .completed ∧ begun ≠ .failed
  initial : σ
  record : σ → κ → ρ → σ
  finish : σ → Except WalrusError β

variable {κ ρ σ β : Type}

/-- A transfer on its way. The requests of the batch that have not settled are `pending`, and `i` is that of the next round of the loop. -/
structure Transferring (κ σ β : Type) where
  progress : Progress
  reports : List Progress
  results : σ
  pending : List κ
  i : Nat
  settled : Option (Except WalrusError β)

/-- A request of the batch settles, or `Promise.all` has resolved. -/
inductive TransferEvent (ρ : Type) where
  | settles (n : Nat) (outcome : Except WalrusError ρ)
  | resumes
  deriving Repr

namespace Transferring

/-- `onProgress?.({ ...progress })`. -/
def report (st : Transferring κ σ β) : Transferring κ σ β := { st with reports := st.reports ++ [st.progress] }

end Transferring

namespace Transfer

variable (t : Transfer κ ρ σ β)

def start : Transferring κ σ β :=
  { progress := { totalChunks := t.chunks.length, completedChunks := 0, failedChunks := [], status := t.begun }
    reports := [{ totalChunks := t.chunks.length, completedChunks := 0, failedChunks := [], status := t.begun }]
    results := t.initial
    pending := []
    i := 0
    settled := none }

/-- The request of a chunk has succeeded: what follows its `await` in the `try` block. -/
def succeeded (st : Transferring κ σ β) (chunk : κ) (result : ρ) : Transferring κ σ β :=
  { st with
    results := t.record st.results chunk result
    progress := { st.progress with completedChunks := st.progress.completedChunks + 1 } }.report

/-- The request of a chunk has failed: the `catch` block. The first exception of a batch is that of the transfer. -/
def failed (st : Transferring κ σ β) (chunk : κ) (err : WalrusError) : Transferring κ σ β :=
  { { st with
      progress := { st.progress with failedChunks := st.progress.failedChunks ++ [t.index chunk], status := .failed } }.report with
    settled := st.settled.or (some (.error err)) }

/-- The head of the loop: the next batch, or what comes after the last one. -/
def loop (st : Transferring κ σ β) : Transferring κ σ β :=
  if st.i < t.chunks.length then { st with pending := t.chunks.extract st.i (st.i + t.concurrency), i := st.i + t.concurrency }
  else { { st with progress := { st.progress with status := .completed } }.report with settled := some (t.finish st.results) }

def step (st : Transferring κ σ β) : TransferEvent ρ → Except Unit (Transferring κ σ β)
  | .settles n outcome =>
    match st.pending[n]? with
    | none => .error ()
    | some chunk =>
      let st := { st with pending := st.pending.eraseIdx n }
      match outcome with
      | .ok result => .ok (t.succeeded st chunk result)
      | .error err => .ok (t.failed st chunk err)
  | .resumes => if st.settled.isNone ∧ st.pending.isEmpty then .ok (t.loop st) else .error ()

def run (events : List (TransferEvent ρ)) : Except Unit (Transferring κ σ β) := Steps.run t.step t.start events

end Transfer

/-- The promise has resolved. -/
def Transferring.Resolved (st : Transferring κ σ β) : Prop := ∃ result, st.settled = some (.ok result)

/-- The reports count up to the number of chunks, a report of completion is the last one and comes with the resolution of the promise, and no other
report than one of failure follows one of failure. -/
structure Transferring.Consistent (st : Transferring κ σ β) : Prop where
  rising : st.reports.Pairwise fun r r' => r.completedChunks ≤ r'.completedChunks
  bounded : ∀ r ∈ st.reports, r.completedChunks ≤ r.totalChunks
  completed : (∃ r ∈ st.reports, r.status = .completed) ↔ st.Resolved
  last : ∀ before r after, st.reports = before ++ r :: after → r.status = .completed → after = [] ∧ r.completedChunks = r.totalChunks
  failed : st.reports.Pairwise fun r r' => r.status = .failed → r'.status = .failed

namespace Transfer

variable {t : Transfer κ ρ σ β} {st st' : Transferring κ σ β} {a : TransferEvent ρ}

/-- The loop ends, and the results make an exception. -/
def Spoils (t : Transfer κ ρ σ β) (st : Transferring κ σ β) (a : TransferEvent ρ) : Prop :=
  a = .resumes ∧ t.chunks.length ≤ st.i ∧ ∃ err, t.finish st.results = .error err

/-- What an event does. -/
theorem step_cases (h : t.step st a = .ok st') :
    (∃ n chunk result, st.pending[n]? = some chunk ∧ a = .settles n (.ok result) ∧
        st' = t.succeeded { st with pending := st.pending.eraseIdx n } chunk result) ∨
      (∃ n chunk err, st.pending[n]? = some chunk ∧ a = .settles n (.error err) ∧
        st' = t.failed { st with pending := st.pending.eraseIdx n } chunk err) ∨
      (a = .resumes ∧ st.settled = none ∧ st.pending = [] ∧ st' = t.loop st) := by
  cases a with
  | settles n outcome =>
    rw [step] at h
    cases hn : st.pending[n]? with
    | none =>
      rw [hn] at h
      cases h
    | some chunk =>
      rw [hn] at h
      cases outcome with
      | ok result => exact .inl ⟨n, chunk, result, hn, rfl, (Except.ok.inj h).symm⟩
      | error err => exact .inr (.inl ⟨n, chunk, err, hn, rfl, (Except.ok.inj h).symm⟩)
  | resumes =>
    rw [step] at h
    split at h
    · rename_i hready
      exact .inr (.inr ⟨rfl, Option.isNone_iff_eq_none.1 hready.1, List.isEmpty_iff.1 hready.2, (Except.ok.inj h).symm⟩)
    · cases h

/-! ## Counting -/

/-- The reports count up to what `progress` says. -/
structure Counted (t : Transfer κ ρ σ β) (st : Transferring κ σ β) : Prop where
  total : st.progress.totalChunks = t.chunks.length
  reports : ∀ r ∈ st.reports, r.totalChunks = t.chunks.length ∧ r.completedChunks ≤ st.progress.completedChunks
  rising : st.reports.Pairwise fun r r' => r.completedChunks ≤ r'.completedChunks

/-- One more report. -/
theorem Counted.report (h : t.Counted st) (htotal : st'.progress.totalChunks = st.progress.totalChunks)
    (hcompleted : st.progress.completedChunks ≤ st'.progress.completedChunks) (hreports : st'.reports = st.reports ++ [st'.progress]) :
    t.Counted st' := by
  have hnew : st'.progress.totalChunks = t.chunks.length := htotal.trans h.total
  refine ⟨hnew, ?_, ?_⟩
  · intro r hr
    rw [hreports, List.mem_append, List.mem_singleton] at hr
    rcases hr with hr | rfl
    · obtain ⟨ht, hc⟩ := h.reports r hr
      exact ⟨ht, hc.trans hcompleted⟩
    · exact ⟨hnew, le_rfl⟩
  · rw [hreports, List.pairwise_append]
    refine ⟨h.rising, List.pairwise_singleton _ _, ?_⟩
    intro r hr r' hr'
    rw [List.mem_singleton.1 hr']
    exact (h.reports r hr).2.trans hcompleted

/-- Every turn keeps them right. -/
theorem Counted.step (h : t.Counted st) (hs : t.step st a = .ok st') : t.Counted st' := by
  rcases step_cases hs with ⟨n, chunk, result, -, -, rfl⟩ | ⟨n, chunk, err, -, -, rfl⟩ | ⟨-, -, -, rfl⟩
  · exact h.report rfl (Nat.le_succ _) rfl
  · exact h.report rfl le_rfl rfl
  · unfold loop
    split
    · exact ⟨h.total, h.reports, h.rising⟩
    · exact h.report rfl le_rfl rfl

/-! ## The three phases -/

/-- The loop is running, a chunk has failed, or the loop has ended. -/
inductive Phase (t : Transfer κ ρ σ β) (spoiled : Prop) (st : Transferring κ σ β) : Prop where
  | running (unsettled : st.settled = none) (status : st.progress.status = t.begun) (reports : ∀ r ∈ st.reports, r.status = t.begun)
      (count : st.progress.completedChunks + st.pending.length = min st.i t.chunks.length) (unspoiled : ¬ spoiled)
  | failing (err : WalrusError) (settled : st.settled = some (.error err)) (status : st.progress.status = .failed)
      (reports : ∀ r ∈ st.reports, r.status ≠ .completed) (stays : st.reports.Pairwise fun r r' => r.status = .failed → r'.status = .failed)
      (count : st.progress.completedChunks + st.pending.length ≤ t.chunks.length)
      (unspoiled : ¬ spoiled)
  | finished (result : Except WalrusError β) (settled : st.settled = some result) (pending : st.pending = []) (before : List Progress)
      (last : Progress) (reports : st.reports = before ++ [last]) (begun : ∀ r ∈ before, r.status = t.begun)
      (completed : last.status = .completed) (count : st.progress.completedChunks = t.chunks.length)
      (all : last.completedChunks = t.chunks.length) (spoiled : spoiled ↔ ∃ err, result = .error err)

variable {spoiled : Prop}

/-- A list without one of its elements. -/
theorem length_eraseIdx_of_getElem? {α : Type} {xs : List α} {n : Nat} {x : α} (h : xs[n]? = some x) :
    (xs.eraseIdx n).length + 1 = xs.length := by
  have hn : n < xs.length := (List.getElem?_eq_some_iff.1 h).1
  rw [List.length_eraseIdx_of_lt hn]
  omega

/-- A report of failure after reports of which none is a completion. -/
theorem failed_stays {reports : List Progress} (h : reports.Pairwise fun r r' => r.status = .failed → r'.status = .failed) {r : Progress}
    (hr : r.status = .failed) : (reports ++ [r]).Pairwise fun r r' => r.status = .failed → r'.status = .failed := by
  rw [List.pairwise_append]
  refine ⟨h, List.pairwise_singleton _ _, ?_⟩
  intro _ _ r' hr' _
  rw [List.mem_singleton.1 hr', hr]

/-- None of the reports of the running loop is one of failure. -/
theorem failed_of_begun {reports : List Progress} (h : ∀ r ∈ reports, r.status = t.begun) :
    reports.Pairwise fun r r' => r.status = .failed → r'.status = .failed := by
  refine List.pairwise_of_forall_mem_list ?_
  intro r hr r' _ hf
  exact absurd ((h r hr).symm.trans hf) t.begun_ne.2

/-- A chunk that succeeds leads to one of the phases. -/
theorem Phase.succeeded (h : t.Phase spoiled st) {n : Nat} {chunk : κ} (result : ρ) (hn : st.pending[n]? = some chunk) :
    t.Phase spoiled (t.succeeded { st with pending := st.pending.eraseIdx n } chunk result) := by
  have hlen := length_eraseIdx_of_getElem? hn
  cases h with
  | running unsettled status reports count unspoiled =>
    refine .running unsettled status ?_ ?_ unspoiled
    · intro r hr
      rcases List.mem_append.1 hr with hr | hr
      · exact reports r hr
      · rw [List.mem_singleton.1 hr]
        exact status
    · change st.progress.completedChunks + 1 + (st.pending.eraseIdx n).length = min st.i t.chunks.length
      omega
  | failing err settled status reports stays count unspoiled =>
    refine .failing err settled status ?_ (failed_stays stays status) ?_ unspoiled
    · intro r hr
      rcases List.mem_append.1 hr with hr | hr
      · exact reports r hr
      · rw [List.mem_singleton.1 hr]
        exact fun hc => by cases status.symm.trans hc
    · change st.progress.completedChunks + 1 + (st.pending.eraseIdx n).length ≤ t.chunks.length
      omega
  | finished result settled pending =>
    rw [pending] at hn
    cases hn

theorem Phase.failed (h : t.Phase spoiled st) {n : Nat} {chunk : κ} (err : WalrusError) (hn : st.pending[n]? = some chunk) :
    t.Phase spoiled (t.failed { st with pending := st.pending.eraseIdx n } chunk err) := by
  have hlen := length_eraseIdx_of_getElem? hn
  have hcount : st.progress.completedChunks + st.pending.length ≤ t.chunks.length →
      st.progress.completedChunks + (st.pending.eraseIdx n).length ≤ t.chunks.length := by omega
  cases h with
  | running unsettled status reports count unspoiled =>
    have hsettled : st.settled.or (some (.error err)) = some (.error err) := by rw [unsettled, Option.none_or]
    refine .failing err hsettled rfl ?_ (failed_stays (failed_of_begun reports) rfl) (hcount (by omega)) unspoiled
    intro r hr
    rcases List.mem_append.1 hr with hr | hr
    · rw [reports r hr]
      exact t.begun_ne.1
    · rw [List.mem_singleton.1 hr]
      exact fun hc => by cases hc
  | failing err' settled status reports stays count unspoiled =>
    have hsettled : st.settled.or (some (.error err)) = some (.error err') := by rw [settled, Option.some_or]
    refine .failing err' hsettled rfl ?_ (failed_stays stays rfl) (hcount count) unspoiled
    intro r hr
    rcases List.mem_append.1 hr with hr | hr
    · exact reports r hr
    · rw [List.mem_singleton.1 hr]
      exact fun hc => by cases hc
  | finished result settled pending =>
    rw [pending] at hn
    cases hn

/-- The loop goes on, or it ends and the promise settles. -/
theorem Phase.loop (h : t.Phase spoiled st) (hunsettled : st.settled = none) (hpending : st.pending = []) :
    t.Phase (spoiled ∨ t.Spoils st .resumes) (t.loop st) := by
  cases h with
  | failing err settled => rw [hunsettled] at settled; cases settled
  | finished result settled => rw [hunsettled] at settled; cases settled
  | running unsettled status reports count unspoiled =>
    rw [hpending, List.length_nil, Nat.add_zero] at count
    unfold Transfer.loop
    split
    · rename_i hi
      refine .running unsettled status reports ?_ ?_
      · rw [List.extract_eq_take_drop, List.length_take, List.length_drop]
        dsimp only
        omega
      · rintro (hs | ⟨-, hend, -⟩)
        · exact unspoiled hs
        · omega
    · rename_i hi
      have hall : st.progress.completedChunks = t.chunks.length := by omega
      refine .finished (t.finish st.results) rfl hpending st.reports _ rfl reports rfl hall hall ?_
      constructor
      · rintro (hs | ⟨-, -, herr⟩)
        · exact absurd hs unspoiled
        · exact herr
      · intro herr
        exact .inr ⟨rfl, by omega, herr⟩

theorem Phase.step (h : t.Phase spoiled st) (hs : t.step st a = .ok st') : t.Phase (spoiled ∨ t.Spoils st a) st' := by
  have hunspoiled : ∀ {n : Nat} {outcome : Except WalrusError ρ}, (spoiled ∨ t.Spoils st (.settles n outcome)) = spoiled := by
    intro n outcome
    refine propext (or_iff_left ?_)
    rintro ⟨he, -⟩
    cases he
  rcases step_cases hs with ⟨n, chunk, result, hn, rfl, rfl⟩ | ⟨n, chunk, err, hn, rfl, rfl⟩ | ⟨rfl, hunsettled, hpending, rfl⟩
  · rw [hunspoiled]
    exact h.succeeded result hn
  · rw [hunspoiled]
    exact h.failed err hn
  · exact h.loop hunsettled hpending

end Transfer

namespace ChunkedDownloader

end ChunkedDownloader

namespace Sample

/-- The first chunk fails, and the second one succeeds after it. -/
def failing : List (TransferEvent WalrusUploadResult) :=
  [.resumes, .settles 0 (.error (.other "TypeError")), .settles 0 (.ok ⟨"b"⟩)]

end Sample

end BrineVault
