import BrineVault.Walrus.Client
import Mathlib.Order.Lattice.Nat

/-!
# How long the loops over chunks run

The size of a chunk and the number of concurrent requests are any numbers that the options of the client give. The loops of `split`, `upload` and
`download` add them to an offset until it is not below the length of an array.
-/

namespace BrineVault

open Js (Number)

/-! ## Configuration -/

structure ChunkConfig where
  chunkThreshold : Number
  chunkSize : Number
  concurrency : Number
  deriving DecidableEq, Repr

/-- A member of the options. -/
inductive Setting where
  | absent
  | undefined
  | value (x : Number)
  deriving DecidableEq, Repr

structure PartialChunkConfig where
  chunkThreshold : Setting
  chunkSize : Setting
  concurrency : Setting
  deriving DecidableEq, Repr

def DEFAULT_CHUNK_CONFIG : ChunkConfig := { chunkThreshold := 52428800, chunkSize := 10485760, concurrency := 3 }

/-- Spread over the default. A member that is `undefined` counts as `NaN` wherever it is added or compared. -/
def Setting.over (x : Number) : Setting → Number
  | absent => x
  | undefined => .nan
  | value x => x

/-- `chunkCfg` of the client. -/
def chunkCfg (opts : PartialChunkConfig) : ChunkConfig :=
  { chunkThreshold := opts.chunkThreshold.over DEFAULT_CHUNK_CONFIG.chunkThreshold
    chunkSize := opts.chunkSize.over DEFAULT_CHUNK_CONFIG.chunkSize
    concurrency := opts.concurrency.over DEFAULT_CHUNK_CONFIG.concurrency }

/-! ## The loops -/

section Loops

variable {α : Type} (cfg : ChunkConfig)

def slice (xs : List α) (start stop : Number) : List α := xs.extract (start.relativeIndex xs.length) (stop.relativeIndex xs.length)

/-- The loop of `split` from an offset on; nothing, when it takes more turns. -/
def splitFrom (data : Bytes) : (turns : Nat) → (offset : Number) → Option (List Bytes)
  | 0, _ => none
  | turns + 1, offset =>
    if offset.lt data.length then do
      let chunks ← splitFrom data turns (offset.add cfg.chunkSize)
      some (slice data offset ((offset.add cfg.chunkSize).min data.length) :: chunks)
    else some []

inductive Ending where
  | completed
  | rejected
  deriving DecidableEq, Repr

/-- The loop over the batches of `upload` and of `download`. A batch of requests is fulfilled or not, and an empty one is. -/
def batchesFrom (items : List α) (fulfilled : Nat → Bool) : (turns : Nat) → (turn : Nat) → (i : Number) → Option Ending
  | 0, _, _ => none
  | turns + 1, turn, i =>
    if i.lt items.length then
      if (slice items i (i.add cfg.concurrency)).isEmpty || fulfilled turn then
        batchesFrom items fulfilled turns (turn + 1) (i.add cfg.concurrency)
      else some .rejected
    else some .completed

def SplitEnds (data : Bytes) : Prop := ∃ turns, (splitFrom cfg data turns 0).isSome = true

/-- However the requests are settled. -/
def BatchesEnd (items : List α) : Prop := ∀ fulfilled, ∃ turns, (batchesFrom cfg items fulfilled turns 0 0).isSome = true

def UploadEnds (data : Bytes) : Prop := ∃ turns chunks, splitFrom cfg data turns 0 = some chunks ∧ BatchesEnd cfg chunks

def DownloadEnds (manifest : ChunkManifest) : Prop := BatchesEnd cfg (ChunkedDownloader.sorted manifest.chunks)

end Loops

/-! ## Offsets -/

/-- The offset after so many turns. -/
def offsetAfter (step : Number) : Nat → Number
  | 0 => 0
  | i + 1 => (offsetAfter step i).add step

/-- The step leads to the end of an array of length `n`: a finite one is more than 2^-53 of every power of two below `n`, so that it moves every
offset on. -/
def Advances (step : Number) (n : Nat) : Prop :=
  match step with
  | .nan => True
  | .infinity isNegative => isNegative = false ∨ n = 0
  | .finite q => ∀ k : ℤ, (2 : ℚ) ^ k < n → 2 ^ (k - 53) < q

/-- The offsets of a finite step are its sums. -/
theorem offsetAfter_finite (q : ℚ) (i : Nat) : offsetAfter (.finite q) i = .finite (Floating.sums 53 (-1074) q i) := by
  induction i with
  | zero => rfl
  | succ i ih => rw [offsetAfter, ih, Number.add, Floating.sums]

/-- With a step of minus infinity every offset after the first is that. -/
theorem offsetAfter_negInfinity (i : Nat) : offsetAfter (.infinity true) (i + 1) = .infinity true := by
  induction i with
  | zero => rfl
  | succ i ih => rw [offsetAfter, ih, Number.add, if_pos rfl]

/-- Some offset reaches the length exactly when the step advances. -/
theorem exists_offset_iff (step : Number) (n : Nat) : (∃ i, (offsetAfter step i).lt n = false) ↔ Advances step n := by
  cases step with
  | finite q =>
    have hsums := Floating.exists_le_sums_iff (p := 53) (e := -1074) (by decide) (by decide) n q
    simp only [Nat.cast_ofNat] at hsums
    rw [Advances, ← hsums]
    refine exists_congr fun i => ?_
    rw [offsetAfter_finite, Number.natCast_def, Number.lt, decide_eq_false_iff_not, not_lt]
  | infinity isNegative =>
    cases isNegative with
    | false => exact iff_of_true ⟨1, rfl⟩ (.inl rfl)
    | true =>
      constructor
      · rintro ⟨_ | i, hi⟩
        · have hzero : Number.lt (0 : Nat) n = false := hi
          exact .inr (by simpa using hzero)
        · rw [offsetAfter_negInfinity] at hi
          cases hi
      · rintro (hfalse | rfl)
        · cases hfalse
        · exact ⟨0, rfl⟩
  | nan => exact iff_of_true ⟨1, rfl⟩ trivial

/-- A whole number, over an array of a length that a number counts exactly. -/
theorem advances_natCast {step n : Nat} (hstep : 0 < step) (hn : n ≤ 2 ^ 53) : Advances step n := by
  intro k hk
  have hlt : k < 53 := by
    have hpow : (2 : ℚ) ^ k < 2 ^ (53 : ℤ) := hk.trans_le (by exact_mod_cast hn)
    exact (zpow_lt_zpow_iff_right₀ one_lt_two).1 hpow
  calc (2 : ℚ) ^ (k - 53) ≤ 2 ^ (-1 : ℤ) := zpow_le_zpow_right₀ one_le_two (by omega)
    _ < 1 := by norm_num
    _ ≤ step := by exact_mod_cast hstep

/-! ## The number of turns -/

section Turns

variable {α : Type} {cfg : ChunkConfig}

/-- The first turn that does not begin is among those from the next one on, where one begins. -/
theorem exists_lt_succ_iff {P : Nat → Prop} {turns i : Nat} (hi : ¬ P i) : (∃ j < turns, P (i + 1 + j)) ↔ ∃ j < turns + 1, P (i + j) := by
  constructor
  · rintro ⟨j, hj, hP⟩
    exact ⟨j + 1, Nat.succ_lt_succ hj, by rwa [show i + (j + 1) = i + 1 + j by omega]⟩
  · rintro ⟨_ | j, hj, hP⟩
    · exact absurd hP hi
    · exact ⟨j, Nat.lt_of_succ_lt_succ hj, by rwa [show i + 1 + j = i + (j + 1) by omega]⟩

/-- The loop ends within its turns exactly when one of the offsets reaches the length. -/
theorem splitFrom_isSome_iff (data : Bytes) (turns i : Nat) :
    (splitFrom cfg data turns (offsetAfter cfg.chunkSize i)).isSome = true ↔
      ∃ j < turns, (offsetAfter cfg.chunkSize (i + j)).lt data.length = false := by
  induction turns generalizing i with
  | zero => simp [splitFrom]
  | succ turns ih =>
    rw [splitFrom]
    split
    · rename_i hlt
      rw [← exists_lt_succ_iff (P := fun i => (offsetAfter cfg.chunkSize i).lt data.length = false) (by simp [hlt]), ← ih (i + 1), offsetAfter]
      cases splitFrom cfg data turns ((offsetAfter cfg.chunkSize i).add cfg.chunkSize) <;> simp
    · rename_i hend
      exact iff_of_true rfl ⟨0, Nat.succ_pos turns, by simpa using hend⟩

/-- Where every batch is fulfilled, the loop over the batches takes as many turns as that of `split`. -/
theorem batchesFrom_isSome_iff (items : List α) (turns turn i : Nat) :
    (batchesFrom cfg items (fun _ => true) turns turn (offsetAfter cfg.concurrency i)).isSome = true ↔
      ∃ j < turns, (offsetAfter cfg.concurrency (i + j)).lt items.length = false := by
  induction turns generalizing turn i with
  | zero => simp [batchesFrom]
  | succ turns ih =>
    rw [batchesFrom]
    split
    · rename_i hlt
      rw [← exists_lt_succ_iff (P := fun i => (offsetAfter cfg.concurrency i).lt items.length = false) (by simp [hlt]), ← ih (turn + 1) (i + 1)]
      simp [offsetAfter]
    · rename_i hend
      exact iff_of_true rfl ⟨0, Nat.succ_pos turns, by simpa using hend⟩

/-- A batch that is rejected ends the loop. -/
theorem batchesFrom_isSome {items : List α} {turns turn : Nat} {i : Number} (fulfilled : Nat → Bool)
    (h : (batchesFrom cfg items (fun _ => true) turns turn i).isSome = true) : (batchesFrom cfg items fulfilled turns turn i).isSome = true := by
  induction turns generalizing turn i with
  | zero => cases h
  | succ turns ih =>
    rw [batchesFrom] at h ⊢
    split
    · rename_i hlt
      rw [if_pos hlt, if_pos (by simp)] at h
      split
      · exact ih h
      · rfl
    · rfl

/-- Splitting ends exactly when the chunk size advances. -/
theorem splitEnds_iff (data : Bytes) : SplitEnds cfg data ↔ Advances cfg.chunkSize data.length := by
  rw [← exists_offset_iff]
  constructor
  · rintro ⟨turns, hsome⟩
    obtain ⟨j, -, hj⟩ := (splitFrom_isSome_iff data turns 0).1 hsome
    exact ⟨0 + j, hj⟩
  · rintro ⟨j, hj⟩
    exact ⟨j + 1, (splitFrom_isSome_iff data (j + 1) 0).2 ⟨j, Nat.lt_succ_self j, by rwa [Nat.zero_add]⟩⟩

/-- Batching ends exactly when the concurrency advances. -/
theorem batchesEnd_iff (items : List α) : BatchesEnd cfg items ↔ Advances cfg.concurrency items.length := by
  rw [← exists_offset_iff]
  constructor
  · intro hends
    obtain ⟨turns, hsome⟩ := hends fun _ => true
    obtain ⟨j, -, hj⟩ := (batchesFrom_isSome_iff items turns 0 0).1 hsome
    exact ⟨0 + j, hj⟩
  · rintro ⟨j, hj⟩ fulfilled
    exact ⟨j + 1, batchesFrom_isSome fulfilled
      ((batchesFrom_isSome_iff items (j + 1) 0 0).2 ⟨j, Nat.lt_succ_self j, by rwa [Nat.zero_add]⟩)⟩

end Turns

/-! ## Whole numbers -/

/-- With a chunk size that is a natural number the loop cuts the slices of `WalrusClient`, as long as the offsets are counted exactly. -/
theorem splitFrom_natCast {cfg : ChunkConfig} {data : Bytes} {size : Nat} (hcfg : cfg.chunkSize = size) (hsize : 0 < size)
    (hexact : data.length + size ≤ 2 ^ 53) (fuel offset : Nat) (hfuel : data.length ≤ offset + fuel) :
    splitFrom cfg data (fuel + 1) offset = some (Slices.slicesFrom size data fuel offset) := by
  induction fuel generalizing offset with
  | zero =>
    have hend : Number.lt offset data.length = false := by
      rw [Number.lt_natCast, decide_eq_false_iff_not]
      omega
    rw [splitFrom, hend]
    rfl
  | succ fuel ih =>
    rw [splitFrom, Slices.slicesFrom, Number.lt_natCast]
    by_cases hlt : offset < data.length
    · have hsum : Number.add offset cfg.chunkSize = (offset + size : Nat) := by
        rw [hcfg, Number.add_natCast (by omega)]
      have hslice : slice data offset ((offset + size : Nat) ⊓ data.length : Nat) = data.extract offset (offset + size) := by
        rw [slice, Number.relativeIndex_natCast, Number.relativeIndex_natCast, List.extract_eq_take_drop, List.extract_eq_take_drop,
          Nat.min_eq_left hlt.le, List.take_eq_take_iff, List.length_drop]
        omega
      rw [if_pos (decide_eq_true hlt), if_pos hlt, hsum, ih (offset + size) (by omega), Number.min_natCast, hslice]
      rfl
    · rw [if_neg (by simpa using hlt), if_neg hlt]

/-- So the chunks of `split` are those of `WalrusClient`. -/
theorem splitFrom_eq_split {cfg : ChunkConfig} {client : WalrusConfig} {data : Bytes} (hcfg : cfg.chunkSize = client.chunkSize)
    (hsize : 0 < client.chunkSize) (hexact : data.length + client.chunkSize ≤ 2 ^ 53) :
    splitFrom cfg data (data.length + 1) 0 = some (ChunkedUploader.split client data) :=
  splitFrom_natCast hcfg hsize hexact data.length 0 (by omega)

/-- With the defaults `split` ends, and so does a download. -/
theorem defaults_end {data : Bytes} {manifest : ChunkManifest} (hdata : data.length ≤ 2 ^ 53) (hchunks : manifest.chunks.length ≤ 2 ^ 53) :
    SplitEnds DEFAULT_CHUNK_CONFIG data ∧ DownloadEnds DEFAULT_CHUNK_CONFIG manifest := by
  refine ⟨(splitEnds_iff data).2 (advances_natCast (by decide) hdata), (batchesEnd_iff _).2 ?_⟩
  rw [ChunkedDownloader.sorted, List.length_insertionSort]
  exact advances_natCast (by decide) hchunks

/-! ## The number of chunks -/

/-- How many offsets there are before the first one that is not below `n`. -/
noncomputable def offsetsBelow (step : Number) (n : Nat) : Nat := sInf {i | (offsetAfter step i).lt n = false}

/-- A chunk was cut at each offset below the length, and at no other. -/
theorem length_splitFrom {cfg : ChunkConfig} {data : Bytes} {turns i : Nat} {chunks : List Bytes}
    (h : splitFrom cfg data turns (offsetAfter cfg.chunkSize i) = some chunks) :
    (offsetAfter cfg.chunkSize (i + chunks.length)).lt data.length = false ∧
      ∀ j < chunks.length, (offsetAfter cfg.chunkSize (i + j)).lt data.length = true := by
  induction turns generalizing i chunks with
  | zero => cases h
  | succ turns ih =>
    rw [splitFrom] at h
    split at h
    · rename_i hlt
      obtain ⟨rest, hrest, hchunks⟩ := Option.bind_eq_some_iff.1 h
      cases hchunks
      obtain ⟨hend, hbelow⟩ := ih (i := i + 1) hrest
      refine ⟨by rwa [List.length_cons, show i + (rest.length + 1) = i + 1 + rest.length by omega], fun j hj => ?_⟩
      match j, hj with
      | 0, _ => exact hlt
      | j + 1, hj =>
        rw [show i + (j + 1) = i + 1 + j by omega]
        exact hbelow j (Nat.lt_of_succ_lt_succ hj)
    · rename_i hend
      cases h
      exact ⟨by simpa using hend, fun j hj => absurd hj (Nat.not_lt_zero j)⟩

/-- There are as many chunks as offsets below the length. -/
theorem length_split {cfg : ChunkConfig} {data : Bytes} {turns : Nat} {chunks : List Bytes} (h : splitFrom cfg data turns 0 = some chunks) :
    chunks.length = offsetsBelow cfg.chunkSize data.length := by
  obtain ⟨hend, hbelow⟩ := length_splitFrom (i := 0) h
  simp only [Nat.zero_add] at hend hbelow
  refine le_antisymm (not_lt.1 fun hlt => ?_) (Nat.sInf_le hend)
  have hfirst : (offsetAfter cfg.chunkSize (offsetsBelow cfg.chunkSize data.length)).lt data.length = false :=
    Nat.sInf_mem (s := {i | (offsetAfter cfg.chunkSize i).lt data.length = false}) ⟨_, hend⟩
  rw [hbelow _ hlt] at hfirst
  cases hfirst

/-- The loops over chunks end exactly when the size of a chunk leads to the end of the data, and the concurrency to the end of the chunks. -/
theorem chunking_ends_iff (opts : PartialChunkConfig) (data : Bytes) (manifest : ChunkManifest) :
    SplitEnds (chunkCfg opts) data ∧ UploadEnds (chunkCfg opts) data ∧ DownloadEnds (chunkCfg opts) manifest ↔
      Advances (chunkCfg opts).chunkSize data.length ∧
        Advances (chunkCfg opts).concurrency (offsetsBelow (chunkCfg opts).chunkSize data.length) ∧
        Advances (chunkCfg opts).concurrency manifest.chunks.length := by
  have hdownload : DownloadEnds (chunkCfg opts) manifest ↔ Advances (chunkCfg opts).concurrency manifest.chunks.length := by
    rw [DownloadEnds, batchesEnd_iff, ChunkedDownloader.sorted, List.length_insertionSort]
  rw [splitEnds_iff, hdownload]
  refine and_congr_right fun hsplit => and_congr_left' ?_
  constructor
  · rintro ⟨turns, chunks, hchunks, hends⟩
    rw [← length_split hchunks]
    exact (batchesEnd_iff chunks).1 hends
  · intro hadvances
    obtain ⟨turns, hsome⟩ := (splitEnds_iff data).2 hsplit
    obtain ⟨chunks, hchunks⟩ := Option.isSome_iff_exists.1 hsome
    exact ⟨turns, chunks, hchunks, (batchesEnd_iff chunks).2 (by rwa [length_split hchunks])⟩

namespace Sample

def noChunkSize : PartialChunkConfig := { chunkThreshold := .absent, chunkSize := .value 0, concurrency := .absent }
def noConcurrency : PartialChunkConfig := { chunkThreshold := .absent, chunkSize := .absent, concurrency := .value 0 }

end Sample

theorem not_advances_zero {n : Nat} (hn : 0 < n) : ¬ Advances 0 n := by
  intro hadvances
  have hhalf : (2 : ℚ) ^ (-1 : ℤ) < n := by
    have hone : (1 : ℚ) ≤ n := by exact_mod_cast hn
    rw [zpow_neg_one]
    linarith
  have hstep : (2 : ℚ) ^ (-1 - 53 : ℤ) < 0 := hadvances (-1) hhalf
  exact absurd hstep (zpow_pos two_pos _).not_gt

/-- A chunk size of 0 leaves the offset where it is, and so does a concurrency of 0. -/
theorem zero_never_ends :
    ¬ SplitEnds (chunkCfg Sample.noChunkSize) [7] ∧ ¬ UploadEnds (chunkCfg Sample.noConcurrency) [7] ∧
      ¬ DownloadEnds (chunkCfg Sample.noConcurrency) { totalSize := 1, chunkSize := 1, chunks := [{ index := 0, blobId := "b", size := 1 }] } := by
  refine ⟨fun hends => ?_, ?_, fun hends => ?_⟩
  · exact not_advances_zero Nat.one_pos ((splitEnds_iff _).1 hends)
  · rintro ⟨turns, chunks, hchunks, hends⟩
    have hlength : chunks ≠ [] := by
      rintro rfl
      have hend := (length_splitFrom (i := 0) hchunks).1
      cases hend
    exact not_advances_zero (List.length_pos_iff.2 hlength) ((batchesEnd_iff chunks).1 hends)
  · exact not_advances_zero Nat.one_pos ((batchesEnd_iff _).1 hends)

end BrineVault
