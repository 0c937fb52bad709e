import BrineVault.Walrus.Client
import Mathlib.Data.List.ReduceOption

/-!
# What is uploaded can be downloaded

An upload that is resolved has given every chunk an id, under which the publisher has stored it, in the place of its index, whatever the order in
which the requests came to an end. A download puts the chunks together again.
-/

namespace BrineVault

open Interleaving
open Slices (slices assign)
open Js (Number)

/-! ## Retries -/

section Retry

variable {C : Type} {R : C → Type} {σ α Q : Type} {exec : σ → (c : C) → R c × σ} {grows : σ → σ → Prop}

/-- What a request comes to, all attempts come to, when nothing is said of their errors. -/
theorem safe_withRetry {fn : Prog C R WalrusError α} {post : Except WalrusError α → σ → Prop} (hrefl : ∀ a, grows a a)
    (herror : ∀ e s, post (.error e) s) (inv : σ → Prop) (hinv : ∀ s s', grows s s' → inv s → inv s')
    (hfn : ∀ s, inv s → Safe exec grows (fun _ _ => True) (fun r s' => inv s' ∧ post r s') fn s) (attempts : Nat) {s : σ} (hs : inv s) :
    Safe exec grows (fun _ _ => True) (fun r s' => inv s' ∧ post r s') (withRetry fn attempts) s := by
  induction attempts generalizing s with
  | zero => exact fun s' hgrows => ⟨hinv s s' hgrows hs, herror _ s'⟩
  | succ attempts ih =>
    refine (hfn s hs).tryCatch hrefl (fun a s h => h) ?_
    rintro e s' ⟨hs', -⟩
    split
    · exact fun s'' hgrows => ⟨hinv s' s'' hgrows hs', herror _ s''⟩
    · exact ih hs'

/-- A request is only retried as long as it has not been answered. -/
theorem keeps_withRetry {hit : (c : C) → R c → Prop} {fn : Prog C R WalrusError α}
    (hfn : Keeps (listening hit) (fun φ r => ∀ e, r = .error e → ¬ φ) False fn) (attempts : Nat) :
    Keeps (listening hit) (fun φ r => ∀ e, r = .error e → ¬ φ) False (withRetry fn attempts) := by
  induction attempts with
  | zero => exact fun _ _ h => h
  | succ attempts ih =>
    refine hfn.tryCatch (fun q a h => h) ?_
    intro q e h
    rw [eq_false (h e rfl)]
    split
    · exact fun _ _ h => h
    · exact ih

end Retry

/-! ## The upload -/

/-- The place of an index holds the id under which the chunk of that index is stored. -/
def Placed (chunks : List Bytes) (st : Publisher) (k : Nat) : Prop :=
  ∃ chunk id, chunks[k]? = some chunk ∧ (id, chunk) ∈ st.stored ∧ st.results[k]? = some (some ⟨k, id, chunk.length⟩)

/-- The publisher forgets no blob, and the places that are filled stay so. -/
structure Publisher.Grows (chunks : List Bytes) (st st' : Publisher) : Prop where
  stored : st.stored ⊆ st'.stored
  places : st'.results.length = st.results.length
  placed : ∀ k, Placed chunks st k → Placed chunks st' k

/-- A publisher has grown from itself. -/
theorem Publisher.Grows.refl (chunks : List Bytes) (st : Publisher) : Publisher.Grows chunks st st :=
  ⟨fun _ h => h, rfl, fun _ h => h⟩

theorem Publisher.Grows.trans (chunks : List Bytes) (a b c : Publisher) (h : Publisher.Grows chunks a b) (h' : Publisher.Grows chunks b c) :
    Publisher.Grows chunks a c :=
  ⟨fun _ hb => h'.stored (h.stored hb), h'.places.trans h.places, fun k hk => h'.placed k (h.placed k hk)⟩

/-- A change of what the publisher is about to answer. -/
theorem Publisher.grows_turnTo (chunks : List Bytes) (st : Publisher) (answer : PublisherAnswer) :
    Publisher.Grows chunks st (st.turnTo answer) :=
  ⟨fun _ h => h, rfl, fun _ h => h⟩

variable {chunks : List Bytes} {cfg : WalrusConfig} {epochs : Nat} {data : Bytes}

/-- A blob that was uploaded is stored. -/
theorem safe_uploadSingleBlob (st : Publisher) :
    Safe Publisher.exec (Publisher.Grows chunks) (fun _ _ => True) (fun r st' => ∀ result, r = .ok result → (result.blobId, data) ∈ st'.stored)
      (WalrusClient.uploadSingleBlob cfg data epochs) st := by
  refine (safe_withRetry (Publisher.Grows.refl chunks) (fun e s result h => by cases h) (fun _ => True) (fun _ _ _ _ => trivial) ?_ _
    trivial).mono (fun _ _ h => h) (fun _ _ h => h.2)
  intro st _ st' _ _
  simp only [Publisher.exec]
  cases st'.answer with
  | created result =>
    refine ⟨⟨List.subset_append_left _ _, rfl, ?_⟩, ?_⟩
    · rintro k ⟨chunk, id, hchunk, hstored, hplace⟩
      exact ⟨chunk, id, hchunk, List.mem_append_left _ hstored, hplace⟩
    · intro st'' hgrows
      refine ⟨trivial, ?_⟩
      intro result' hr
      cases hr
      exact hgrows.stored (List.mem_append_right _ (List.mem_singleton_self _))
  | malformed => exact ⟨Publisher.Grows.refl chunks _, fun _ _ => ⟨trivial, fun _ h => by cases h⟩⟩
  | refused status => exact ⟨Publisher.Grows.refl chunks _, fun _ _ => ⟨trivial, fun _ h => by cases h⟩⟩
  | unreachable => exact ⟨Publisher.Grows.refl chunks _, fun _ _ => ⟨trivial, fun _ h => by cases h⟩⟩

/-- Assigning the place of its index fills it, and leaves the others. -/
theorem placed_setResult {st : Publisher} {k : Nat} {chunk : Bytes} {id : BlobId} (hlen : st.results.length = chunks.length)
    (hchunk : chunks[k]? = some chunk) (hstored : (id, chunk) ∈ st.stored) :
    Publisher.Grows chunks st (st.exec (.setResult k ⟨k, id, chunk.length⟩)).2 ∧
      Placed chunks (st.exec (.setResult k ⟨k, id, chunk.length⟩)).2 k := by
  have hlt : k < st.results.length := hlen ▸ (List.getElem?_eq_some_iff.1 hchunk).1
  have hplaced : Placed chunks (st.exec (.setResult k ⟨k, id, chunk.length⟩)).2 k := by
    refine ⟨chunk, id, hchunk, hstored, ?_⟩
    simp only [Publisher.exec]
    rw [Slices.getElem?_assign hlt, if_pos rfl]
  refine ⟨⟨fun _ h => h, Slices.length_assign hlt _, ?_⟩, hplaced⟩
  rintro j ⟨chunk', id', hchunk', hstored', hplace'⟩
  by_cases hjk : j = k
  · exact hjk ▸ hplaced
  · refine ⟨chunk', id', hchunk', hstored', ?_⟩
    simp only [Publisher.exec]
    rw [Slices.getElem?_assign hlt, if_neg hjk]
    exact hplace'

/-- A chunk that was uploaded is in its place. -/
theorem safe_uploadChunk {chunk : Bytes × Nat} (hchunk : chunks[chunk.2]? = some chunk.1) {st : Publisher}
    (hlen : st.results.length = chunks.length) :
    Safe Publisher.exec (Publisher.Grows chunks) (fun _ _ => True) (fun r st' => r = .ok () → Placed chunks st' chunk.2)
      (ChunkedUploader.uploadChunk cfg epochs chunk) st := by
  have hupload : Safe Publisher.exec (Publisher.Grows chunks) (fun _ _ => True)
      (fun r st' => ∀ result, r = .ok result → (result.blobId, chunk.1) ∈ st'.stored)
      (WalrusClient.uploadSingleBlob cfg chunk.1 epochs) st := safe_uploadSingleBlob st
  refine (hupload.remember (Publisher.Grows.trans chunks) (Publisher.Grows.refl chunks st)).bind (Publisher.Grows.refl chunks) ?_ (fun e s _ h => by cases h)
  rintro result st' ⟨hstored, hgrows⟩ st'' hgrows' -
  have hlen' : st''.results.length = chunks.length := by rw [hgrows'.places, hgrows.places, hlen]
  obtain ⟨hset, hplaced⟩ := placed_setResult hlen' hchunk (hgrows'.stored (hstored result rfl))
  exact ⟨hset, fun st''' hlater _ => hlater.placed _ hplaced⟩

/-- The entries of a manifest are those of the chunks, in their order, and the chunks are stored under their ids. -/
structure Lists (stored : List (BlobId × Bytes)) (chunks : List Bytes) (entries : List ChunkEntry) : Prop where
  length : entries.length = chunks.length
  entry : ∀ (k : Nat) (e : ChunkEntry), entries[k]? = some e → e.index = k ∧ ∃ chunk, chunks[k]? = some chunk ∧ (e.blobId, chunk) ∈ stored

/-- When every place is filled, the places list the chunks. -/
theorem lists_of_placed {st : Publisher} (hlen : st.results.length = chunks.length) (h : ∀ k < chunks.length, Placed chunks st k) :
    Lists st.stored chunks st.results.reduceOption := by
  have hsome : ∀ x ∈ st.results, x.isSome = true := by
    intro x hx
    obtain ⟨k, hk⟩ := List.mem_iff_getElem?.1 hx
    have hlt : k < chunks.length := hlen ▸ (List.getElem?_eq_some_iff.1 hk).1
    obtain ⟨chunk, id, -, -, hplace⟩ := h k hlt
    rw [hk, Option.some.injEq] at hplace
    rw [hplace]
    rfl
  have hmap : st.results.reduceOption.map some = st.results := Slices.map_some_reduceOption hsome
  refine ⟨?_, ?_⟩
  · have hlength := congrArg List.length hmap
    rw [List.length_map] at hlength
    exact hlength.trans hlen
  · intro k e he
    have hplace : st.results[k]? = some (some e) := by
      rw [← hmap, List.getElem?_map, he]
      rfl
    have hlt : k < chunks.length := hlen ▸ (List.getElem?_eq_some_iff.1 hplace).1
    obtain ⟨chunk, id, hchunk, hstored, hplace'⟩ := h k hlt
    rw [hplace, Option.some.injEq, Option.some.injEq] at hplace'
    subst hplace'
    exact ⟨rfl, chunk, hchunk, hstored⟩

/-- What a chunked upload has left behind. -/
theorem uploadChunked_ok (hconc : 0 < cfg.concurrency) {st st' : Publisher} {schedules : UploadSchedules} {result : UploadResult}
    (h : WalrusClient.uploadChunked cfg data epochs st schedules = some (.ok result, st')) :
    ∃ manifest, result = { blobId := none, manifest := some manifest, totalSize := data.length } ∧ manifest.totalSize = data.length ∧
      Lists st'.stored (ChunkedUploader.split cfg data) manifest.chunks := by
  unfold WalrusClient.uploadChunked ChunkedUploader.upload at h
  simp only [Option.bind_eq_bind, Option.bind_eq_some_iff] at h
  obtain ⟨⟨settled, st₁⟩, ⟨⟨settled', st₂⟩, hbatches, hmanifest⟩, hresult⟩ := h
  have hsafe : ∀ batch ∈ ChunkedUploader.batches cfg data, ∀ chunk ∈ batch, ∀ st : Publisher,
      st.results.length = (ChunkedUploader.split cfg data).length →
        Safe Publisher.exec (Publisher.Grows (ChunkedUploader.split cfg data)) (fun _ _ => True)
          (fun r st' => r = .ok () → Placed (ChunkedUploader.split cfg data) st' chunk.2) (ChunkedUploader.uploadChunk cfg epochs chunk) st := by
    intro batch hbatch chunk hchunk st hlen
    have hmem : chunk ∈ (ChunkedUploader.split cfg data).zipIdx := (Slices.mem_of_mem_slices hconc).1 ⟨batch, hbatch, hchunk⟩
    exact safe_uploadChunk (List.mem_zipIdx_iff_getElem?.1 hmem) hlen
  obtain ⟨hgrows, hplaced⟩ := inBatches_safe (Publisher.Grows.refl _) (Publisher.Grows.trans _)
    (Publisher.grows_turnTo (ChunkedUploader.split cfg data)) (fun chunk st => Placed (ChunkedUploader.split cfg data) st chunk.2)
    (fun st => st.results.length = (ChunkedUploader.split cfg data).length) (fun chunk _ _ hgrows h => hgrows.placed chunk.2 h)
    (fun _ _ hgrows h => hgrows.places.trans h) hsafe List.length_replicate hbatches
  cases settled' with
  | error e =>
    cases hmanifest
    cases hresult
  | ok u =>
    cases hmanifest
    cases hresult
    refine ⟨_, rfl, rfl, ?_⟩
    refine lists_of_placed (hgrows.places.trans List.length_replicate) ?_
    intro k hk
    have hmem : ((ChunkedUploader.split cfg data)[k], k) ∈ (ChunkedUploader.split cfg data).zipIdx :=
      List.mem_zipIdx_iff_getElem?.2 (List.getElem?_eq_getElem hk)
    obtain ⟨batch, hbatch, hchunk⟩ := (Slices.mem_of_mem_slices hconc).2 hmem
    exact hplaced rfl batch hbatch _ hchunk

/-! ## The download -/

/-- The place of an index holds the chunk of that index. -/
def Arrived (chunks : List Bytes) (st : Aggregators) (k : Nat) : Prop :=
  ∃ chunk, chunks[k]? = some chunk ∧ st.downloaded[k]? = some (some chunk)

/-- The store stays as it is, and the places that are filled stay so. -/
structure Aggregators.Grows (chunks : List Bytes) (st st' : Aggregators) : Prop where
  content : st'.content = st.content
  places : st'.downloaded.length = st.downloaded.length
  arrived : ∀ k, Arrived chunks st k → Arrived chunks st' k

theorem Aggregators.Grows.refl (chunks : List Bytes) (st : Aggregators) : Aggregators.Grows chunks st st := ⟨rfl, rfl, fun _ h => h⟩

theorem Aggregators.Grows.trans (chunks : List Bytes) (a b c : Aggregators) (h : Aggregators.Grows chunks a b)
    (h' : Aggregators.Grows chunks b c) : Aggregators.Grows chunks a c :=
  ⟨h'.content.trans h.content, h'.places.trans h.places, fun k hk => h'.arrived k (h.arrived k hk)⟩

/-- A change of what the aggregators are about to answer. -/
theorem Aggregators.grows_turnTo (chunks : List Bytes) (st : Aggregators) (answer : AggregatorAnswer) :
    Aggregators.Grows chunks st (st.turnTo answer) :=
  ⟨rfl, rfl, fun _ h => h⟩

section Download

variable {blobId : BlobId} {content : BlobId → Option Bytes}

/-- One request to an aggregator. -/
def fetchBlob (aggregator : Nat) (blobId : BlobId) : Download Bytes := do
  readBody "download" (← Prog.send (DownloadCommand.get aggregator blobId))

section Blob

variable {grows : Aggregators → Aggregators → Prop} (hrefl : ∀ a, grows a a) (hkeeps : ∀ a b, grows a b → b.content = a.content)
include hrefl hkeeps

/-- A blob that was fetched is what is stored. -/
theorem safe_fetchBlob {aggregator : Nat} {st : Aggregators} (hst : st.content = content) :
    Safe Aggregators.exec grows (fun _ _ => True)
      (fun r st' => st'.content = content ∧ ∀ bytes, r = .ok bytes → content blobId = some bytes) (fetchBlob aggregator blobId) st := by
  intro st' hgrows _
  have hst' : st'.content = content := (hkeeps _ _ hgrows).trans hst
  have herror : ∀ e, Safe Aggregators.exec grows (fun _ _ => True)
      (fun r st' => st'.content = content ∧ ∀ bytes, r = .ok bytes → content blobId = some bytes) (.throw e : Download Bytes) st' :=
    fun e st'' hgrows' => ⟨(hkeeps _ _ hgrows').trans hst', fun _ h => by cases h⟩
  simp only [Aggregators.exec]
  cases st'.answer with
  | serve =>
    cases hblob : st'.content blobId with
    | none =>
      dsimp only
      exact ⟨hrefl _, herror _⟩
    | some data =>
      dsimp only
      refine ⟨hrefl _, fun st'' hgrows' => ⟨(hkeeps _ _ hgrows').trans hst', ?_⟩⟩
      intro bytes hr
      cases hr
      rw [← hst', hblob]
  | refused status => exact ⟨hrefl _, herror _⟩
  | unreachable => exact ⟨hrefl _, herror _⟩

/-- So is one that was downloaded from the aggregators in turn. -/
theorem safe_downloadFrom (aggregators : List Nat) (lastError : WalrusError) {st : Aggregators} (hst : st.content = content) :
    Safe Aggregators.exec grows (fun _ _ => True) (fun r _ => ∀ bytes, r = .ok bytes → content blobId = some bytes)
      (WalrusClient.downloadFrom cfg blobId lastError aggregators) st := by
  induction aggregators generalizing lastError st with
  | nil => exact fun _ _ _ h => by cases h
  | cons aggregator aggregators ih =>
    have hretry : Safe Aggregators.exec grows (fun _ _ => True)
        (fun r st' => st'.content = content ∧ ∀ bytes, r = .ok bytes → content blobId = some bytes)
        (withRetry (fetchBlob aggregator blobId) cfg.maxAttempts) st :=
      safe_withRetry hrefl (fun e s bytes h => by cases h) (fun st => st.content = content)
        (fun _ _ hgrows h => (hkeeps _ _ hgrows).trans h) (fun st hst => safe_fetchBlob hrefl hkeeps hst) _ hst
    refine hretry.tryCatch hrefl (fun _ _ h => h.2) ?_
    rintro e st' ⟨hst', -⟩
    split
    · exact fun _ _ _ h => by cases h
    · exact ih e hst'

/-- A blob that is downloaded is the one that is stored. -/
theorem safe_downloadSingleBlob {st : Aggregators} (hst : st.content = content) :
    Safe Aggregators.exec grows (fun _ _ => True) (fun r _ => ∀ bytes, r = .ok bytes → content blobId = some bytes)
      (WalrusClient.downloadSingleBlob cfg blobId) st := safe_downloadFrom hrefl hkeeps _ _ hst

end Blob

/-- Assigning the place of its index fills it, and leaves the others. -/
theorem arrived_setDownloaded {st : Aggregators} {k : Nat} {chunk : Bytes} (hlen : st.downloaded.length = chunks.length)
    (hchunk : chunks[k]? = some chunk) :
    Aggregators.Grows chunks st (st.exec (.setDownloaded k chunk)).2 ∧ Arrived chunks (st.exec (.setDownloaded k chunk)).2 k := by
  have hexec : (st.exec (.setDownloaded k chunk)).2 = { st with downloaded := assign st.downloaded k chunk } := by
    simp only [Aggregators.exec, Js.Number.arrayIndex_natCast]
  rw [hexec]
  have hlt : k < st.downloaded.length := hlen ▸ (List.getElem?_eq_some_iff.1 hchunk).1
  have harrived : Arrived chunks { st with downloaded := assign st.downloaded k chunk } k := by
    refine ⟨chunk, hchunk, ?_⟩
    rw [Slices.getElem?_assign hlt, if_pos rfl]
  refine ⟨⟨rfl, Slices.length_assign hlt _, ?_⟩, harrived⟩
  rintro j ⟨chunk', hchunk', hplace'⟩
  by_cases hjk : j = k
  · exact hjk ▸ harrived
  · refine ⟨chunk', hchunk', ?_⟩
    rw [Slices.getElem?_assign hlt, if_neg hjk]
    exact hplace'

/-- A chunk that was downloaded has arrived in its place. -/
theorem safe_downloadChunk {entry : ChunkEntry} {k : Nat} {chunk : Bytes} (hindex : entry.index = k) (hchunk : chunks[k]? = some chunk)
    (hcontent : content entry.blobId = some chunk) {st : Aggregators} (hst : st.content = content)
    (hlen : st.downloaded.length = chunks.length) :
    Safe Aggregators.exec (Aggregators.Grows chunks) (fun _ _ => True) (fun r st' => r = .ok () → Arrived chunks st' k)
      (ChunkedDownloader.downloadChunk cfg entry) st := by
  have hdownload : Safe Aggregators.exec (Aggregators.Grows chunks) (fun _ _ => True)
      (fun r _ => ∀ bytes, r = .ok bytes → content entry.blobId = some bytes) (WalrusClient.downloadSingleBlob cfg entry.blobId) st :=
    safe_downloadSingleBlob (Aggregators.Grows.refl chunks) (fun _ _ h => h.content) hst
  refine (hdownload.remember (Aggregators.Grows.trans chunks) (Aggregators.Grows.refl chunks st)).bind (Aggregators.Grows.refl chunks) ?_
    (fun e s _ h => by cases h)
  rintro bytes st' ⟨hbytes, hgrows⟩ later hgrows' -
  have hlen' : later.downloaded.length = chunks.length := by rw [hgrows'.places, hgrows.places, hlen]
  obtain rfl : chunk = bytes := Option.some.inj (hcontent.symm.trans (hbytes bytes rfl))
  rw [hindex]
  obtain ⟨hset, harrived⟩ := arrived_setDownloaded hlen' hchunk
  exact ⟨hset, fun _ hlater _ => hlater.arrived _ harrived⟩

/-! ## Reassembly -/

/-- The copying succeeds when no place is empty and the chunks fit; then they lie one after the other, before what is left of the buffer. -/
theorem reassembleFrom_eq_ok {done rest bytes : Bytes} {places : List (Option Bytes)} :
    ChunkedDownloader.reassembleFrom (done ++ rest) done.length places = .ok bytes ↔
      ∃ chunks : List Bytes, places = chunks.map some ∧ chunks.flatten.length ≤ rest.length ∧
        bytes = done ++ chunks.flatten ++ rest.drop chunks.flatten.length := by
  induction places generalizing done rest with
  | nil =>
    rw [ChunkedDownloader.reassembleFrom, Except.ok.injEq]
    constructor
    · rintro rfl
      exact ⟨[], rfl, Nat.zero_le _, by simp⟩
    · rintro ⟨chunks, hplaces, -, rfl⟩
      obtain rfl : chunks = [] := List.map_eq_nil_iff.1 hplaces.symm
      simp
  | cons place places ih =>
    cases place with
    | none =>
      rw [ChunkedDownloader.reassembleFrom]
      refine iff_of_false (fun h => by cases h) ?_
      rintro ⟨chunks, hplaces, -, -⟩
      cases chunks <;> cases hplaces
    | some chunk =>
      rw [ChunkedDownloader.reassembleFrom]
      by_cases hfits : chunk.length ≤ rest.length
      · have hcopy : (done ++ rest).take done.length ++ chunk ++ (done ++ rest).drop (done.length + chunk.length) =
            (done ++ chunk) ++ rest.drop chunk.length := by
          rw [List.take_left, List.drop_append, List.drop_eq_nil_of_le (by omega), Nat.add_sub_cancel_left, List.nil_append]
        rw [if_pos (by rw [List.length_append]; omega), hcopy, ← List.length_append, ih, List.length_drop]
        constructor
        · rintro ⟨chunks, rfl, hlen, rfl⟩
          refine ⟨chunk :: chunks, rfl, ?_, ?_⟩
          · rw [List.flatten_cons, List.length_append]
            omega
          · simp only [List.flatten_cons, List.length_append, List.append_assoc, List.drop_drop]
        · rintro ⟨chunks, hplaces, hlen, rfl⟩
          cases chunks with
          | nil => cases hplaces
          | cons chunk' chunks =>
            obtain ⟨rfl, rfl⟩ : chunk = chunk' ∧ places = chunks.map some := by simpa using hplaces
            rw [List.flatten_cons, List.length_append] at hlen
            refine ⟨chunks, rfl, by omega, ?_⟩
            simp only [List.flatten_cons, List.length_append, List.append_assoc, List.drop_drop]
      · rw [if_neg (by rw [List.length_append]; omega)]
        refine iff_of_false (fun h => by cases h) ?_
        rintro ⟨chunks, hplaces, hlen, -⟩
        cases chunks with
        | nil => cases hplaces
        | cons chunk' chunks =>
          obtain ⟨rfl, -⟩ : chunk = chunk' ∧ places = chunks.map some := by simpa using hplaces
          rw [List.flatten_cons, List.length_append] at hlen
          omega

/-- What a reassembly that succeeds has put together: the chunks, and zeros up to the size that was asked for. -/
theorem reassemble_eq_ok {places : List (Option Bytes)} {totalSize : Number} {bytes : Bytes} :
    ChunkedDownloader.reassemble places totalSize = .ok bytes ↔
      ∃ (n : Nat) (chunks : List Bytes), totalSize.toIndex = some n ∧ places = chunks.map some ∧ chunks.flatten.length ≤ n ∧
        bytes = chunks.flatten ++ List.replicate (n - chunks.flatten.length) 0 := by
  unfold ChunkedDownloader.reassemble
  cases hsize : totalSize.toIndex with
  | none => simp
  | some n =>
    have h := @reassembleFrom_eq_ok [] (List.replicate n 0) bytes places
    simp only [List.nil_append, List.length_nil, List.length_replicate, List.drop_replicate] at h
    simp only [h]
    constructor
    · rintro ⟨chunks, hchunks⟩
      exact ⟨n, chunks, rfl, hchunks⟩
    · rintro ⟨_, chunks, ⟨⟩, hchunks⟩
      exact ⟨chunks, hchunks⟩

/-- The answer is a blob. -/
def BlobServed : (c : DownloadCommand) → c.Reply → Prop
  | .get .., some res => res.ok = true ∧ res.body.isSome = true
  | _, _ => False

/-- A fetch fails only where no blob was served. -/
theorem keeps_fetchBlob (aggregator : Nat) (blobId : BlobId) :
    Keeps (listening BlobServed) (fun φ r => ∀ e, r = .error e → ¬ φ) False (fetchBlob aggregator blobId) := by
  refine ⟨trivial, ?_⟩
  intro reply
  cases reply with
  | none =>
    rintro e -
    exact fun h => h.elim id id
  | some res =>
    obtain ⟨ok, status, body⟩ := res
    cases ok with
    | false =>
      rintro e -
      exact fun h => h.elim id fun h => by cases h.1
    | true =>
      cases body with
      | none =>
        rintro e -
        exact fun h => h.elim id fun h => by cases h.2
      | some bytes => exact fun e h => by cases h

/-- A download from the aggregators in turn fails only where none of them served a blob. -/
theorem keeps_downloadFrom (aggregators : List Nat) (lastError : WalrusError) :
    Keeps (listening BlobServed) (fun φ r => ∀ e, r = .error e → ¬ φ) False (WalrusClient.downloadFrom cfg blobId lastError aggregators) := by
  induction aggregators generalizing lastError with
  | nil => exact fun _ _ h => h
  | cons aggregator aggregators ih =>
    refine (keeps_withRetry (keeps_fetchBlob aggregator blobId) cfg.maxAttempts).tryCatch (fun _ _ h => h) ?_
    intro q e h
    rw [eq_false (h e rfl)]
    split
    · exact fun _ _ h => h
    · exact ih e

/-- A download of a blob that one of the aggregators has served is not rejected. -/
theorem keeps_downloadSingleBlob :
    Keeps (listening BlobServed) (fun φ r => ∀ e, r = .error e → ¬ φ) False (WalrusClient.downloadSingleBlob cfg blobId) :=
  keeps_downloadFrom _ _

/-- The download of a chunk succeeds where its blob is served. -/
theorem keeps_downloadChunk (entry : ChunkEntry) :
    Keeps (listening BlobServed) (fun φ r => φ → r = .ok ()) False (ChunkedDownloader.downloadChunk cfg entry) := by
  refine keeps_downloadSingleBlob.bind ?_ ?_
  · exact fun q bytes _ => ⟨trivial, fun _ _ => rfl⟩
  · exact fun q e h hφ => absurd hφ (h e rfl)

/-- The entries are in the order of their indices. -/
theorem Lists.sorted_eq {stored : List (BlobId × Bytes)} {entries : List ChunkEntry} (h : Lists stored chunks entries) :
    ChunkedDownloader.sorted entries = entries := by
  refine List.Pairwise.insertionSort_eq (List.pairwise_iff_getElem.2 ?_)
  intro i j hi hj hij
  have hi' := (h.entry i _ (List.getElem?_eq_getElem hi)).1
  have hj' := (h.entry j _ (List.getElem?_eq_getElem hj)).1
  rw [hi', hj', Js.Number.lt_natCast, decide_eq_false_iff_not]
  omega

/-- When every place is filled, the places are the chunks. -/
theorem downloaded_eq {st : Aggregators} (hlen : st.downloaded.length = chunks.length) (h : ∀ k < chunks.length, Arrived chunks st k) :
    st.downloaded = chunks.map some := by
  refine List.ext_getElem? fun k => ?_
  by_cases hk : k < chunks.length
  · obtain ⟨chunk, hchunk, hplace⟩ := h k hk
    rw [hplace, List.getElem?_map, hchunk]
    rfl
  · rw [List.getElem?_eq_none (by omega), List.getElem?_eq_none (by rw [List.length_map]; omega)]

/-- The batches of a download hold the entries of the manifest. -/
theorem Lists.mem_batches (hconc : 0 < cfg.concurrency) {stored : List (BlobId × Bytes)} {manifest : ChunkManifest}
    (h : Lists stored chunks manifest.chunks) (entry : ChunkEntry) :
    (∃ batch ∈ ChunkedDownloader.batches cfg manifest, entry ∈ batch) ↔ entry ∈ manifest.chunks := by
  rw [ChunkedDownloader.batches, h.sorted_eq, Slices.mem_of_mem_slices hconc]

/-- An entry of the manifest, downloaded from a store that has the blobs, fills its place with its chunk. -/
theorem Lists.safe_downloadChunk {stored : List (BlobId × Bytes)} {manifest : ChunkManifest} (h : Lists stored chunks manifest.chunks)
    {st : Aggregators} (hstore : ∀ b ∈ stored, st.content b.1 = some b.2) {entry : ChunkEntry} (hentry : entry ∈ manifest.chunks)
    {s : Aggregators} (hcontent : s.content = st.content) (hlen : s.downloaded.length = chunks.length) :
    Safe Aggregators.exec (Aggregators.Grows chunks) (fun _ _ => True) (fun r s' => r = .ok () → ∀ k : Nat, entry.index = k → Arrived chunks s' k)
      (ChunkedDownloader.downloadChunk cfg entry) s := by
  obtain ⟨k, hk⟩ := List.mem_iff_getElem?.1 hentry
  obtain ⟨hindex, chunk, hchunk, hstored⟩ := h.entry k entry hk
  refine (BrineVault.safe_downloadChunk hindex hchunk (hstore _ hstored) hcontent hlen).mono (fun _ _ h => h) ?_
  intro r s' harrived hr j hj
  obtain rfl : k = j := Js.Number.natCast_inj.1 (hindex.symm.trans hj)
  exact harrived hr

/-- So does every download of the batches. -/
theorem keeps_batches {manifest : ChunkManifest} :
    ∀ batch ∈ (ChunkedDownloader.batches cfg manifest).map (List.map (ChunkedDownloader.downloadChunk cfg)), ∀ p ∈ batch,
      Keeps (listening BlobServed) (fun φ r => φ → r = .ok ()) False p := by
  intro batch hbatch p hp
  obtain ⟨entries, -, rfl⟩ := List.mem_map.1 hbatch
  obtain ⟨entry, -, rfl⟩ := List.mem_map.1 hp
  exact keeps_downloadChunk entry

/-- The chunks of a manifest that lists them, downloaded. -/
theorem download_of_lists (hconc : 0 < cfg.concurrency) {stored : List (BlobId × Bytes)} {manifest : ChunkManifest}
    (hlists : Lists stored chunks manifest.chunks) (htotal : manifest.totalSize = chunks.flatten.length) {st st' : Aggregators}
    (hstore : ∀ b ∈ stored, st.content b.1 = some b.2) {schedules : DownloadSchedules} {r : Except WalrusError Bytes}
    (h : ChunkedDownloader.download cfg manifest st schedules = some (r, st')) :
    (∀ bytes, r = .ok bytes → bytes = chunks.flatten) ∧
      (HeardInBatches Aggregators.exec Aggregators.turnTo BlobServed
        ((ChunkedDownloader.batches cfg manifest).map (List.map (ChunkedDownloader.downloadChunk cfg)))
        { st with downloaded := List.replicate manifest.chunks.length none } schedules → r = .ok chunks.flatten) := by
  unfold ChunkedDownloader.download at h
  simp only [Option.bind_eq_bind, Option.bind_eq_some_iff] at h
  obtain ⟨⟨settled, st₁⟩, hbatches, hresult⟩ := h
  have hsafe : ∀ batch ∈ ChunkedDownloader.batches cfg manifest, ∀ entry ∈ batch, ∀ s : Aggregators,
      s.content = st.content ∧ s.downloaded.length = chunks.length →
        Safe Aggregators.exec (Aggregators.Grows chunks) (fun _ _ => True) (fun r s' => r = .ok () → ∀ k : Nat, entry.index = k → Arrived chunks s' k)
          (ChunkedDownloader.downloadChunk cfg entry) s := by
    rintro batch hbatch entry hentry s ⟨hcontent, hlen⟩
    exact hlists.safe_downloadChunk hstore ((hlists.mem_batches hconc entry).1 ⟨batch, hbatch, hentry⟩) hcontent hlen
  have hlen : (List.replicate manifest.chunks.length (none : Option Bytes)).length = chunks.length := by
    rw [List.length_replicate, hlists.length]
  have hstart : ({ st with downloaded := List.replicate manifest.chunks.length none } : Aggregators).content = st.content ∧
      ({ st with downloaded := List.replicate manifest.chunks.length none } : Aggregators).downloaded.length = chunks.length :=
    ⟨rfl, hlen⟩
  obtain ⟨hgrows, harrived⟩ := inBatches_safe (Aggregators.Grows.refl chunks) (Aggregators.Grows.trans chunks)
    (Aggregators.grows_turnTo chunks) (fun (entry : ChunkEntry) s => ∀ k : Nat, entry.index = k → Arrived chunks s k)
    (fun s => s.content = st.content ∧ s.downloaded.length = chunks.length) (fun entry _ _ hgrows h k hk => hgrows.arrived k (h k hk))
    (fun _ _ hgrows h => ⟨hgrows.content.trans h.1, hgrows.places.trans h.2⟩) hsafe hstart hbatches
  cases settled with
  | error e =>
    cases hresult
    refine ⟨(fun _ h => by cases h), ?_⟩
    intro hserved
    have hok := inBatches_resolved keeps_batches hserved hbatches
    cases hok
  | ok u =>
    cases hresult
    have hdownloaded : st₁.downloaded = chunks.map some := by
      refine downloaded_eq (hgrows.places.trans hlen) ?_
      intro k hk
      have hk' : k < manifest.chunks.length := hlists.length ▸ hk
      obtain ⟨hindex, -⟩ := hlists.entry k _ (List.getElem?_eq_getElem hk')
      obtain ⟨batch, hbatch, hentry⟩ := (hlists.mem_batches hconc _).2 (List.getElem_mem hk')
      exact harrived rfl batch hbatch _ hentry k hindex
    have hok : ChunkedDownloader.reassemble st₁.downloaded manifest.totalSize = .ok chunks.flatten := by
      rw [hdownloaded, htotal]
      exact reassemble_eq_ok.2 ⟨_, chunks, Js.Number.toIndex_natCast, rfl, le_rfl, by simp⟩
    rw [hok]
    refine ⟨?_, fun _ => rfl⟩
    intro bytes hr
    cases hr
    rfl

end Download

/-! ## Up and down -/

/-- In the run of the download each blob that is asked for is served, at one of the attempts that the client makes. -/
def WalrusClient.AllServed (cfg : WalrusConfig) (blobIdOrManifest : BlobIdOrManifest) (st : Aggregators) (schedules : DownloadSchedules) :
    Prop :=
  match blobIdOrManifest with
  | .blobId blobId =>
    Heard Aggregators.exec Aggregators.turnTo BlobServed ⟨st, [WalrusClient.downloadSingleBlob cfg blobId]⟩ (schedules.headD []) 0
  | .manifest manifest =>
    HeardInBatches Aggregators.exec Aggregators.turnTo BlobServed
      ((ChunkedDownloader.batches cfg manifest).map (List.map (ChunkedDownloader.downloadChunk cfg)))
      { st with downloaded := List.replicate manifest.chunks.length none } schedules

/-- A single blob, downloaded. -/
theorem download_of_stored {cfg : WalrusConfig} {blobId : BlobId} {data : Bytes} {agg agg' : Aggregators}
    (hcontent : agg.content blobId = some data) {downloads : DownloadSchedules} {r : Except WalrusError Bytes}
    (h : WalrusClient.download cfg (.blobId blobId) agg downloads = some (r, agg')) :
    (∀ bytes, r = .ok bytes → bytes = data) ∧ (WalrusClient.AllServed cfg (.blobId blobId) agg downloads → r = .ok data) := by
  have hsafe : Safe Aggregators.exec (Aggregators.Grows []) (fun _ _ => True) (fun r _ => ∀ bytes, r = .ok bytes → agg.content blobId = some bytes)
      (WalrusClient.downloadSingleBlob cfg blobId) agg :=
    safe_downloadSingleBlob (Aggregators.Grows.refl []) (fun _ _ h => h.content) rfl
  have hstored := (await_safe (Aggregators.Grows.refl []) (Aggregators.Grows.trans []) (Aggregators.grows_turnTo []) hsafe h).2
  have hbytes : ∀ bytes, r = .ok bytes → bytes = data :=
    fun bytes hr => Option.some.inj ((hstored bytes hr).symm.trans hcontent)
  refine ⟨hbytes, ?_⟩
  intro hserved
  obtain ⟨m, q, hr, hthreads, hres, -⟩ := await_eq_some h
  have hkeeps : ∀ p ∈ [WalrusClient.downloadSingleBlob cfg blobId],
      Keeps (listening BlobServed) (fun φ r => ∀ e, r = .error e → ¬ φ) False p := by
    intro p hp
    rw [List.mem_singleton.1 hp]
    exact keeps_downloadSingleBlob
  have hq : m.threads[0]? = some q := by rw [hthreads]; rfl
  have hend := heard_of_result hkeeps hr hq hres
  cases r with
  | ok bytes => rw [hbytes bytes rfl]
  | error e => exact absurd hserved (hend e rfl)

/-- Whatever the aggregators answer to the requests of each batch, a download settles. -/
theorem exists_download (cfg : WalrusConfig) (target : BlobIdOrManifest) (agg : Aggregators) (answers : Nat → Nat → AggregatorAnswer) :
    ∃ orders r, WalrusClient.download cfg target agg (pacedBatches answers orders) = some r := by
  cases target with
  | blobId blobId =>
    obtain ⟨order, r, hawait⟩ := exists_await (WalrusClient.downloadSingleBlob cfg blobId) agg (answers 0)
    exact ⟨[order], r, hawait⟩
  | manifest manifest =>
    obtain ⟨orders, ⟨settled, agg'⟩, hbatches⟩ := exists_inBatches
      ((ChunkedDownloader.batches cfg manifest).map (List.map (ChunkedDownloader.downloadChunk cfg)))
      { agg with downloaded := List.replicate manifest.chunks.length none } answers
    refine ⟨orders, ?_⟩
    unfold WalrusClient.download ChunkedDownloader.download
    dsimp only
    rw [hbatches, Option.bind_eq_bind, Option.bind_some]
    cases settled with
    | error e => exact ⟨_, rfl⟩
    | ok u => exact ⟨_, rfl⟩

/-- Whatever the publisher answers, and in whatever order the requests come to an end: what an upload results in can be downloaded from a store that
has the uploaded blobs. A download that is resolved gives the bytes that were uploaded, and it is resolved when each blob is served. Whatever the
aggregators answer, there are runs in which it settles. -/
theorem download_upload (cfg cfg' : WalrusConfig) (hsize : 0 < cfg.chunkSize) (hconc : 0 < cfg.concurrency) (hconc' : 0 < cfg'.concurrency)
    (data : Bytes) (epochs : Option Nat) {st st' : Publisher} {uploads : UploadSchedules} {result : UploadResult}
    (hup : WalrusClient.upload cfg data epochs st uploads = some (.ok result, st')) {agg : Aggregators}
    (hstore : ∀ b ∈ st'.stored, agg.content b.1 = some b.2) :
    ∃ target, result.blobIdOrManifest = some target ∧
      (∀ answers, ∃ orders r, WalrusClient.download cfg' target agg (pacedBatches answers orders) = some r) ∧ ∀ downloads r agg',
      WalrusClient.download cfg' target agg downloads = some (r, agg') →
        (∀ bytes, r = .ok bytes → bytes = data) ∧ (WalrusClient.AllServed cfg' target agg downloads → r = .ok data) := by
  have hchunked : ∀ {epochs : Nat} {st : Publisher} {uploads : UploadSchedules},
      WalrusClient.uploadChunked cfg data epochs st uploads = some (.ok result, st') →
        ∃ target, result.blobIdOrManifest = some target ∧
          (∀ answers, ∃ orders r, WalrusClient.download cfg' target agg (pacedBatches answers orders) = some r) ∧ ∀ downloads r agg',
          WalrusClient.download cfg' target agg downloads = some (r, agg') →
            (∀ bytes, r = .ok bytes → bytes = data) ∧ (WalrusClient.AllServed cfg' target agg downloads → r = .ok data) := by
    intro epochs st uploads h
    obtain ⟨manifest, rfl, htotal, hlists⟩ := uploadChunked_ok hconc h
    have hflat : (ChunkedUploader.split cfg data).flatten = data := Slices.flatten_slices hsize data
    refine ⟨.manifest manifest, rfl, exists_download cfg' (.manifest manifest) agg, ?_⟩
    intro downloads r agg' hdown
    have hdownload := download_of_lists hconc' hlists (by rw [htotal, hflat]) hstore hdown
    rw [hflat] at hdownload
    exact hdownload
  unfold WalrusClient.upload at hup
  split at hup
  · exact hchunked hup
  · simp only [Option.bind_eq_bind, Option.bind_eq_some_iff] at hup
    obtain ⟨⟨settled, st₁⟩, hawait, hresult⟩ := hup
    cases settled with
    | error err =>
      dsimp only at hresult
      split at hresult
      · exact hchunked hresult
      · cases hresult
    | ok response =>
      cases hresult
      have hsafe : Safe Publisher.exec (Publisher.Grows []) (fun _ _ => True)
          (fun r st' => ∀ result, r = .ok result → (result.blobId, data) ∈ st'.stored)
          (WalrusClient.uploadSingleBlob cfg data ((epochs.or cfg.defaultEpochs).getD 10)) st := safe_uploadSingleBlob st
      have hstored := (await_safe (Publisher.Grows.refl []) (Publisher.Grows.trans []) (Publisher.grows_turnTo []) hsafe hawait).2
      exact ⟨.blobId response.blobId, rfl, exists_download cfg' (.blobId response.blobId) agg,
        fun downloads r agg' => download_of_stored (hstore _ (hstored response rfl))⟩

namespace Sample

/-- Chunks of two bytes, two at a time, for what is over ten bytes. -/
def walrusConfig : WalrusConfig :=
  { defaultEpochs := none, fallbackAggregators := 1, chunkThreshold := 10, chunkSize := 2, concurrency := 2, maxAttempts := 3 }

def publisher : Publisher := { answer := .unreachable, stored := [], results := [] }

/-- The one blob is too large for the publisher. Of the first two chunks the second is stored first. -/
def uploads : UploadSchedules :=
  [[.event (.refused 413), .thread 0],
    [.event (.created ⟨"b"⟩), .thread 1, .event (.refused 503), .thread 0, .thread 1, .event (.created ⟨"a"⟩), .thread 0, .thread 0],
    [.event (.created ⟨"c"⟩), .thread 0, .thread 0]]

def aggregators : Aggregators :=
  { answer := .unreachable
    content
      | "a" => some [1, 2]
      | "b" => some [3, 4]
      | "c" => some [5]
      | _ => none
    downloaded := [] }

/-- The manifest of the upload, and the publisher after it. -/
def manifest : ChunkManifest := { totalSize := 5, chunkSize := 2, chunks := [⟨0, "a", 2⟩, ⟨1, "b", 2⟩, ⟨2, "c", 1⟩] }

def published : Publisher :=
  { answer := .created ⟨"c"⟩, stored := [("b", [3, 4]), ("a", [1, 2]), ("c", [5])], results := manifest.chunks.map some }

/-- The primary aggregator does not answer for the first chunk. -/
def downloads : DownloadSchedules :=
  [.replicate 3 (.thread 0) ++ [.event .serve, .thread 1, .thread 1, .thread 0, .thread 0], [.thread 0, .thread 0]]

end Sample

/-- An upload that falls back to chunks, and a download that falls back to another aggregator. -/
theorem download_upload_sample :
    WalrusClient.upload Sample.walrusConfig [1, 2, 3, 4, 5] none Sample.publisher Sample.uploads =
        some (.ok ⟨none, some Sample.manifest, 5⟩, Sample.published) ∧
      (WalrusClient.download Sample.walrusConfig (.manifest Sample.manifest) Sample.aggregators Sample.downloads).map Prod.fst =
        some (.ok [1, 2, 3, 4, 5]) ∧
      ∃ target, (UploadResult.mk none (some Sample.manifest) 5).blobIdOrManifest = some target ∧
        (∀ answers, ∃ orders r, WalrusClient.download Sample.walrusConfig target Sample.aggregators (pacedBatches answers orders) = some r) ∧
          ∀ downloads r agg',
        WalrusClient.download Sample.walrusConfig target Sample.aggregators downloads = some (r, agg') →
          (∀ bytes, r = .ok bytes → bytes = [1, 2, 3, 4, 5]) ∧
            (WalrusClient.AllServed Sample.walrusConfig target Sample.aggregators downloads → r = .ok [1, 2, 3, 4, 5]) := by
  have hup : WalrusClient.upload Sample.walrusConfig [1, 2, 3, 4, 5] none Sample.publisher Sample.uploads =
      some (.ok ⟨none, some Sample.manifest, 5⟩, Sample.published) := by decide +kernel
  refine ⟨hup, by decide +kernel, ?_⟩
  exact download_upload Sample.walrusConfig Sample.walrusConfig (by decide) (by decide) (by decide) [1, 2, 3, 4, 5] none hup
    (by decide +kernel)

end BrineVault
