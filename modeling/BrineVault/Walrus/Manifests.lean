import BrineVault.Walrus.RoundTrip

/-!
# Manifests that nobody has checked

The indices of a manifest may leave places out, name one twice or be no places at all, and its size may be any number. A download of it is
resolved only when every place has been filled, so that the indices are those of the places. The size is checked in one direction only: blobs that
do not fit are an exception, and what they leave of the buffer stays 0.
-/

namespace BrineVault

open Interleaving
open Js (Number)

namespace ChunkManifest

/-- The blob of an entry. -/
def blob (content : BlobId → Option Bytes) (entry : ChunkEntry) : Bytes := (content entry.blobId).getD []

/-- The blobs of a manifest, in the order of their indices. -/
def inOrder (manifest : ChunkManifest) (content : BlobId → Option Bytes) : List Bytes :=
  (ChunkedDownloader.sorted manifest.chunks).map (blob content)

/-- The sum of the lengths of the blobs. -/
def blobsSize (manifest : ChunkManifest) (content : BlobId → Option Bytes) : Nat :=
  (manifest.chunks.map fun entry => (blob content entry).length).sum

/-- The bytes are those that the manifest describes. -/
structure Describes (manifest : ChunkManifest) (content : BlobId → Option Bytes) (bytes : Bytes) : Prop where
  indices : (manifest.chunks.map (·.index)).Perm ((List.range manifest.chunks.length).map Nat.cast)
  totalSize : manifest.totalSize = manifest.blobsSize content
  bytes : bytes = (manifest.inOrder content).flatten

/-- The content in order is as long as the blobs together. -/
theorem length_flatten_inOrder (manifest : ChunkManifest) (content : BlobId → Option Bytes) :
    (manifest.inOrder content).flatten.length = manifest.blobsSize content := by
  rw [List.length_flatten, inOrder, List.map_map]
  exact ((List.perm_insertionSort _ manifest.chunks).map _).sum_nat

end ChunkManifest

/-! ## The places of a download -/

/-- A place that is filled holds the blob of an entry with its index. -/
def Filled (content : BlobId → Option Bytes) (entries : List ChunkEntry) (places : List (Option Bytes)) : Prop :=
  ∀ (k : Nat) (bytes : Bytes), places[k]? = some (some bytes) → ∃ e ∈ entries, e.index = k ∧ content e.blobId = some bytes

/-- What the chunks of a download do: places are only filled with the blobs of entries. -/
structure Aggregators.Fills (entries : List ChunkEntry) (st st' : Aggregators) : Prop where
  content : st'.content = st.content
  places : st.downloaded.length ≤ st'.downloaded.length
  filled : Filled st.content entries st.downloaded → Filled st.content entries st'.downloaded

variable {entries : List ChunkEntry} {content : BlobId → Option Bytes}

theorem Aggregators.Fills.refl (entries : List ChunkEntry) (st : Aggregators) : Aggregators.Fills entries st st :=
  ⟨rfl, le_rfl, fun h => h⟩

theorem Aggregators.Fills.trans (entries : List ChunkEntry) (a b c : Aggregators) (h : Aggregators.Fills entries a b)
    (h' : Aggregators.Fills entries b c) : Aggregators.Fills entries a c :=
  ⟨h'.content.trans h.content, h.places.trans h'.places, fun ha => h.content ▸ h'.filled (h.content ▸ h.filled ha)⟩

/-- Turning to another aggregator fills no place. -/
theorem Aggregators.fills_turnTo (entries : List ChunkEntry) (st : Aggregators) (answer : AggregatorAnswer) :
    Aggregators.Fills entries st (st.turnTo answer) :=
  ⟨rfl, le_rfl, fun h => h⟩

/-- Assigning the blob of an entry to its index, whatever number that is. -/
theorem fills_setDownloaded {st : Aggregators} {e : ChunkEntry} {bytes : Bytes} (he : e ∈ entries) (hblob : st.content e.blobId = some bytes) :
    Aggregators.Fills entries st (st.exec (.setDownloaded e.index bytes)).2 := by
  simp only [Aggregators.exec]
  cases hk : e.index.arrayIndex with
  | none => exact Aggregators.Fills.refl entries st
  | some k =>
    refine ⟨rfl, Slices.length_le_assign _ _ _, ?_⟩
    intro hfilled j bytes' hj
    rcases Slices.getElem?_assign_some hj with ⟨rfl, rfl⟩ | hj
    · exact ⟨e, he, Js.Number.arrayIndex_eq_some.1 hk, hblob⟩
    · exact hfilled j bytes' hj

/-- The download of a chunk fills places with the blob of its entry only. -/
theorem safe_fillChunk {cfg : WalrusConfig} {e : ChunkEntry} (he : e ∈ entries) (st : Aggregators) :
    Safe Aggregators.exec (Aggregators.Fills entries) (fun _ _ => True) (fun _ _ => True) (ChunkedDownloader.downloadChunk cfg e) st := by
  have hdownload : Safe Aggregators.exec (Aggregators.Fills entries) (fun _ _ => True)
      (fun r _ => ∀ bytes, r = .ok bytes → st.content e.blobId = some bytes) (WalrusClient.downloadSingleBlob cfg e.blobId) st :=
    safe_downloadSingleBlob (Aggregators.Fills.refl entries) (fun _ _ h => h.content) rfl
  refine (hdownload.remember (Aggregators.Fills.trans entries) (Aggregators.Fills.refl entries st)).bind (Aggregators.Fills.refl entries) ?_
    (fun _ _ _ => trivial)
  rintro bytes st' ⟨hbytes, hfills⟩ later hlater -
  have hblob : later.content e.blobId = some bytes := by
    rw [hlater.content, hfills.content]
    exact hbytes bytes rfl
  exact ⟨fills_setDownloaded he hblob, fun _ _ => trivial⟩

/-- A download that is resolved has reassembled places of which there are as many as entries, or more. -/
theorem download_places {cfg : WalrusConfig} {manifest : ChunkManifest} {st st' : Aggregators} {schedules : DownloadSchedules} {bytes : Bytes}
    (h : ChunkedDownloader.download cfg manifest st schedules = some (.ok bytes, st')) :
    ∃ places, manifest.chunks.length ≤ places.length ∧ Filled st.content manifest.chunks places ∧
      ChunkedDownloader.reassemble places manifest.totalSize = .ok bytes := by
  unfold ChunkedDownloader.download at h
  simp only [Option.bind_eq_bind, Option.bind_eq_some_iff] at h
  obtain ⟨⟨settled, st₁⟩, hbatches, hresult⟩ := h
  have hsafe : ∀ batch ∈ ChunkedDownloader.batches cfg manifest, ∀ e ∈ batch, ∀ s : Aggregators, True →
      Safe Aggregators.exec (Aggregators.Fills manifest.chunks) (fun _ _ => True) (fun r s' => r = .ok () → True)
        (ChunkedDownloader.downloadChunk cfg e) s := by
    intro batch hbatch e he s _
    have hmem : e ∈ manifest.chunks := (List.mem_insertionSort _).1 (Slices.subset_of_mem_slices hbatch he)
    exact (safe_fillChunk hmem s).mono (fun _ _ h => h) (fun _ _ _ _ => trivial)
  obtain ⟨hfills, -⟩ := inBatches_safe (Aggregators.Fills.refl manifest.chunks) (Aggregators.Fills.trans manifest.chunks)
    (Aggregators.fills_turnTo manifest.chunks) (fun _ _ => True) (fun _ => True) (fun _ _ _ _ h => h) (fun _ _ _ h => h) hsafe trivial hbatches
  cases settled with
  | error e => cases hresult
  | ok u =>
    obtain ⟨hreassemble, rfl⟩ := Prod.mk.inj (Option.some.inj hresult)
    refine ⟨st₁.downloaded, ?_, ?_, hreassemble⟩
    · have hplaces := hfills.places
      rwa [List.length_replicate] at hplaces
    · refine hfills.filled ?_
      intro k bytes hk
      rw [List.getElem?_replicate] at hk
      split at hk <;> cases hk

/-! ## Places that are all filled -/

section Filled

variable {chunks : List Bytes}

/-- Entries that fill at least as many places as there are entries fill each place once. -/
theorem Filled.indices (h : Filled content entries (chunks.map some)) (hlen : entries.length ≤ chunks.length) :
    (entries.map (·.index)).Perm ((List.range chunks.length).map Nat.cast) := by
  have hnodup : ((List.range chunks.length).map (Nat.cast : Nat → Number)).Nodup :=
    List.nodup_range.map fun _ _ hk => Js.Number.natCast_inj.1 hk
  have hsub : (List.range chunks.length).map (Nat.cast : Nat → Number) ⊆ entries.map (·.index) := by
    intro a ha
    obtain ⟨k, hk, rfl⟩ := List.mem_map.1 ha
    have hlt : k < chunks.length := List.mem_range.1 hk
    have hplace : (chunks.map some)[k]? = some (some chunks[k]) := by
      rw [List.getElem?_map, List.getElem?_eq_getElem hlt]
      rfl
    obtain ⟨e, he, hindex, -⟩ := h k _ hplace
    exact List.mem_map.2 ⟨e, he, hindex⟩
  refine ((List.subperm_of_subset hnodup hsub).perm_of_length_le ?_).symm
  rw [List.length_map, List.length_map, List.length_range]
  exact hlen

/-- The places hold the blobs in the order of the indices. -/
theorem Filled.inOrder {manifest : ChunkManifest} (h : Filled content manifest.chunks (chunks.map some))
    (hlen : manifest.chunks.length ≤ chunks.length) : manifest.inOrder content = chunks := by
  have hindices := h.indices hlen
  have hsorted : (ChunkedDownloader.sorted manifest.chunks).map (·.index) = (List.range chunks.length).map Nat.cast := by
    rw [← Js.Number.insertionSort_range hindices]
    exact List.map_insertionSort _ _ _ _ fun _ _ _ _ => Iff.rfl
  have hnodup : (manifest.chunks.map (·.index)).Nodup :=
    hindices.nodup_iff.2 (List.nodup_range.map fun _ _ hk => Js.Number.natCast_inj.1 hk)
  refine List.ext_getElem? fun k => ?_
  have hindex : (ChunkedDownloader.sorted manifest.chunks)[k]?.map (·.index) = ((List.range chunks.length)[k]?).map Nat.cast := by
    rw [← List.getElem?_map, hsorted, List.getElem?_map]
  rw [ChunkManifest.inOrder, List.getElem?_map]
  by_cases hk : k < chunks.length
  · rw [List.getElem?_range hk] at hindex
    obtain ⟨e, he, hek⟩ := Option.map_eq_some_iff.1 hindex
    have hmem : e ∈ manifest.chunks := (List.mem_insertionSort _).1 (List.mem_of_getElem? he)
    obtain ⟨e', hmem', hek', hblob⟩ := h k chunks[k] (by rw [List.getElem?_map, List.getElem?_eq_getElem hk]; rfl)
    obtain rfl : e = e' := List.inj_on_of_nodup_map hnodup hmem hmem' (hek.trans hek'.symm)
    rw [he, Option.map_some, ChunkManifest.blob, hblob, List.getElem?_eq_getElem hk, Option.getD_some]
  · have hrange : (List.range chunks.length)[k]? = none := List.getElem?_eq_none (by rw [List.length_range]; omega)
    rw [hrange] at hindex
    rw [Option.map_eq_none_iff.1 hindex, List.getElem?_eq_none (by omega), Option.map_none]

end Filled

/-- A download that is resolved has downloaded the blobs of all places in their order, and filled the buffer up with zeros. -/
theorem download_padded {cfg : WalrusConfig} {manifest : ChunkManifest} {st st' : Aggregators} {schedules : DownloadSchedules} {bytes : Bytes}
    (h : ChunkedDownloader.download cfg manifest st schedules = some (.ok bytes, st')) :
    (manifest.chunks.map (·.index)).Perm ((List.range manifest.chunks.length).map Nat.cast) ∧
      ∃ n, manifest.totalSize.toIndex = some n ∧ manifest.blobsSize st.content ≤ n ∧
        bytes = (manifest.inOrder st.content).flatten ++ List.replicate (n - manifest.blobsSize st.content) 0 := by
  obtain ⟨places, hlen, hfilled, hreassemble⟩ := download_places h
  obtain ⟨n, chunks, hsize, rfl, hfits, rfl⟩ := reassemble_eq_ok.1 hreassemble
  rw [List.length_map] at hlen
  have hindices := hfilled.indices hlen
  have hlength : manifest.chunks.length = chunks.length := by
    have := hindices.length_eq
    rwa [List.length_map, List.length_map, List.length_range] at this
  have hblobs := hfilled.inOrder hlen
  have htotal := manifest.length_flatten_inOrder st.content
  rw [hblobs] at htotal ⊢
  rw [hlength]
  exact ⟨hindices, n, hsize, htotal ▸ hfits, by rw [htotal]⟩

/-- For every manifest and all contents of the store, and whatever happens in between: a download that is resolved gives the bytes that the
manifest describes exactly when the size of the manifest is a natural number and not over the sizes of its blobs. -/
theorem download_describes_iff {cfg : WalrusConfig} {manifest : ChunkManifest} {st st' : Aggregators} {schedules : DownloadSchedules}
    {bytes : Bytes} (h : ChunkedDownloader.download cfg manifest st schedules = some (.ok bytes, st')) :
    manifest.Describes st.content bytes ↔ ∃ size : Nat, manifest.totalSize = size ∧ size ≤ manifest.blobsSize st.content := by
  obtain ⟨hindices, n, hn, hfits, hbytes⟩ := download_padded h
  constructor
  · intro hdescribes
    exact ⟨_, hdescribes.totalSize, le_rfl⟩
  · rintro ⟨size, hsize, hle⟩
    rw [hsize, Js.Number.toIndex_natCast, Option.some.injEq] at hn
    have heq : n = manifest.blobsSize st.content := by omega
    refine ⟨hindices, ?_, ?_⟩
    · rw [hsize, hn, heq]
    · rw [hbytes, heq, Nat.sub_self, List.replicate_zero, List.append_nil]

namespace Sample

/-- The chunks of a manifest in another order than that of their indices. -/
def shuffled : ChunkManifest := { manifest with chunks := [⟨2, "c", 1⟩, ⟨0, "a", 2⟩, ⟨1, "b", 2⟩] }

/-- A manifest of one blob, with a size that the blob does not have. -/
def oversized : ChunkManifest := { totalSize := 4, chunkSize := 2, chunks := [⟨0, "a", 2⟩] }

/-- The state of the aggregators when they serve. -/
def serving : Aggregators := { aggregators with answer := .serve }

end Sample

/-- Chunks out of order, and the content that they describe. -/
theorem download_describes_iff_sample :
    ∃ st', ChunkedDownloader.download Sample.walrusConfig Sample.shuffled Sample.serving
        [[.thread 0, .thread 0, .thread 1, .thread 1], [.thread 0, .thread 0]] = some (.ok [1, 2, 3, 4, 5], st') ∧
      (Sample.shuffled.Describes Sample.serving.content [1, 2, 3, 4, 5] ↔
        ∃ size : Nat, Sample.shuffled.totalSize = size ∧ size ≤ Sample.shuffled.blobsSize Sample.serving.content) := by
  have hresolved : (ChunkedDownloader.download Sample.walrusConfig Sample.shuffled Sample.serving
      [[.thread 0, .thread 0, .thread 1, .thread 1], [.thread 0, .thread 0]]).map Prod.fst = some (.ok [1, 2, 3, 4, 5]) := by
    decide +kernel
  obtain ⟨⟨r, st'⟩, hdownload, rfl⟩ := Option.map_eq_some_iff.1 hresolved
  exact ⟨st', hdownload, download_describes_iff hdownload⟩

/-- The size is 4 and the blob has two bytes: the download gives two zeros that nobody has stored. -/
theorem zeros_downloaded :
    ∃ st', ChunkedDownloader.download Sample.walrusConfig Sample.oversized Sample.serving [[.thread 0, .thread 0]] =
        some (.ok [1, 2, 0, 0], st') ∧
      ¬ Sample.oversized.Describes Sample.serving.content [1, 2, 0, 0] := by
  have hresolved : (ChunkedDownloader.download Sample.walrusConfig Sample.oversized Sample.serving [[.thread 0, .thread 0]]).map Prod.fst =
      some (.ok [1, 2, 0, 0]) := by
    decide +kernel
  obtain ⟨⟨r, st'⟩, hdownload, rfl⟩ := Option.map_eq_some_iff.1 hresolved
  refine ⟨st', hdownload, ?_⟩
  intro h
  have hbytes := h.bytes
  revert hbytes
  decide +kernel

end BrineVault
