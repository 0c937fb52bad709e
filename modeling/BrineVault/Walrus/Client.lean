import BrineVault.Lib.Number
import BrineVault.Lib.Promise
import BrineVault.Lib.Slices
import Mathlib.Data.List.Sort

/-!
# `walrus-sdk`: uploads and downloads

`WalrusClient` with its retries, its fallback aggregators and its chunked uploads and downloads. A request is a command, which the service
answers as it will by then: what it is about to answer changes by events. The chunks of a batch are programs of their own, and they write their
results to the places of an array that they share. Progress reports and the pauses between retries are left out.
-/

namespace BrineVault

open Interleaving (Prog Turn)
open Js (Number)

abbrev Bytes := List UInt8
abbrev BlobId := String

/-! ## `retry.ts` -/

/-- A `WalrusApiError` with its message and its status, or anything else that is thrown, by its name. -/
inductive WalrusError where
  | api (message : String) (status : Nat)
  | other (error : String)
  deriving DecidableEq, Repr

namespace WalrusError

def status : WalrusError → Option Nat
  | api _ status => some status
  | other _ => none

/-- Whether this error is retryable. -/
def retryable : WalrusError → Bool
  | api _ status => status = 503 ∨ status ≥ 500
  | other _ => false

/-- Whether the request should switch to chunked upload. -/
def shouldChunk : WalrusError → Bool
  | api _ status => status = 413
  | other _ => false

/-- Non-retryable status codes. -/
def NON_RETRYABLE : List Nat := [400, 401, 402, 404, 413]

def nonRetryable : WalrusError → Bool
  | api _ status => status ∈ NON_RETRYABLE
  | other _ => false

end WalrusError

/-- The attempts that are left. When there is none from the start, nothing has been thrown that could be thrown again. -/
def withRetry {C : Type} {R : C → Type} {α : Type} (fn : Prog C R WalrusError α) : (attempts : Nat) → Prog C R WalrusError α
  | 0 => .throw (.other "undefined")
  | attempts + 1 => fn.tryCatch fun err => if err.nonRetryable ∨ attempts = 0 then .throw err else withRetry fn attempts

/-! ## Configuration and results -/

/-- `cfg`, `chunkCfg` and `uploadRetry` of the client. An aggregator is named by its number: 0 is the primary one. The size of a chunk, the
concurrency and the number of attempts are natural numbers here; `ChunkConfig` has the first two as they are. -/
structure WalrusConfig where
  defaultEpochs : Option Nat
  fallbackAggregators : Nat
  chunkThreshold : Int
  chunkSize : Nat
  concurrency : Nat
  maxAttempts : Nat
  deriving DecidableEq, Repr

/-- The part of the publisher's answer that an upload uses. -/
structure WalrusUploadResult where
  blobId : BlobId
  deriving DecidableEq, Repr

structure ChunkEntry where
  index : Number
  blobId : BlobId
  size : Number
  deriving DecidableEq, Repr

structure ChunkManifest where
  totalSize : Number
  chunkSize : Number
  chunks : List ChunkEntry
  deriving DecidableEq, Repr

structure UploadResult where
  blobId : Option BlobId
  manifest : Option ChunkManifest
  totalSize : Nat
  deriving DecidableEq, Repr

/-- The response to a request, with what its body is read as. -/
structure FetchResponse (α : Type) where
  ok : Bool
  status : Nat
  body : Option α
  deriving DecidableEq, Repr

/-- What the client makes of a response, or of a request that got none. -/
def readBody {C : Type} {R : C → Type} {α : Type} (action : String) : Option (FetchResponse α) → Prog C R WalrusError α
  | none => .throw (.other "TypeError")
  | some res =>
    if !res.ok then .throw (.api ("Walrus " ++ action ++ " failed (" ++ toString res.status ++ ")") res.status)
    else match res.body with
      | some body => .ret body
      | none => .throw (.other "SyntaxError")

/-! ## The publisher -/

inductive PublisherAnswer where
  | created (result : WalrusUploadResult)
  | malformed
  | refused (status : Nat)
  | unreachable
  deriving DecidableEq, Repr

/-- `POST /v1/blobs`, or the assignment to a place of `results`. -/
inductive UploadCommand where
  | post (data : Bytes) (epochs : Nat)
  | setResult (chunkIndex : Nat) (entry : ChunkEntry)
  deriving DecidableEq, Repr

abbrev UploadCommand.Reply : UploadCommand → Type
  | .post .. => Option (FetchResponse WalrusUploadResult)
  | .setResult .. => Unit

/-- What the publisher is about to answer, the blobs it has given an id, and the array of the upload. -/
structure Publisher where
  answer : PublisherAnswer
  stored : List (BlobId × Bytes)
  results : List (Option ChunkEntry)
  deriving DecidableEq, Repr

namespace Publisher

def exec (st : Publisher) : (c : UploadCommand) → c.Reply × Publisher
  | .post data _ =>
    match st.answer with
    | .created result => (some ⟨true, 200, some result⟩, { st with stored := st.stored ++ [(result.blobId, data)] })
    | .malformed => (some ⟨true, 200, none⟩, st)
    | .refused status => (some ⟨false, status, none⟩, st)
    | .unreachable => (none, st)
  | .setResult chunkIndex entry => ((), { st with results := Slices.assign st.results chunkIndex entry })

/-- The publisher is about to answer something else. -/
def turnTo (st : Publisher) (answer : PublisherAnswer) : Publisher := { st with answer }

end Publisher

abbrev Upload (α : Type) := Prog UploadCommand UploadCommand.Reply WalrusError α

/-! ## The aggregators -/

/-- A blob that is served is the one that the store has under the id. -/
inductive AggregatorAnswer where
  | serve
  | refused (status : Nat)
  | unreachable
  deriving DecidableEq, Repr

/-- `GET /v1/blobs/:id` from an aggregator, or the assignment `downloaded[index] = data`. -/
inductive DownloadCommand where
  | get (aggregator : Nat) (blobId : BlobId)
  | setDownloaded (index : Number) (data : Bytes)
  deriving DecidableEq, Repr

abbrev DownloadCommand.Reply : DownloadCommand → Type
  | .get .. => Option (FetchResponse Bytes)
  | .setDownloaded .. => Unit

/-- What the aggregators are about to answer, the store behind them, and the array of the download. -/
structure Aggregators where
  answer : AggregatorAnswer
  content : BlobId → Option Bytes
  downloaded : List (Option Bytes)

namespace Aggregators

def exec (st : Aggregators) : (c : DownloadCommand) → c.Reply × Aggregators
  | .get _ blobId =>
    match st.answer with
    | .serve =>
      match st.content blobId with
      | some data => (some ⟨true, 200, some data⟩, st)
      | none => (some ⟨false, 404, none⟩, st)
    | .refused status => (some ⟨false, status, none⟩, st)
    | .unreachable => (none, st)
  | .setDownloaded index data =>
    match index.arrayIndex with
    | some k => ((), { st with downloaded := Slices.assign st.downloaded k data })
    | none => ((), st)

/-- The aggregators are about to answer something else. -/
def turnTo (st : Aggregators) (answer : AggregatorAnswer) : Aggregators := { st with answer }

end Aggregators

abbrev Download (α : Type) := Prog DownloadCommand DownloadCommand.Reply WalrusError α

/-! ## `client.ts`: one blob -/

namespace WalrusClient

def uploadSingleBlob (cfg : WalrusConfig) (data : Bytes) (epochs : Nat) : Upload WalrusUploadResult :=
  withRetry (do readBody "upload" (← Prog.send (UploadCommand.post data epochs))) cfg.maxAttempts

/-- The aggregators that are left, and the error of the last one. A blob that one of them does not know is not looked for elsewhere. -/
def downloadFrom (cfg : WalrusConfig) (blobId : BlobId) (lastError : WalrusError) : List Nat → Download Bytes
  | [] => .throw lastError
  | aggregator :: aggregators =>
    (withRetry (do readBody "download" (← Prog.send (DownloadCommand.get aggregator blobId))) cfg.maxAttempts).tryCatch fun err =>
      if err.status = some 404 then .throw err else downloadFrom cfg blobId err aggregators

def downloadSingleBlob (cfg : WalrusConfig) (blobId : BlobId) : Download Bytes :=
  downloadFrom cfg blobId (.other "undefined") (List.range (cfg.fallbackAggregators + 1))

end WalrusClient

/-! ## `chunked-upload.ts` -/

/-- The runs of an upload: one schedule for each group of requests that it awaits. -/
abbrev UploadSchedules := List (List (Turn PublisherAnswer))

namespace ChunkedUploader

open WalrusClient

/-- Split into chunks of `chunkSize`. -/
def split (cfg : WalrusConfig) (data : Bytes) : List Bytes := Slices.slices cfg.chunkSize data

/-- One chunk of a batch, with its index. -/
def uploadChunk (cfg : WalrusConfig) (epochs : Nat) (chunk : Bytes × Nat) : Upload Unit := do
  let result ← uploadSingleBlob cfg chunk.1 epochs
  Prog.send (UploadCommand.setResult chunk.2 { index := chunk.2, blobId := result.blobId, size := chunk.1.length })

/-- The chunks with their indices, in batches of `concurrency`. -/
def batches (cfg : WalrusConfig) (data : Bytes) : List (List (Bytes × Nat)) := Slices.slices cfg.concurrency (split cfg data).zipIdx

/-- What it comes to, and the publisher after it; nothing, when it is still pending. The manifest lists the places of `results` that have been
assigned, which are all of them. -/
def upload (cfg : WalrusConfig) (data : Bytes) (epochs : Nat) (st : Publisher) (schedules : UploadSchedules) :
    Option (Except WalrusError ChunkManifest × Publisher) := do
  let st := { st with results := List.replicate (split cfg data).length none }
  let (settled, st') ← Interleaving.inBatches Publisher.exec Publisher.turnTo
    ((batches cfg data).map (List.map (uploadChunk cfg epochs))) st schedules
  match settled with
  | .error e => some (.error e, st')
  | .ok _ =>
    some (.ok { totalSize := data.length, chunkSize := cfg.chunkSize, chunks := st'.results.reduceOption }, st')

end ChunkedUploader

/-! ## `chunked-download.ts` -/

abbrev DownloadSchedules := List (List (Turn AggregatorAnswer))

namespace ChunkedDownloader

open WalrusClient

def downloadChunk (cfg : WalrusConfig) (chunk : ChunkEntry) : Download Unit := do
  let data ← downloadSingleBlob cfg chunk.blobId
  Prog.send (DownloadCommand.setDownloaded chunk.index data)

/-- The chunks that are left, copied to the result from the offset on. A place that has not been assigned, or a chunk that does not fit, is an
exception. -/
def reassembleFrom (result : Bytes) (offset : Nat) : List (Option Bytes) → Except WalrusError Bytes
  | [] => .ok result
  | none :: _ => .error (.other "TypeError")
  | some chunk :: chunks =>
    if offset + chunk.length ≤ result.length then
      reassembleFrom (result.take offset ++ chunk ++ result.drop (offset + chunk.length)) (offset + chunk.length) chunks
    else .error (.other "RangeError")

/-- Concatenate chunks into a single array. -/
def reassemble (chunks : List (Option Bytes)) (totalSize : Number) : Except WalrusError Bytes :=
  match totalSize.toIndex with
  | some n => reassembleFrom (List.replicate n 0) 0 chunks
  | none => .error (.other "RangeError")

/-- Sort by index: an entry only goes behind another one whose index is below its own. -/
def sorted (chunks : List ChunkEntry) : List ChunkEntry := chunks.insertionSort fun a b => b.index.lt a.index = false

/-- The chunks in the order of their indices, in batches of `concurrency`. -/
def batches (cfg : WalrusConfig) (manifest : ChunkManifest) : List (List ChunkEntry) :=
  Slices.slices cfg.concurrency (sorted manifest.chunks)

def download (cfg : WalrusConfig) (manifest : ChunkManifest) (st : Aggregators) (schedules : DownloadSchedules) :
    Option (Except WalrusError Bytes × Aggregators) := do
  let st := { st with downloaded := List.replicate manifest.chunks.length none }
  let (settled, st') ← Interleaving.inBatches Aggregators.exec Aggregators.turnTo
    ((batches cfg manifest).map (List.map (downloadChunk cfg))) st schedules
  match settled with
  | .error e => some (.error e, st')
  | .ok _ => some (reassemble st'.downloaded manifest.totalSize, st')

end ChunkedDownloader

/-! ## `client.ts`: uploads and downloads -/

/-- What a download is given. -/
inductive BlobIdOrManifest where
  | blobId (blobId : BlobId)
  | manifest (manifest : ChunkManifest)
  deriving DecidableEq, Repr

/-- What there is to download of an upload. -/
def UploadResult.blobIdOrManifest (result : UploadResult) : Option BlobIdOrManifest :=
  (result.blobId.map .blobId).or (result.manifest.map .manifest)

namespace WalrusClient

def uploadChunked (cfg : WalrusConfig) (data : Bytes) (epochs : Nat) (st : Publisher) (schedules : UploadSchedules) :
    Option (Except WalrusError UploadResult × Publisher) := do
  let (settled, st') ← ChunkedUploader.upload cfg data epochs st schedules
  some (settled.map fun manifest => { blobId := none, manifest := some manifest, totalSize := data.length }, st')

/-- Switches to chunked upload when the data is over the threshold, or when the publisher answers that one blob is too large. -/
def upload (cfg : WalrusConfig) (data : Bytes) (epochs : Option Nat) (st : Publisher) (schedules : UploadSchedules) :
    Option (Except WalrusError UploadResult × Publisher) :=
  let ep := (epochs.or cfg.defaultEpochs).getD 10
  if (data.length : Int) > cfg.chunkThreshold then uploadChunked cfg data ep st schedules
  else do
    let (settled, st') ← Interleaving.await Publisher.exec Publisher.turnTo (uploadSingleBlob cfg data ep) st (schedules.headD [])
    match settled with
    | .ok result => some (.ok { blobId := some result.blobId, manifest := none, totalSize := data.length }, st')
    | .error err => if err.shouldChunk then uploadChunked cfg data ep st' schedules.tail else some (.error err, st')

def download (cfg : WalrusConfig) (blobIdOrManifest : BlobIdOrManifest) (st : Aggregators) (schedules : DownloadSchedules) :
    Option (Except WalrusError Bytes × Aggregators) :=
  match blobIdOrManifest with
  | .blobId blobId =>
    Interleaving.await Aggregators.exec Aggregators.turnTo (downloadSingleBlob cfg blobId) st (schedules.headD [])
  | .manifest manifest => ChunkedDownloader.download cfg manifest st schedules

end WalrusClient

end BrineVault
