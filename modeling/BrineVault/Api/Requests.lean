import BrineVault.Api.SuiTx
import BrineVault.Contract.Access

/-!
# Validated requests and their transactions

A request is what a schema has accepted, with the ids that the services look up for it. Its transaction is built by `sui-tx.service.ts` and read on
chain as a call of the package. The encoding of texts and the parsing of ids are parameters.
-/

namespace BrineVault

open Js Zod Move

/-- A request whose body a schema accepted. -/
inductive TxRequest where
  | createPool (dto : CreatePoolDto) (accepted : ∃ body, createPoolSchema (some body) = .ok dto)
  | createFolder (poolObjectId : Text) (dto : CreateFolderDto) (accepted : ∃ body, createFolderSchema (some body) = .ok dto)
  | createDocument (poolObjectId : Text) (dto : CreateDocumentDto) (accepted : ∃ body, createDocumentSchema (some body) = .ok dto)
  | addVersion (poolObjectId docObjectId : Text) (dto : AddVersionDto) (accepted : ∃ body, addVersionSchema (some body) = .ok dto)
  | submitReview (poolObjectId docObjectId : Text) (dto : SubmitReviewDto) (accepted : ∃ body, submitReviewSchema (some body) = .ok dto)

def TxRequest.build (service : SuiTxService) (senderAddress : Text) : TxRequest → Except TxError Tx
  | .createPool dto _ => service.buildCreatePoolTx senderAddress dto
  | .createFolder pool dto _ => service.buildCreateFolderTx senderAddress pool dto
  | .createDocument pool dto _ => service.buildCreateDocumentTx senderAddress pool dto
  | .addVersion pool doc dto _ => service.buildAddVersionTx senderAddress pool doc dto
  | .submitReview pool doc dto _ => service.buildSubmitReviewTx senderAddress pool doc dto

/-! ## On chain -/

def readU8 (x : Number) : Option UInt8 := (x.arrayIndex.filter fun n => n < 2 ^ 8).map Nat.toUInt8

def readU64 (n : Int) : Option Nat := if isU64 n then some n.toNat else none

section Reading

variable (utf8 : Text → MoveString) (objectId : Text → ID)

/-- The call that a transaction makes. -/
def Tx.call (tx : Tx) : Option Call :=
  match tx.target, tx.arguments with
  | .createPool, [.object _, .u8s orgIdHash, .string name, .u8s borrowerNameHash, .string currency, .u64 targetNotional, .u64 expectedMaturityDate,
      .u8 encryptionScheme, .strings tags, .object _] => do
    let orgIdHash ← orgIdHash.mapM readU8
    let borrowerNameHash ← borrowerNameHash.mapM readU8
    let targetNotional ← readU64 targetNotional
    let expectedMaturityDate ← readU64 expectedMaturityDate
    let encryptionScheme ← readU8 encryptionScheme
    some (.createPool { orgIdHash, name := utf8 name, borrowerNameHash, currency := utf8 currency, targetNotional, expectedMaturityDate,
                        encryptionScheme, tags := tags.map utf8 })
  | .createCustomFolder, [.object _, .object pool, .string name, .optionU64 parentId, .u8 visibleToRoles, .object _] => do
    let parentId ← parentId.mapM readU64
    let visibleToRoles ← readU8 visibleToRoles
    some (.onPool (objectId pool) (.createCustomFolder (utf8 name) parentId visibleToRoles))
  | .createDocument, [.object _, .object pool, .u64 folderId, .u8 docType, .string title, .bool requiredFlag, .u8 visibleToRoles,
      .string walrusBlobId, .u8s contentHash, .u64 sizeBytes, .string changeLog, .strings tags, .object _] => do
    let folderId ← readU64 folderId
    let docType ← readU8 docType
    let visibleToRoles ← readU8 visibleToRoles
    let contentHash ← contentHash.mapM readU8
    let sizeBytes ← readU64 sizeBytes
    some (.onPool (objectId pool) (.createDocument
      { folderId, docType, title := utf8 title, requiredFlag, visibleToRoles, tags := tags.map utf8 }
      { walrusBlobId := utf8 walrusBlobId, contentHash, sizeBytes, changeLog := utf8 changeLog }))
  | .addVersion, [.object _, .object pool, .id doc, .string walrusBlobId, .u8s contentHash, .u64 sizeBytes, .string changeLog, .object _] => do
    let contentHash ← contentHash.mapM readU8
    let sizeBytes ← readU64 sizeBytes
    some (.onPool (objectId pool) (.addVersion (objectId doc)
      { walrusBlobId := utf8 walrusBlobId, contentHash, sizeBytes, changeLog := utf8 changeLog }))
  | .submitReview, [.object _, .object pool, .id doc, .u8 status, .optionU8s commentHash, .object _] => do
    let status ← readU8 status
    let commentHash ← commentHash.mapM fun xs => xs.mapM readU8
    some (.onPool (objectId pool) (.submitReview (objectId doc) status commentHash))
  | _, _ => none

end Reading

/-! ## What the builders pass -/

section Builders

variable (service : SuiTxService) (sender : Text) {v : Option Value}

open SuiTxService

/-- The transaction of a validated body to create a pool. -/
theorem buildCreatePoolTx_eq {dto : CreatePoolDto} (h : createPoolSchema v = .ok dto) :
    ∃ (org borrower : List UInt8) (date scheme : Nat), org.length = 32 ∧ borrower.length = 32 ∧ dto.expectedMaturityDate = date ∧ scheme ≤ 1 ∧
      service.buildCreatePoolTx sender dto = service.moveCall sender .createPool
        [.object dto.adminConfigId, .u8s (numbers org), .string dto.name, .u8s (numbers borrower), .string dto.currency,
         .u64 (decimal dto.targetNotional), .u64 date, .u8 scheme, .strings dto.tags, clock] := by
  obtain ⟨horg, hborrower, hnotional, hdate, hscheme⟩ := createPoolSchema_ok h
  obtain ⟨org, horg32, horg⟩ := hexToBytes_of_isHex64 horg
  obtain ⟨borrower, hborrower32, hborrower⟩ := hexToBytes_of_isHex64 hborrower
  obtain ⟨date, hdate⟩ := hdate.ofPositive
  obtain ⟨scheme, hscheme, hle⟩ := hscheme.bounded
  refine ⟨org, borrower, date, scheme, horg32, hborrower32, hdate, hle, ?_⟩
  rw [buildCreatePoolTx, bigIntOfText, if_pos hnotional, hdate, Number.toBigInt_natCast, hscheme, horg, hborrower]
  rfl

/-- The transaction of a validated body to create a folder. -/
theorem buildCreateFolderTx_eq (pool : Text) {dto : CreateFolderDto} (h : createFolderSchema v = .ok dto) :
    ∃ (parentId : Option Nat) (roles : Nat), dto.parentId = parentId.map Nat.cast ∧ roles ≤ 63 ∧
      service.buildCreateFolderTx sender pool dto = service.moveCall sender .createCustomFolder
        [.object dto.adminConfigId, .object pool, .string dto.name, .optionU64 (parentId.map Nat.cast), .u8 roles, clock] := by
  obtain ⟨hparent, hroles⟩ := createFolderSchema_ok h
  obtain ⟨roles, hroles, hle⟩ := hroles.bounded
  cases hdto : dto.parentId with
  | none =>
    refine ⟨none, roles, rfl, hle, ?_⟩
    rw [buildCreateFolderTx, hdto, hroles]
    rfl
  | some x =>
    obtain ⟨parentId, rfl⟩ := (hparent x hdto).natural
    refine ⟨some parentId, roles, rfl, hle, ?_⟩
    simp only [buildCreateFolderTx, hdto, hroles, Number.toBigInt_natCast]
    rfl

/-- The transaction of a validated body to create a document. -/
theorem buildCreateDocumentTx_eq (pool : Text) {dto : CreateDocumentDto} (h : createDocumentSchema v = .ok dto) :
    ∃ (hash : List UInt8) (folderId docType roles size : Nat), hash.length = 32 ∧ dto.folderId = folderId ∧ docType ≤ 9 ∧ roles ≤ 63 ∧
      dto.sizeBytes = size ∧
      service.buildCreateDocumentTx sender pool dto = service.moveCall sender .createDocument
        [.object dto.adminConfigId, .object pool, .u64 folderId, .u8 docType, .string dto.title, .bool dto.requiredFlag, .u8 roles,
         .string dto.walrusBlobId, .u8s (numbers hash), .u64 size, .string dto.changeLog, .strings dto.tags, clock] := by
  obtain ⟨hhash, hfolder, htype, hroles, hsize⟩ := createDocumentSchema_ok h
  obtain ⟨hash, hhash32, hhash⟩ := hexToBytes_of_isHex64 hhash
  obtain ⟨folderId, hfolder⟩ := hfolder.natural
  obtain ⟨docType, htype, htypele⟩ := htype.bounded
  obtain ⟨roles, hroles, hrolesle⟩ := hroles.bounded
  obtain ⟨size, hsize⟩ := hsize.ofPositive
  refine ⟨hash, folderId, docType, roles, size, hhash32, hfolder, htypele, hrolesle, hsize, ?_⟩
  rw [buildCreateDocumentTx, hfolder, hsize, Number.toBigInt_natCast, Number.toBigInt_natCast, htype, hroles, hhash]
  rfl

/-- The transaction of a validated body to add a version. -/
theorem buildAddVersionTx_eq (pool doc : Text) {dto : AddVersionDto} (h : addVersionSchema v = .ok dto) :
    ∃ (hash : List UInt8) (size : Nat), hash.length = 32 ∧ dto.sizeBytes = size ∧
      service.buildAddVersionTx sender pool doc dto = service.moveCall sender .addVersion
        [.object dto.adminConfigId, .object pool, .id doc, .string dto.walrusBlobId, .u8s (numbers hash), .u64 size, .string dto.changeLog, clock] := by
  obtain ⟨hhash, hsize⟩ := addVersionSchema_ok h
  obtain ⟨hash, hhash32, hhash⟩ := hexToBytes_of_isHex64 hhash
  obtain ⟨size, hsize⟩ := hsize.ofPositive
  refine ⟨hash, size, hhash32, hsize, ?_⟩
  rw [buildAddVersionTx, hsize, Number.toBigInt_natCast, hhash]
  rfl

/-- The transaction of a validated body to submit a review. -/
theorem buildSubmitReviewTx_eq (pool doc : Text) {dto : SubmitReviewDto} (h : submitReviewSchema v = .ok dto) :
    ∃ (comment : Option (List UInt8)) (status : Nat), (∀ hash, comment = some hash → hash.length = 32) ∧ status ≤ 2 ∧
      service.buildSubmitReviewTx sender pool doc dto = service.moveCall sender .submitReview
        [.object dto.adminConfigId, .object pool, .id doc, .u8 status, .optionU8s (comment.map numbers), clock] := by
  obtain ⟨hstatus, hcomment⟩ := submitReviewSchema_ok h
  obtain ⟨status, hstatus, hle⟩ := hstatus.bounded
  cases hdto : dto.commentHash with
  | none =>
    refine ⟨none, status, by simp, hle, ?_⟩
    rw [buildSubmitReviewTx, hdto, hstatus]
    rfl
  | some s =>
    have hhex := hcomment s hdto
    have hne : s ≠ [] := by
      rintro rfl
      cases hhex
    obtain ⟨hash, hhash32, hhash⟩ := hexToBytes_of_isHex64 hhex
    refine ⟨some hash, status, ?_, hle, ?_⟩
    · rintro _ ⟨⟩
      exact hhash32
    · rw [buildSubmitReviewTx, hdto, hstatus, commentHashArg, if_neg hne, hhash]
      rfl

end Builders

/-! ## Integers out of range -/

def fitsU64 (x : Number) : Bool := x.lt (2 ^ 64 : Nat)

@[simp] theorem fitsU64_natCast (n : Nat) : fitsU64 n = decide (n < 2 ^ 64) := Number.lt_natCast

/-- The numbers that the request gives for arguments of type `u64` are below 2^64. -/
def TxRequest.FitsU64 : TxRequest → Prop
  | .createPool dto _ => decimal dto.targetNotional < 2 ^ 64 ∧ fitsU64 dto.expectedMaturityDate = true
  | .createFolder _ dto _ => ∀ x, dto.parentId = some x → fitsU64 x = true
  | .createDocument _ dto _ => fitsU64 dto.folderId = true ∧ fitsU64 dto.sizeBytes = true
  | .addVersion _ _ dto _ => fitsU64 dto.sizeBytes = true
  | .submitReview .. => True

/-- The transaction of the request is built, of integers that are all in the range of their types. -/
def TxRequest.Encodable (service : SuiTxService) (sender : Text) (request : TxRequest) : Prop :=
  ∃ tx, request.build service sender = .ok tx ∧ ∀ a ∈ tx.arguments, a.inRange = true

/-- A request whose transaction is one call is encodable when the arguments are in range. -/
theorem encodable_of_eq {service : SuiTxService} {sender : Text} (request : TxRequest) {target : Target} {arguments : List Argument}
    (h : request.build service sender = service.moveCall sender target arguments) :
    request.Encodable service sender ↔ ∀ a ∈ arguments, a.inRange = true := by
  unfold TxRequest.Encodable
  rw [h]
  constructor
  · rintro ⟨tx, htx, -⟩
    exact (SuiTxService.moveCall_ok htx).2.2
  · intro hrange
    obtain ⟨tx, htx⟩ := SuiTxService.exists_moveCall hrange
    obtain ⟨-, harguments, -⟩ := SuiTxService.moveCall_ok htx
    exact ⟨tx, htx, harguments ▸ hrange⟩

/-- A validated request becomes a transaction exactly when its numbers fit a `u64`. -/
theorem request_encodable_iff (service : SuiTxService) (sender : Text) (request : TxRequest) :
    request.Encodable service sender ↔ request.FitsU64 := by
  cases request with
  | createPool dto accepted =>
    obtain ⟨body, haccepted⟩ := accepted
    obtain ⟨org, borrower, date, scheme, -, -, hdate, hscheme, hbuild⟩ := buildCreatePoolTx_eq service sender haccepted
    rw [encodable_of_eq (.createPool dto _) hbuild, TxRequest.FitsU64, hdate]
    have hu8 : scheme < 256 := by omega
    simp [hu8]
  | createFolder pool dto accepted =>
    obtain ⟨body, haccepted⟩ := accepted
    obtain ⟨parentId, roles, hparent, hroles, hbuild⟩ := buildCreateFolderTx_eq service sender pool haccepted
    rw [encodable_of_eq (.createFolder pool dto _) hbuild, TxRequest.FitsU64, hparent]
    have hu8 : roles < 256 := by omega
    simp [hu8, Argument.inRange_optionU64]
  | createDocument pool dto accepted =>
    obtain ⟨body, haccepted⟩ := accepted
    obtain ⟨hash, folderId, docType, roles, size, -, hfolder, htype, hroles, hsize, hbuild⟩ :=
      buildCreateDocumentTx_eq service sender pool haccepted
    rw [encodable_of_eq (.createDocument pool dto _) hbuild, TxRequest.FitsU64, hfolder, hsize]
    have hu8 : docType < 256 ∧ roles < 256 := by omega
    simp [hu8]
  | addVersion pool doc dto accepted =>
    obtain ⟨body, haccepted⟩ := accepted
    obtain ⟨hash, size, -, hsize, hbuild⟩ := buildAddVersionTx_eq service sender pool doc haccepted
    rw [encodable_of_eq (.addVersion pool doc dto _) hbuild, TxRequest.FitsU64, hsize]
    simp
  | submitReview pool doc dto accepted =>
    obtain ⟨body, haccepted⟩ := accepted
    obtain ⟨comment, status, -, hstatus, hbuild⟩ := buildSubmitReviewTx_eq service sender pool doc haccepted
    rw [encodable_of_eq (.submitReview pool doc dto _) hbuild, TxRequest.FitsU64]
    have hu8 : status < 256 := by omega
    simp [hu8]

namespace Sample

def hash : Text := "cc00000000000000000000000000000000000000000000000000000000000000".toList.map Hex.unit

/-- A pool of 2^64, the first number that a `u64` does not hold. -/
def tooLarge : CreatePoolDto :=
  { name := [80], adminConfigId := [97], orgIdHash := hash, borrowerNameHash := hash, currency := [85],
    targetNotional := "18446744073709551616".toList.map Hex.unit, expectedMaturityDate := 1, encryptionScheme := 0, tags := [] }

def tooLargeBody : Value := .object
  [("name", .string [80]), ("adminConfigId", .string [97]), ("orgIdHash", .string hash), ("borrowerNameHash", .string hash),
   ("currency", .string [85]), ("targetNotional", .string tooLarge.targetNotional), ("expectedMaturityDate", .number 1),
   ("encryptionScheme", .number 0)]

/-- The schema lets a pool of 2^64 through. -/
theorem tooLarge_accepted : ∃ body, createPoolSchema (some body) = .ok tooLarge := ⟨tooLargeBody, by decide +kernel⟩

end Sample

/-- The schema accepts the pool of 2^64, and no transaction is built of it. -/
theorem too_large_not_encodable :
    (∃ body, createPoolSchema (some body) = .ok Sample.tooLarge) ∧
      ∀ service sender, (TxRequest.createPool Sample.tooLarge Sample.tooLarge_accepted).build service sender = .error .invalidValue ∧
        ¬ (TxRequest.createPool Sample.tooLarge Sample.tooLarge_accepted).Encodable service sender := by
  refine ⟨Sample.tooLarge_accepted, fun service sender => ?_⟩
  have hfails : (TxRequest.createPool Sample.tooLarge Sample.tooLarge_accepted).build service sender = .error .invalidValue := by
    obtain ⟨body, haccepted⟩ := Sample.tooLarge_accepted
    obtain ⟨org, borrower, date, scheme, -, -, -, -, hbuild⟩ := buildCreatePoolTx_eq service sender haccepted
    refine hbuild.trans (SuiTxService.moveCall_error ⟨.u64 (decimal Sample.tooLarge.targetNotional), by simp, ?_⟩)
    decide +kernel
  refine ⟨hfails, ?_⟩
  rintro ⟨tx, htx, -⟩
  rw [hfails] at htx
  cases htx

/-! ## Hashes on chain -/

theorem readU8_natCast {n : Nat} (h : n < 256) : readU8 n = some n.toUInt8 := by
  simp [readU8, h]

/-- Numbers of bytes are read as the bytes. -/
theorem mapM_readU8 (bytes : List UInt8) : (numbers bytes).mapM readU8 = some bytes := by
  induction bytes with
  | nil => rfl
  | cons b bytes ih =>
    have hcons : numbers (b :: bytes) = (b.toNat : Number) :: numbers bytes := rfl
    rw [hcons, List.mapM_cons, readU8_natCast b.toNat_lt, ih]
    simp

theorem readU64_natCast {n : Nat} (h : n < 2 ^ 64) : readU64 n = some n := by
  rw [readU64, isU64_natCast, if_pos (decide_eq_true h)]
  rfl

/-- A number that may be left out is read as itself. -/
theorem mapM_readU64 {n : Option Nat} (h : ∀ m, n = some m → m < 2 ^ 64) : (n.map Nat.cast : Option Int).mapM readU64 = some n := by
  cases n with
  | none => rfl
  | some m =>
    rw [Option.map_some, Option.mapM_some, readU64_natCast (h m rfl)]
    rfl

/-- The call that the transaction of a request makes does not abort on the length of a hash, in any state of the package. -/
theorem call_avoids {service : SuiTxService} {sender : Text} (utf8 : Text → MoveString) (objectId : Text → ID) {request : TxRequest} {tx : Tx}
    (h : request.build service sender = .ok tx) :
    ∃ call, tx.call utf8 objectId = some call ∧ ∀ (w : World) n, IsHashCode n → Avoids n (w.exec call) := by
  cases request with
  | createPool dto accepted =>
    obtain ⟨body, haccepted⟩ := accepted
    obtain ⟨org, borrower, date, scheme, horg, hborrower, hdate, hscheme, hbuild⟩ := buildCreatePoolTx_eq service sender haccepted
    obtain ⟨htarget, harguments, hrange⟩ := SuiTxService.moveCall_ok (hbuild.symm.trans h)
    simp only [List.forall_mem_cons, Argument.inRange_u64, decide_eq_true_eq] at hrange
    have hu64 : decimal dto.targetNotional < 2 ^ 64 ∧ date < 2 ^ 64 := ⟨hrange.2.2.2.2.2.1, hrange.2.2.2.2.2.2.1⟩
    refine ⟨.createPool
      ⟨org, utf8 dto.name, borrower, utf8 dto.currency, decimal dto.targetNotional, date, scheme.toUInt8, dto.tags.map utf8⟩, ?_, ?_⟩
    · rw [Tx.call, htarget, harguments]
      simp [SuiTxService.clock, mapM_readU8, readU64_natCast hu64.1, readU64_natCast hu64.2, readU8_natCast (show scheme < 256 by omega)]
    · intro w n hn
      exact w.avoids_createPool hn horg hborrower
  | createFolder pool dto accepted =>
    obtain ⟨body, haccepted⟩ := accepted
    obtain ⟨parentId, roles, hparent, hroles, hbuild⟩ := buildCreateFolderTx_eq service sender pool haccepted
    obtain ⟨htarget, harguments, hrange⟩ := SuiTxService.moveCall_ok (hbuild.symm.trans h)
    simp only [List.forall_mem_cons, Argument.inRange_optionU64] at hrange
    refine ⟨.onPool (objectId pool) (.createCustomFolder (utf8 dto.name) parentId roles.toUInt8), ?_, ?_⟩
    · have hu64 := mapM_readU64 hrange.2.2.2.1
      rw [Tx.call, htarget, harguments]
      simp [SuiTxService.clock, hu64, readU8_natCast (show roles < 256 by omega)]
    · intro w n hn
      exact w.avoids_onPool _ fun config id ctx pool => PoolCall.avoids_exec hn.watched (fun he => absurd he hn.ne_role) fun _ => trivial
  | createDocument pool dto accepted =>
    obtain ⟨body, haccepted⟩ := accepted
    obtain ⟨hash, folderId, docType, roles, size, hhash, hfolder, htype, hroles, hsize, hbuild⟩ :=
      buildCreateDocumentTx_eq service sender pool haccepted
    obtain ⟨htarget, harguments, hrange⟩ := SuiTxService.moveCall_ok (hbuild.symm.trans h)
    simp only [List.forall_mem_cons, Argument.inRange_u64, decide_eq_true_eq] at hrange
    have hu64 : folderId < 2 ^ 64 ∧ size < 2 ^ 64 := ⟨hrange.2.2.1, hrange.2.2.2.2.2.2.2.2.2.1⟩
    refine ⟨.onPool (objectId pool) (.createDocument
      ⟨folderId, docType.toUInt8, utf8 dto.title, dto.requiredFlag, roles.toUInt8, dto.tags.map utf8⟩
      ⟨utf8 dto.walrusBlobId, hash, size, utf8 dto.changeLog⟩), ?_, ?_⟩
    · rw [Tx.call, htarget, harguments]
      simp [SuiTxService.clock, mapM_readU8, readU64_natCast hu64.1, readU64_natCast hu64.2, readU8_natCast (show docType < 256 by omega),
        readU8_natCast (show roles < 256 by omega)]
    · intro w n hn
      exact w.avoids_onPool _ fun config id ctx pool => PoolCall.avoids_exec hn.watched (fun he => absurd he hn.ne_role) fun _ => hhash
  | addVersion pool doc dto accepted =>
    obtain ⟨body, haccepted⟩ := accepted
    obtain ⟨hash, size, hhash, hsize, hbuild⟩ := buildAddVersionTx_eq service sender pool doc haccepted
    obtain ⟨htarget, harguments, hrange⟩ := SuiTxService.moveCall_ok (hbuild.symm.trans h)
    simp only [List.forall_mem_cons, Argument.inRange_u64, decide_eq_true_eq] at hrange
    have hu64 : size < 2 ^ 64 := hrange.2.2.2.2.2.1
    refine ⟨.onPool (objectId pool) (.addVersion (objectId doc) ⟨utf8 dto.walrusBlobId, hash, size, utf8 dto.changeLog⟩), ?_, ?_⟩
    · rw [Tx.call, htarget, harguments]
      simp [SuiTxService.clock, mapM_readU8, readU64_natCast hu64]
    · intro w n hn
      exact w.avoids_onPool _ fun config id ctx pool => PoolCall.avoids_exec hn.watched (fun he => absurd he hn.ne_role) fun _ => hhash
  | submitReview pool doc dto accepted =>
    obtain ⟨body, haccepted⟩ := accepted
    obtain ⟨comment, status, hcomment, hstatus, hbuild⟩ := buildSubmitReviewTx_eq service sender pool doc haccepted
    obtain ⟨htarget, harguments, -⟩ := SuiTxService.moveCall_ok (hbuild.symm.trans h)
    refine ⟨.onPool (objectId pool) (.submitReview (objectId doc) status.toUInt8 comment), ?_, ?_⟩
    · have hu8s : (comment.map numbers).mapM (fun xs => xs.mapM readU8) = some comment := by
        cases comment with
        | none => rfl
        | some hash => simp [mapM_readU8]
      rw [Tx.call, htarget, harguments]
      simp [SuiTxService.clock, hu8s, readU8_natCast (show status < 256 by omega)]
    · intro w n hn
      exact w.avoids_onPool _ fun config id ctx pool => PoolCall.avoids_exec hn.watched (fun he => absurd he hn.ne_role) fun _ => hcomment

/-- Bytes come back from their hexadecimal text, a text that the schemas take gives 32 bytes, and the checks of the length of a hash pass for every
validated request. -/
theorem hex_lossless (service : SuiTxService) (sender : Text) (utf8 : Text → MoveString) (objectId : Text → ID) :
    (∀ b : List UInt8, hexToBytes (bufferToHex b) = numbers b) ∧
    (∀ s, (Schemas.hexHash64 (some (.string s)) = .ok s ∨ ∃ message, hex64 message s = .ok s) →
      (hexToBytes s).length = 32 ∧ ∀ x ∈ hexToBytes s, ∃ n : Nat, n ≤ 255 ∧ x = n) ∧
    ∀ (request : TxRequest) tx, request.build service sender = .ok tx →
      ∃ call, tx.call utf8 objectId = some call ∧
        ∀ w : World, w.exec call ≠ .error (.code Errors.invalidHashLength) ∧ w.exec call ≠ .error (.code Errors.invalidContentHashLen) := by
  refine ⟨hexToBytes_bufferToHex, fun s hs => ?_, fun request tx htx => ?_⟩
  · have hhex : isHex64 s = true := by
      obtain hs | ⟨message, hs⟩ := hs
      · exact hexHash64_ok hs
      · exact isHex64_of_hex64 hs
    obtain ⟨bytes, hlength, hbytes⟩ := hexToBytes_of_isHex64 hhex
    rw [hbytes, numbers, List.length_map]
    refine ⟨hlength, fun x hx => ?_⟩
    obtain ⟨byte, -, rfl⟩ := List.mem_map.1 hx
    exact ⟨byte.toNat, Nat.le_of_lt_succ byte.toNat_lt, rfl⟩
  · obtain ⟨call, hcall, havoids⟩ := call_avoids utf8 objectId htx
    exact ⟨call, hcall, fun w => ⟨havoids w _ (.inl rfl), havoids w _ (.inr rfl)⟩⟩

namespace Sample

def littleEndian (n : Nat) : Nat → List UInt8
  | 0 => []
  | k + 1 => (n % 256).toUInt8 :: littleEndian (n / 256) k

/-- The bytes of a value, for sequences of fewer than 128 and texts in ASCII. -/
def bytesOf : Argument → List UInt8
  | .u8 x => littleEndian (x.arrayIndex.getD 0) 1
  | .u64 n => littleEndian n.toNat 8
  | .bool b => littleEndian b.toNat 1
  | .string s => littleEndian s.length 1 ++ s.map UInt16.toUInt8
  | .strings ss => littleEndian ss.length 1 ++ ss.flatMap fun s => littleEndian s.length 1 ++ s.map UInt16.toUInt8
  | .u8s xs => littleEndian xs.length 1 ++ xs.flatMap fun x => littleEndian (x.arrayIndex.getD 0) 1
  | .optionU64 n => (n.map fun n => 1 :: littleEndian n.toNat 8).getD [0]
  | .optionU8s xs => (xs.map fun xs => 1 :: littleEndian xs.length 1 ++ xs.flatMap fun x => littleEndian (x.arrayIndex.getD 0) 1).getD [0]
  | .object id | .id id => id.map UInt16.toUInt8

def service : SuiTxService where
  packageId := "0x1".toList.map Hex.unit
  bcs :=
    { serialize := fun a => if a.inRange then some (bytesOf a) else none
      serialize_isSome := fun a => by cases h : a.inRange <;> simp }

/-- The largest pool. -/
def largest : CreatePoolDto := { tooLarge with targetNotional := "18446744073709551615".toList.map Hex.unit }

def largestBody : Value := .object
  [("name", .string [80]), ("adminConfigId", .string [97]), ("orgIdHash", .string hash), ("borrowerNameHash", .string hash),
   ("currency", .string [85]), ("targetNotional", .string largest.targetNotional), ("expectedMaturityDate", .number 1),
   ("encryptionScheme", .number 0)]

/-- The schema lets the largest pool through that can be encoded. -/
theorem largest_accepted : ∃ body, createPoolSchema (some body) = .ok largest := ⟨largestBody, by decide +kernel⟩

end Sample

/-- The largest pool becomes a transaction, which passes the checks of the two hashes on a new package. -/
theorem hex_lossless_sample :
    ∃ tx call, (TxRequest.createPool Sample.largest Sample.largest_accepted).build Sample.service [] = .ok tx ∧
      tx.call (fun s => s.map UInt16.toUInt8) List.length = some call ∧
      (World.genesis Sample.owner).exec call ≠ .error (.code Errors.invalidHashLength) := by
  obtain ⟨tx, htx⟩ := exists_ok_of_returns
    (show returns ((TxRequest.createPool Sample.largest Sample.largest_accepted).build Sample.service []) = true by decide +kernel)
  obtain ⟨call, hcall, hchecks⟩ := (hex_lossless Sample.service [] (fun s => s.map UInt16.toUInt8) List.length).2.2 _ tx htx
  exact ⟨tx, call, htx, hcall, (hchecks _).1⟩

end BrineVault
