import BrineVault.Encryption.Integrity
import BrineVault.Lib.Zod

/-!
# The schemas of the requests that become transactions

`pools.schemas.ts`, `datarooms.schemas.ts`, `documents.schemas.ts` and `reviews.schemas.ts`. `ZodValidationPipe` hands the body to a schema and
refuses the request with the issues that it finds.
-/

namespace BrineVault

open Js Zod

abbrev Text := List UInt16

/-- `/^\d+$/`. -/
def isNumeric (s : Text) : Bool := s ≠ [] && s.all fun u => Hex.unit '0' ≤ u && u ≤ Hex.unit '9'

def isHex64 (s : Text) : Bool := s.length = 64 && s.all isHexDigit

namespace Schemas

/-- The one of `pools.schemas.ts`, `documents.schemas.ts` and `reviews.schemas.ts`. -/
def hexHash64 : Schema Text := string [regex isHex64 "Invalid 64-char hex hash"]

def blobId : Schema Text := string [(minLength 1).saying "Blob ID cannot be empty"]

def adminConfigId : Schema Text := string [minLength 1]

def tags : Schema (List Text) := default (.array []) (array [maxLength 20] (string [maxLength 64]))

def changeLog : Schema Text := default (.string []) (string [maxLength 2048])

def visibleToRoles : Schema Number := number [int, minimum 1, maximum 63]

end Schemas

/-! ## Pools -/

structure CreatePoolDto where
  name : Text
  adminConfigId : Text
  orgIdHash : Text
  borrowerNameHash : Text
  currency : Text
  targetNotional : Text
  expectedMaturityDate : Number
  encryptionScheme : Number
  tags : List Text
  deriving DecidableEq, Repr

def createPoolSchema : Schema CreatePoolDto := object fun body =>
  CreatePoolDto.mk
    <$> field "name" (string [minLength 1, maxLength 256]) body
    <*> field "adminConfigId" Schemas.adminConfigId body
    <*> field "orgIdHash" Schemas.hexHash64 body
    <*> field "borrowerNameHash" Schemas.hexHash64 body
    <*> field "currency" (string [minLength 1, maxLength 10]) body
    <*> field "targetNotional" (string [regex isNumeric "Must be a numeric string"]) body
    <*> field "expectedMaturityDate" (number [int, positive]) body
    <*> field "encryptionScheme" (number [int, minimum 0, maximum 1]) body
    <*> field "tags" Schemas.tags body

/-! ## Folders -/

structure CreateFolderDto where
  adminConfigId : Text
  name : Text
  parentId : Option Number
  visibleToRoles : Number
  deriving DecidableEq, Repr

def createFolderSchema : Schema CreateFolderDto := object fun body =>
  CreateFolderDto.mk
    <$> field "adminConfigId" Schemas.adminConfigId body
    <*> field "name" (string [minLength 1, maxLength 256]) body
    <*> field "parentId" (optional (number [int, minimum 0])) body
    <*> field "visibleToRoles" Schemas.visibleToRoles body

/-! ## Documents -/

structure CreateDocumentDto where
  adminConfigId : Text
  folderId : Number
  docType : Number
  title : Text
  requiredFlag : Bool
  visibleToRoles : Number
  walrusBlobId : Text
  contentHash : Text
  sizeBytes : Number
  changeLog : Text
  tags : List Text
  deriving DecidableEq, Repr

def createDocumentSchema : Schema CreateDocumentDto := object fun body =>
  CreateDocumentDto.mk
    <$> field "adminConfigId" Schemas.adminConfigId body
    <*> field "folderId" (number [int, minimum 0]) body
    <*> field "docType" (number [int, minimum 0, maximum 9]) body
    <*> field "title" (string [minLength 1, maxLength 512]) body
    <*> field "requiredFlag" (default (.bool false) boolean) body
    <*> field "visibleToRoles" Schemas.visibleToRoles body
    <*> field "walrusBlobId" Schemas.blobId body
    <*> field "contentHash" Schemas.hexHash64 body
    <*> field "sizeBytes" (number [int, positive]) body
    <*> field "changeLog" Schemas.changeLog body
    <*> field "tags" Schemas.tags body

structure AddVersionDto where
  adminConfigId : Text
  walrusBlobId : Text
  contentHash : Text
  sizeBytes : Number
  changeLog : Text
  deriving DecidableEq, Repr

def addVersionSchema : Schema AddVersionDto := object fun body =>
  AddVersionDto.mk
    <$> field "adminConfigId" Schemas.adminConfigId body
    <*> field "walrusBlobId" Schemas.blobId body
    <*> field "contentHash" Schemas.hexHash64 body
    <*> field "sizeBytes" (number [int, positive]) body
    <*> field "changeLog" Schemas.changeLog body

/-! ## Reviews -/

structure SubmitReviewDto where
  adminConfigId : Text
  status : Number
  commentHash : Option Text
  deriving DecidableEq, Repr

def submitReviewSchema : Schema SubmitReviewDto := object fun body =>
  SubmitReviewDto.mk
    <$> field "adminConfigId" Schemas.adminConfigId body
    <*> field "status" (number [int, minimum 0, maximum 2]) body
    <*> field "commentHash" (optional Schemas.hexHash64) body

/-! ## What is accepted -/

/-- The number has passed the checks. -/
def Passed (checks : List (Check Number)) (x : Number) : Prop := ∀ check ∈ checks, check.passes x = true

/-- An integer with a minimum of at least 0 is a count. -/
theorem Passed.natural {m : Nat} {checks : List (Check Number)} {x : Number} (h : Passed (int :: minimum m :: checks) x) : ∃ n : Nat, x = n := by
  obtain ⟨hint, hmin, -⟩ := List.forall_mem_cons.1 h |>.imp_right List.forall_mem_cons.1
  exact Number.exists_natCast hint (by simpa [minimum] using hmin)

/-- With a maximum, too, it is one up to that. -/
theorem Passed.bounded {m k : Nat} {x : Number} (h : Passed [int, minimum m, maximum k] x) : ∃ n : Nat, x = n ∧ n ≤ k := by
  obtain ⟨n, rfl⟩ := h.natural
  have hmax : (maximum k).passes n = true := h _ (by simp)
  exact ⟨n, rfl, by simpa [maximum] using hmax⟩

/-- A positive integer is a count. -/
theorem Passed.ofPositive {x : Number} (h : Passed [int, positive] x) : ∃ n : Nat, x = n := by
  obtain ⟨hint, hpos, -⟩ := List.forall_mem_cons.1 h |>.imp_right List.forall_mem_cons.1
  exact Number.exists_natCast hint (n := 0) (Number.lt_asymm hpos)

/-- What passes is 64 hex digits. -/
theorem hexHash64_ok {v : Option Value} {s : Text} (h : Schemas.hexHash64 v = .ok s) : isHex64 s = true :=
  (string_eq_ok.1 h).2 _ (List.mem_singleton_self _)

/-- What the schema for a pool lets through. -/
theorem createPoolSchema_ok {v : Option Value} {dto : CreatePoolDto} (h : createPoolSchema v = .ok dto) :
    isHex64 dto.orgIdHash = true ∧ isHex64 dto.borrowerNameHash = true ∧ isNumeric dto.targetNotional = true ∧
      Passed [int, positive] dto.expectedMaturityDate ∧ Passed [int, minimum 0, maximum 1] dto.encryptionScheme := by
  obtain ⟨members, -, h⟩ := object_ok h
  simp only [Parsed.seq_eq_ok, Parsed.map_eq_ok, field_eq_ok] at h
  obtain ⟨_, ⟨_, ⟨_, ⟨_, ⟨_, ⟨_, ⟨_, ⟨_, ⟨_, _, rfl⟩, _, _, rfl⟩, _, horg, rfl⟩, _, hborrower, rfl⟩, _, _, rfl⟩, _, hnotional, rfl⟩, _, hdate, rfl⟩, _,
    hscheme, rfl⟩, _, _, rfl⟩ := h
  exact ⟨hexHash64_ok horg, hexHash64_ok hborrower, (string_eq_ok.1 hnotional).2 _ (List.mem_singleton_self _), (number_ok hdate).2,
    (number_ok hscheme).2⟩

/-- What the schema for a folder lets through. -/
theorem createFolderSchema_ok {v : Option Value} {dto : CreateFolderDto} (h : createFolderSchema v = .ok dto) :
    (∀ x, dto.parentId = some x → Passed [int, minimum 0] x) ∧ Passed [int, minimum 1, maximum 63] dto.visibleToRoles := by
  obtain ⟨members, -, h⟩ := object_ok h
  simp only [Parsed.seq_eq_ok, Parsed.map_eq_ok, field_eq_ok, optional_eq_ok] at h
  obtain ⟨_, ⟨_, ⟨_, ⟨_, _, rfl⟩, _, _, rfl⟩, parentId, hparent, rfl⟩, _, hroles, rfl⟩ := h
  refine ⟨fun x hx => ?_, (number_ok hroles).2⟩
  obtain ⟨-, rfl⟩ | ⟨v, y, -, hy, rfl⟩ := hparent
  · cases hx
  · cases hx
    exact (number_ok hy).2

/-- What the schema for a document lets through. -/
theorem createDocumentSchema_ok {v : Option Value} {dto : CreateDocumentDto} (h : createDocumentSchema v = .ok dto) :
    isHex64 dto.contentHash = true ∧ Passed [int, minimum 0] dto.folderId ∧ Passed [int, minimum 0, maximum 9] dto.docType ∧
      Passed [int, minimum 1, maximum 63] dto.visibleToRoles ∧ Passed [int, positive] dto.sizeBytes := by
  obtain ⟨members, -, h⟩ := object_ok h
  simp only [Parsed.seq_eq_ok, Parsed.map_eq_ok, field_eq_ok] at h
  obtain ⟨_, ⟨_, ⟨_, ⟨_, ⟨_, ⟨_, ⟨_, ⟨_, ⟨_, ⟨_, ⟨_, _, rfl⟩, _, hfolder, rfl⟩, _, htype, rfl⟩, _, _, rfl⟩, _, _, rfl⟩, _, hroles, rfl⟩, _, _, rfl⟩, _,
    hhash, rfl⟩, _, hsize, rfl⟩, _, _, rfl⟩, _, _, rfl⟩ := h
  exact ⟨hexHash64_ok hhash, (number_ok hfolder).2, (number_ok htype).2, (number_ok hroles).2, (number_ok hsize).2⟩

/-- What the schema for a version lets through. -/
theorem addVersionSchema_ok {v : Option Value} {dto : AddVersionDto} (h : addVersionSchema v = .ok dto) :
    isHex64 dto.contentHash = true ∧ Passed [int, positive] dto.sizeBytes := by
  obtain ⟨members, -, h⟩ := object_ok h
  simp only [Parsed.seq_eq_ok, Parsed.map_eq_ok, field_eq_ok] at h
  obtain ⟨_, ⟨_, ⟨_, ⟨_, ⟨_, _, rfl⟩, _, _, rfl⟩, _, hhash, rfl⟩, _, hsize, rfl⟩, _, _, rfl⟩ := h
  exact ⟨hexHash64_ok hhash, (number_ok hsize).2⟩

/-- What the schema for a review lets through. -/
theorem submitReviewSchema_ok {v : Option Value} {dto : SubmitReviewDto} (h : submitReviewSchema v = .ok dto) :
    Passed [int, minimum 0, maximum 2] dto.status ∧ ∀ s, dto.commentHash = some s → isHex64 s = true := by
  obtain ⟨members, -, h⟩ := object_ok h
  simp only [Parsed.seq_eq_ok, Parsed.map_eq_ok, field_eq_ok, optional_eq_ok] at h
  obtain ⟨_, ⟨_, ⟨_, _, rfl⟩, status, hstatus, rfl⟩, commentHash, hcomment, rfl⟩ := h
  refine ⟨(number_ok hstatus).2, fun s hs => ?_⟩
  obtain ⟨-, rfl⟩ | ⟨v, y, -, hy, rfl⟩ := hcomment
  · cases hs
  · cases hs
    exact hexHash64_ok hy

end BrineVault
