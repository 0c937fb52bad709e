import BrineVault.Lib.Csv

/-!
# The export of an audit trail as CSV

`toCsv` puts quotes around a field with a comma or a quote in it. A field with a line break and neither of the two is put down as it is, and what
is read of it ends at the break.
-/

namespace BrineVault

/-- The properties of a row, as texts; `none` is null. -/
abbrev AuditProperties := String → Option String

namespace AuditService

def headers : List String := ["id", "poolId", "eventType", "actorAddress", "targetId", "timestamp", "suiTxDigest"]

/-- `str.replace(/"/g, '""')`. -/
def doubleQuotes (str : String) : String := String.ofList (str.toList.flatMap fun c => if c = '"' then ['"', '"'] else [c])

def csvField (val : Option String) : String :=
  match val with
  | none => ""
  | some str => if ',' ∈ str.toList ∨ '"' ∈ str.toList then "\"" ++ doubleQuotes str ++ "\"" else str

def toCsv (events : List AuditProperties) : String :=
  if events.isEmpty then ""
  else
    let rows := events.map fun e => ",".intercalate (headers.map fun h => csvField (e h))
    "\n".intercalate (",".intercalate headers :: rows)

end AuditService

open AuditService

/-- The fields of a row, where null is the empty text. -/
def AuditProperties.fields (e : AuditProperties) : List String := headers.map fun h => (e h).getD ""

/-- A line break in the text, and nothing that puts quotes around it. -/
def Unquoted (str : String) : Prop := ('\r' ∈ str.toList ∨ '\n' ∈ str.toList) ∧ ¬ (',' ∈ str.toList ∨ '"' ∈ str.toList)

/-- What is read of a text, with its fields as strings. -/
def readCsv (text : String) : Option (List (List String)) := (Csv.parse text.toList).map (List.map (List.map String.ofList))

/-- How a field is put down, as a list of characters. -/
def writeField (field : List Char) : List Char := (csvField (some (String.ofList field))).toList

/-- A field with a comma or a quote is quoted. -/
theorem writeField_quoted {field : List Char} (h : ',' ∈ field ∨ '"' ∈ field) : writeField field = Csv.quote field := by
  unfold writeField csvField
  dsimp only
  rw [String.toList_ofList, if_pos h]
  simp only [String.toList_append, doubleQuotes, String.toList_ofList]
  rfl

/-- Every other field is written as it is. -/
theorem writeField_plain {field : List Char} (h : ¬ (',' ∈ field ∨ '"' ∈ field)) : writeField field = field := by
  unfold writeField csvField
  dsimp only
  rw [String.toList_ofList, if_neg h, String.toList_ofList]

/-- A field is put down as it should be, or a break is its first special character. -/
theorem writeField_writes (field : List Char) :
    Csv.Writes writeField field ∧ (Csv.Encodes (writeField field) field ↔ ¬ Unquoted (String.ofList field)) := by
  unfold Csv.Writes Unquoted
  rw [String.toList_ofList]
  by_cases hquoted : ',' ∈ field ∨ '"' ∈ field
  · have hencodes : Csv.Encodes (writeField field) field := by
      rw [writeField_quoted hquoted]
      exact .quoted field
    exact ⟨.inl hencodes, iff_of_true hencodes fun h => h.2 hquoted⟩
  · rw [writeField_plain hquoted]
    by_cases hbreak : '\r' ∈ field ∨ '\n' ∈ field
    · have hbreaks := Csv.breaks_of_mem (not_or.1 hquoted) hbreak
      exact ⟨.inr ⟨rfl, hbreaks⟩, iff_of_false hbreaks.not_encodes fun h => h ⟨hbreak, hquoted⟩⟩
    · have hencodes : Csv.Encodes field field := by
        refine .plain ?_
        rintro c hc (rfl | rfl | rfl | rfl)
        · exact hquoted (.inl hc)
        · exact hquoted (.inr hc)
        · exact hbreak (.inl hc)
        · exact hbreak (.inr hc)
      exact ⟨.inl hencodes, iff_of_true hencodes fun h => hbreak h.1⟩

/-- The rows of an export, the headers first. -/
def exported (events : List AuditProperties) : List (List String) := headers :: events.map AuditProperties.fields

/-- The text is the one of the headers and the rows. -/
theorem toList_toCsv {events : List AuditProperties} (hne : events ≠ []) :
    (toCsv events).toList = Csv.textOf writeField ((exported events).map (List.map String.toList)) := by
  have hheaders : ",".intercalate headers = ",".intercalate (headers.map fun h => csvField (some h)) := by decide +kernel
  have hfield : ∀ val : Option String, (csvField val).toList = writeField (val.getD "").toList := by
    intro val
    unfold writeField
    cases val with
    | none => rfl
    | some str => rw [Option.getD_some, String.ofList_toList]
  unfold toCsv
  rw [if_neg (by simpa using hne)]
  dsimp only
  rw [hheaders, String.toList_intercalate, Csv.textOf, exported]
  simp only [List.map_cons, List.map_map, String.toList_intercalate, Function.comp_def, AuditProperties.fields, hfield, Option.getD_some]
  rfl

/-- For every list of rows that is not empty: what is read of the export is the rows, exactly when no field has a line break without a comma or
a quote beside it. -/
theorem csv_roundtrip_iff {events : List AuditProperties} (hne : events ≠ []) :
    readCsv (toCsv events) = some (headers :: events.map AuditProperties.fields) ↔
      ∀ e ∈ events, ∀ h ∈ headers, ∀ str, e h = some str → ¬ Unquoted str := by
  have hread : readCsv (toCsv events) = some (headers :: events.map AuditProperties.fields) ↔
      Csv.parse (toCsv events).toList = some ((exported events).map (List.map String.toList)) := by
    have hback : (((exported events).map (List.map String.toList)).map (List.map String.ofList)) = exported events := by
      simp [List.map_map, Function.comp_def]
    have hinj : Function.Injective (Option.map (List.map (List.map String.ofList))) :=
      Option.map_injective (List.map_injective_iff.2 (List.map_injective_iff.2 fun _ _ h => String.ofList_injective h))
    rw [readCsv, ← hinj.eq_iff, Option.map_some, hback]
    rfl
  have hrow : ∀ row ∈ (exported events).map (List.map String.toList), 1 < row.length := by
    intro row hrow
    obtain ⟨fields, hfields, rfl⟩ := List.mem_map.1 hrow
    rw [List.length_map]
    rcases List.mem_cons.1 hfields with rfl | hfields
    · decide
    · obtain ⟨e, -, rfl⟩ := List.mem_map.1 hfields
      rw [AuditProperties.fields, List.length_map]
      decide
  rw [hread, toList_toCsv hne, Csv.parse_textOf_iff (fun _ _ f _ => (writeField_writes f).1) hrow (by simp [exported])]
  simp only [(writeField_writes _).2]
  constructor
  · intro h e he header hheader str hstr
    have hfield := h (e.fields.map String.toList) (List.mem_map_of_mem (List.mem_cons_of_mem _ (List.mem_map_of_mem he))) str.toList
      (List.mem_map_of_mem (List.mem_map.2 ⟨header, hheader, by rw [hstr, Option.getD_some]⟩))
    rwa [String.ofList_toList] at hfield
  · intro h row hrow f hf
    obtain ⟨fields, hfields, rfl⟩ := List.mem_map.1 hrow
    obtain ⟨str, hstr, rfl⟩ := List.mem_map.1 hf
    rw [String.ofList_toList]
    rcases List.mem_cons.1 hfields with rfl | hfields
    · have hheaders : ∀ str ∈ headers, ¬ Unquoted str := by
        unfold Unquoted
        decide +kernel
      exact hheaders str hstr
    · obtain ⟨e, he, rfl⟩ := List.mem_map.1 hfields
      obtain ⟨header, hheader, rfl⟩ := List.mem_map.1 hstr
      cases hval : e header with
      | none =>
        rintro ⟨hbreak, -⟩
        revert hbreak
        decide
      | some str => exact h e he header hheader str hval

namespace Sample

/-- A row with an event type of its own, and no target. -/
def auditRow (eventType : String) : AuditProperties
  | "id" => some "1"
  | "poolId" => some "p"
  | "eventType" => some eventType
  | "actorAddress" => some "0x7"
  | "timestamp" => some "Thu Mar 19 2026"
  | "suiTxDigest" => some "d"
  | _ => none

end Sample

/-- A field with a quote, a comma and a line break, and the text read back. -/
theorem csv_roundtrip_iff_sample :
    toCsv [Sample.auditRow "say \"hi\",\nall"] =
        "id,poolId,eventType,actorAddress,targetId,timestamp,suiTxDigest\n1,p,\"say \"\"hi\"\",\nall\",0x7,,Thu Mar 19 2026,d" ∧
      (readCsv (toCsv [Sample.auditRow "say \"hi\",\nall"]) = some [headers, (Sample.auditRow "say \"hi\",\nall").fields] ↔
        ∀ e ∈ [Sample.auditRow "say \"hi\",\nall"], ∀ h ∈ headers, ∀ str, e h = some str → ¬ Unquoted str) :=
  ⟨by decide +kernel, csv_roundtrip_iff (List.cons_ne_nil _ _)⟩

/-- A line feed alone: the row is read as two. -/
theorem line_feed_ends_row :
    readCsv (toCsv [Sample.auditRow "a\nb"]) = some [headers, ["1", "p", "a"], ["b", "0x7", "", "Thu Mar 19 2026", "d"]] ∧
      readCsv (toCsv [Sample.auditRow "a\nb"]) ≠ some (headers :: [Sample.auditRow "a\nb"].map AuditProperties.fields) := by
  decide +kernel

end BrineVault
