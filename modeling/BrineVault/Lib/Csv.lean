import BrineVault.Lib.Steps

/-!
# Comma-separated values

A reader for RFC 4180: records of fields, with quotes around a field that may hold anything. A record ends with CR LF, or with LF alone; a CR that
no LF follows is an error, and so is a quote in a field without quotes. The break after the last record may be left out.
-/

namespace Csv

open Steps (run run_cons_ok run_append_ok)

/-- Where the reader stands in a field, `closed` after a quote that ends it or is the first of two, and `cr` after a CR that ends the record. -/
inductive Mode where
  | start
  | plain
  | quoted
  | closed
  | cr
  deriving DecidableEq, Repr

/-- The records that are complete, the fields of the one that is read, and the field as far as it has been read. -/
structure Reader where
  records : List (List (List Char))
  fields : List (List Char)
  field : List Char
  mode : Mode
  deriving DecidableEq, Repr

namespace Reader

def endField (r : Reader) : Reader := { r with fields := r.fields ++ [r.field], field := [], mode := .start }

def endRecord (r : Reader) : Reader := { records := r.records ++ [r.fields ++ [r.field]], fields := [], field := [], mode := .start }

/-- A character outside of quotes. -/
def readOutside (r : Reader) (c : Char) : Reader :=
  if c = ',' then r.endField
  else if c = '\n' then r.endRecord
  else if c = '\r' then { r with mode := .cr }
  else { r with field := r.field ++ [c], mode := .plain }

def read (r : Reader) (c : Char) : Except Unit Reader :=
  match r.mode with
  | .start => .ok (if c = '"' then { r with mode := .quoted } else r.readOutside c)
  | .plain => if c = '"' then .error () else .ok (r.readOutside c)
  | .quoted => .ok (if c = '"' then { r with mode := .closed } else { r with field := r.field ++ [c] })
  | .closed =>
    if c = '"' then .ok { r with field := r.field ++ [c], mode := .quoted }
    else if c = ',' ∨ c = '\n' ∨ c = '\r' then .ok (r.readOutside c)
    else .error ()
  | .cr => if c = '\n' then .ok r.endRecord else .error ()

/-- The records, at the end of the text. After a break there is no further record. -/
def finish (r : Reader) : Option (List (List (List Char))) :=
  match r.mode with
  | .quoted | .cr => none
  | .start => if r.fields = [] then some r.records else some r.endRecord.records
  | .plain | .closed => some r.endRecord.records

end Reader

/-- The reader at the start of a text, after some records, or after some fields of the next record. -/
def fieldStart (records : List (List (List Char))) (fields : List (List Char)) : Reader := ⟨records, fields, [], .start⟩

def parse (text : List Char) : Option (List (List (List Char))) :=
  match run Reader.read (fieldStart [] []) text with
  | .ok r => r.finish
  | .error _ => none

/-- The character has a meaning outside of quotes. -/
def Special (c : Char) : Prop := c = ',' ∨ c = '"' ∨ c = '\r' ∨ c = '\n'

/-- The field in quotes, with its own quotes doubled. -/
def quote (field : List Char) : List Char := '"' :: (field.flatMap fun c => if c = '"' then ['"', '"'] else [c]) ++ ['"']

/-- The text stands for the field. -/
inductive Encodes : List Char → List Char → Prop where
  | plain {field : List Char} (h : ∀ c ∈ field, ¬ Special c) : Encodes field field
  | quoted (field : List Char) : Encodes (quote field) field

/-- A field is written as it is when it needs no quotes, and in quotes in any case. -/
theorem encodes_iff {text field : List Char} : Encodes text field ↔ (text = field ∧ ∀ c ∈ field, ¬ Special c) ∨ text = quote field := by
  constructor
  · intro h
    cases h with
    | plain h => exact .inl ⟨rfl, h⟩
    | quoted => exact .inr rfl
  · rintro (⟨rfl, h⟩ | rfl)
    · exact .plain h
    · exact .quoted field

/-- All that has been read is these records, and these fields of a record that a separator can follow. -/
structure Ends (r : Reader) (records : List (List (List Char))) (fields : List (List Char)) : Prop where
  records : r.records = records
  fields : r.fields ++ [r.field] = fields
  mode : (r.mode = .start ∧ r.field = []) ∨ r.mode = .plain ∨ r.mode = .closed

variable {r r' : Reader} {records : List (List (List Char))} {fields : List (List Char)} {field text : List Char}

/-- At the end of a field a separator is read as one outside quotes. -/
theorem Ends.read_outside (h : Ends r records fields) {c : Char} (hc : c = ',' ∨ c = '\n' ∨ c = '\r') :
    r.read c = .ok (r.readOutside c) := by
  have hquote : c ≠ '"' := by
    rintro rfl
    revert hc
    decide
  unfold Reader.read
  rcases h.mode with ⟨hm, -⟩ | hm | hm
  · rw [hm]
    exact congrArg _ (if_neg hquote)
  · rw [hm]
    exact if_neg hquote
  · rw [hm]
    dsimp only
    rw [if_neg hquote, if_pos hc]

/-- A comma begins the next field. -/
theorem Ends.read_comma (h : Ends r records fields) : r.read ',' = .ok (fieldStart records fields) := by
  rw [h.read_outside (by decide), ← h.records, ← h.fields]
  rfl

/-- A line feed ends the record. -/
theorem Ends.read_lf (h : Ends r records fields) : r.read '\n' = .ok (fieldStart (records ++ [fields]) []) := by
  rw [h.read_outside (by decide), ← h.records, ← h.fields]
  rfl

/-- A carriage return waits for the line feed. -/
theorem Ends.read_cr (h : Ends r records fields) : r.read '\r' = .ok { r with mode := .cr } := by
  rw [h.read_outside (by decide)]
  rfl

/-- A record of more than one field is not taken for the end of the text. -/
theorem Ends.finish (h : Ends r records fields) (hlen : 1 < fields.length) : r.finish = some (records ++ [fields]) := by
  have hfields : r.fields ≠ [] := by
    intro hnil
    rw [← h.fields, hnil, List.nil_append, List.length_singleton] at hlen
    omega
  have hrecords : r.endRecord.records = records ++ [fields] := by
    rw [← h.records, ← h.fields]
    rfl
  unfold Reader.finish
  rcases h.mode with ⟨hm, -⟩ | hm | hm
  · rw [hm]
    dsimp only
    rw [if_neg hfields, hrecords]
  · rw [hm, hrecords]
  · rw [hm, hrecords]

/-! ## What a writer has to put down -/

/-- A text without special characters is read as it is. -/
theorem run_plain (hplain : ∀ c ∈ text, ¬ Special c) (records : List (List (List Char))) (fields : List (List Char)) (field : List Char)
    {mode : Mode} (hmode : (mode = .start ∧ field = []) ∨ mode = .plain) :
    ∃ r, run Reader.read ⟨records, fields, field, mode⟩ text = .ok r ∧ Ends r records (fields ++ [field ++ text]) := by
  induction text generalizing field mode with
  | nil =>
    refine ⟨_, rfl, rfl, by rw [List.append_nil], ?_⟩
    rcases hmode with hm | hm
    · exact .inl hm
    · exact .inr (.inl hm)
  | cons c text ih =>
    have hc : ¬ Special c := hplain c (List.mem_cons_self ..)
    obtain ⟨hcomma, hquote, hcr, hlf⟩ : c ≠ ',' ∧ c ≠ '"' ∧ c ≠ '\r' ∧ c ≠ '\n' := by simpa [Special, not_or] using hc
    have hread : Reader.read ⟨records, fields, field, mode⟩ c = .ok ⟨records, fields, field ++ [c], .plain⟩ := by
      rcases hmode with ⟨rfl, -⟩ | rfl <;> simp [Reader.read, Reader.readOutside, hcomma, hquote, hcr, hlf]
    obtain ⟨r, hr, hends⟩ := ih (fun c hc => hplain c (List.mem_cons_of_mem _ hc)) (field ++ [c]) (.inr rfl)
    refine ⟨r, (run_cons_ok _).2 ⟨_, hread, hr⟩, ?_⟩
    rwa [List.append_assoc, List.singleton_append] at hends

/-- Between quotes every field is read, when its quotes are doubled. -/
theorem run_doubled (records : List (List (List Char))) (fields : List (List Char)) (field text : List Char) :
    run Reader.read ⟨records, fields, field, .quoted⟩ (text.flatMap fun c => if c = '"' then ['"', '"'] else [c]) =
      .ok ⟨records, fields, field ++ text, .quoted⟩ := by
  induction text generalizing field with
  | nil => rw [List.flatMap_nil, Steps.run_nil, List.append_nil]
  | cons c text ih =>
    have hchar : run Reader.read ⟨records, fields, field, .quoted⟩ (if c = '"' then ['"', '"'] else [c]) =
        .ok ⟨records, fields, field ++ [c], .quoted⟩ := by
      by_cases hc : c = '"'
      · subst hc
        rfl
      · rw [if_neg hc]
        refine (run_cons_ok _).2 ⟨_, ?_, rfl⟩
        simp [Reader.read, hc]
    rw [List.flatMap_cons]
    refine (run_append_ok _).2 ⟨_, hchar, ?_⟩
    rw [ih, List.append_assoc, List.singleton_append]

/-- The text of a field is read to its end, and the field is what it was. -/
theorem Encodes.run (h : Encodes text field) (records : List (List (List Char))) (fields : List (List Char)) :
    ∃ r, run Reader.read (fieldStart records fields) text = .ok r ∧ Ends r records (fields ++ [field]) := by
  cases h with
  | plain hplain => exact run_plain hplain records fields [] (.inl ⟨rfl, rfl⟩)
  | quoted =>
    refine ⟨⟨records, fields, field, .closed⟩, ?_, rfl, rfl, .inr (.inr rfl)⟩
    refine (run_cons_ok _).2 ⟨⟨records, fields, [], .quoted⟩, rfl, ?_⟩
    exact (run_append_ok _).2 ⟨_, run_doubled records fields [] field, rfl⟩

/-- A record: encoded fields, with commas between them. -/
theorem run_record {write : List Char → List Char} {row : List (List Char)} (h : ∀ f ∈ row, Encodes (write f) f) (hne : row ≠ [])
    (records : List (List (List Char))) (fields : List (List Char)) :
    ∃ r, run Reader.read (fieldStart records fields) ([','].intercalate (row.map write)) = .ok r ∧ Ends r records (fields ++ row) := by
  induction row generalizing fields with
  | nil => exact absurd rfl hne
  | cons field row ih =>
    obtain ⟨r, hr, hends⟩ := (h field (List.mem_cons_self ..)).run records fields
    cases row with
    | nil => exact ⟨r, by rwa [List.map_singleton, List.intercalate_singleton], hends⟩
    | cons field' row =>
      obtain ⟨r', hr', hends'⟩ := ih (fun f hf => h f (List.mem_cons_of_mem _ hf)) (List.cons_ne_nil _ _) (fields ++ [field])
      refine ⟨r', ?_, by rwa [List.append_assoc] at hends'⟩
      rw [List.map_cons, List.map_cons, List.intercalate_cons_cons, List.append_assoc]
      exact (run_append_ok _).2 ⟨r, hr, (run_cons_ok _).2 ⟨_, hends.read_comma, hr'⟩⟩

/-! ## What cannot be taken back -/

/-- What has been read stays read. -/
theorem records_prefix_read {c : Char} (h : r.read c = .ok r') : r.records <+: r'.records := by
  have houtside : r.records <+: (r.readOutside c).records := by
    unfold Reader.readOutside
    split
    · exact List.prefix_rfl
    · split
      · exact List.prefix_append _ _
      · split <;> exact List.prefix_rfl
  unfold Reader.read at h
  split at h
  · cases h
    split
    · exact List.prefix_rfl
    · exact houtside
  · split at h
    · cases h
    · cases h
      exact houtside
  · cases h
    split <;> exact List.prefix_rfl
  · split at h
    · cases h
      exact List.prefix_rfl
    · split at h
      · cases h
        exact houtside
      · cases h
  · split at h
    · cases h
      exact List.prefix_append _ _
    · cases h

/-- A record that has been read stays. -/
theorem records_prefix_run (h : run Reader.read r text = .ok r') : r.records <+: r'.records := by
  refine Steps.run_preserves Reader.read (P := fun s => r.records <+: s.records) ?_ h List.prefix_rfl
  intro m c t hm hs
  exact hm.trans (records_prefix_read hs)

/-- The end of the text takes no record away. -/
theorem records_prefix_finish {out : List (List (List Char))} (h : r.finish = some out) : r.records <+: out := by
  unfold Reader.finish at h
  split at h
  · cases h
  · cases h
  · split at h
    · cases h
      exact List.prefix_rfl
    · cases h
      exact List.prefix_append _ _
  · cases h
    exact List.prefix_append _ _
  · cases h
    exact List.prefix_append _ _

/-- A break outside of quotes ends the record, whatever comes after it. -/
theorem record_of_break {plain rest : List Char} {c : Char} {out : List (List (List Char))} (hplain : ∀ c ∈ plain, ¬ Special c)
    (hc : c = '\r' ∨ c = '\n') (hr : run Reader.read (fieldStart records fields) (plain ++ c :: rest) = .ok r) (hout : r.finish = some out) :
    records ++ [fields ++ [plain]] <+: out := by
  obtain ⟨m, hm, hrest⟩ := (run_append_ok _).1 hr
  obtain ⟨m', hm', hends⟩ := run_plain hplain records fields [] (.inl ⟨rfl, rfl⟩)
  obtain rfl : m' = m := Except.ok.inj (hm'.symm.trans hm)
  obtain ⟨n, hn, hrest⟩ := (run_cons_ok _).1 hrest
  rw [List.nil_append] at hends
  rcases hc with rfl | rfl
  · rw [hends.read_cr] at hn
    cases hn
    cases rest with
    | nil =>
      cases hrest
      cases hout
    | cons c rest =>
      obtain ⟨n, hn, hrest⟩ := (run_cons_ok _).1 hrest
      unfold Reader.read at hn
      dsimp only at hn
      split at hn
      · cases hn
        refine List.IsPrefix.trans ?_ ((records_prefix_run hrest).trans (records_prefix_finish hout))
        rw [← hends.records, ← hends.fields]
        exact List.prefix_rfl
      · cases hn
  · rw [hends.read_lf] at hn
    cases hn
    exact (records_prefix_run hrest).trans (records_prefix_finish hout)

/-! ## Writers that forget breaks -/

/-- The first character of the field with a meaning is a break. -/
def Breaks (field : List Char) : Prop :=
  ∃ (plain : List Char) (c : Char) (rest : List Char), field = plain ++ c :: rest ∧ (∀ c ∈ plain, ¬ Special c) ∧ (c = '\r' ∨ c = '\n')

/-- A field with a line break and nothing else to be quoted for is one that breaks a line. -/
theorem breaks_of_mem (hother : ',' ∉ field ∧ '"' ∉ field) (hbreak : '\r' ∈ field ∨ '\n' ∈ field) : Breaks field := by
  induction field with
  | nil => rcases hbreak with h | h <;> cases h
  | cons c field ih =>
    by_cases hc : c = '\r' ∨ c = '\n'
    · exact ⟨[], c, field, rfl, List.forall_mem_nil _, hc⟩
    · have hrest : '\r' ∈ field ∨ '\n' ∈ field := by
        refine hbreak.imp ?_ ?_
        · exact fun h => (List.mem_cons.1 h).resolve_left fun he => hc (.inl he.symm)
        · exact fun h => (List.mem_cons.1 h).resolve_left fun he => hc (.inr he.symm)
      obtain ⟨plain, b, rest, rfl, hplain, hb⟩ :=
        ih ⟨fun h => hother.1 (List.mem_cons_of_mem _ h), fun h => hother.2 (List.mem_cons_of_mem _ h)⟩ hrest
      refine ⟨c :: plain, b, rest, rfl, ?_, hb⟩
      intro d hd
      rcases List.mem_cons.1 hd with rfl | hd
      · rintro (rfl | rfl | hspecial)
        · exact hother.1 (List.mem_cons_self ..)
        · exact hother.2 (List.mem_cons_self ..)
        · exact hc hspecial
      · exact hplain d hd

/-- Quotes make a field longer. -/
theorem length_lt_quote (field : List Char) : field.length < (quote field).length := by
  have hle : field.length ≤ (field.flatMap fun c => if c = '"' then ['"', '"'] else [c]).length := by
    induction field with
    | nil => exact Nat.le_refl _
    | cons c field ih =>
      rw [List.flatMap_cons, List.length_append, List.length_cons]
      split
      · simp only [List.length_cons, List.length_nil]
        omega
      · rw [List.length_singleton]
        omega
  rw [quote, List.cons_append, List.length_cons, List.length_append]
  omega

/-- A field that is put down as it is with a break in it does not stand for itself. -/
theorem Breaks.not_encodes (h : Breaks field) : ¬ Encodes field field := by
  rw [encodes_iff]
  rintro (⟨-, hplain⟩ | hquote)
  · obtain ⟨plain, c, rest, rfl, -, hc⟩ := h
    have hc' : ¬ Special c := hplain c (by simp)
    rcases hc with rfl | rfl <;> exact hc' (by simp [Special])
  · have hlength := length_lt_quote field
    rw [← hquote] at hlength
    omega

section Write

variable {write : List Char → List Char} {row : List (List Char)} {rows : List (List (List Char))}

/-- A field is put down in quotes where it needs to be, or as it is although a break is its first special character. -/
def Writes (write : List Char → List Char) (field : List Char) : Prop := Encodes (write field) field ∨ (write field = field ∧ Breaks field)

/-- A record with a broken field is read as another one. -/
theorem record_of_broken (hwrite : ∀ f ∈ row, Writes write f) (hbroken : ∃ f ∈ row, ¬ Encodes (write f) f)
    {rest : List Char} {out : List (List (List Char))}
    (hr : run Reader.read (fieldStart records fields) ([','].intercalate (row.map write) ++ rest) = .ok r) (hout : r.finish = some out) :
    ∃ row', row' ≠ fields ++ row ∧ records ++ [row'] <+: out := by
  induction row generalizing fields with
  | nil =>
    obtain ⟨f, hf, -⟩ := hbroken
    cases hf
  | cons field row ih =>
    rcases hwrite field (List.mem_cons_self ..) with hencodes | ⟨hsame, hbreaks⟩
    · -- The field is read as it should be, and the broken one comes after it.
      obtain ⟨f, hf, hnot⟩ := hbroken
      have hf' : f ∈ row := by
        rcases List.mem_cons.1 hf with rfl | hf
        · exact absurd hencodes hnot
        · exact hf
      cases row with
      | nil => cases hf'
      | cons field' row =>
        rw [List.map_cons, List.map_cons, List.intercalate_cons_cons, List.append_assoc, List.append_assoc] at hr
        obtain ⟨m, hm, hr⟩ := (run_append_ok _).1 hr
        obtain ⟨m', hm', hends⟩ := hencodes.run records fields
        obtain rfl : m' = m := Except.ok.inj (hm'.symm.trans hm)
        obtain ⟨n, hn, hr⟩ := (run_cons_ok _).1 hr
        rw [hends.read_comma] at hn
        cases hn
        obtain ⟨row', hne, hprefix⟩ := ih (fun f hf => hwrite f (List.mem_cons_of_mem _ hf)) ⟨f, hf', hnot⟩ hr
        exact ⟨row', by rwa [List.append_assoc] at hne, hprefix⟩
    · obtain ⟨plain, c, tail, hfield, hplain, hc⟩ := hbreaks
      have htext : ∃ rest', [','].intercalate ((field :: row).map write) ++ rest = plain ++ c :: rest' := by
        rw [List.map_cons, hsame, hfield]
        cases row with
        | nil => exact ⟨tail ++ rest, by rw [List.map_nil, List.intercalate_singleton, List.append_assoc, List.cons_append]⟩
        | cons field' row =>
          refine ⟨tail ++ ([','] ++ [','].intercalate ((field' :: row).map write)) ++ rest, ?_⟩
          rw [List.map_cons, List.intercalate_cons_cons]
          simp only [List.append_assoc, List.cons_append]
      obtain ⟨rest', htext⟩ := htext
      rw [htext] at hr
      refine ⟨fields ++ [plain], ?_, record_of_break hplain hc hr hout⟩
      intro heq
      have hhead := List.append_cancel_left heq
      rw [List.cons.injEq, hfield] at hhead
      have hlength := congrArg List.length hhead.1
      rw [List.length_append, List.length_cons] at hlength
      omega

/-- The text of some records. -/
def textOf (write : List Char → List Char) (rows : List (List (List Char))) : List Char :=
  ['\n'].intercalate (rows.map fun row => [','].intercalate (row.map write))

/-- Records that are put down as they should be are read up to the last one. -/
theorem run_textOf (hencodes : ∀ row ∈ rows, ∀ f ∈ row, Encodes (write f) f) (hrows : ∀ row ∈ rows, row ≠ []) (hne : rows ≠ [])
    (records : List (List (List Char))) :
    ∃ r, run Reader.read (fieldStart records []) (textOf write rows) = .ok r ∧ Ends r (records ++ rows.dropLast) (rows.getLast hne) := by
  induction rows generalizing records with
  | nil => exact absurd rfl hne
  | cons row rows ih =>
    obtain ⟨r, hr, hends⟩ := run_record (hencodes row (List.mem_cons_self ..)) (hrows row (List.mem_cons_self ..)) records []
    rw [List.nil_append] at hends
    cases rows with
    | nil =>
      refine ⟨r, by rwa [textOf, List.map_singleton, List.intercalate_singleton], ?_⟩
      rwa [List.dropLast_singleton, List.append_nil, List.getLast_singleton]
    | cons row' rows =>
      obtain ⟨r', hr', hends'⟩ := ih (fun row h => hencodes row (List.mem_cons_of_mem _ h))
        (fun row h => hrows row (List.mem_cons_of_mem _ h)) (List.cons_ne_nil _ _) (records ++ [row])
      refine ⟨r', ?_, ?_⟩
      · rw [textOf, List.map_cons, List.map_cons, List.intercalate_cons_cons, List.append_assoc]
        exact (run_append_ok _).2 ⟨r, hr, (run_cons_ok _).2 ⟨_, hends.read_lf, hr'⟩⟩
      · rwa [List.append_assoc] at hends'

/-- Records of which one is broken are read as others. -/
theorem out_ne_of_broken (hwrite : ∀ row ∈ rows, ∀ f ∈ row, Writes write f) (hrows : ∀ row ∈ rows, row ≠ [])
    (hbroken : ∃ row ∈ rows, ∃ f ∈ row, ¬ Encodes (write f) f) {out : List (List (List Char))}
    (hr : run Reader.read (fieldStart records []) (textOf write rows) = .ok r) (hout : r.finish = some out) : out ≠ records ++ rows := by
  induction rows generalizing records with
  | nil =>
    obtain ⟨row, hrow, -⟩ := hbroken
    cases hrow
  | cons row rows ih =>
    by_cases hrow : ∃ f ∈ row, ¬ Encodes (write f) f
    · have htext : ∃ rest, textOf write (row :: rows) = [','].intercalate (row.map write) ++ rest := by
        cases rows with
        | nil => exact ⟨[], by rw [textOf, List.map_singleton, List.intercalate_singleton, List.append_nil]⟩
        | cons row' rows => exact ⟨_, by rw [textOf, List.map_cons, List.map_cons, List.intercalate_cons_cons, List.append_assoc]⟩
      obtain ⟨rest, htext⟩ := htext
      rw [htext] at hr
      obtain ⟨row', hne, hprefix⟩ := record_of_broken (hwrite row (List.mem_cons_self ..)) hrow hr hout
      rintro rfl
      rw [List.nil_append] at hne
      rw [List.prefix_append_right_inj] at hprefix
      obtain ⟨tail, htail⟩ := hprefix
      rw [List.singleton_append, List.cons.injEq] at htail
      exact hne htail.1
    · have hencodes : ∀ f ∈ row, Encodes (write f) f := by
        intro f hf
        by_contra hnot
        exact hrow ⟨f, hf, hnot⟩
      obtain ⟨row', hrow', hfield⟩ := hbroken
      have hlater : row' ∈ rows := by
        rcases List.mem_cons.1 hrow' with rfl | h
        · exact absurd hfield hrow
        · exact h
      cases rows with
      | nil => cases hlater
      | cons row'' rows =>
        rw [textOf, List.map_cons, List.map_cons, List.intercalate_cons_cons, List.append_assoc] at hr
        obtain ⟨m, hm, hr⟩ := (run_append_ok _).1 hr
        obtain ⟨m', hm', hends⟩ := run_record hencodes (hrows row (List.mem_cons_self ..)) records []
        obtain rfl : m' = m := Except.ok.inj (hm'.symm.trans hm)
        obtain ⟨n, hn, hr⟩ := (run_cons_ok _).1 hr
        rw [List.nil_append] at hends
        rw [hends.read_lf] at hn
        cases hn
        have hout' := ih (fun row h => hwrite row (List.mem_cons_of_mem _ h)) (fun row h => hrows row (List.mem_cons_of_mem _ h))
          ⟨row', hlater, hfield⟩ hr
        rwa [List.append_assoc] at hout'

/-- The text of records of several fields each is read as these records exactly when every field is put down as it should be. -/
theorem parse_textOf_iff (hwrite : ∀ row ∈ rows, ∀ f ∈ row, Writes write f) (hrows : ∀ row ∈ rows, 1 < row.length) (hne : rows ≠ []) :
    parse (textOf write rows) = some rows ↔ ∀ row ∈ rows, ∀ f ∈ row, Encodes (write f) f := by
  have hnonempty : ∀ row ∈ rows, row ≠ [] := by
    rintro row hrow rfl
    exact absurd (hrows [] hrow) (by decide)
  constructor
  · intro h row hrow f hf
    by_contra hnot
    unfold parse at h
    split at h
    · rename_i r hr
      exact out_ne_of_broken hwrite hnonempty ⟨row, hrow, f, hf, hnot⟩ hr h rfl
    · cases h
  · intro h
    obtain ⟨r, hr, hends⟩ := run_textOf h hnonempty hne []
    unfold parse
    rw [hr]
    dsimp only
    rw [hends.finish (hrows _ (List.getLast_mem hne)), List.nil_append, List.dropLast_append_getLast hne]

end Write

end Csv
