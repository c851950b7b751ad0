import ExportVault.Rfc4180

/-!
# CSV serialisation

`server/src/utils/csv.ts`, the hand-written writer, and `parseCsv` of
`scripts/auditLiveExport.mjs`, the repository's own parser.  What the writer
produces is an RFC 4180 file (`fileText_export`), and the parser returns the
records of every such file (`parseCsv_of_fileText`): together, decoding undoes
encoding (`parseCsv_export`).
-/

namespace ExportVault

open Rfc4180

def csvColumns : List String :=
  ["id", "external_id", "name", "email", "category", "amount", "status",
    "created_at", "updated_at"]

def csvHeaderLine : String :=
  ",".intercalate csvColumns

/-- A row as the writer sees it: the value of each column, `none` where it is
null or undefined. -/
abbrev CsvRecord := String → Option String

def escapeCsvField (value : Option String) : String :=
  match value with
  | none => ""
  | some str =>
      if str = "" then ""
      else if str.toList.any special then
        String.ofList ('"' :: (str.toList.flatMap double ++ ['"']))
      else str

def serializeCsvRow (row : CsvRecord) : String :=
  ",".intercalate (csvColumns.map fun column => escapeCsvField (row column))

def serializeCsvChunk (rows : List CsvRecord) : String :=
  if rows.length = 0 then ""
  else "\n".intercalate (rows.map serializeCsvRow) ++ "\n"

def csvHeader : String :=
  csvHeaderLine ++ "\n"

@[simp]
theorem serializeCsvChunk_nil : serializeCsvChunk [] = "" :=
  rfl

theorem serializeCsvChunk_cons (row : CsvRecord) (rows : List CsvRecord) :
    serializeCsvChunk (row :: rows) =
      serializeCsvRow row ++ "\n" ++ serializeCsvChunk rows := by
  cases rows with
  | nil => simp [serializeCsvChunk]
  | cons next rest =>
      simp [serializeCsvChunk, String.intercalate_cons_cons,
        String.append_assoc]

/-- Splitting rows into batches does not change the bytes. -/
theorem serializeCsvChunk_append (first second : List CsvRecord) :
    serializeCsvChunk (first ++ second) =
      serializeCsvChunk first ++ serializeCsvChunk second := by
  induction first with
  | nil => simp
  | cons row rows inductionHypothesis =>
      rw [List.cons_append, serializeCsvChunk_cons, serializeCsvChunk_cons,
        inductionHypothesis]
      simp only [String.append_assoc]

/-- The text of a column: null and undefined are written as the empty
string. -/
def fieldValue (row : CsvRecord) (column : String) : String :=
  (row column).getD ""

def csvFields (row : CsvRecord) : List String :=
  csvColumns.map (fieldValue row)

theorem fieldText_escapeCsvField (value : Option String) :
    FieldText (value.getD "") (escapeCsvField value).toList := by
  have emptyText : FieldText "" "".toList :=
    FieldText.bare (by simp)
  cases value with
  | none => exact emptyText
  | some str =>
      simp only [Option.getD_some, escapeCsvField]
      split
      · next isEmpty =>
          subst isEmpty
          exact emptyText
      · split
        · rw [String.toList_ofList]
          exact FieldText.quoted str
        · next noSpecial =>
            apply FieldText.bare
            simpa using noSpecial

theorem recordText_intercalate (fields : List (String × String))
    (nonempty : fields ≠ [])
    (written : ∀ entry ∈ fields, FieldText entry.1 entry.2.toList) :
    RecordText (fields.map Prod.fst)
      (",".intercalate (fields.map Prod.snd)).toList := by
  induction fields with
  | nil => exact absurd rfl nonempty
  | cons entry rest inductionHypothesis =>
      have entryText := written entry List.mem_cons_self
      cases rest with
      | nil =>
          simpa using RecordText.single entryText
      | cons next others =>
          have restText := inductionHypothesis (List.cons_ne_nil _ _)
            fun other member => written other (List.mem_cons_of_mem _ member)
          simp only [List.map_cons, String.intercalate_cons_cons,
            String.toList_append, List.append_assoc] at restText ⊢
          exact RecordText.cons entryText restText

theorem recordText_serializeCsvRow (row : CsvRecord) :
    RecordText (csvFields row) (serializeCsvRow row).toList := by
  have rendered := recordText_intercalate
    (csvColumns.map fun column =>
      (fieldValue row column, escapeCsvField (row column)))
    (by simp [csvColumns])
    (by
      intro entry member
      obtain ⟨column, _, rfl⟩ := List.mem_map.mp member
      exact fieldText_escapeCsvField (row column))
  simpa [csvFields, serializeCsvRow, Function.comp_def] using rendered

/-- No column name needs quoting. -/
theorem csvColumns_bare :
    ∀ column ∈ csvColumns, ∀ char ∈ column.toList, special char = false := by
  simp [csvColumns, special]

theorem recordText_csvHeaderLine :
    RecordText csvColumns csvHeaderLine.toList := by
  have rendered := recordText_intercalate
    (csvColumns.map fun column => (column, column))
    (by simp [csvColumns])
    (by
      intro entry member
      obtain ⟨column, columnMember, rfl⟩ := List.mem_map.mp member
      exact FieldText.bare (csvColumns_bare column columnMember))
  simpa [csvHeaderLine, Function.comp_def] using rendered

theorem fileText_serializeCsvChunk (rows : List CsvRecord) :
    FileText (rows.map csvFields) (serializeCsvChunk rows).toList := by
  induction rows with
  | nil => exact FileText.nil
  | cons row rows inductionHypothesis =>
      rw [serializeCsvChunk_cons, String.toList_append, String.toList_append,
        List.append_assoc]
      exact FileText.cons (recordText_serializeCsvRow row) inductionHypothesis

/-- The header followed by serialised rows is a file whose records are the
column names and the fields of the rows. -/
theorem fileText_export (rows : List CsvRecord) :
    FileText (csvColumns :: rows.map csvFields)
      (csvHeader ++ serializeCsvChunk rows).toList := by
  rw [csvHeader, String.toList_append, String.toList_append,
    List.append_assoc]
  exact FileText.cons recordText_csvHeaderLine
    (fileText_serializeCsvChunk rows)

/-! ## The audit parser -/

/-- The variables of `parseCsv`.  `skip` says that the index has already moved
past the current character: the second quote of a doubled one. -/
structure ParseState where
  rows : List (List String) := []
  row : List String := []
  field : String := ""
  inQuotes : Bool := false
  skip : Bool := false
  deriving DecidableEq, Repr

/-- The loop of `parseCsv` over the characters. -/
def parseCsvLoop : List Char → ParseState → ParseState
  | [], state => state
  | char :: rest, state =>
      if state.skip then
        parseCsvLoop rest { state with skip := false }
      else if state.inQuotes then
        if char = '"' then
          if rest.head? = some '"' then
            parseCsvLoop rest
              { state with field := state.field.push '"', skip := true }
          else
            parseCsvLoop rest { state with inQuotes := false }
        else
          parseCsvLoop rest { state with field := state.field.push char }
      else if char = '"' then
        parseCsvLoop rest { state with inQuotes := true }
      else if char = ',' then
        parseCsvLoop rest
          { state with row := state.row ++ [state.field], field := "" }
      else if char = '\n' then
        parseCsvLoop rest
          { state with
            rows := state.rows ++ [state.row ++ [state.field]]
            row := []
            field := "" }
      else if char ≠ '\r' then
        parseCsvLoop rest { state with field := state.field.push char }
      else parseCsvLoop rest state

/-- A last record without a line feed still counts. -/
def parseCsv (text : String) : List (List String) :=
  let state := parseCsvLoop text.toList {}
  if state.field ≠ "" ∨ state.row.length > 0 then
    state.rows ++ [state.row ++ [state.field]]
  else state.rows

section Parser

variable {rows : List (List String)} {row : List String} {field : String}

theorem parseCsvLoop_bare (text rest : List Char)
    (bare : ∀ char ∈ text, special char = false) :
    parseCsvLoop (text ++ rest) ⟨rows, row, field, false, false⟩ =
      parseCsvLoop rest ⟨rows, row, field ++ String.ofList text, false, false⟩ := by
  induction text generalizing field with
  | nil => simp
  | cons char text inductionHypothesis =>
      have charBare := bare char List.mem_cons_self
      simp only [special, Bool.or_eq_false_iff, decide_eq_false_iff_not] at charBare
      obtain ⟨⟨⟨notQuote, notComma⟩, notReturn⟩, notNewline⟩ := charBare
      have step :
          parseCsvLoop (char :: (text ++ rest)) ⟨rows, row, field, false, false⟩ =
            parseCsvLoop (text ++ rest)
              ⟨rows, row, field.push char, false, false⟩ := by
        rw [parseCsvLoop]
        simp [notQuote, notComma, notReturn, notNewline]
      rw [List.cons_append, step, inductionHypothesis
        (fun other member => bare other (List.mem_cons_of_mem _ member))]
      congr 2
      apply String.toList_inj.mp
      simp

theorem parseCsvLoop_quoted (text rest : List Char)
    (closed : rest.head? ≠ some '"') :
    parseCsvLoop (text.flatMap double ++ '"' :: rest)
        ⟨rows, row, field, true, false⟩ =
      parseCsvLoop rest ⟨rows, row, field ++ String.ofList text, false, false⟩ := by
  induction text generalizing field with
  | nil =>
      rw [List.flatMap_nil, List.nil_append, parseCsvLoop]
      simp [closed]
  | cons char text inductionHypothesis =>
      have step :
          parseCsvLoop
              (double char ++ (text.flatMap double ++ '"' :: rest))
              ⟨rows, row, field, true, false⟩ =
            parseCsvLoop (text.flatMap double ++ '"' :: rest)
              ⟨rows, row, field.push char, true, false⟩ := by
        by_cases isQuote : char = '"'
        · subst isQuote
          rw [double, if_pos rfl]
          simp only [List.cons_append, List.nil_append, parseCsvLoop,
            List.head?_cons, Bool.false_eq_true, if_true, if_false]
        · rw [double, if_neg isQuote]
          simp only [List.cons_append, List.nil_append]
          rw [parseCsvLoop]
          simp [isQuote]
      rw [List.flatMap_cons, List.append_assoc, step, inductionHypothesis]
      congr 2
      apply String.toList_inj.mp
      simp

theorem parseCsvLoop_fieldText {text : List Char} (rest : List Char)
    (written : FieldText field text) (closed : rest.head? ≠ some '"') :
    parseCsvLoop (text ++ rest) ⟨rows, row, "", false, false⟩ =
      parseCsvLoop rest ⟨rows, row, field, false, false⟩ := by
  cases written with
  | bare noSpecial =>
      rw [parseCsvLoop_bare _ _ noSpecial]
      simp
  | quoted =>
      have opening :
          parseCsvLoop
              ('"' :: (field.toList.flatMap double ++ '"' :: rest))
              ⟨rows, row, "", false, false⟩ =
            parseCsvLoop (field.toList.flatMap double ++ '"' :: rest)
              ⟨rows, row, "", true, false⟩ := by
        rw [parseCsvLoop]
        simp
      simp only [List.cons_append, List.append_assoc, List.nil_append]
      rw [opening, parseCsvLoop_quoted _ _ closed]
      simp

theorem parseCsvLoop_recordText {record : List String} {text : List Char}
    (rest : List Char) (written : RecordText record text) :
    parseCsvLoop (text ++ '\n' :: rest) ⟨rows, row, "", false, false⟩ =
      parseCsvLoop rest ⟨rows ++ [row ++ record], [], "", false, false⟩ := by
  induction written generalizing row with
  | @single field text fieldText =>
      rw [parseCsvLoop_fieldText _ fieldText (by simp), parseCsvLoop]
      simp
  | @cons field fields text fieldsText fieldText _ inductionHypothesis =>
      rw [List.append_assoc, List.cons_append,
        parseCsvLoop_fieldText _ fieldText (by simp), parseCsvLoop]
      simp only [Bool.false_eq_true, if_false, if_true, Char.reduceEq]
      rw [inductionHypothesis, List.append_assoc, List.singleton_append]

theorem parseCsvLoop_fileText {records : List (List String)}
    {text : List Char} (written : FileText records text) :
    parseCsvLoop text ⟨rows, [], "", false, false⟩ =
      ⟨rows ++ records, [], "", false, false⟩ := by
  induction written generalizing rows with
  | nil => rw [parseCsvLoop, List.append_nil]
  | cons recordText _ inductionHypothesis =>
      rw [parseCsvLoop_recordText _ recordText, inductionHypothesis]
      simp

end Parser

/-- The parser returns the records of every RFC 4180 file. -/
theorem parseCsv_of_fileText {records : List (List String)} {text : String}
    (written : FileText records text.toList) : parseCsv text = records := by
  simp [parseCsv, parseCsvLoop_fileText written]

def textRow (row : String → String) : CsvRecord := fun column =>
  some (row column)

/-- Chunk boundaries leave no trace in the text. -/
theorem join_serializeCsvChunk (batches : List (List CsvRecord)) :
    String.join (batches.map serializeCsvChunk) =
      serializeCsvChunk batches.flatten := by
  induction batches with
  | nil => rfl
  | cons batch batches inductionHypothesis =>
      rw [List.map_cons, String.join_cons, inductionHypothesis,
        List.flatten_cons, serializeCsvChunk_append]

/-- However the rows are split into batches, the header followed by the chunks
is read back as the column names and the nine fields of each row. -/
theorem parseCsv_export (batches : List (List (String → String))) :
    parseCsv (csvHeader ++ String.join
        (batches.map fun batch => serializeCsvChunk (batch.map textRow))) =
      csvColumns :: batches.flatten.map fun row => csvColumns.map row := by
  have sameChunks :
      (batches.map fun batch => serializeCsvChunk (batch.map textRow)) =
        (batches.map (List.map textRow)).map serializeCsvChunk := by
    rw [List.map_map]
    rfl
  rw [sameChunks, join_serializeCsvChunk, ← List.map_flatten,
    parseCsv_of_fileText (fileText_export _), List.map_map]
  rfl

end ExportVault
