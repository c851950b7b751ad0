import ExportVault.Jobs
import ExportVault.Storage

/-!
# Verification

The counters and the verdict of `verifyExportFile` in
`server/src/services/exportVerification.service.ts`.  The parser of the
`csv-parse` package is a parameter; `ParsesRfc4180` is what the program relies
on.  A file the writer produced from rows with rising ids passes
(`verify_export_passes`).
-/

namespace ExportVault

/-- The local variables of the pass over the records of a file. -/
structure VerifyState where
  seenIds : List String := []
  actualRows : Nat := 0
  duplicates : Nat := 0
  outOfSnapshot : Nat := 0
  headerValid : Bool := false
  strictlyAscending : Bool := true
  previousId : Option Int := none
  minId : Option Int := none
  maxId : Option Int := none
  rowIndex : Nat := 0
  malformedRows : Nat := 0
  deriving DecidableEq, Repr

def VerifyState.countId (snapshotMaxId idValue : Int) (state : VerifyState) :
    VerifyState :=
  { state with
    outOfSnapshot :=
      if snapshotMaxId < idValue then state.outOfSnapshot + 1
      else state.outOfSnapshot
    strictlyAscending :=
      match state.previousId with
      | some previousId =>
          if idValue ≤ previousId then false else state.strictlyAscending
      | none => state.strictlyAscending
    previousId := some idValue
    minId :=
      match state.minId with
      | some minId => if idValue < minId then some idValue else some minId
      | none => some idValue
    maxId :=
      match state.maxId with
      | some maxId => if maxId < idValue then some idValue else some maxId
      | none => some idValue }

/-- One turn of the loop over the parsed records. -/
def verifyRow (snapshotMaxId : Int) (state : VerifyState)
    (row : List String) : VerifyState :=
  if state.rowIndex = 0 then
    { state with
      headerValid :=
        decide (row.length = csvColumns.length) &&
          (csvColumns.zip row).all fun entry => entry.2 = entry.1
      rowIndex := state.rowIndex + 1 }
  else
    let state := { state with rowIndex := state.rowIndex + 1 }
    if row.length ≠ csvColumns.length then
      { state with malformedRows := state.malformedRows + 1 }
    else
      let idText := row.head?.getD ""
      let state := { state with actualRows := state.actualRows + 1 }
      let state :=
        if state.seenIds.contains idText then
          { state with duplicates := state.duplicates + 1 }
        else { state with seenIds := idText :: state.seenIds }
      match bigInt idText with
      | none => { state with malformedRows := state.malformedRows + 1 }
      | some idValue => state.countId snapshotMaxId idValue

/-- The whole pass. -/
def verifyRecords (snapshotMaxId : Int) (records : List (List String)) :
    VerifyState :=
  records.foldl (verifyRow snapshotMaxId) {}

structure VerificationResult where
  expectedRows : Int
  actualRows : Int
  uniqueRows : Int
  duplicates : Int
  minId : Option Int
  maxId : Option Int
  outOfSnapshot : Int
  headerValid : Bool
  strictlyAscending : Bool
  fileBytes : Int
  sha256 : String
  passed : Bool
  failureReason : Option String
  deriving DecidableEq, Repr

/-- What is wrong with a file, in the words of the program. -/
def verificationProblems (expectedRows snapshotMaxId fileBytes : Int)
    (state : VerifyState) : List String :=
  let uniqueRows := state.seenIds.length
  let report := fun (wrong : Bool) (problem : String) =>
    if wrong then [problem] else []
  report (!state.headerValid)
      ("header row is not exactly \"" ++ ",".intercalate csvColumns ++ "\"") ++
    report (decide ((state.actualRows : Int) ≠ expectedRows))
      ("expected " ++ toString expectedRows ++ " data rows, found " ++
        toString state.actualRows) ++
    report (decide ((uniqueRows : Int) ≠ expectedRows))
      ("expected " ++ toString expectedRows ++ " unique ids, found " ++
        toString uniqueRows) ++
    report (decide (state.duplicates ≠ 0))
      (toString state.duplicates ++ " duplicate id(s) present") ++
    report (decide (state.outOfSnapshot ≠ 0))
      (toString state.outOfSnapshot ++ " row(s) exceed snapshot boundary " ++
        toString snapshotMaxId) ++
    report (!state.strictlyAscending)
      "ids are not strictly ascending (keyset ordering violated)" ++
    report (decide (state.malformedRows ≠ 0))
      (toString state.malformedRows ++ " malformed row(s)") ++
    report (decide (fileBytes ≤ 0)) "file is empty"

/-- The verdict on the counters. -/
def verificationResult (expectedRows snapshotMaxId fileBytes : Int)
    (sha256 : String) (state : VerifyState) : VerificationResult :=
  let problems := verificationProblems expectedRows snapshotMaxId fileBytes
    state
  let passed := problems.isEmpty
  { expectedRows := expectedRows
    actualRows := state.actualRows
    uniqueRows := state.seenIds.length
    duplicates := state.duplicates
    minId := state.minId
    maxId := state.maxId
    outOfSnapshot := state.outOfSnapshot
    headerValid := state.headerValid
    strictlyAscending := state.strictlyAscending
    fileBytes := fileBytes
    sha256 := sha256
    passed := passed
    failureReason :=
      if passed then none else some ("; ".intercalate problems) }

/-- The `BIGINT` columns of the verification row hold the result. -/
def VerificationResult.storable (result : VerificationResult) : Bool :=
  (match result.minId with
    | some minId => decide (isBigInt minId)
    | none => true) &&
  (match result.maxId with
    | some maxId => decide (isBigInt maxId)
    | none => true)

/-- A `csv-parse` parser: the records of a file, or an error. -/
abbrev CsvParser := Bytes → Except AppError (List (List String))

/-- Documented behaviour of `csv-parse` with `bom: true` and
`relaxColumnCount: false`: a file of LF-terminated RFC 4180 records, all of
one width and without a byte order mark, yields its records. -/
def ParsesRfc4180 (parse : CsvParser) : Prop :=
  ∀ (records : List (List String)) (text : String) (width : Nat),
    Rfc4180.FileText records text.toList →
    (∀ record ∈ records, record.length = width) →
    text.toList.head? ≠ some (Char.ofNat 65279) →
    parse (utf8 text) = .ok records

def exportBytes (rows : List RawRecordRow) : Bytes :=
  utf8 (csvHeader ++ serializeBatch (rows.map normaliseRecord))

theorem countId_of_larger {snapshotMaxId idValue : Int} (state : VerifyState)
    (within : idValue ≤ snapshotMaxId)
    (larger : ∀ previousId ∈ state.previousId, previousId < idValue) :
    (state.countId snapshotMaxId idValue).outOfSnapshot =
        state.outOfSnapshot ∧
      (state.countId snapshotMaxId idValue).strictlyAscending =
        state.strictlyAscending := by
  refine ⟨if_neg (not_lt.mpr within), ?_⟩
  simp only [VerifyState.countId]
  cases previousEq : state.previousId with
  | none => rfl
  | some previousId =>
      exact if_neg (not_le.mpr (larger previousId (by simp [previousEq])))

/-- What the pass knows after the rows `done` of a correct file. -/
structure VerifiedRows (snapshotMaxId : Int) (done : List RawRecordRow)
    (state : VerifyState) : Prop where
  header : state.headerValid = true
  ascending : state.strictlyAscending = true
  counted : state.actualRows = done.length
  seen : state.seenIds = (done.map fun row => toString row.id).reverse
  noDuplicates : state.duplicates = 0
  withinSnapshot : state.outOfSnapshot = 0
  wellFormed : state.malformedRows = 0
  started : state.rowIndex ≠ 0
  previous : state.previousId = done.getLast?.map RawRecordRow.id
  minStored : ∀ minId ∈ state.minId, ∃ row ∈ done, row.id = minId
  maxStored : ∀ maxId ∈ state.maxId, ∃ row ∈ done, row.id = maxId

theorem toString_int_injective {first second : Int}
    (same : toString first = toString second) : first = second := by
  have read := congrArg bigInt same
  rwa [bigInt_toString, bigInt_toString, Option.some.injEq] at read

theorem verifyRow_correct {snapshotMaxId : Int} {done : List RawRecordRow}
    {row : RawRecordRow} {state : VerifyState}
    (ascending : Keyset.Ascending RawRecordRow.id (done ++ [row]))
    (within : row.id ≤ snapshotMaxId)
    (verified : VerifiedRows snapshotMaxId done state) :
    VerifiedRows snapshotMaxId (done ++ [row])
      (verifyRow snapshotMaxId state
        (csvFields (normaliseRecord row).toCsvRecord)) := by
  have below : ∀ earlier ∈ done, earlier.id < row.id :=
    fun earlier member => (List.pairwise_append.mp ascending).2.2 earlier
      member row (List.mem_singleton.mpr rfl)
  have unseen : state.seenIds.contains (toString row.id) = false := by
    rw [verified.seen, ← Bool.not_eq_true]
    intro seenBefore
    simp only [List.contains_eq_mem, List.mem_reverse, List.mem_map,
      decide_eq_true_eq] at seenBefore
    obtain ⟨earlier, member, same⟩ := seenBefore
    exact absurd (toString_int_injective same) (ne_of_lt (below _ member))
  have larger : ∀ previousId ∈ state.previousId, previousId < row.id := by
    intro previousId member
    rw [verified.previous] at member
    obtain ⟨earlier, lastEq, rfl⟩ := Option.map_eq_some_iff.mp member
    exact below earlier (List.mem_of_getLast? lastEq)
  obtain ⟨sameOutOfSnapshot, sameAscending⟩ := countId_of_larger
    { state with
      rowIndex := state.rowIndex + 1
      actualRows := state.actualRows + 1
      seenIds := toString row.id :: state.seenIds } within larger
  have turn :
      verifyRow snapshotMaxId state
          (csvFields (normaliseRecord row).toCsvRecord) =
        VerifyState.countId snapshotMaxId row.id
          { state with
            rowIndex := state.rowIndex + 1
            actualRows := state.actualRows + 1
            seenIds := toString row.id :: state.seenIds } := by
    rw [verifyRow, if_neg verified.started]
    simp only [length_csvFields, csvFields_normaliseRecord_head, unseen,
      bigInt_toString, ne_eq, not_true_eq_false, if_false, Option.getD_some,
      Bool.false_eq_true]
  rw [turn]
  exact
    { header := verified.header
      ascending := sameAscending.trans verified.ascending
      counted := by
        simp [VerifyState.countId, verified.counted]
      seen := by
        simp [VerifyState.countId, verified.seen]
      noDuplicates := verified.noDuplicates
      withinSnapshot := sameOutOfSnapshot.trans verified.withinSnapshot
      wellFormed := verified.wellFormed
      started := Nat.succ_ne_zero _
      previous := by simp [VerifyState.countId]
      minStored := by
        intro minId member
        simp only [VerifyState.countId] at member
        split at member
        · next oldMin oldEq =>
            split at member
            · exact ⟨row, by simp, Option.some.inj member⟩
            · obtain ⟨earlier, earlierMember, earlierEq⟩ :=
                verified.minStored minId (oldEq.trans member)
              exact ⟨earlier, by simp [earlierMember], earlierEq⟩
        · exact ⟨row, by simp, Option.some.inj member⟩
      maxStored := by
        intro maxId member
        simp only [VerifyState.countId] at member
        split at member
        · next oldMax oldEq =>
            split at member
            · exact ⟨row, by simp, Option.some.inj member⟩
            · obtain ⟨earlier, earlierMember, earlierEq⟩ :=
                verified.maxStored maxId (oldEq.trans member)
              exact ⟨earlier, by simp [earlierMember], earlierEq⟩
        · exact ⟨row, by simp, Option.some.inj member⟩ }

theorem foldl_verifyRow_correct {snapshotMaxId : Int}
    (done : List RawRecordRow) {rest : List RawRecordRow}
    {state : VerifyState}
    (ascending : Keyset.Ascending RawRecordRow.id (done ++ rest))
    (within : ∀ row ∈ rest, row.id ≤ snapshotMaxId)
    (verified : VerifiedRows snapshotMaxId done state) :
    VerifiedRows snapshotMaxId (done ++ rest)
      ((rest.map fun row => csvFields (normaliseRecord row).toCsvRecord).foldl
        (verifyRow snapshotMaxId) state) := by
  induction rest generalizing done state with
  | nil => simpa using verified
  | cons row rest inductionHypothesis =>
      have regroup : done ++ row :: rest = (done ++ [row]) ++ rest := by simp
      rw [regroup] at ascending ⊢
      rw [List.map_cons, List.foldl_cons]
      apply inductionHypothesis _ ascending
        fun other member => within other (List.mem_cons_of_mem _ member)
      exact verifyRow_correct (List.pairwise_append.mp ascending).1
        (within row List.mem_cons_self) verified

def exportRecords (rows : List RawRecordRow) : List (List String) :=
  csvColumns ::
    rows.map fun row => csvFields (normaliseRecord row).toCsvRecord

theorem verifyRecords_exportRecords {snapshotMaxId : Int}
    {rows : List RawRecordRow}
    (ascending : Keyset.Ascending RawRecordRow.id rows)
    (within : ∀ row ∈ rows, row.id ≤ snapshotMaxId) :
    VerifiedRows snapshotMaxId rows
      (verifyRecords snapshotMaxId (exportRecords rows)) := by
  have header : VerifiedRows snapshotMaxId []
      (verifyRow snapshotMaxId {} csvColumns) :=
    { header := rfl
      ascending := rfl
      counted := rfl
      seen := rfl
      noDuplicates := rfl
      withinSnapshot := rfl
      wellFormed := rfl
      started := Nat.succ_ne_zero _
      previous := rfl
      minStored := fun _ member => absurd member (Option.not_mem_none _)
      maxStored := fun _ member => absurd member (Option.not_mem_none _) }
  exact foldl_verifyRow_correct [] ascending within header

theorem exportBytes_eq (rows : List RawRecordRow) :
    exportBytes rows =
      utf8 (csvHeader ++ serializeCsvChunk
        (rows.map fun row => (normaliseRecord row).toCsvRecord)) := by
  simp [exportBytes, serializeBatch, Function.comp_def]

/-- `csv-parse` reads back the records of an export. -/
theorem ParsesRfc4180.exportBytes {parse : CsvParser}
    (parses : ParsesRfc4180 parse) (rows : List RawRecordRow) :
    parse (exportBytes rows) = .ok (exportRecords rows) := by
  rw [exportBytes_eq]
  have written := fileText_export
    (rows.map fun row => (normaliseRecord row).toCsvRecord)
  have sameRecords :
      csvColumns ::
          (rows.map fun row => (normaliseRecord row).toCsvRecord).map
            csvFields =
        exportRecords rows := by
    simp [exportRecords, Function.comp_def]
  rw [sameRecords] at written
  refine parses _ _ csvColumns.length written ?_ ?_
  · intro record member
    rcases List.mem_cons.mp member with rfl | inRows
    · rfl
    · obtain ⟨row, _, rfl⟩ := List.mem_map.mp inRows
      exact length_csvFields _
  · have header : csvHeader.toList.head? = some 'i' := by decide
    rw [String.toList_append, List.head?_append, header]
    intro byteOrderMark
    exact absurd (Option.some.inj byteOrderMark) (by decide)

theorem exportBytes_size_pos (rows : List RawRecordRow) :
    0 < (exportBytes rows).size := by
  rw [exportBytes, utf8_append, ByteArray.size_append]
  have header : 0 < (utf8 csvHeader).size := by decide
  omega

/-- A file the writer produced passes, and its verification row can be
stored. -/
theorem verify_export_passes {snapshotMaxId fileBytes : Int}
    {rows : List RawRecordRow} (sha256 : String)
    (ascending : Keyset.Ascending RawRecordRow.id rows)
    (within : ∀ row ∈ rows, row.id ≤ snapshotMaxId)
    (bigint : ∀ row ∈ rows, isBigInt row.id) (positive : 0 < fileBytes) :
    (verificationResult rows.length snapshotMaxId fileBytes sha256
        (verifyRecords snapshotMaxId (exportRecords rows))).passed = true ∧
      (verificationResult rows.length snapshotMaxId fileBytes sha256
        (verifyRecords snapshotMaxId (exportRecords rows))).storable =
          true := by
  have verified := verifyRecords_exportRecords ascending within
  generalize verifyRecords snapshotMaxId (exportRecords rows) = state
    at verified
  constructor
  · simp [verificationResult, verificationProblems, verified.header,
      verified.ascending, verified.counted, verified.seen,
      verified.noDuplicates, verified.withinSnapshot, verified.wellFormed,
      positive]
  · simp only [VerificationResult.storable, verificationResult,
      Bool.and_eq_true]
    constructor
    · split
      · next minId minEq =>
          obtain ⟨row, member, rfl⟩ := verified.minStored minId minEq
          exact decide_eq_true (bigint row member)
      · rfl
    · split
      · next maxId maxEq =>
          obtain ⟨row, member, rfl⟩ := verified.maxStored maxId maxEq
          exact decide_eq_true (bigint row member)
      · rfl

/-- A parser for files in UTF-8 without a byte order mark. -/
def readCsv : CsvParser := fun body =>
  match String.fromUTF8? body with
  | some text => .ok (parseCsv text)
  | none => .error ⟨"Invalid UTF-8", 500, "INTERNAL_ERROR", none⟩

theorem parsesRfc4180_readCsv : ParsesRfc4180 readCsv := by
  intro records text width written _ _
  have decoded : String.fromUTF8? (utf8 text) = some text := by
    have valid : text.toByteArray.IsValidUTF8 := text.isValidUTF8
    simp only [utf8, String.fromUTF8?, String.toUTF8_eq_toByteArray,
      dif_pos valid]
    rfl
  rw [readCsv, decoded]
  exact congrArg Except.ok (parseCsv_of_fileText written)

end ExportVault
