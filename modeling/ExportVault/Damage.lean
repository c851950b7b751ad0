import ExportVault.Gate

/-!
# Damaged files

The verifier on what the writer wrote, and on the same file with rows removed,
repeated, appended, reordered or renumbered.  A file of rows passes exactly
when it has as many rows as expected and their ids rise up to the boundary
(`readableFile_written_iff`); each kind of damage breaks one of the two.
-/

namespace ExportVault

def writtenFile (batches : List (List ExportableRow)) : Bytes :=
  utf8 (csvHeader ++ String.join (batches.map serializeBatch))

def writtenRecords (rows : List ExportableRow) : List (List String) :=
  csvColumns :: rows.map fun row => csvFields row.toCsvRecord

/-- Rows as the writer gets them: their ids are the numerals of positive
integers that rise strictly up to the boundary. -/
structure WriterRows (snapshotMaxId : Int) (rows : List ExportableRow)
    (ids : List Int) : Prop where
  canonical : List.Forall₂ (fun row id => Canonical row.id id) rows ids
  within : ∀ id ∈ ids, id ≤ snapshotMaxId
  rising : ids.Pairwise (· < ·)

/-- What can happen to the rows of a file. -/
inductive Damaged (snapshotMaxId : Int) (rows : List ExportableRow) :
    List ExportableRow → Prop
  | removed {left : List ExportableRow} :
      left.Sublist rows → left.length < rows.length →
      Damaged snapshotMaxId rows left
  | repeated {more : List ExportableRow} :
      rows.Sublist more → (∀ row ∈ more, row ∈ rows) →
      rows.length < more.length → Damaged snapshotMaxId rows more
  | appended {extra : List ExportableRow} :
      extra ≠ [] → Damaged snapshotMaxId rows (rows ++ extra)
  | permuted {moved : List ExportableRow} :
      moved.Perm rows → moved ≠ rows → Damaged snapshotMaxId rows moved
  | renumbered {before after : List ExportableRow} {row : ExportableRow}
      {id : Int} :
      rows = before ++ row :: after → snapshotMaxId < id →
      Damaged snapshotMaxId rows
        (before ++ { row with id := toString id } :: after)

variable {snapshotMaxId expectedRows : Int} {rows : List ExportableRow}
variable {batches : List (List ExportableRow)} {ids : List Int}

/-- Batch boundaries leave no trace in the file. -/
theorem writtenFile_eq (batches : List (List ExportableRow)) :
    writtenFile batches = utf8 (csvHeader ++ serializeCsvChunk
      (batches.flatten.map ExportableRow.toCsvRecord)) := by
  have sameChunks : batches.map serializeBatch =
      (batches.map (List.map ExportableRow.toCsvRecord)).map
        serializeCsvChunk := by
    rw [List.map_map]
    rfl
  rw [writtenFile, sameChunks, join_serializeCsvChunk, ← List.map_flatten]

/-- `csv-parse` reads back the nine fields of every row. -/
theorem ParsesRfc4180.writtenFile {parse : CsvParser}
    (parses : ParsesRfc4180 parse) (batches : List (List ExportableRow)) :
    parse (writtenFile batches) = .ok (writtenRecords batches.flatten) := by
  rw [writtenFile_eq]
  have written := fileText_export
    (batches.flatten.map ExportableRow.toCsvRecord)
  have sameRecords :
      csvColumns :: (batches.flatten.map ExportableRow.toCsvRecord).map
          csvFields =
        writtenRecords batches.flatten := by
    rw [writtenRecords, List.map_map]
    rfl
  rw [sameRecords] at written
  refine parses _ _ csvColumns.length written ?_ ?_
  · intro record member
    rcases List.mem_cons.mp member with rfl | inRows
    · rfl
    · obtain ⟨row, _, rfl⟩ := List.mem_map.mp inRows
      exact length_csvFields _
  · have header : csvHeader.toList.head? = some 'i' := by decide
    rw [String.toList_append, List.head?_append, header]
    intro byteOrderMark
    exact absurd (Option.some.inj byteOrderMark) (by decide)

@[simp]
theorem idText_written (row : ExportableRow) :
    idText (csvFields row.toCsvRecord) = row.id :=
  rfl

structure ReadRows (snapshotMaxId : Int) (rows : List ExportableRow)
    (ids : List Int) : Prop where
  read : List.Forall₂ (fun row id => bigInt row.id = some id) rows ids
  within : ∀ id ∈ ids, id ≤ snapshotMaxId
  rising : ids.Pairwise (· < ·)

theorem WriterRows.readRows (written : WriterRows snapshotMaxId rows ids) :
    ReadRows snapshotMaxId rows ids where
  read := written.canonical.imp fun row id canonical => by
    rw [canonical.2, bigInt_toString]
  within := written.within
  rising := written.rising

/-- A file of rows is readable when it has as many rows as expected and the
ids rise, and only then. -/
theorem readableFile_written_iff :
    ReadableFile expectedRows snapshotMaxId (writtenRecords rows) ↔
      (rows.length : Int) = expectedRows ∧
        ∃ ids, ReadRows snapshotMaxId rows ids := by
  have fields : ∀ ids : List Int,
      List.Forall₂ (fun row id => row.length = csvColumns.length ∧
          bigInt (idText row) = some id ∧ id ≤ snapshotMaxId)
        (rows.map fun row => csvFields row.toCsvRecord) ids ↔
      List.Forall₂ (fun row id => bigInt row.id = some id) rows ids ∧
        ∀ id ∈ ids, id ≤ snapshotMaxId := by
    intro ids
    rw [List.forall₂_map_left_iff]
    constructor
    · intro read
      induction read with
      | nil => exact ⟨.nil, fun _ none => absurd none List.not_mem_nil⟩
      | cons field _ inductionHypothesis =>
          exact ⟨.cons field.2.1 inductionHypothesis.1,
            List.forall_mem_cons.mpr ⟨field.2.2, inductionHypothesis.2⟩⟩
    · rintro ⟨read, within⟩
      induction read with
      | nil => exact .nil
      | cons field _ inductionHypothesis =>
          obtain ⟨below, others⟩ := List.forall_mem_cons.mp within
          exact .cons ⟨length_csvFields _, field, below⟩
            (inductionHypothesis others)
  constructor
  · rintro ⟨others, ids, split, count, read, rising⟩
    obtain rfl := (List.cons.inj split).2
    obtain ⟨read, within⟩ := (fields ids).mp read
    exact ⟨by simpa using count, ids, read, within, rising⟩
  · rintro ⟨count, ids, read, within, rising⟩
    exact ⟨_, ids, rfl, by simpa using count, (fields ids).mpr ⟨read, within⟩,
      rising⟩

/-- The verdict on a file of rows. -/
theorem passed_written_iff {env : Env} (parses : ParsesRfc4180 env.csvParse)
    (expectedRows snapshotMaxId : Int)
    (batches : List (List ExportableRow)) :
    (verificationResult expectedRows snapshotMaxId (writtenFile batches).size
        (env.sha256 (writtenFile batches))
        (verifyRecords snapshotMaxId (writtenRecords batches.flatten))).passed
          = true ↔
      (batches.flatten.length : Int) = expectedRows ∧
        ∃ ids, ReadRows snapshotMaxId batches.flatten ids := by
  rw [passed_iff_fileOf (parses.size_pos (parses.writtenFile batches)),
    readableFile_written_iff]

/-- The ids that the verifier reads are those of the rows. -/
theorem readIds_written
    (read : List.Forall₂ (fun row id => bigInt row.id = some id) rows ids) :
    readIds (writtenRecords rows) = ids := by
  rw [readIds, writtenRecords, List.tail_cons]
  induction read with
  | nil => rfl
  | @cons row id rest ids field _ inductionHypothesis =>
      have first : readId (csvFields row.toCsvRecord) = some id := by
        rw [readId, if_pos (length_csvFields _), idText_written, field]
      rw [List.map_cons, List.filterMap_cons, first]
      exact congrArg (List.cons id) inductionHypothesis

/-- The extremes of rising ids are the first and the last. -/
theorem Extremes.ends {state : VerifyState} (extremes : Extremes ids state)
    (rising : ids.Pairwise (· < ·)) :
    state.minId = ids.head? ∧ state.maxId = ids.getLast? := by
  rcases List.eq_nil_or_concat ids with rfl | ⟨front, last, rfl⟩
  · have noMin : state.minId = none := by
      rw [Option.eq_none_iff_forall_not_mem]
      exact fun id member => List.not_mem_nil (extremes.minRead id member)
    have noMax : state.maxId = none := by
      rw [Option.eq_none_iff_forall_not_mem]
      exact fun id member => List.not_mem_nil (extremes.maxRead id member)
    exact ⟨noMin, noMax⟩
  · rw [List.concat_eq_append] at extremes rising ⊢
    constructor
    · obtain ⟨first, rest, cons⟩ :=
        List.exists_cons_of_ne_nil (List.append_ne_nil_of_right_ne_nil front
          (List.cons_ne_nil last []))
      rw [cons] at extremes rising ⊢
      obtain ⟨minId, minEq, below⟩ :=
        extremes.minimal first List.mem_cons_self
      rcases List.mem_cons.mp (extremes.minRead minId minEq) with
        rfl | later
      · exact minEq
      · exact absurd ((List.pairwise_cons.mp rising).1 minId later)
          (not_lt.mpr below)
    · obtain ⟨maxId, maxEq, above⟩ := extremes.maximal last (by simp)
      rw [List.getLast?_append, List.getLast?_singleton, Option.some_or]
      rcases List.mem_append.mp (extremes.maxRead maxId maxEq) with
        earlier | isLast
      · exact absurd ((List.pairwise_append.mp rising).2.2 maxId earlier last
          (List.mem_singleton.mpr rfl)) (not_lt.mpr above)
      · exact (List.mem_singleton.mp isLast) ▸ maxEq

/-- What the verifier reports about the rows of the writer. -/
structure Accepted (ids : List Int) (result : VerificationResult) : Prop where
  passed : result.passed = true
  actualRows : result.actualRows = ids.length
  uniqueRows : result.uniqueRows = ids.length
  duplicates : result.duplicates = 0
  outOfSnapshot : result.outOfSnapshot = 0
  minId : result.minId = ids.head?
  maxId : result.maxId = ids.getLast?

/-- A file that passes reports its rows. -/
theorem accepted_of_passed {fileBytes : Int} {sha256 : String}
    (readRows : ReadRows snapshotMaxId rows ids)
    (passed : (verificationResult ids.length snapshotMaxId fileBytes sha256
      (verifyRecords snapshotMaxId (writtenRecords rows))).passed = true) :
    Accepted ids (verificationResult ids.length snapshotMaxId fileBytes sha256
      (verifyRecords snapshotMaxId (writtenRecords rows))) := by
  obtain ⟨_, actual, unique, clean, _⟩ := passed_iff.mp passed
  have extremes := extremes_verifyRecords snapshotMaxId (writtenRecords rows)
  rw [readIds_written readRows.read] at extremes
  obtain ⟨first, last⟩ := extremes.ends readRows.rising
  exact
    { passed := passed
      actualRows := actual
      uniqueRows := unique
      duplicates := congrArg Int.ofNat clean.duplicates
      outOfSnapshot := congrArg Int.ofNat clean.outOfSnapshot
      minId := first
      maxId := last }

def ReadsBelow (row next : ExportableRow) : Prop :=
  ∃ id nextId, bigInt row.id = some id ∧ bigInt next.id = some nextId ∧
    id < nextId

theorem ReadsBelow.asymm {row next : ExportableRow}
    (below : ReadsBelow row next) : ¬ ReadsBelow next row := by
  rintro ⟨nextId, id, nextRead, read, above⟩
  obtain ⟨_, _, readBefore, nextReadBefore, smaller⟩ := below
  obtain rfl := Option.some.inj (read.symm.trans readBefore)
  obtain rfl := Option.some.inj (nextRead.symm.trans nextReadBefore)
  exact lt_asymm smaller above

/-- Every row has one of the ids. -/
theorem exists_id_of_mem
    (read : List.Forall₂ (fun row id => bigInt row.id = some id) rows ids) :
    ∀ row ∈ rows, ∃ id ∈ ids, bigInt row.id = some id := by
  induction read with
  | nil => exact fun _ none => absurd none List.not_mem_nil
  | cons field _ inductionHypothesis =>
      refine List.forall_mem_cons.mpr
        ⟨⟨_, List.mem_cons_self, field⟩, fun row member => ?_⟩
      obtain ⟨id, inIds, rowRead⟩ := inductionHypothesis row member
      exact ⟨id, List.mem_cons_of_mem _ inIds, rowRead⟩

theorem ReadRows.pairwise (readRows : ReadRows snapshotMaxId rows ids) :
    rows.Pairwise ReadsBelow := by
  obtain ⟨read, within, rising⟩ := readRows
  clear within
  induction read with
  | nil => exact .nil
  | cons field fields inductionHypothesis =>
      obtain ⟨below, rising⟩ := List.pairwise_cons.mp rising
      refine List.pairwise_cons.mpr ⟨fun next member => ?_,
        inductionHypothesis rising⟩
      obtain ⟨nextId, inIds, nextRead⟩ := exists_id_of_mem fields next member
      exact ⟨_, nextId, field, nextRead, below nextId inIds⟩

/-- Damaged rows are not as many as before, or their ids do not rise up to
the boundary. -/
theorem Damaged.not_readRows {damagedRows : List ExportableRow}
    (damaged : Damaged snapshotMaxId rows damagedRows)
    (readRows : ReadRows snapshotMaxId rows ids)
    (same : damagedRows.length = rows.length) {damagedIds : List Int} :
    ¬ ReadRows snapshotMaxId damagedRows damagedIds := by
  intro damagedRead
  cases damaged with
  | removed _ fewer => exact absurd same (ne_of_lt fewer)
  | repeated _ _ more => exact absurd same (ne_of_gt more)
  | appended nonempty =>
      rw [List.length_append] at same
      exact nonempty (List.length_eq_zero_iff.mp (by omega))
  | permuted moved different =>
      -- The only order in which the ids rise is the one of the writer.
      exact different (moved.eq_of_pairwise
        (fun _ _ _ _ below above => absurd above below.asymm)
        damagedRead.pairwise readRows.pairwise)
  | @renumbered before after row id _ beyond =>
      obtain ⟨readId, inIds, read⟩ := exists_id_of_mem damagedRead.read
        { row with id := toString id } (by simp)
      rw [bigInt_toString] at read
      obtain rfl := Option.some.inj read
      exact absurd (damagedRead.within _ inIds) (not_le.mpr beyond)

/-- The verifier accepts what the writer writes, with the right counts and
extremes, in any batch split; and it notices every kind of damage. -/
theorem verifier_notices_damage {env : Env}
    (parses : ParsesRfc4180 env.csvParse)
    (written : WriterRows snapshotMaxId batches.flatten ids) :
    (∃ result,
      verifyBody env ids.length snapshotMaxId (writtenFile batches).size
          (writtenFile batches) = .ok result ∧
        Accepted ids result) ∧
      ∀ damagedBatches : List (List ExportableRow),
        Damaged snapshotMaxId batches.flatten damagedBatches.flatten →
        ∃ result,
          verifyBody env ids.length snapshotMaxId
              (writtenFile damagedBatches).size
              (writtenFile damagedBatches) = .ok result ∧
            result.passed = false := by
  have readRows := written.readRows
  have count : batches.flatten.length = ids.length := readRows.read.length_eq
  constructor
  · refine ⟨_, by rw [verifyBody, parses.writtenFile], ?_⟩
    apply accepted_of_passed readRows
    rw [passed_written_iff parses]
    exact ⟨congrArg Int.ofNat count, ids, readRows⟩
  · intro damagedBatches damaged
    refine ⟨_, by rw [verifyBody, parses.writtenFile], ?_⟩
    rw [← Bool.not_eq_true, passed_written_iff parses]
    rintro ⟨same, damagedIds, damagedRead⟩
    have sameLength : damagedBatches.flatten.length =
        batches.flatten.length := by
      omega
    exact damaged.not_readRows readRows sameLength damagedRead

def twoBatches : List (List ExportableRow) :=
  [[normaliseRecord (smallRecord 1)], [normaliseRecord (smallRecord 2)]]

theorem verifier_notices_damage_twoBatches :
    (∃ result,
      verifyBody smallEnv 2 2 (writtenFile twoBatches).size
          (writtenFile twoBatches) = .ok result ∧
        Accepted [1, 2] result) ∧
      ∃ result,
        verifyBody smallEnv 2 2 (writtenFile twoBatches.reverse).size
            (writtenFile twoBatches.reverse) = .ok result ∧
          result.passed = false := by
  have written : WriterRows 2 twoBatches.flatten [1, 2] :=
    { canonical := .cons ⟨by decide, rfl⟩ (.cons ⟨by decide, rfl⟩ .nil)
      within := by decide
      rising := by decide }
  have parses : ParsesRfc4180 smallEnv.csvParse := parsesRfc4180_readCsv
  obtain ⟨accepted, damage⟩ := verifier_notices_damage parses written
  refine ⟨accepted, damage _ (.permuted ?_ ?_)⟩
  · exact .swap _ _ []
  · decide

end ExportVault
