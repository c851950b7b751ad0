import ExportVault.System

/-!
# What the verifier accepts

The counters of `verifyExportFile` together say that the header is right and
that the ids, as `BigInt` reads them, rise strictly up to the boundary
(`passed_iff_fileOf`).  `BigInt` reads more texts than the numerals of the
positive integers: the empty one, blanks around a number, signs, leading zeros
and other bases.  The verdict is the intended one exactly when no otherwise
right file has such an id (`verdict_iff`).
-/

namespace ExportVault

def idText (row : List String) : String :=
  row.head?.getD ""

/-- The first record is the header, the others are the expected number of rows
with ids that are read to strictly rising integers up to the boundary. -/
def FileOf (reads : String → Int → Prop) (expectedRows snapshotMaxId : Int)
    (records : List (List String)) : Prop :=
  ∃ rows ids, records = csvColumns :: rows ∧
    (rows.length : Int) = expectedRows ∧
    List.Forall₂ (fun row id => row.length = csvColumns.length ∧
      reads (idText row) id ∧ id ≤ snapshotMaxId) rows ids ∧
    ids.Pairwise (· < ·)

/-- The text is the canonical decimal numeral of a positive integer. -/
def Canonical (text : String) (id : Int) : Prop :=
  1 ≤ id ∧ text = toString id

abbrev ValidFile : Int → Int → List (List String) → Prop :=
  FileOf Canonical

/-- A file that is right when `BigInt` reads its ids. -/
abbrev ReadableFile : Int → Int → List (List String) → Prop :=
  FileOf fun text id => bigInt text = some id

variable {snapshotMaxId expectedRows : Int} {records : List (List String)}

theorem FileOf.mono {reads weaker : String → Int → Prop}
    (weaken : ∀ {text id}, reads text id → weaker text id)
    (file : FileOf reads expectedRows snapshotMaxId records) :
    FileOf weaker expectedRows snapshotMaxId records := by
  obtain ⟨rows, ids, split, count, fields, rising⟩ := file
  exact ⟨rows, ids, split, count,
    fields.imp fun _ _ field => ⟨field.1, weaken field.2.1, field.2.2⟩,
    rising⟩

theorem ReadableFile.of_valid
    (valid : ValidFile expectedRows snapshotMaxId records) :
    ReadableFile expectedRows snapshotMaxId records := by
  refine valid.mono ?_
  rintro text id ⟨_, rfl⟩
  exact bigInt_toString id

/-- No counter speaks against the rows so far. -/
structure Clean (state : VerifyState) : Prop where
  duplicates : state.duplicates = 0
  outOfSnapshot : state.outOfSnapshot = 0
  ascending : state.strictlyAscending = true
  malformedRows : state.malformedRows = 0

/-- The row has nine fields and an id within the boundary that is larger than
the one before. -/
structure Follows (snapshotMaxId : Int) (previousId : Option Int)
    (row : List String) (id : Int) : Prop where
  fields : row.length = csvColumns.length
  read : bigInt (idText row) = some id
  within : id ≤ snapshotMaxId
  larger : ∀ previous ∈ previousId, previous < id

/-- The ids that were seen read as integers up to the last one. -/
structure Tidy (state : VerifyState) : Prop where
  started : state.rowIndex ≠ 0
  seen : ∀ text ∈ state.seenIds, ∃ id previousId,
    bigInt text = some id ∧ state.previousId = some previousId ∧
      id ≤ previousId
  counted : state.seenIds.length = state.actualRows

variable {state : VerifyState} {row : List String} {id : Int}

/-- The state of the pass after a row with nine fields, before its id is
read. -/
def VerifyState.seeRow (state : VerifyState) (row : List String) :
    VerifyState :=
  if state.seenIds.contains (idText row) then
    { state with
      rowIndex := state.rowIndex + 1
      actualRows := state.actualRows + 1
      duplicates := state.duplicates + 1 }
  else
    { state with
      rowIndex := state.rowIndex + 1
      actualRows := state.actualRows + 1
      seenIds := idText row :: state.seenIds }

theorem verifyRow_of_started (started : state.rowIndex ≠ 0)
    (fields : row.length = csvColumns.length) :
    verifyRow snapshotMaxId state row =
      match bigInt (idText row) with
      | none =>
          { state.seeRow row with
            malformedRows := (state.seeRow row).malformedRows + 1 }
      | some id => (state.seeRow row).countId snapshotMaxId id := by
  rw [verifyRow, if_neg started]
  simp only [fields, ne_eq, not_true_eq_false, if_false]
  rfl

theorem clean_countId :
    Clean (state.countId snapshotMaxId id) ↔
      Clean state ∧ id ≤ snapshotMaxId ∧
        ∀ previous ∈ state.previousId, previous < id := by
  constructor
  · rintro ⟨duplicates, outOfSnapshot, ascending, malformedRows⟩
    simp only [VerifyState.countId] at outOfSnapshot ascending
    split at outOfSnapshot
    · cases outOfSnapshot
    · next within =>
        refine ⟨⟨duplicates, outOfSnapshot, ?_, malformedRows⟩,
          not_lt.mp within, ?_⟩
        · revert ascending
          split
          · split
            · intro impossible
              cases impossible
            · exact fun same => same
          · exact fun same => same
        · intro previous member
          rw [Option.mem_def] at member
          simp only [member] at ascending
          split at ascending
          · cases ascending
          · next larger => exact not_le.mp larger
  · rintro ⟨clean, within, larger⟩
    obtain ⟨sameOutOfSnapshot, sameAscending⟩ :=
      countId_of_larger state within larger
    exact ⟨clean.duplicates, sameOutOfSnapshot.trans clean.outOfSnapshot,
      sameAscending.trans clean.ascending, clean.malformedRows⟩

theorem clean_seeRow :
    Clean (state.seeRow row) ↔
      Clean state ∧ state.seenIds.contains (idText row) = false := by
  cases seen : state.seenIds.contains (idText row) with
  | true =>
      simp only [VerifyState.seeRow, seen, if_true]
      constructor
      · rintro ⟨duplicates, _, _, _⟩
        cases duplicates
      · rintro ⟨_, impossible⟩
        cases impossible
  | false =>
      simp only [VerifyState.seeRow, seen, Bool.false_eq_true, if_false]
      exact ⟨fun clean => ⟨⟨clean.1, clean.2, clean.3, clean.4⟩, trivial⟩,
        fun clean => ⟨clean.1.1, clean.1.2, clean.1.3, clean.1.4⟩⟩

@[simp]
theorem previousId_seeRow :
    (state.seeRow row).previousId = state.previousId := by
  rw [VerifyState.seeRow]
  split <;> rfl

/-- The counters stay clean at a row that follows, with an id not seen
before, and only there. -/
theorem clean_verifyRow (started : state.rowIndex ≠ 0) :
    Clean (verifyRow snapshotMaxId state row) ↔
      Clean state ∧ state.seenIds.contains (idText row) = false ∧
        ∃ id, Follows snapshotMaxId state.previousId row id := by
  by_cases fields : row.length = csvColumns.length
  · rw [verifyRow_of_started started fields]
    cases read : bigInt (idText row) with
    | none =>
        constructor
        · rintro ⟨_, _, _, malformedRows⟩
          cases malformedRows
        · rintro ⟨_, _, id, follows⟩
          rw [follows.read] at read
          cases read
    | some id =>
        simp only [clean_countId, clean_seeRow, previousId_seeRow]
        constructor
        · rintro ⟨⟨clean, unseen⟩, within, larger⟩
          exact ⟨clean, unseen, id, fields, read, within, larger⟩
        · rintro ⟨clean, unseen, other, follows⟩
          obtain rfl := Option.some.inj (follows.read.symm.trans read)
          exact ⟨⟨clean, unseen⟩, follows.within, follows.larger⟩
  · constructor
    · intro clean
      have malformedRows := clean.malformedRows
      rw [verifyRow, if_neg started] at malformedRows
      simp [fields] at malformedRows
    · rintro ⟨_, _, id, follows⟩
      exact absurd follows.fields fields

/-- An id larger than the ones before has not been seen. -/
theorem Tidy.unseen (tidy : Tidy state)
    (follows : Follows snapshotMaxId state.previousId row id) :
    state.seenIds.contains (idText row) = false := by
  rw [← Bool.not_eq_true]
  intro seenBefore
  obtain ⟨value, previousId, read, previousEq, below⟩ :=
    tidy.seen _ (by simpa using seenBefore)
  obtain rfl := Option.some.inj (follows.read.symm.trans read)
  exact absurd below (not_le.mpr (follows.larger _ previousEq))

/-- What a row that follows adds. -/
theorem Tidy.verifyRow (tidy : Tidy state)
    (follows : Follows snapshotMaxId state.previousId row id) :
    Tidy (verifyRow snapshotMaxId state row) ∧
      (verifyRow snapshotMaxId state row).previousId = some id ∧
      (verifyRow snapshotMaxId state row).headerValid = state.headerValid ∧
      (verifyRow snapshotMaxId state row).actualRows =
        state.actualRows + 1 := by
  rw [verifyRow_of_started tidy.started follows.fields, follows.read]
  have fresh : state.seeRow row =
      { state with
        rowIndex := state.rowIndex + 1
        actualRows := state.actualRows + 1
        seenIds := idText row :: state.seenIds } := by
    rw [VerifyState.seeRow, tidy.unseen follows]
    rfl
  rw [fresh]
  refine ⟨⟨Nat.succ_ne_zero _, ?_, congrArg Nat.succ tidy.counted⟩, rfl, rfl,
    rfl⟩
  intro text member
  rcases List.mem_cons.mp member with rfl | before
  · exact ⟨id, id, follows.read, rfl, le_refl id⟩
  · obtain ⟨value, previousId, read, previousEq, below⟩ :=
      tidy.seen text before
    exact ⟨value, id, read, rfl,
      le_of_lt (lt_of_le_of_lt below (follows.larger _ previousEq))⟩

def FollowAll (snapshotMaxId : Int) :
    Option Int → List (List String) → Prop
  | _, [] => True
  | previousId, row :: rest =>
      ∃ id, Follows snapshotMaxId previousId row id ∧
        FollowAll snapshotMaxId (some id) rest

theorem started_verifyRow :
    (verifyRow snapshotMaxId state row).rowIndex ≠ 0 := by
  rw [verifyRow]
  split
  · exact Nat.succ_ne_zero _
  · split
    · exact Nat.succ_ne_zero _
    · dsimp only
      repeat' split
      all_goals exact Nat.succ_ne_zero _

/-- Once a counter speaks against the file, it stays that way. -/
theorem clean_of_foldl {rows : List (List String)}
    (started : state.rowIndex ≠ 0)
    (clean : Clean (rows.foldl (verifyRow snapshotMaxId) state)) :
    Clean state := by
  induction rows generalizing state with
  | nil => exact clean
  | cons row rest inductionHypothesis =>
      exact ((clean_verifyRow started).mp
        (inductionHypothesis started_verifyRow clean)).1

/-- The counters are clean after the rows exactly when each of them
follows. -/
theorem clean_foldl {rows : List (List String)} (tidy : Tidy state)
    (cleanBefore : Clean state) :
    Clean (rows.foldl (verifyRow snapshotMaxId) state) ↔
      FollowAll snapshotMaxId state.previousId rows := by
  induction rows generalizing state with
  | nil => exact ⟨fun _ => trivial, fun _ => cleanBefore⟩
  | cons row rest inductionHypothesis =>
      rw [List.foldl_cons]
      have next : ∀ id, Follows snapshotMaxId state.previousId row id →
          (Clean (rest.foldl (verifyRow snapshotMaxId)
              (verifyRow snapshotMaxId state row)) ↔
            FollowAll snapshotMaxId (some id) rest) := by
        intro id follows
        obtain ⟨tidyAfter, previousEq, _, _⟩ := tidy.verifyRow follows
        rw [inductionHypothesis tidyAfter ((clean_verifyRow
          tidy.started).mpr ⟨cleanBefore, tidy.unseen follows, id, follows⟩),
          previousEq]
      constructor
      · intro clean
        obtain ⟨_, _, id, follows⟩ := (clean_verifyRow tidy.started).mp
          (clean_of_foldl started_verifyRow clean)
        exact ⟨id, follows, (next id follows).mp clean⟩
      · rintro ⟨id, follows, others⟩
        exact (next id follows).mpr others

/-- Rows that follow are all counted, under the header they came with. -/
theorem counted_foldl {rows : List (List String)} (tidy : Tidy state)
    (follow : FollowAll snapshotMaxId state.previousId rows) :
    (rows.foldl (verifyRow snapshotMaxId) state).headerValid =
        state.headerValid ∧
      (rows.foldl (verifyRow snapshotMaxId) state).actualRows =
        state.actualRows + rows.length ∧
      (rows.foldl (verifyRow snapshotMaxId) state).seenIds.length =
        state.actualRows + rows.length := by
  induction rows generalizing state with
  | nil => exact ⟨rfl, rfl, tidy.counted⟩
  | cons row rest inductionHypothesis =>
      obtain ⟨id, follows, others⟩ := follow
      obtain ⟨tidyAfter, previousEq, header, count⟩ := tidy.verifyRow follows
      obtain ⟨sameHeader, rows, unique⟩ :=
        inductionHypothesis tidyAfter (by rwa [previousEq])
      rw [List.foldl_cons]
      refine ⟨sameHeader.trans header, ?_, ?_⟩
      · rw [rows, count, List.length_cons]
        omega
      · rw [unique, count, List.length_cons]
        omega

/-- Rows follow one another exactly when they have nine fields and their ids
rise. -/
theorem followAll_iff {previousId : Option Int} {rows : List (List String)} :
    FollowAll snapshotMaxId previousId rows ↔
      ∃ ids, List.Forall₂ (fun row id => row.length = csvColumns.length ∧
          bigInt (idText row) = some id ∧ id ≤ snapshotMaxId) rows ids ∧
        (∀ previous ∈ previousId, ∀ id ∈ ids, previous < id) ∧
        ids.Pairwise (· < ·) := by
  induction rows generalizing previousId with
  | nil =>
      simp only [FollowAll, List.forall₂_nil_left_iff, true_iff]
      exact ⟨[], rfl, fun _ _ _ none => absurd none List.not_mem_nil, .nil⟩
  | cons row rest inductionHypothesis =>
      simp only [FollowAll, inductionHypothesis]
      constructor
      · rintro ⟨id, follows, ids, fields, above, rising⟩
        refine ⟨id :: ids, .cons ⟨follows.fields, follows.read,
          follows.within⟩ fields, fun previous member => ?_,
          List.pairwise_cons.mpr ⟨above id rfl, rising⟩⟩
        rintro other inIds
        have larger := follows.larger previous member
        rcases List.mem_cons.mp inIds with rfl | later
        · exact larger
        · exact lt_trans larger (above id rfl other later)
      · rintro ⟨_, fields, above, rising⟩
        cases fields with
        | @cons _ id _ ids field fields =>
            obtain ⟨below, rising⟩ := List.pairwise_cons.mp rising
            refine ⟨id, ⟨field.1, field.2.1, field.2.2, fun previous member =>
              above previous member id List.mem_cons_self⟩, ids, fields, ?_,
              rising⟩
            rintro previous member
            obtain rfl := Option.some.inj member
            exact below

/-- The verdict passes when the header is right, the rows are as many as
expected, none is a duplicate and no counter speaks against them. -/
theorem passed_iff {fileBytes : Int} {sha256 : String} :
    (verificationResult expectedRows snapshotMaxId fileBytes sha256
        state).passed = true ↔
      state.headerValid = true ∧ (state.actualRows : Int) = expectedRows ∧
        (state.seenIds.length : Int) = expectedRows ∧ Clean state ∧
        0 < fileBytes := by
  have silent : ∀ {wrong : Bool} {problem : String},
      (if wrong = true then [problem] else []) = [] ↔ wrong = false := by
    intro wrong problem
    cases wrong <;> simp
  simp only [verificationResult, verificationProblems, List.isEmpty_iff,
    List.append_eq_nil_iff, silent, Bool.not_eq_false',
    decide_eq_false_iff_not, not_not, not_le, ne_eq]
  constructor
  · rintro ⟨⟨⟨⟨⟨⟨⟨header, rows⟩, unique⟩, duplicates⟩, boundary⟩, ascending⟩,
      malformed⟩, size⟩
    exact ⟨header, rows, unique,
      ⟨duplicates, boundary, ascending, malformed⟩, size⟩
  · rintro ⟨header, rows, unique,
      ⟨duplicates, boundary, ascending, malformed⟩, size⟩
    exact ⟨⟨⟨⟨⟨⟨⟨header, rows⟩, unique⟩, duplicates⟩, boundary⟩, ascending⟩,
      malformed⟩, size⟩

/-- The first record is compared with the columns one by one. -/
theorem headerValid_verifyRow {header : List String} :
    (verifyRow snapshotMaxId {} header).headerValid = true ↔
      header = csvColumns := by
  have agree : ∀ {columns row : List String}, row.length = columns.length →
      ((columns.zip row).all fun entry => decide (entry.2 = entry.1)) =
        true → row = columns := by
    intro columns row same all
    induction columns generalizing row with
    | nil => exact List.length_eq_zero_iff.mp same
    | cons column columns inductionHypothesis =>
        cases row with
        | nil => cases same
        | cons field row =>
            simp only [List.zip_cons_cons, List.all_cons, Bool.and_eq_true,
              decide_eq_true_eq] at all
            rw [all.1, inductionHypothesis (Nat.succ.inj same) all.2]
  constructor
  · intro valid
    simp only [verifyRow, if_true, Bool.and_eq_true, decide_eq_true_eq]
      at valid
    exact agree valid.1 valid.2
  · rintro rfl
    rfl

/-- The verdict on the records of a file that is not empty. -/
theorem passed_iff_fileOf {fileBytes : Int} {sha256 : String}
    (size : records ≠ [] → 0 < fileBytes) :
    (verificationResult expectedRows snapshotMaxId fileBytes sha256
        (verifyRecords snapshotMaxId records)).passed = true ↔
      ReadableFile expectedRows snapshotMaxId records := by
  rw [passed_iff, verifyRecords]
  cases records with
  | nil =>
      constructor
      · rintro ⟨header, _⟩
        cases header
      · rintro ⟨_, _, impossible, _⟩
        cases impossible
  | cons header rows =>
      let first := verifyRow snapshotMaxId {} header
      have tidy : Tidy first :=
        ⟨Nat.succ_ne_zero _, fun _ none => absurd none List.not_mem_nil, rfl⟩
      have clean : Clean first := ⟨rfl, rfl, rfl, rfl⟩
      rw [List.foldl_cons, clean_foldl tidy clean]
      constructor
      · rintro ⟨valid, count, _, follow, _⟩
        obtain ⟨sameHeader, rowCount, _⟩ := counted_foldl tidy follow
        obtain ⟨ids, fields, _, rising⟩ := followAll_iff.mp follow
        obtain rfl := headerValid_verifyRow.mp (sameHeader.symm.trans valid)
        refine ⟨rows, ids, rfl, ?_, fields, rising⟩
        rw [rowCount] at count
        simpa [first, verifyRow] using count
      · rintro ⟨others, ids, split, count, fields, rising⟩
        obtain ⟨rfl, rfl⟩ := List.cons.inj split
        have follow : FollowAll snapshotMaxId first.previousId rows :=
          followAll_iff.mpr ⟨ids, fields,
            fun _ none => absurd none (Option.not_mem_none _), rising⟩
        obtain ⟨sameHeader, rowCount, unique⟩ := counted_foldl tidy follow
        refine ⟨sameHeader.trans (headerValid_verifyRow.mpr rfl), ?_, ?_,
          follow, size (List.cons_ne_nil _ _)⟩
        · rw [rowCount, ← count]
          simp [first, verifyRow]
        · rw [unique, ← count]
          simp [first, verifyRow]

/-! ## The verdict -/

def IdsCanonical (records : List (List String)) : Prop :=
  ∀ row ∈ records.tail, ∃ id, Canonical (idText row) id

/-- A readable file with canonical ids is valid, and conversely. -/
theorem validFile_iff :
    ValidFile expectedRows snapshotMaxId records ↔
      ReadableFile expectedRows snapshotMaxId records ∧
        IdsCanonical records := by
  constructor
  · intro valid
    refine ⟨.of_valid valid, ?_⟩
    obtain ⟨rows, ids, rfl, _, fields, _⟩ := valid
    intro row member
    obtain ⟨index, rfl⟩ := List.mem_iff_get.mp member
    have field := fields.get index.isLt (fields.length_eq ▸ index.isLt)
    exact ⟨_, field.2.1⟩
  · rintro ⟨⟨rows, ids, rfl, count, fields, rising⟩, canonical⟩
    refine ⟨rows, ids, rfl, count, ?_, rising⟩
    refine List.forall₂_iff_get.mpr ⟨fields.length_eq, ?_⟩
    intro index below belowIds
    have field := fields.get below belowIds
    obtain ⟨id, positive, text⟩ := canonical _ (List.get_mem rows ⟨index, below⟩)
    have read := field.2.1
    rw [text, bigInt_toString] at read
    obtain rfl := Option.some.inj read
    exact ⟨field.1, ⟨positive, text⟩, field.2.2⟩

/-- A parsed file that has records is not empty. -/
theorem ParsesRfc4180.size_pos {parse : CsvParser}
    (parses : ParsesRfc4180 parse) {body : Bytes}
    (parsed : parse body = .ok records) (nonempty : records ≠ []) :
    (0 : Int) < body.size := by
  by_contra small
  have noBytes : body.size = 0 := by omega
  have empty : body = utf8 "" := ByteArray.size_eq_zero_iff.mp noBytes
  have nothing : parse (utf8 "") = .ok [] :=
    parses [] "" 0 .nil (fun _ none => absurd none List.not_mem_nil)
      (by simp)
  rw [empty, nothing] at parsed
  exact nonempty (Except.ok.inj parsed).symm

/-- The verifier passes the valid files and no others, if and only if the file
is not one that is right but for ids that `BigInt` reads without their being
canonical numerals of positive integers. -/
theorem verdict_iff {env : Env} {body : Bytes}
    (parses : ParsesRfc4180 env.csvParse)
    (parsed : env.csvParse body = .ok records) :
    ∃ result,
      verifyBody env expectedRows snapshotMaxId body.size body = .ok result ∧
      ((result.passed = true ↔
          ValidFile expectedRows snapshotMaxId records) ↔
        (ReadableFile expectedRows snapshotMaxId records →
          IdsCanonical records)) := by
  refine ⟨_, by rw [verifyBody, parsed], ?_⟩
  rw [passed_iff_fileOf (parses.size_pos parsed), validFile_iff]
  constructor
  · intro verdict readable
    exact (verdict.mp readable).2
  · exact fun canonical =>
      ⟨fun readable => ⟨readable, canonical readable⟩, And.left⟩

theorem verdict_iff_oneRow :
    ∃ result,
      verifyBody smallEnv 1 1 (exportBytes [smallRecord 1]).size
        (exportBytes [smallRecord 1]) = .ok result ∧
      (result.passed = true ↔
        ValidFile 1 1 (exportRecords [smallRecord 1])) := by
  have parses : ParsesRfc4180 smallEnv.csvParse := parsesRfc4180_readCsv
  obtain ⟨result, verified, verdict⟩ :=
    verdict_iff parses (parses.exportBytes [smallRecord 1])
  refine ⟨result, verified, verdict.mpr fun _ row member => ?_⟩
  obtain rfl := List.mem_singleton.mp member
  exact ⟨1, le_refl 1, rfl⟩

def withoutId : Bytes :=
  utf8 (csvHeader ++ ",r,Ada,ada@example.org,,,,,\n")

/-- The row without an id passes. -/
theorem withoutId_passes :
    ∃ records result, smallEnv.csvParse withoutId = .ok records ∧
      verifyBody smallEnv 1 1 withoutId.size withoutId = .ok result ∧
      result.passed = true ∧ ¬ ValidFile 1 1 records := by
  let row := ["", "r", "Ada", "ada@example.org", "", "", "", "", ""]
  have read : (readCsv withoutId).toOption = some [csvColumns, row] := by
    decide +kernel
  have parsed : smallEnv.csvParse withoutId = .ok [csvColumns, row] := by
    change readCsv withoutId = _
    cases parsed : readCsv withoutId with
    | error error =>
        rw [parsed] at read
        cases read
    | ok records =>
        rw [parsed] at read
        exact congrArg Except.ok (Option.some.inj read)
  have zero : bigInt "" = some 0 := by decide
  have readable : ReadableFile 1 1 [csvColumns, row] :=
    ⟨[row], [0], rfl, rfl, .cons ⟨rfl, zero, by decide⟩ .nil,
      List.pairwise_singleton _ _⟩
  refine ⟨_, _, parsed, by rw [verifyBody, parsed], ?_, fun valid => ?_⟩
  · exact (passed_iff_fileOf fun _ => by decide +kernel).mpr readable
  · obtain ⟨id, positive, text⟩ := (validFile_iff.mp valid).2 row (by simp)
    have empty : bigInt (toString id) = some 0 :=
      (congrArg bigInt text.symm).trans zero
    rw [bigInt_toString, Option.some.injEq] at empty
    omega

end ExportVault
