import ExportVault.Damage
import ExportVault.Proven
import ExportVault.Vault
import Mathlib.Data.List.Chain
import Mathlib.Data.List.Dedup

/-!
# The independent audit

`scripts/auditLiveExport.mjs` downloads a completed export and checks it with
a parser of its own and with ids as JavaScript numbers.  Up to the largest
safe integer it finds a problem in a file of rows exactly where the verifier
of the server does (`audit_agrees`), so that it passes every file the server
lets anybody download (`download_passes_audit`).  What the script prints, and
the wait for the export, are left out.
-/

namespace ExportVault

open Interleaving

/-- The double nearest to a natural number, to the even one of two. -/
def roundNat (value : Nat) : Nat :=
  if value < 2 ^ 53 then value
  else
    let unit := 2 ^ (Nat.log2 value - 52)
    let below := value / unit
    let rest := value % unit
    if 2 * rest < unit ∨ 2 * rest = unit ∧ below % 2 = 0 then below * unit
    else (below + 1) * unit

def roundDouble (value : Int) : Int :=
  value.sign * roundNat value.natAbs

/-- `Number(text)`, of the texts that `BigInt` reads; `none` is `NaN`. -/
def number (text : String) : Option Int :=
  (bigInt text).map roundDouble

/-- `Number(value)` of a number or a string of a response. -/
def jsonNumber : Json → Option Int
  | .num value => some value
  | .str text => number text
  | _ => none

/-- `first > second`, false when one of them is `NaN`. -/
def exceeds (first second : Option Int) : Bool :=
  match first, second with
  | some first, some second => decide (second < first)
  | _, _ => false

theorem roundDouble_of_safe {value : Int} (positive : 0 ≤ value)
    (safe : value ≤ 9007199254740991) : roundDouble value = value := by
  have small : value.natAbs < 2 ^ 53 := by omega
  rw [roundDouble, roundNat, if_pos small]
  exact Int.sign_mul_natAbs value

theorem le_roundNat {value : Nat} (large : 2 ^ 53 ≤ value) :
    2 ^ 53 ≤ roundNat value := by
  have exponent : 53 ≤ Nat.log2 value :=
    (Nat.le_log2 (by omega)).mpr large
  have split : 2 ^ Nat.log2 value = 2 ^ 52 * 2 ^ (Nat.log2 value - 52) := by
    rw [← Nat.pow_add]
    congr 1
    omega
  have unitPos : 2 ^ 1 ≤ 2 ^ (Nat.log2 value - 52) :=
    Nat.pow_le_pow_right (by omega) (by omega)
  have leading : 2 ^ 52 ≤ value / 2 ^ (Nat.log2 value - 52) := by
    rw [Nat.le_div_iff_mul_le (by omega), ← split]
    exact Nat.log2_self_le (by omega)
  have down : 2 ^ 53 ≤ value / 2 ^ (Nat.log2 value - 52) *
      2 ^ (Nat.log2 value - 52) :=
    Nat.mul_le_mul leading unitPos
  rw [roundNat, if_neg (by omega)]
  simp only
  split
  · exact down
  · rw [Nat.add_mul]
    omega

theorem roundDouble_large {value : Int} (large : 9007199254740991 < value) :
    9007199254740991 < roundDouble value := by
  have size : 2 ^ 53 ≤ value.natAbs := by omega
  have rounded := le_roundNat size
  rw [roundDouble, Int.sign_eq_one_of_pos (by omega), one_mul]
  omega

/-! ## The checks -/

def expectedHeader : String :=
  "id,external_id,name,email,category,amount,status,created_at,updated_at"

/-- The problems the script finds in a downloaded text, for an export of
`target` rows; `none` where it throws. -/
def auditProblems (sha256 : Bytes → String) (target : Nat)
    (snapshotMaxId : Json) (reported text : String) : Option (List String) :=
  match parseCsv text with
  | [] => none
  | first :: rest =>
      let header := ",".intercalate first
      let dataRows := rest.filter fun row =>
        decide (1 < row.length) || decide (row.head? ≠ some "")
      let ids := dataRows.map fun row => row.head?.bind number
      let unique := ids.dedup.length
      let wrongWidth := (dataRows.filter fun row => row.length ≠ 9).length
      let ascending := (ids.zip ids.tail).all fun pair =>
        exceeds pair.2 pair.1
      let beyondSnapshot := (ids.filter fun id =>
        exceeds id (jsonNumber snapshotMaxId)).length
      let report := fun (wrong : Bool) (problem : String) =>
        if wrong then [problem] else []
      some
        (report (decide (header ≠ expectedHeader)) "header mismatch" ++
          report (decide (dataRows.length ≠ target))
            ("expected " ++ toString target ++ " rows, found " ++
              toString dataRows.length) ++
          report (decide (unique ≠ target))
            ("expected " ++ toString target ++ " unique ids, found " ++
              toString unique) ++
          report (decide (wrongWidth ≠ 0))
            (toString wrongWidth ++ " malformed rows") ++
          report (!ascending) "ids not strictly ascending" ++
          report (decide (beyondSnapshot ≠ 0))
            (toString beyondSnapshot ++ " rows beyond snapshot") ++
          report (decide (sha256 (utf8 text) ≠ reported)) "sha256 mismatch")

/-- A test of each item against the next one. -/
theorem all_zip_tail {α : Type} (test : α → α → Bool) (items : List α) :
    ((items.zip items.tail).all fun pair => test pair.2 pair.1) = true ↔
      items.IsChain fun item next => test next item = true := by
  induction items with
  | nil => simp
  | cons item rest inductionHypothesis =>
      cases rest with
      | nil => simp
      | cons next others =>
          rw [List.isChain_cons_cons, ← inductionHypothesis]
          simp

def writtenText (batches : List (List ExportableRow)) : String :=
  csvHeader ++ String.join (batches.map serializeBatch)

variable {batches : List (List ExportableRow)} {ids : List Int}
variable {rows : List ExportableRow} {snapshotMaxId : Int} {target : Nat}
variable {sha256 : Bytes → String} {reported : String}

theorem parseCsv_writtenText (batches : List (List ExportableRow)) :
    parseCsv (writtenText batches) = writtenRecords batches.flatten := by
  have sameText : writtenText batches = csvHeader ++ serializeCsvChunk
      (batches.flatten.map ExportableRow.toCsvRecord) := by
    have sameChunks : batches.map serializeBatch =
        (batches.map (List.map ExportableRow.toCsvRecord)).map
          serializeCsvChunk := by
      rw [List.map_map]
      rfl
    rw [writtenText, sameChunks, join_serializeCsvChunk, ← List.map_flatten]
  rw [sameText, parseCsv_of_fileText (fileText_export _), writtenRecords,
    List.map_map]
  rfl

/-- The ids of the rows as JavaScript numbers. -/
theorem numbers_written
    (numerals : List.Forall₂ (fun row id => Canonical row.id id) rows ids) :
    (rows.map fun row => csvFields row.toCsvRecord).map
        (fun row => row.head?.bind number) =
      ids.map fun id => some (roundDouble id) := by
  induction numerals with
  | nil => rfl
  | @cons row id rows ids numeral _ inductionHypothesis =>
      rw [List.map_cons, List.map_cons, List.map_cons, inductionHypothesis]
      congr 1
      show number row.id = _
      rw [numeral.2, number, bigInt_toString]
      rfl

/-- Beyond the largest safe integer a number stays beyond it. -/
theorem roundDouble_le_iff {id : Int} (positive : 1 ≤ id)
    (safe : snapshotMaxId ≤ 9007199254740991) :
    roundDouble id ≤ snapshotMaxId ↔ id ≤ snapshotMaxId := by
  by_cases small : id ≤ 9007199254740991
  · rw [roundDouble_of_safe (by omega) small]
  · have large := roundDouble_large (not_le.mp small)
    omega

theorem beyond_iff (positive : ∀ id ∈ ids, 1 ≤ id)
    (safe : snapshotMaxId ≤ 9007199254740991) :
    ((ids.map fun id => some (roundDouble id)).filter fun id =>
        exceeds id (some snapshotMaxId)).length = 0 ↔
      ∀ id ∈ ids, id ≤ snapshotMaxId := by
  rw [List.length_eq_zero_iff, List.filter_eq_nil_iff]
  simp only [List.mem_map, forall_exists_index, and_imp,
    forall_apply_eq_imp_iff₂, exceeds, decide_eq_true_eq, not_lt]
  constructor
  · intro within id member
    exact (roundDouble_le_iff (positive id member) safe).mp (within id member)
  · intro within id member
    exact (roundDouble_le_iff (positive id member) safe).mpr
      (within id member)

/-- Ids up to the boundary are their numbers. -/
theorem numbers_of_within (positive : ∀ id ∈ ids, 1 ≤ id)
    (safe : snapshotMaxId ≤ 9007199254740991)
    (within : ∀ id ∈ ids, id ≤ snapshotMaxId) :
    (ids.map fun id => some (roundDouble id)) = ids.map some := by
  apply List.map_congr_left
  intro id member
  have one := positive id member
  have last := within id member
  rw [roundDouble_of_safe (by omega) (by omega)]

theorem ascending_iff :
    (((ids.map some).zip (ids.map some).tail).all fun pair =>
        exceeds pair.2 pair.1) = true ↔ ids.Pairwise (· < ·) := by
  rw [all_zip_tail, List.isChain_map, ← List.isChain_iff_pairwise]
  simp only [exceeds, decide_eq_true_eq]

theorem positive_of_numerals
    (numerals : List.Forall₂ (fun row id => Canonical row.id id) rows ids) :
    ∀ id ∈ ids, 1 ≤ id := by
  induction numerals with
  | nil => exact fun _ none => absurd none List.not_mem_nil
  | cons numeral _ inductionHypothesis =>
      exact List.forall_mem_cons.mpr ⟨numeral.1, inductionHypothesis⟩

/-- No written row is left out or has a wrong width. -/
theorem dataRows_written (rows : List ExportableRow) :
    ((rows.map fun row => csvFields row.toCsvRecord).filter fun row =>
        decide (1 < row.length) || decide (row.head? ≠ some "")) =
        (rows.map fun row => csvFields row.toCsvRecord) ∧
      ((rows.map fun row => csvFields row.toCsvRecord).filter fun row =>
        row.length ≠ 9) = [] := by
  constructor
  · apply List.filter_eq_self.mpr
    intro fields member
    obtain ⟨row, _, rfl⟩ := List.mem_map.mp member
    rfl
  · apply List.filter_eq_nil_iff.mpr
    intro fields member
    obtain ⟨row, _, rfl⟩ := List.mem_map.mp member
    exact Bool.false_ne_true

/-- The script finds nothing in a file of rows exactly when there are as many
as it expects and their ids rise up to the boundary. -/
theorem auditProblems_written
    (numerals : List.Forall₂ (fun row id => Canonical row.id id)
      batches.flatten ids)
    (safe : snapshotMaxId ≤ 9007199254740991) :
    auditProblems sha256 target (bigIntToJson (some snapshotMaxId)) reported
        (writtenText batches) = some [] ↔
      batches.flatten.length = target ∧
        ((∀ id ∈ ids, id ≤ snapshotMaxId) ∧ ids.Pairwise (· < ·)) ∧
        sha256 (writtenFile batches) = reported := by
  have positive := positive_of_numerals numerals
  have boundary : jsonNumber (bigIntToJson (some snapshotMaxId)) =
      some snapshotMaxId := by
    simp only [bigIntToJson, if_pos safe, jsonNumber]
  have header : ",".intercalate csvColumns = expectedHeader := by decide
  have silent : ∀ (wrong : Bool) (problem : String),
      (if wrong then [problem] else []) = [] ↔ wrong = false := by
    intro wrong problem
    cases wrong <;> simp
  obtain ⟨allData, noneWide⟩ := dataRows_written batches.flatten
  simp only [auditProblems, parseCsv_writtenText, writtenRecords, allData,
    noneWide, numbers_written numerals, boundary, header, Option.some.injEq,
    List.append_eq_nil_iff, silent, decide_eq_false_iff_not, not_not,
    Bool.not_eq_false', List.length_map, List.length_nil, and_assoc,
    ne_eq, not_true_eq_false, decide_false, true_and]
  rw [beyond_iff positive safe]
  constructor
  · rintro ⟨count, _, rising, within, digest⟩
    rw [numbers_of_within positive safe within, ascending_iff] at rising
    exact ⟨count, within, rising, digest⟩
  · rintro ⟨count, within, rising, digest⟩
    rw [numbers_of_within positive safe within, ascending_iff]
    refine ⟨count, ?_, rising, within, digest⟩
    have distinct : (ids.map some).Nodup :=
      List.Nodup.map (Option.some_injective _) (rising.imp ne_of_lt)
    rw [List.Nodup.dedup distinct, List.length_map, ← numerals.length_eq, count]

/-- Up to the largest safe integer the script and the verifier of the server
agree on every file of rows, whatever their order and number, and whatever the
parser of the server. -/
theorem audit_agrees {env : Env} (parses : ParsesRfc4180 env.csvParse)
    (numerals : List.Forall₂ (fun row id => Canonical row.id id)
      batches.flatten ids)
    (safe : snapshotMaxId ≤ 9007199254740991) :
    auditProblems env.sha256 target (bigIntToJson (some snapshotMaxId))
        reported (writtenText batches) = some [] ↔
      (∃ result, verifyBody env target snapshotMaxId
          (writtenFile batches).size (writtenFile batches) = .ok result ∧
        result.passed = true) ∧
      env.sha256 (writtenFile batches) = reported := by
  have verified : verifyBody env target snapshotMaxId
      (writtenFile batches).size (writtenFile batches) =
        .ok (verificationResult target snapshotMaxId
          (writtenFile batches).size (env.sha256 (writtenFile batches))
          (verifyRecords snapshotMaxId (writtenRecords batches.flatten))) := by
    rw [verifyBody, parses.writtenFile]
  rw [auditProblems_written numerals safe, verified]
  simp only [Except.ok.injEq, exists_eq_left', passed_written_iff parses,
    Nat.cast_inj, and_assoc]
  have reads : (∃ others, ReadRows snapshotMaxId batches.flatten others) ↔
      (∀ id ∈ ids, id ≤ snapshotMaxId) ∧ ids.Pairwise (· < ·) := by
    have read : List.Forall₂ (fun row id => bigInt row.id = some id)
        batches.flatten ids :=
      numerals.imp fun row id numeral => by rw [numeral.2, bigInt_toString]
    constructor
    · rintro ⟨others, readRows⟩
      obtain rfl : others = ids :=
        (readIds_written readRows.read).symm.trans (readIds_written read)
      exact ⟨readRows.within, readRows.rising⟩
    · rintro ⟨within, rising⟩
      exact ⟨ids, read, within, rising⟩
  rw [reads, and_assoc]

def swappedBatches : List (List ExportableRow) :=
  [[normaliseRecord (smallRecord 3)], [normaliseRecord (smallRecord 1)]]

theorem audit_agrees_swapped :
    auditProblems smallEnv.sha256 2 (bigIntToJson (some 3)) "digest"
        (writtenText swappedBatches) = some [] ↔
      (∃ result, verifyBody smallEnv (2 : Nat) 3
          (writtenFile swappedBatches).size (writtenFile swappedBatches) =
            .ok result ∧
        result.passed = true) ∧
      smallEnv.sha256 (writtenFile swappedBatches) = "digest" := by
  have parses : ParsesRfc4180 smallEnv.csvParse := parsesRfc4180_readCsv
  have numerals : List.Forall₂ (fun row id => Canonical row.id id)
      swappedBatches.flatten [3, 1] :=
    .cons ⟨by decide, rfl⟩ (.cons ⟨by decide, rfl⟩ .nil)
  exact audit_agrees parses numerals (by decide)

/-- The rows of a completed export pass the audit. -/
theorem audit_exported {raw : List RawRecordRow}
    (ascending : Keyset.Ascending RawRecordRow.id raw)
    (beyond : ∀ row ∈ raw, 1 ≤ row.id)
    (upTo : ∀ row ∈ raw, row.id ≤ snapshotMaxId)
    (safe : snapshotMaxId ≤ 9007199254740991) :
    ∃ text, exportBytes raw = utf8 text ∧
      auditProblems sha256 raw.length (bigIntToJson (some snapshotMaxId))
        (sha256 (exportBytes raw)) text = some [] := by
  have sameText : writtenText [raw.map normaliseRecord] =
      csvHeader ++ serializeBatch (raw.map normaliseRecord) := by
    simp [writtenText, String.join_cons]
  have sameFile : writtenFile [raw.map normaliseRecord] = exportBytes raw :=
    congrArg utf8 sameText
  have flat : [raw.map normaliseRecord].flatten = raw.map normaliseRecord :=
    List.flatten_singleton
  have numerals : List.Forall₂ (fun row id => Canonical row.id id)
      [raw.map normaliseRecord].flatten (raw.map RawRecordRow.id) := by
    rw [flat, List.forall₂_map_left_iff, List.forall₂_map_right_iff,
      List.forall₂_same]
    exact fun row member => ⟨beyond row member, rfl⟩
  refine ⟨_, sameFile.symm, (auditProblems_written numerals safe).mpr
    ⟨?_, ⟨?_, ?_⟩, congrArg sha256 sameFile⟩⟩
  · rw [flat, List.length_map]
  · intro id member
    obtain ⟨row, inRows, rfl⟩ := List.mem_map.mp member
    exact upTo row inRows
  · exact List.pairwise_map.mpr ascending

/-- With successive owners the final object holds as many rows as the export
asked for, with rising ids up to the boundary. -/
theorem file_of_log {env : Env} {world : World} {job : ExportJob}
    {body : Bytes} {seen : RawRecordRow → Prop} {kept : Int → Prop}
    (log : LogInvariant world)
    (succession : SuccessionInvariant seen kept env world)
    (found : world.job = some job)
    (stored : world.store.get? (finalKey env.exportJobId) = some body) :
    ∃ raw, body = exportBytes raw ∧
      (raw.length : Int) = job.requestedRowLimit ∧
      Keyset.Ascending RawRecordRow.id raw ∧
      ∀ row ∈ raw, 1 ≤ row.id ∧ row.id ≤ job.snapshotMaxId := by
  have termsEq : world.terms = some job.terms :=
    congrArg (Option.map ExportJob.terms) found
  obtain ⟨⟨terms, known, complete⟩, raw, segment, count, rfl⟩ :=
    succession.file body stored
  obtain rfl := Option.some.inj (termsEq.symm.trans known)
  have wellFormed := log.wellFormed _ termsEq
  have nonempty : world.checkpoints ≠ [] := by
    intro empty
    have positive := wellFormed.positive
    rw [← complete, empty] at positive
    exact absurd positive (lt_irrefl 0)
  refine ⟨raw, rfl, count.trans complete, segment.ascending, ?_⟩
  intro row member
  exact ⟨segment.beyond row member,
    le_trans (segment.upTo row member) (wellFormed.cursorOf_le nonempty)⟩

/-- Whenever `getExportDownload` answers, the script finds nothing wrong with
the object, as long as the ids are safe integers: with successive owners,
whatever happens to the records. -/
theorem download_passes_audit {env : Env} {source target : Config World Proc}
    {events : List (Event Action Change)} (initial : Initial env source)
    (unverified : source.shared.verifications = [])
    (history : (machine env).Exec AloneAtClaim source events target)
    {index : Nat} {url filename : String} {expires fileBytes : Int}
    {digest : String}
    (answered : target.procs index = .api (.returned
      (.download url filename expires fileBytes digest)))
    {job : ExportJob} (found : target.shared.job = some job)
    (safe : job.snapshotMaxId ≤ 9007199254740991) :
    ∃ text, target.shared.store.get? (finalKey env.exportJobId) =
        some (utf8 text) ∧
      auditProblems env.sha256 job.requestedRowLimit.toNat
        (bigIntToJson (some job.snapshotMaxId)) digest text = some [] := by
  have successive : (machine env).Exec Successive source events target :=
    history.mono fun alone => ⟨alone, fun _ =>
      ⟨fun _ _ => trivial, fun _ impossible => impossible.elim⟩⟩
  have logged := (logOutline env Successive).strengthen successive
    (logOutline_initial initial)
  have succeeded := (successionOutline env _ _).strengthen logged
    (successionOutline_initial initial)
  have log := (logOutline env Successive).preserved successive
    (logOutline_initial initial)
  have succession := (successionOutline env _ _).preserved logged
    (successionOutline_initial initial)
  have holds := (provenOutline env).preserved succeeded
    (provenOutline_initial initial unverified)
  obtain ⟨_, _, _, file, _, _, stored, _, _, _, rfl⟩ := holds.command answered
  obtain ⟨raw, rfl, count, ascending, within⟩ :=
    file_of_log log.1 succession.1 found stored
  obtain ⟨text, sameFile, silent⟩ := audit_exported ascending
    (fun row member => (within row member).1)
    (fun row member => (within row member).2) safe
  refine ⟨text, sameFile ▸ stored, ?_⟩
  rw [← count, Int.toNat_natCast]
  exact silent

end ExportVault
