import ExportVault.Builtins
import ExportVault.Csv
import ExportVault.Keyset
import Mathlib.Order.Defs.LinearOrder
import Mathlib.Algebra.Order.Ring.Int

/-!
# The records table

`server/src/services/recordSource.service.ts`: the table being exported, the
normalisation of its rows, the keyset query and the boundary it runs up to.
-/

namespace ExportVault

/-- A `DECIMAL(12,2)` as the driver returns it: its text, or a number of
hundredths. -/
inductive Amount where
  | text (value : String)
  | number (hundredths : Int)
  deriving DecidableEq, Repr

structure RawRecordRow where
  id : Int
  externalId : String
  name : String
  email : String
  category : Option String
  amount : Option Amount
  status : Option String
  createdAt : Int
  updatedAt : Int
  deriving DecidableEq, Repr

/-- One record as it will be written to CSV. -/
structure ExportableRow where
  id : String
  externalId : String
  name : String
  email : String
  category : String
  amount : String
  status : String
  createdAt : String
  updatedAt : String
  deriving DecidableEq, Repr

/-- `value.toFixed(2)` of a number of hundredths. -/
def toFixed2 (hundredths : Int) : String :=
  let size := hundredths.natAbs
  (if hundredths < 0 then "-" else "") ++ toString (size / 100) ++ "." ++
    padStart (toString (size % 100)) 2 '0'

def formatAmount (value : Option Amount) : String :=
  match value with
  | none => ""
  | some (.text value) => value
  | some (.number hundredths) => toFixed2 hundredths

def formatTimestamp (value : Int) : String :=
  toISOString value

def normaliseRecord (row : RawRecordRow) : ExportableRow where
  id := toString row.id
  externalId := row.externalId
  name := row.name
  email := row.email
  category := row.category.getD ""
  amount := formatAmount row.amount
  status := row.status.getD ""
  createdAt := formatTimestamp row.createdAt
  updatedAt := formatTimestamp row.updatedAt

def ExportableRow.toCsvRecord (row : ExportableRow) : CsvRecord := fun column =>
  if column = "id" then some row.id
  else if column = "external_id" then some row.externalId
  else if column = "name" then some row.name
  else if column = "email" then some row.email
  else if column = "category" then some row.category
  else if column = "amount" then some row.amount
  else if column = "status" then some row.status
  else if column = "created_at" then some row.createdAt
  else if column = "updated_at" then some row.updatedAt
  else none

/-- The values of a `BIGINT` column. -/
def isBigInt (value : Int) : Prop :=
  -9223372036854775808 ≤ value ∧ value ≤ 9223372036854775807

instance (value : Int) : Decidable (isBigInt value) :=
  inferInstanceAs (Decidable (_ ∧ _))

/-- The values a `BIGSERIAL` column draws. -/
def isBigSerial (value : Int) : Prop :=
  1 ≤ value ∧ value ≤ 9223372036854775807

instance (value : Int) : Decidable (isBigSerial value) :=
  inferInstanceAs (Decidable (_ ∧ _))

theorem isBigInt_of_isBigSerial {value : Int} (drawn : isBigSerial value) :
    isBigInt value :=
  ⟨le_trans (by decide) drawn.1, drawn.2⟩

/-- The `records` table, kept in the order of its primary key. -/
structure RecordTable where
  rows : List RawRecordRow
  ascending : Keyset.Ascending RawRecordRow.id rows
  drawn : ∀ row ∈ rows, isBigSerial row.id

/-- The rows whose id is not beyond the bound. -/
def RecordTable.upTo (table : RecordTable) (bound : Int) :
    List RawRecordRow :=
  table.rows.filter fun row => decide (row.id ≤ bound)

/-- The rows the keyset query selects: those beyond the cursor and not beyond
the boundary, in key order, up to the limit. -/
def selectRecordBatch (table : RecordTable) (afterId snapshotMaxId limit : Int) :
    List RawRecordRow :=
  Keyset.page RawRecordRow.id table.rows afterId snapshotMaxId limit.toNat

/-- `SELECT … WHERE id > afterId AND id <= snapshotMaxId ORDER BY id ASC LIMIT
limit`, normalised. -/
def fetchRecordBatch (table : RecordTable) (afterId snapshotMaxId limit : Int) :
    List ExportableRow :=
  (selectRecordBatch table afterId snapshotMaxId limit).map normaliseRecord

/-- `SELECT MAX(id)`, zero for an empty table. -/
def captureSnapshotMaxId (table : RecordTable) : Int :=
  (table.rows.map RawRecordRow.id).max?.getD 0

/-- `SELECT COUNT(*) … WHERE id <= snapshotMaxId`. -/
def countRecordsWithinSnapshot (table : RecordTable) (snapshotMaxId : Int) :
    Int :=
  (table.rows.countP fun row => decide (row.id ≤ snapshotMaxId) : Nat)

/-- The boundary of the whole table is not beyond any of its rows. -/
theorem le_captureSnapshotMaxId {table : RecordTable} {row : RawRecordRow}
    (member : row ∈ table.rows) : row.id ≤ captureSnapshotMaxId table := by
  have listed : row.id ∈ table.rows.map RawRecordRow.id :=
    List.mem_map_of_mem member
  rw [captureSnapshotMaxId]
  cases maximum : (table.rows.map RawRecordRow.id).max? with
  | none =>
      rw [List.max?_eq_none_iff.mp maximum] at listed
      cases listed
  | some largest =>
      exact (List.max?_eq_some_iff.mp maximum).2 row.id listed

def serializeBatch (rows : List ExportableRow) : String :=
  serializeCsvChunk (rows.map ExportableRow.toCsvRecord)

theorem serializeBatch_append (first second : List ExportableRow) :
    serializeBatch (first ++ second) =
      serializeBatch first ++ serializeBatch second := by
  rw [serializeBatch, List.map_append, serializeCsvChunk_append]
  rfl

@[simp]
theorem serializeBatch_nil : serializeBatch [] = "" :=
  rfl

/-- The identifier column of a normalised record is the numeral of its id. -/
theorem normaliseRecord_id (row : RawRecordRow) :
    (normaliseRecord row).id = toString row.id :=
  rfl

theorem csvFields_normaliseRecord_head (row : RawRecordRow) :
    (csvFields (normaliseRecord row).toCsvRecord).head? =
      some (toString row.id) :=
  rfl

theorem length_csvFields (row : CsvRecord) :
    (csvFields row).length = csvColumns.length :=
  List.length_map _

end ExportVault
