import ExportVault.Verification

/-!
# The shared state

What the processes working on one export share: its database rows, the
records table, the bucket, its entry in the BullMQ queue and the clock.  The
statements of the program are the operations on it.
-/

namespace ExportVault

/-- The process environment (`server/src/config/env.ts`) and the libraries the
program calls, for the export with the given id. -/
structure Env where
  exportJobId : String
  stallTimeoutSeconds : Int
  exportBatchSize : Int
  signedUrlTtl : Int
  csvParse : CsvParser
  sha256 : Bytes → String
  signedUrl : String → String → String

/-- A row of `export_verifications`. -/
structure ExportVerification where
  expectedRows : Int
  actualRows : Int
  uniqueRows : Int
  duplicates : Int
  minId : Option Int
  maxId : Option Int
  outOfSnapshot : Int
  headerValid : Bool
  fileBytes : Int
  sha256 : String
  passed : Bool
  failureReason : Option String
  deriving DecidableEq, Repr

/-- The row `verifyExportFile` persists. -/
def VerificationResult.toRow (result : VerificationResult) :
    ExportVerification where
  expectedRows := result.expectedRows
  actualRows := result.actualRows
  uniqueRows := result.uniqueRows
  duplicates := result.duplicates
  minId := result.minId
  maxId := result.maxId
  outOfSnapshot := result.outOfSnapshot
  headerValid := result.headerValid
  fileBytes := result.fileBytes
  sha256 := result.sha256
  passed := result.passed
  failureReason := result.failureReason

/-- The state of the queue entry; an active entry is held by the process that
runs it. -/
inductive QueueState where
  | waiting
  | delayed
  | active (holder : Nat)
  | completed
  | failed
  deriving DecidableEq, Repr

/-- The BullMQ job whose id is the export job id. -/
structure QueueEntry where
  state : QueueState := .waiting
  attemptsMade : Nat := 0
  stalledCounter : Nat := 0
  deriving DecidableEq, Repr

structure World where
  now : Int
  records : RecordTable
  job : Option ExportJob := none
  checkpoints : List ExportCheckpoint := []
  failures : List ExportFailure := []
  verifications : List ExportVerification := []
  store : ObjectStore := ⟨[]⟩
  entry : Option QueueEntry := none

namespace World

/-- `prisma.exportJob.update`: an `@updatedAt` column follows every write.
The program never deletes an export job and updates only rows it has read. -/
def updateJob (world : World) (change : ExportJob → ExportJob) : World :=
  { world with
    job := world.job.map fun job =>
      { change job with updatedAt := world.now } }

/-- `recordExportFailure`: the insert itself. -/
def insertFailure (world : World) (failure : ExportFailure) : World :=
  { world with failures := world.failures ++ [failure] }

/-- `prisma.exportVerification.create`. -/
def insertVerification (world : World) (row : ExportVerification) : World :=
  { world with verifications := world.verifications ++ [row] }

/-- `getLatestVerification`. -/
def latestVerification (world : World) : Option ExportVerification :=
  world.verifications.getLast?

def putObject (world : World) (key : String) (body : Bytes) : World :=
  { world with store := world.store.put key body }

def deleteObjects (world : World) (keys kept : List String) : World :=
  { world with store := world.store.deleteObjects keys kept }

def setEntry (world : World) (entry : Option QueueEntry) : World :=
  { world with entry := entry }

/-- The transaction that records a batch: the checkpoint, whose batch number
is unique, and the progress of the job. -/
def commitBatch (world : World) (checkpoint : ExportCheckpoint)
    (exportedRowCount : Int) : Option World :=
  if world.checkpoints.any (fun other =>
      other.batchNumber = checkpoint.batchNumber) then none
  else
    some
      { world with
        checkpoints := world.checkpoints ++ [checkpoint]
        job := world.job.map fun job =>
          { job with
            lastExportedId := some checkpoint.lastRecordId
            exportedRowCount := exportedRowCount
            updatedAt := world.now } }

def status (world : World) : Option ExportStatus :=
  world.job.map ExportJob.status

section Fields

variable (world : World) (change : ExportJob → ExportJob)
variable (failure : ExportFailure) (row : ExportVerification)
variable (key : String) (body : Bytes) (keys kept : List String)
variable (entry : Option QueueEntry)

@[simp] theorem updateJob_now : (world.updateJob change).now = world.now := rfl
@[simp] theorem updateJob_records :
    (world.updateJob change).records = world.records := rfl
@[simp] theorem updateJob_checkpoints :
    (world.updateJob change).checkpoints = world.checkpoints := rfl
@[simp] theorem updateJob_store :
    (world.updateJob change).store = world.store := rfl
@[simp] theorem updateJob_entry :
    (world.updateJob change).entry = world.entry := rfl

@[simp] theorem insertFailure_now :
    (world.insertFailure failure).now = world.now := rfl
@[simp] theorem insertFailure_records :
    (world.insertFailure failure).records = world.records := rfl
@[simp] theorem insertFailure_job :
    (world.insertFailure failure).job = world.job := rfl
@[simp] theorem insertFailure_checkpoints :
    (world.insertFailure failure).checkpoints = world.checkpoints := rfl
@[simp] theorem insertFailure_store :
    (world.insertFailure failure).store = world.store := rfl
@[simp] theorem insertFailure_entry :
    (world.insertFailure failure).entry = world.entry := rfl

@[simp] theorem insertVerification_now :
    (world.insertVerification row).now = world.now := rfl
@[simp] theorem insertVerification_records :
    (world.insertVerification row).records = world.records := rfl
@[simp] theorem insertVerification_job :
    (world.insertVerification row).job = world.job := rfl
@[simp] theorem insertVerification_checkpoints :
    (world.insertVerification row).checkpoints = world.checkpoints := rfl
@[simp] theorem insertVerification_store :
    (world.insertVerification row).store = world.store := rfl
@[simp] theorem insertVerification_entry :
    (world.insertVerification row).entry = world.entry := rfl

@[simp] theorem putObject_now :
    (world.putObject key body).now = world.now := rfl
@[simp] theorem putObject_records :
    (world.putObject key body).records = world.records := rfl
@[simp] theorem putObject_job :
    (world.putObject key body).job = world.job := rfl
@[simp] theorem putObject_checkpoints :
    (world.putObject key body).checkpoints = world.checkpoints := rfl
@[simp] theorem putObject_store :
    (world.putObject key body).store = world.store.put key body := rfl
@[simp] theorem putObject_entry :
    (world.putObject key body).entry = world.entry := rfl

@[simp] theorem deleteObjects_now :
    (world.deleteObjects keys kept).now = world.now := rfl
@[simp] theorem deleteObjects_records :
    (world.deleteObjects keys kept).records = world.records := rfl
@[simp] theorem deleteObjects_job :
    (world.deleteObjects keys kept).job = world.job := rfl
@[simp] theorem deleteObjects_checkpoints :
    (world.deleteObjects keys kept).checkpoints = world.checkpoints := rfl
@[simp] theorem deleteObjects_store :
    (world.deleteObjects keys kept).store =
      world.store.deleteObjects keys kept := rfl
@[simp] theorem deleteObjects_entry :
    (world.deleteObjects keys kept).entry = world.entry := rfl

@[simp] theorem setEntry_now : (world.setEntry entry).now = world.now := rfl
@[simp] theorem setEntry_records :
    (world.setEntry entry).records = world.records := rfl
@[simp] theorem setEntry_job : (world.setEntry entry).job = world.job := rfl
@[simp] theorem setEntry_checkpoints :
    (world.setEntry entry).checkpoints = world.checkpoints := rfl
@[simp] theorem setEntry_store :
    (world.setEntry entry).store = world.store := rfl
@[simp] theorem setEntry_entry : (world.setEntry entry).entry = entry := rfl

end Fields

@[simp]
theorem updateJob_job (world : World) (change : ExportJob → ExportJob) :
    (world.updateJob change).job =
      world.job.map fun job => { change job with updatedAt := world.now } :=
  rfl

end World

end ExportVault
