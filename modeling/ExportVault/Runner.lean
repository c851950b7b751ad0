import ExportVault.World

/-!
# The export worker

`runExportJob` of `server/src/services/exportRunner.service.ts`, one database
or storage call at a time.  A `RunPc` says which call comes next and holds the
variables that are live there; `runStep` makes the call and goes on to the
next one; `RunPc.onError` is where the code goes when the call throws.  Log
lines are left out.
-/

namespace ExportVault

def resumableStatuses : List ExportStatus :=
  [.pending, .queued, .interrupted, .resuming, .failed]

inductive RunOutcome where
  | completed (exportedRows : Int)
  | cancelled (exportedRows : Int)
  | failed (exportedRows : Int) (reason : String)
  | skipped (reason : String)
  deriving DecidableEq, Repr

/-- How a run ends after `failJob`: the call inside the `try` block returns an
outcome, the call inside the `catch` block rethrows. -/
inductive FailExit where
  | returns (outcome : RunOutcome)
  | rethrows (error : AppError)
  deriving DecidableEq, Repr

/-- The variables of the batch loop, with the job row read at the start. -/
structure Progress where
  job : ExportJob
  lastExportedId : Int
  exportedRowCount : Int
  batchNumber : Int
  deriving DecidableEq, Repr

inductive RunPc where
  | findJob
  | recordMissing (reason : String)
  | cancelBeforeStart (job : ExportJob)
  | claim (job : ExportJob) (staleCutoff : Int)
  | setStartedAt (job : ExportJob)
  | loadResume (job : ExportJob)
  | readProgress (job : ExportJob) (resume : ResumeState)
  | reconcile (job : ExportJob) (resume : ResumeState)
  | pollCancel (run : Progress)
  | writeCancelled (run : Progress)
  | fetchBatch (run : Progress)
  | putChunk (run : Progress) (rows : List ExportableRow) (batchLastId : Int)
  | confirmChunk (run : Progress) (rows : List ExportableRow)
      (batchLastId : Int)
  | commitBatch (run : Progress) (rows : List ExportableRow)
      (batchLastId : Int)
  | loadFinal (run : Progress)
  | writeVerifying (run : Progress) (batchCount : Int)
  | readChunk (run : Progress) (batchCount batchNumber : Int)
      (assembled : Bytes)
  | uploadFinal (run : Progress) (assembled : Bytes)
  | headAssembled (run : Progress)
  | verifyHead (run : Progress)
  | verifyRead (run : Progress) (fileBytes : Int)
  | saveVerification (run : Progress) (result : VerificationResult)
  | writeFileKey (run : Progress) (reason : String)
  | writeCompleted (run : Progress)
  | listChunks (outcome : RunOutcome) (token : Option String) (deleted : Nat)
  | deletePage (outcome : RunOutcome) (keys : List String)
      (token : Option String) (deleted : Nat)
  | failJob (reason : String) (error : AppError) (exit : FailExit)
  | recordFailure (error : AppError) (exit : FailExit)
  | returned (outcome : RunOutcome)
  | threw (error : AppError)
  | crashed
  deriving DecidableEq

namespace RunPc

/-- The run is over. -/
def ended : RunPc → Bool
  | returned _ => true
  | threw _ => true
  | crashed => true
  | _ => false

/-- The `catch` block of `runExportJob`. -/
def caught (error : AppError) : RunPc :=
  .failJob error.message error (.rethrows error)

/-- A failure the code reports itself, inside the `try` block. -/
def failWith (exportedRows : Int) (reason : String) : RunPc :=
  .failJob reason (exportIntegrityError reason)
    (.returns (.failed exportedRows reason))

def exitWith : FailExit → RunPc
  | .returns outcome => .returned outcome
  | .rethrows error => .threw error

/-- Where a run goes when its next call throws.  Recording a failure swallows
its own error; the calls before the `try` block and the `failJob` of the
`catch` block throw out of the run. -/
def onError (pc : RunPc) (error : AppError) : RunPc :=
  match pc with
  | findJob => .threw error
  | recordMissing reason => .returned (.skipped reason)
  | cancelBeforeStart _ => .threw error
  | claim _ _ => .threw error
  | setStartedAt _ => .threw error
  | failJob _ _ (.rethrows _) => .threw error
  | recordFailure _ exit => exitWith exit
  | _ => caught error

def loopTop (run : Progress) : RunPc :=
  if run.exportedRowCount < run.job.requestedRowLimit then .pollCancel run
  else if run.exportedRowCount ≠ run.job.requestedRowLimit then
    failWith run.exportedRowCount <|
      "Exported " ++ toString run.exportedRowCount ++ " rows but " ++
        toString run.job.requestedRowLimit ++ " were requested"
  else .loadFinal run

/-- The next chunk to read into the assembled file, or its upload. -/
def assembleFrom (run : Progress) (batchCount batchNumber : Int)
    (assembled : Bytes) : RunPc :=
  if batchNumber ≤ batchCount then
    .readChunk run batchCount batchNumber assembled
  else .uploadFinal run assembled

/-- The end of a turn of the loop in `deleteChunks`. -/
def nextPage (outcome : RunOutcome) (token : Option String) (deleted : Nat) :
    RunPc :=
  match token with
  | none => .returned outcome
  | some last =>
      if last = "" then .returned outcome
      else .listChunks outcome (some last) deleted

end RunPc

/-- The variables of a run when it enters the batch loop. -/
def Progress.start (job : ExportJob) (resume : ResumeState) : Progress where
  job := job
  lastExportedId := resume.lastExportedId
  exportedRowCount := resume.rowsWritten
  batchNumber := resume.nextBatchNumber

/-- The variables of a run after it has committed a batch. -/
def Progress.advance (run : Progress) (rows : List ExportableRow)
    (batchLastId : Int) : Progress where
  job := run.job
  lastExportedId := batchLastId
  exportedRowCount := run.exportedRowCount + rows.length
  batchNumber := run.batchNumber + 1

/-- `LIMIT` of the next batch. -/
def Progress.limit (run : Progress) : Int :=
  min run.job.batchSize (run.job.requestedRowLimit - run.exportedRowCount)

/-- The job is in a status a run may claim it from: one it may start from, or
`RUNNING` with a heartbeat older than the cutoff. -/
def claimable (staleCutoff : Int) (job : ExportJob) : Bool :=
  resumableStatuses.contains job.status ||
    (job.status = .running && decide (job.updatedAt < staleCutoff))

/-- The date before which a heartbeat has expired. -/
def Env.staleCutoff (env : Env) (world : World) : Int :=
  world.now - env.stallTimeoutSeconds * 1000

def alreadyOwned (env : Env) (job : ExportJob) : String :=
  "Export job " ++ env.exportJobId ++
    " is already owned by a live worker (status=" ++ job.status.name ++ ")"

def datasetExhausted (run : Progress) : String :=
  "Dataset exhausted at " ++ toString run.exportedRowCount ++
    " rows: no records remain with id > " ++ toString run.lastExportedId ++
    " and id <= " ++ toString run.job.snapshotMaxId ++ ", but " ++
    toString run.job.requestedRowLimit ++ " were requested"

def afterFindJob (env : Env) (world : World) : RunPc :=
  match world.job with
  | none =>
      .recordMissing ("Export job " ++ env.exportJobId ++ " does not exist")
  | some job =>
      if job.status = .completed then
        .returned (.skipped "Job already completed")
      else if job.status = .cancelled then
        .returned (.skipped "Job was cancelled")
      else if job.cancelRequested then .cancelBeforeStart job
      else .claim job (env.staleCutoff world)

/-- The conditional update of `claimJob`. -/
def claimStep (env : Env) (world : World) (job : ExportJob)
    (staleCutoff : Int) : World × RunPc :=
  if world.job.any (claimable staleCutoff) then
    (world.updateJob fun row =>
        { row with
          status := .running
          errorMessage := none
          failedAt := none },
      .setStartedAt job)
  else (world, .returned (.skipped (alreadyOwned env job)))

def chunkBytes (rows : List ExportableRow) : Bytes :=
  utf8 (serializeBatch rows)

def noSuchKey (key : String) : AppError :=
  ⟨"The specified key does not exist: " ++ key, 500, "INTERNAL_ERROR", none⟩

/-- `HeadObject` after `PutObject` in `putObjectVerified`. -/
def confirmStep (env : Env) (world : World) (run : Progress)
    (rows : List ExportableRow) (batchLastId : Int) : RunPc :=
  let key := chunkKey env.exportJobId run.batchNumber
  match world.store.get? key with
  | none => .caught (noSuchKey key)
  | some body =>
      if body.size ≠ (chunkBytes rows).size then
        .caught
          ⟨"Storage write verification failed for " ++ key ++ ": expected " ++
              toString (chunkBytes rows).size ++
              " bytes, storage reports " ++ toString body.size,
            500, "STORAGE_WRITE_MISMATCH", none⟩
      else .commitBatch run rows batchLastId

/-- The transaction that records a batch. -/
def commitStep (world : World) (run : Progress) (rows : List ExportableRow)
    (batchLastId : Int) : World × RunPc :=
  match world.commitBatch
      { batchNumber := run.batchNumber
        lastRecordId := batchLastId
        rowsWritten := rows.length }
      (run.exportedRowCount + rows.length) with
  | none =>
      (world, .caught
        ⟨"Unique constraint failed on the fields: " ++
            "(`export_job_id`,`batch_number`)", 500, "P2002", none⟩)
  | some next => (next, .loopTop (run.advance rows batchLastId))

/-- The cross-check of the checkpoint log after the loop. -/
def finalStep (env : Env) (world : World) (run : Progress) : RunPc :=
  match loadResumeState env.exportJobId world.checkpoints with
  | .error error => .caught error
  | .ok finalState =>
      if finalState.rowsWritten ≠ run.job.requestedRowLimit then
        .failWith run.exportedRowCount <|
          "Checkpoint log accounts for " ++ toString finalState.rowsWritten ++
            " rows, expected " ++ toString run.job.requestedRowLimit
      else .writeVerifying run finalState.checkpointCount

/-- The verdict on a file: parse it, count, judge. -/
def verifyBody (env : Env) (expectedRows snapshotMaxId fileBytes : Int)
    (body : Bytes) : Except AppError VerificationResult :=
  match env.csvParse body with
  | .error error => .error error
  | .ok records =>
      .ok (verificationResult expectedRows snapshotMaxId fileBytes
        (env.sha256 body) (verifyRecords snapshotMaxId records))

def outOfRange : AppError :=
  ⟨"Value out of range for the type: BIGINT", 500, "P2020", none⟩

/-- One call of `runExportJob`: its effect, and the call that follows.  `kept`
lists the keys a bulk delete reports errors for. -/
def runStep (env : Env) (kept : List String) (world : World) :
    RunPc → World × RunPc
  | .findJob => (world, afterFindJob env world)
  | .recordMissing reason =>
      (world.insertFailure
          { exportJobId := none
            errorType := "EXPORT_JOB_MISSING"
            errorMessage := slice reason 8000 },
        .returned (.skipped reason))
  | .cancelBeforeStart job =>
      (world.updateJob fun row =>
          { row with status := .cancelled, completedAt := some world.now },
        .returned (.cancelled job.exportedRowCount))
  | .claim job staleCutoff => claimStep env world job staleCutoff
  | .setStartedAt job =>
      (if world.job.any fun row => row.startedAt.isNone then
          world.updateJob fun row => { row with startedAt := some world.now }
        else world,
        .loadResume job)
  | .loadResume job =>
      (world,
        match loadResumeState env.exportJobId world.checkpoints with
        | .error error => .caught error
        | .ok resume => .readProgress job resume)
  | .readProgress job resume =>
      (world,
        if world.job.any fun row =>
            row.lastExportedId.getD 0 = resume.lastExportedId &&
              row.exportedRowCount = resume.rowsWritten then
          .loopTop (.start job resume)
        else .reconcile job resume)
  | .reconcile job resume =>
      (world.updateJob fun row =>
          { row with
            lastExportedId :=
              if resume.lastExportedId = 0 then none
              else some resume.lastExportedId
            exportedRowCount := resume.rowsWritten },
        .loopTop (.start job resume))
  | .pollCancel run =>
      (world,
        if world.job.any ExportJob.cancelRequested then .writeCancelled run
        else .fetchBatch run)
  | .writeCancelled run =>
      (world.updateJob fun row =>
          { row with status := .cancelled, completedAt := some world.now },
        .listChunks (.cancelled run.exportedRowCount) none 0)
  | .fetchBatch run =>
      let rows := fetchRecordBatch world.records run.lastExportedId
        run.job.snapshotMaxId run.limit
      (world,
        match rows.getLast? with
        | none => .failWith run.exportedRowCount (datasetExhausted run)
        | some last =>
            match bigInt last.id with
            | none =>
                .caught ⟨"Cannot convert " ++ last.id ++ " to a BigInt", 500,
                  "INTERNAL_ERROR", none⟩
            | some batchLastId => .putChunk run rows batchLastId)
  | .putChunk run rows batchLastId =>
      (world.putObject (chunkKey env.exportJobId run.batchNumber)
          (chunkBytes rows),
        .confirmChunk run rows batchLastId)
  | .confirmChunk run rows batchLastId =>
      (world, confirmStep env world run rows batchLastId)
  | .commitBatch run rows batchLastId => commitStep world run rows batchLastId
  | .loadFinal run => (world, finalStep env world run)
  | .writeVerifying run batchCount =>
      (world.updateJob fun row => { row with status := .verifying },
        .assembleFrom run batchCount 1 (utf8 csvHeader))
  | .readChunk run batchCount batchNumber assembled =>
      (world,
        match world.store.get? (chunkKey env.exportJobId batchNumber) with
        | none => .caught (noSuchKey (chunkKey env.exportJobId batchNumber))
        | some body =>
            .assembleFrom run batchCount (batchNumber + 1)
              (assembled ++ body))
  | .uploadFinal run assembled =>
      (world.putObject (finalKey env.exportJobId) assembled,
        .headAssembled run)
  | .headAssembled run =>
      (world,
        match world.store.get? (finalKey env.exportJobId) with
        | none => .caught (noSuchKey (finalKey env.exportJobId))
        | some body =>
            if body.size ≤ 0 then
              .caught <| exportIntegrityError <|
                "Assembled export " ++ env.exportJobId ++
                  " is empty in object storage (" ++ toString body.size ++
                  " bytes)"
            else .verifyHead run)
  | .verifyHead run =>
      (world,
        match world.store.get? (finalKey env.exportJobId) with
        | none => .caught (noSuchKey (finalKey env.exportJobId))
        | some body => .verifyRead run body.size)
  | .verifyRead run fileBytes =>
      (world,
        match world.store.get? (finalKey env.exportJobId) with
        | none => .caught (noSuchKey (finalKey env.exportJobId))
        | some body =>
            match verifyBody env run.job.requestedRowLimit
                run.job.snapshotMaxId fileBytes body with
            | .error error => .caught error
            | .ok result => .saveVerification run result)
  | .saveVerification run result =>
      if result.storable then
        (world.insertVerification result.toRow,
          if result.passed then .writeCompleted run
          else
            .writeFileKey run
              ("Verification failed: " ++ result.failureReason.getD "null"))
      else (world, .caught outOfRange)
  | .writeFileKey run reason =>
      (world.updateJob fun row =>
          { row with fileKey := some (finalKey env.exportJobId) },
        .failWith run.exportedRowCount reason)
  | .writeCompleted run =>
      (world.updateJob fun row =>
          { row with
            status := .completed
            fileKey := some (finalKey env.exportJobId)
            fileUrl := some ("/api/exports/" ++ env.exportJobId ++ "/download")
            completedAt := some world.now
            errorMessage := none
            failedAt := none },
        .listChunks (.completed run.exportedRowCount) none 0)
  | .listChunks outcome token deleted =>
      let listed :=
        world.store.listObjectsV2 (chunkPrefix env.exportJobId) token
      let next :=
        if listed.isTruncated then listed.nextContinuationToken else none
      (world,
        if listed.contents.length > 0 then
          .deletePage outcome listed.contents next deleted
        else .nextPage outcome next deleted)
  | .deletePage outcome keys token deleted =>
      (world.deleteObjects keys kept,
        .nextPage outcome token (deleted + keys.length))
  | .failJob reason error exit =>
      (world.updateJob fun row =>
          { row with
            status := .failed
            failedAt := some world.now
            errorMessage := some (slice reason 4000) },
        .recordFailure error exit)
  | .recordFailure error exit =>
      (world.insertFailure
          { exportJobId := some env.exportJobId
            errorType := "EXPORT_RUN_FAILED"
            errorMessage := slice error.message 8000 },
        .exitWith exit)
  | .returned outcome => (world, .returned outcome)
  | .threw error => (world, .threw error)
  | .crashed => (world, .crashed)

/-- What can go wrong with one call: it is refused without effect, its effect
happens but the answer is lost, or a bulk delete keeps some keys and says so
in an answer that still counts as success. -/
inductive Fault where
  | none
  | refused (message : String)
  | lost (message : String)
  | keeping (keys : List String)
  deriving DecidableEq, Repr

def Fault.fails : Fault → Bool
  | .refused _ => true
  | .lost _ => true
  | _ => false

/-- The call takes effect, with or without an answer. -/
def Fault.lands : Fault → Bool
  | .refused _ => false
  | _ => true

def callError (message : String) : AppError :=
  ⟨message, 500, "INTERNAL_ERROR", none⟩

def runCall (env : Env) (world : World) (pc : RunPc) :
    Fault → World × RunPc
  | .none => runStep env [] world pc
  | .keeping kept => runStep env kept world pc
  | .refused message => (world, pc.onError (callError message))
  | .lost message =>
      ((runStep env [] world pc).1, pc.onError (callError message))

end ExportVault
