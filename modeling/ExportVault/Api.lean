import ExportVault.Runner

/-!
# The API and the sweeper

The commands of `server/src/services/export.service.ts`,
`server/src/queues/export.queue.ts` and `verifyExportJobById`, and the sweeper
of `server/src/services/stalledJobs.service.ts`, one database, queue or
storage call at a time.  Waking the worker service has no effect on the shared
state and is left out.
-/

namespace ExportVault

def resumableForUser : List ExportStatus :=
  [.interrupted, .failed, .pending, .queued, .resuming]

def cancellable : List ExportStatus :=
  [.pending, .queued, .running, .resuming, .interrupted]

def maxRowLimit : Int := 50000

/-- What a command answers. -/
inductive ApiReply where
  | job (row : ExportJob)
  | verification (job : ExportJob) (row : Option ExportVerification)
      (recomputed : Bool)
  | download (url filename : String) (expiresInSeconds fileBytes : Int)
      (sha256 : String)
  deriving DecidableEq, Repr

inductive Request where
  | create (userId : String) (rowLimit : Int)
  | resume (userId : String)
  | cancel (userId : String)
  | verify (userId : String)
  | download (userId : String)
  deriving DecidableEq, Repr

/-- The command that called `enqueueExportJob`. -/
inductive EnqueueCaller where
  | create
  | resume (updated : ExportJob)
  deriving DecidableEq, Repr

/-- The next database, queue or storage call of a command. -/
inductive ApiPc where
  | captureSnapshot (userId : String) (rowLimit : Int)
  | countRecords (userId : String) (rowLimit snapshotMaxId : Int)
  | insertJob (userId : String) (rowLimit snapshotMaxId : Int)
  | getJob (caller : EnqueueCaller)
  | getState (caller : EnqueueCaller)
  | remove (caller : EnqueueCaller)
  | add (caller : EnqueueCaller)
  | writeQueued
  | findForResume (userId : String)
  | countCheckpoints
  | writeResuming
  | findForCancel (userId : String)
  | writeCancel (job : ExportJob)
  | findForVerifyOwner (userId : String)
  | findForVerify
  | latestForVerify (job : ExportJob)
  | verifyHead (job : ExportJob) (fileKey : String)
  | verifyRead (job : ExportJob) (fileKey : String) (fileBytes : Int)
  | saveVerification (job : ExportJob) (result : VerificationResult)
  | findForDownload (userId : String)
  | latestForDownload (fileKey : String)
  | returned (reply : ApiReply)
  | threw (error : AppError)
  | crashed
  deriving DecidableEq

namespace ApiPc

/-- The command is over. -/
def ended : ApiPc → Bool
  | returned _ => true
  | threw _ => true
  | crashed => true
  | _ => false

/-- What follows `enqueueExportJob`. -/
def afterEnqueue : EnqueueCaller → ApiPc
  | .create => .writeQueued
  | .resume updated => .returned (.job updated)

end ApiPc

/-- The checks a command makes before its first call. -/
def Request.begin : Request → ApiPc
  | .create userId rowLimit =>
      if rowLimit ≤ 0 then
        .threw (validationError "rowLimit must be a positive integer")
      else if maxRowLimit < rowLimit then
        .threw (validationError ("rowLimit may not exceed " ++
            toString maxRowLimit ++ " in this application")
          (some (.fields [("maxRowLimit", .num maxRowLimit)])))
      else .captureSnapshot userId rowLimit
  | .resume userId => .findForResume userId
  | .cancel userId => .findForCancel userId
  | .verify userId => .findForVerifyOwner userId
  | .download userId => .findForDownload userId

def exportNotFound : AppError :=
  notFoundError "Export job not found"

/-- `getOwnedExportJob`: somebody else's export is answered as one that does
not exist. -/
def getOwnedExportJob (world : World) (userId : String)
    (next : ExportJob → ApiPc) : ApiPc :=
  match world.job with
  | none => .threw exportNotFound
  | some job =>
      if job.userId ≠ userId then .threw exportNotFound else next job

/-- The row `createExportJob` inserts; the other columns have their
defaults. -/
def newExportJob (env : Env) (world : World) (userId : String)
    (rowLimit snapshotMaxId : Int) : ExportJob where
  userId := userId
  status := .pending
  snapshotMaxId := snapshotMaxId
  requestedRowLimit := rowLimit
  batchSize := env.exportBatchSize
  updatedAt := world.now

def afterFindForResume (job : ExportJob) : ApiPc :=
  if job.status = .completed then
    .threw (conflictError "Export already completed; nothing to resume")
  else if job.status = .cancelled then
    .threw (conflictError "Export was cancelled and cannot be resumed")
  else if !resumableForUser.contains job.status then
    .threw (conflictError
      ("Export cannot be resumed while it is " ++ job.status.name))
  else .countCheckpoints

def afterFindForCancel (job : ExportJob) : ApiPc :=
  if job.status = .completed then
    .threw
      (conflictError "Export already completed and cannot be cancelled")
  else if job.status = .cancelled then .returned (.job job)
  else if !cancellable.contains job.status then
    .threw (conflictError
      ("Export cannot be cancelled while it is " ++ job.status.name))
  else .writeCancel job

def cancelChange (now : Int) (job row : ExportJob) : ExportJob :=
  if job.status = .running then { row with cancelRequested := true }
  else
    { row with
      cancelRequested := true
      status := .cancelled
      completedAt := some now }

def resumeChange (row : ExportJob) : ExportJob :=
  { row with
    status := .resuming
    errorMessage := none
    failedAt := none
    cancelRequested := false }

def returnJob (world : World) (next : ExportJob → ApiPc) : ApiPc :=
  match world.job with
  | none => .threw ⟨"Record to update not found", 500, "P2025", none⟩
  | some job => next job

def afterFindForDownload (job : ExportJob) : ApiPc :=
  if job.status ≠ .completed then
    .threw (conflictError ("Export is " ++ job.status.name ++
        "; only COMPLETED exports can be downloaded")
      (some (.fields [("status", .str job.status.name)])))
  else
    match job.fileKey with
    | none =>
        .threw (conflictError
          "Export is marked completed but has no stored file key")
    | some fileKey =>
        if fileKey = "" then
          .threw (conflictError
            "Export is marked completed but has no stored file key")
        else .latestForDownload fileKey

def afterLatestForDownload (env : Env) (fileKey : String)
    (latest : Option ExportVerification) : ApiPc :=
  match latest with
  | none =>
      .threw (forbiddenError
        "Export has not passed verification and cannot be downloaded")
  | some verification =>
      if !verification.passed then
        .threw (forbiddenError
          "Export has not passed verification and cannot be downloaded")
      else
        let filename := "export-" ++ env.exportJobId ++ ".csv"
        .returned (.download (env.signedUrl fileKey filename) filename
          env.signedUrlTtl verification.fileBytes verification.sha256)

/-- One call of a command: its effect, and the call that follows. -/
def apiStep (env : Env) (world : World) : ApiPc → World × ApiPc
  | .captureSnapshot userId rowLimit =>
      (world, .countRecords userId rowLimit
        (captureSnapshotMaxId world.records))
  | .countRecords userId rowLimit snapshotMaxId =>
      let availableRows :=
        countRecordsWithinSnapshot world.records snapshotMaxId
      (world,
        if availableRows < rowLimit then
          .threw (conflictError
            ("Only " ++ toString availableRows ++
              " records exist at or below the snapshot boundary (" ++
              toString snapshotMaxId ++ "); " ++ toString rowLimit ++
              " were requested")
            (some (.fields
              [("availableRows", .num availableRows),
                ("requestedRowLimit", .num rowLimit),
                ("snapshotMaxId", .str (toString snapshotMaxId))])))
        else .insertJob userId rowLimit snapshotMaxId)
  | .insertJob userId rowLimit snapshotMaxId =>
      match world.job with
      | some _ =>
          (world, .threw
            ⟨"Unique constraint failed on the fields: (`id`)", 500,
              "P2002", none⟩)
      | none =>
          ({ world with
              job := some
                (newExportJob env world userId rowLimit snapshotMaxId) },
            .getJob .create)
  | .getJob caller =>
      (world,
        match world.entry with
        | none => .add caller
        | some _ => .getState caller)
  | .getState caller =>
      (world,
        match world.entry with
        | some ⟨.active _, _, _⟩ => .afterEnqueue caller
        | _ => .remove caller)
  | .remove caller =>
      match world.entry with
      | some ⟨.active _, _, _⟩ =>
          (world, .threw
            ⟨"Job " ++ env.exportJobId ++ " could not be removed because " ++
              "it is locked by another worker", 500, "INTERNAL_ERROR", none⟩)
      | _ => (world.setEntry none, .add caller)
  | .add caller =>
      (match world.entry with
        | none => world.setEntry (some {})
        | some _ => world,
        .afterEnqueue caller)
  | .writeQueued =>
      let next := world.updateJob fun row => { row with status := .queued }
      (next, returnJob next fun job => .returned (.job job))
  | .findForResume userId =>
      (world, getOwnedExportJob world userId afterFindForResume)
  | .countCheckpoints => (world, .writeResuming)
  | .writeResuming =>
      let next := world.updateJob resumeChange
      (next, returnJob next fun job => .getJob (.resume job))
  | .findForCancel userId =>
      (world, getOwnedExportJob world userId afterFindForCancel)
  | .writeCancel job =>
      let next := world.updateJob (cancelChange world.now job)
      (next, returnJob next fun row => .returned (.job row))
  | .findForVerifyOwner userId =>
      (world, getOwnedExportJob world userId fun _ => .findForVerify)
  | .findForVerify =>
      (world,
        match world.job with
        | none => .threw exportNotFound
        | some job =>
            match job.fileKey with
            | none => .latestForVerify job
            | some fileKey =>
                if fileKey = "" then .latestForVerify job
                else .verifyHead job fileKey)
  | .latestForVerify job =>
      (world, .returned (.verification job world.latestVerification false))
  | .verifyHead job fileKey =>
      (world,
        match world.store.get? fileKey with
        | none => .threw (noSuchKey fileKey)
        | some body => .verifyRead job fileKey body.size)
  | .verifyRead job fileKey fileBytes =>
      (world,
        match world.store.get? fileKey with
        | none => .threw (noSuchKey fileKey)
        | some body =>
            match verifyBody env job.requestedRowLimit job.snapshotMaxId
                fileBytes body with
            | .error error => .threw error
            | .ok result => .saveVerification job result)
  | .saveVerification job result =>
      if result.storable then
        (world.insertVerification result.toRow,
          .returned (.verification job (some result.toRow) true))
      else (world, .threw outOfRange)
  | .findForDownload userId =>
      (world, getOwnedExportJob world userId afterFindForDownload)
  | .latestForDownload fileKey =>
      (world, afterLatestForDownload env fileKey world.latestVerification)
  | .returned reply => (world, .returned reply)
  | .threw error => (world, .threw error)
  | .crashed => (world, .crashed)

/-- One call of a command under a fault: a command has no `catch` block. -/
def apiCall (env : Env) (world : World) (pc : ApiPc) : Fault → World × ApiPc
  | .refused message => (world, .threw (callError message))
  | .lost message =>
      ((apiStep env world pc).1, .threw (callError message))
  | _ => apiStep env world pc

inductive SweepPc where
  | findStalled (cutoff : Int)
  | markInterrupted (cutoff : Int) (message : String)
  | recordStalled (message : String)
  | ended
  deriving DecidableEq

def stalledMessage (job : ExportJob) : String :=
  "Worker stopped responding after " ++ toString job.exportedRowCount ++ "/" ++
    toString job.requestedRowLimit ++ " rows (no heartbeat since " ++
    toISOString job.updatedAt ++
    "). Export marked INTERRUPTED and can be resumed."

/-- `RUNNING` with a heartbeat older than the cutoff. -/
def stalled (cutoff : Int) (job : ExportJob) : Bool :=
  job.status = .running && decide (job.updatedAt < cutoff)

def sweepStep (env : Env) (world : World) : SweepPc → World × SweepPc
  | .findStalled cutoff =>
      (world,
        match world.job with
        | none => .ended
        | some job =>
            if stalled cutoff job then
              .markInterrupted cutoff (stalledMessage job)
            else .ended)
  | .markInterrupted cutoff message =>
      -- a guarded update: a worker that came back to life is left alone
      if world.job.any (stalled cutoff) then
        (world.updateJob fun row =>
            { row with
              status := .interrupted
              errorMessage := some message },
          .recordStalled message)
      else (world, .ended)
  | .recordStalled message =>
      (world.insertFailure
          { exportJobId := some env.exportJobId
            errorType := "WORKER_STALLED"
            errorMessage := slice message 8000 },
        .ended)
  | .ended => (world, .ended)

def sweepCall (env : Env) (world : World) (pc : SweepPc) :
    Fault → World × SweepPc
  | .refused _ => (world, .ended)
  | .lost _ => ((sweepStep env world pc).1, .ended)
  | _ => sweepStep env world pc

end ExportVault
