import ExportVault.Deletion

/-!
# The vault of all users

The exports of all users side by side, and the eight operations of
`server/src/controllers/export.controller.ts` on them.  A command on one
export runs the statements of `apiStep` on the rows, the queue entry and the
objects its queries select (`Vault.world`), and its effect is written back
(`Vault.absorb`).
-/

namespace ExportVault

/-- A row with the id and the date the database gives it. -/
structure Stamped (α : Type) where
  id : String
  createdAt : Int
  row : α
  deriving DecidableEq, Repr

/-- A row of `export_jobs` with the rows that refer to it. -/
structure Export where
  id : String
  createdAt : Int
  job : ExportJob
  checkpoints : List ExportCheckpoint := []
  failures : List (Stamped ExportFailure) := []
  verifications : List (Stamped ExportVerification) := []
  deriving DecidableEq, Repr

/-- The id that the text of a UUID stands for: the database compares UUIDs,
the queue and the bucket compare texts. -/
def canonical (exportJobId : String) : String :=
  String.ofList (exportJobId.toList.map Char.toLower)

/-- The database, the queue and the bucket; `id` is the primary key. -/
structure Vault where
  records : RecordTable
  exports : List Export
  distinct : (exports.map Export.id).Nodup
  queue : String → Option QueueEntry
  store : ObjectStore

/-- The configuration of the API process; the percentage is a floating-point
computation. -/
structure Server where
  env : Env
  isProduction : Bool
  percentage : Int → Int → Int

/-- The requests of an authenticated user. -/
inductive Operation where
  | create (rowLimit : Option Int)
  | list
  | stats
  | detail (exportJobId : String)
  | resume (exportJobId : String)
  | cancel (exportJobId : String)
  | download (exportJobId : String)
  | verify (exportJobId : String)
  deriving DecidableEq, Repr

/-- A request with what it finds outside the vault: the time, its request id,
and the UUID, in lower case, generated for the row it inserts, if it inserts
one. -/
structure Call where
  operation : Operation
  now : Int
  requestId : String
  newId : String
  deriving DecidableEq, Repr

inductive Json where
  | null
  | bool (value : Bool)
  | num (value : Int)
  | str (value : String)
  | arr (items : List Json)
  | obj (fields : List (String × Json))

structure Response where
  statusCode : Nat
  body : Json

def Json.optional {α : Type} (render : α → Json) : Option α → Json
  | none => .null
  | some value => render value

def Json.date (time : Int) : Json :=
  .str (toISOString time)

/-- BigInt values are emitted as JSON numbers when they fit safely, else
strings. -/
def bigIntToJson : Option Int → Json
  | none => .null
  | some value =>
      if value ≤ 9007199254740991 then .num value else .str (toString value)

def serializeExportJob (server : Server) (exportJobId : String)
    (createdAt : Int) (job : ExportJob) : List (String × Json) :=
  let percentage :=
    if 0 < job.requestedRowLimit then
      server.percentage job.exportedRowCount job.requestedRowLimit
    else 0
  [("id", .str exportJobId),
    ("status", .str job.status.name),
    ("progress", .obj
      [("exportedRows", .num job.exportedRowCount),
        ("targetRows", .num job.requestedRowLimit),
        ("percentage", .num percentage)]),
    ("lastExportedId", bigIntToJson job.lastExportedId),
    ("snapshotMaxId", bigIntToJson (some job.snapshotMaxId)),
    ("requestedRowLimit", .num job.requestedRowLimit),
    ("exportedRowCount", .num job.exportedRowCount),
    ("batchSize", .num job.batchSize),
    ("fileKey", .optional .str job.fileKey),
    ("fileUrl", .optional .str job.fileUrl),
    ("cancelRequested", .bool job.cancelRequested),
    ("startedAt", .optional .date job.startedAt),
    ("completedAt", .optional .date job.completedAt),
    ("failedAt", .optional .date job.failedAt),
    ("errorMessage", .optional .str job.errorMessage),
    ("createdAt", .date createdAt),
    ("updatedAt", .date job.updatedAt)]

def Export.serialize (server : Server) (row : Export) : List (String × Json) :=
  serializeExportJob server row.id row.createdAt row.job

def passedText (passed : Bool) : Json :=
  .str (if passed then "PASSED" else "FAILED")

def serializeVerification (latest : Option (Stamped ExportVerification)) :
    Json :=
  .optional (fun stamped =>
    let v := stamped.row
    .obj
      [("expectedRows", .num v.expectedRows),
        ("actualRows", .num v.actualRows),
        ("uniqueRows", .num v.uniqueRows),
        ("duplicates", .num v.duplicates),
        ("minId", bigIntToJson v.minId),
        ("maxId", bigIntToJson v.maxId),
        ("outOfSnapshot", .num v.outOfSnapshot),
        ("headerValid", .bool v.headerValid),
        ("fileBytes", bigIntToJson (some v.fileBytes)),
        ("sha256", .str v.sha256),
        ("status", passedText v.passed),
        ("failureReason", .optional .str v.failureReason),
        ("verifiedAt", .date stamped.createdAt)]) latest

def serializeFailure (failure : Stamped ExportFailure) : Json :=
  .obj
    [("id", .str failure.id),
      ("errorType", .str failure.row.errorType),
      ("errorMessage", .str failure.row.errorMessage),
      ("createdAt", .date failure.createdAt)]

def Detail.json : Detail → Json
  | .num value => .num value
  | .str value => .str value

def ErrorDetails.json : ErrorDetails → Json
  | .fields entries => .obj (entries.map fun entry => (entry.1, entry.2.json))
  | .issues found =>
      .arr (found.map fun issue =>
        .obj [("field", .str issue.field), ("message", .str issue.message)])

def errorHandler (server : Server) (call : Call) (error : AppError) :
    Response where
  statusCode := error.statusCode
  body :=
    .obj
      [("success", .bool false),
        ("error", .obj
          ([("code", .str error.code),
            ("message", .str
              (if 500 ≤ error.statusCode && server.isProduction then
                "An internal error occurred. Reference the requestId when " ++
                  "reporting this."
              else error.message))] ++
            (error.details.map fun details =>
              ("details", details.json)).toList ++
            [("requestId", .str call.requestId),
              ("timestamp", .date call.now)]))]

def success (fields : List (String × Json)) : Response :=
  ⟨200, .obj (("success", .bool true) :: fields)⟩

/-- `orderBy: { createdAt: 'desc' }`. -/
def newestFirst {α : Type} (createdAt : α → Int) (rows : List α) : List α :=
  rows.insertionSort fun first second => createdAt second ≤ createdAt first

def Export.verificationLog (row : Export) : List (Stamped ExportVerification) :=
  row.verifications.insertionSort fun first second =>
    first.createdAt ≤ second.createdAt

/-- `getLatestVerification`. -/
def Export.latestVerification (row : Export) :
    Option (Stamped ExportVerification) :=
  row.verificationLog.getLast?

namespace Vault

/-- `findUnique({ where: { id } })`. -/
def find (vault : Vault) (exportJobId : String) : Option Export :=
  vault.exports.find? fun row => row.id = canonical exportJobId

/-- `findMany({ where: { userId } })`. -/
def owned (vault : Vault) (userId : String) : List Export :=
  vault.exports.filter fun row => row.job.userId = userId

/-- What the queries of a command on one export see. -/
def world (vault : Vault) (now : Int) (exportJobId : String) : World :=
  let row := vault.find exportJobId
  { now := now
    records := vault.records
    job := row.map Export.job
    checkpoints := (row.map Export.checkpoints).getD []
    failures := (row.map fun row => row.failures.map Stamped.row).getD []
    verifications :=
      (row.map fun row => row.verificationLog.map Stamped.row).getD []
    store := vault.store
    entry := vault.queue exportJobId }

def absorbRow (call : Call) (after : World) (row : Export) : Export :=
  { row with
    job := after.job.getD row.job
    verifications := row.verifications ++
      (after.verifications.drop row.verifications.length).map
        fun verification => ⟨call.newId, call.now, verification⟩ }

@[simp]
theorem absorbRow_id (call : Call) (after : World) (row : Export) :
    (absorbRow call after row).id = row.id :=
  rfl

def absorbRows (vault : Vault) (call : Call) (exportJobId : String)
    (after : World) : List Export :=
  match vault.find exportJobId with
  | some _ =>
      vault.exports.map fun row =>
        if row.id = canonical exportJobId then absorbRow call after row
        else row
  | none =>
      match after.job with
      | none => vault.exports
      | some job =>
          vault.exports ++
            [{ id := canonical exportJobId, createdAt := call.now, job := job }]

/-- The primary key stays one. -/
theorem distinct_absorbRows (vault : Vault) (call : Call)
    (exportJobId : String) (after : World) :
    ((vault.absorbRows call exportJobId after).map Export.id).Nodup := by
  rw [absorbRows]
  split
  · rw [List.map_map]
    have sameIds : (Export.id ∘ fun row =>
        if row.id = canonical exportJobId then absorbRow call after row
        else row) = Export.id := by
      funext row
      by_cases here : row.id = canonical exportJobId
      · simp [here]
      · simp [here]
    rw [sameIds]
    exact vault.distinct
  · next absent =>
      split
      · exact vault.distinct
      · rw [List.map_append, List.map_singleton]
        refine List.nodup_append.mpr ⟨vault.distinct,
          List.nodup_singleton _, ?_⟩
        rintro _ member _ last rfl
        obtain ⟨row, inside, same⟩ := List.mem_map.mp member
        rw [find, List.find?_eq_none] at absent
        exact absent row inside
          (by simpa [same] using List.mem_singleton.mp last)

/-- The vault after a command on one export. -/
def absorb (vault : Vault) (call : Call) (exportJobId : String)
    (after : World) : Vault where
  records := vault.records
  exports := vault.absorbRows call exportJobId after
  distinct := vault.distinct_absorbRows call exportJobId after
  queue := Function.update vault.queue exportJobId after.entry
  store := after.store

end Vault

def ApiPc.callsLeft : ApiPc → Nat
  | .captureSnapshot _ _ => 8
  | .countRecords _ _ _ => 7
  | .insertJob _ _ _ => 6
  | .getJob .create => 5
  | .getState .create => 4
  | .remove .create => 3
  | .add .create => 2
  | .writeQueued => 1
  | .findForResume _ => 7
  | .countCheckpoints => 6
  | .writeResuming => 5
  | .getJob (.resume _) => 4
  | .getState (.resume _) => 3
  | .remove (.resume _) => 2
  | .add (.resume _) => 1
  | .findForCancel _ => 2
  | .writeCancel _ => 1
  | .findForVerifyOwner _ => 5
  | .findForVerify => 4
  | .verifyHead _ _ => 3
  | .verifyRead _ _ _ => 2
  | .saveVerification _ _ => 1
  | .latestForVerify _ => 1
  | .findForDownload _ => 2
  | .latestForDownload _ => 1
  | .returned _ => 0
  | .threw _ => 0
  | .crashed => 0

def runCommand (env : Env) : Nat → World → ApiPc → World × ApiPc
  | 0, world, pc => (world, pc)
  | calls + 1, world, pc =>
      if pc.ended then (world, pc)
      else
        runCommand env calls (apiStep env world pc).1 (apiStep env world pc).2

/-- What a command that has ended answers. -/
def ApiPc.outcome : ApiPc → Except AppError ApiReply
  | .returned reply => .ok reply
  | .threw error => .error error
  | _ => .error ⟨"The command has not ended", 500, "INTERNAL_ERROR", none⟩

def Vault.command (server : Server) (vault : Vault) (call : Call)
    (exportJobId : String) (request : Request) :
    Vault × Except AppError ApiReply :=
  let env := { server.env with exportJobId := exportJobId }
  let result := runCommand env request.begin.callsLeft
    (vault.world call.now exportJobId) request.begin
  (vault.absorb call exportJobId result.1, result.2.outcome)

def exportReply (server : Server) (vault : Vault) (call : Call)
    (exportJobId : String) (job : ExportJob) : Json :=
  .obj <| serializeExportJob server (canonical exportJobId)
    (((vault.find exportJobId).map Export.createdAt).getD call.now) job

def verifyReply (job : ExportJob) (row : Option ExportVerification)
    (recomputed : Bool) : Response :=
  match row with
  | none =>
      success
        [("verification", .null),
          ("message", .str ("Export is " ++ job.status.name ++
            "; no CSV has been produced yet, so there is nothing to verify."))]
  | some v =>
      success
        [("recomputed", .bool recomputed),
          ("verification", .obj
            [("expectedRows", .num v.expectedRows),
              ("actualRows", .num v.actualRows),
              ("uniqueRows", .num v.uniqueRows),
              ("duplicates", .num v.duplicates),
              ("outOfSnapshot", .num v.outOfSnapshot),
              ("headerValid", .bool v.headerValid),
              ("minId", bigIntToJson v.minId),
              ("maxId", bigIntToJson v.maxId),
              ("fileBytes", bigIntToJson (some v.fileBytes)),
              ("sha256", .str v.sha256),
              ("failureReason", .optional .str v.failureReason),
              ("status", passedText v.passed)])]

/-- The controllers' answer to what a command returns. -/
def replyResponse (server : Server) (vault : Vault) (call : Call)
    (statusCode : Nat) (exportJobId : String) : ApiReply → Response
  | .job job =>
      ⟨statusCode, .obj
        [("success", .bool true),
          ("export", exportReply server vault call exportJobId job)]⟩
  | .verification job row recomputed => verifyReply job row recomputed
  | .download url filename expiresInSeconds fileBytes sha256 =>
      success
        [("download", .obj
          [("url", .str url),
            ("filename", .str filename),
            ("expiresInSeconds", .num expiresInSeconds),
            ("fileBytes", bigIntToJson (some fileBytes)),
            ("sha256", .str sha256)])]

def Vault.serveCommand (server : Server) (vault : Vault) (call : Call)
    (statusCode : Nat) (exportJobId : String) (request : Request) :
    Vault × Response :=
  let result := vault.command server call exportJobId request
  (result.1,
    match result.2 with
    | .error error => errorHandler server call error
    | .ok reply =>
        replyResponse server result.1 call statusCode exportJobId reply)

/-- `GET /api/exports`. -/
def Vault.list (server : Server) (vault : Vault) (userId : String) :
    Response :=
  let jobs := (newestFirst Export.createdAt (vault.owned userId)).take 100
  success
    [("exports", .arr (jobs.map fun row =>
      .obj (row.serialize server ++
        [("verification",
          serializeVerification row.latestVerification)])))]

def countStatus (rows : List Export) (status : ExportStatus) : Nat :=
  rows.countP fun row => row.job.status = status

def allStatuses : List ExportStatus :=
  [.pending, .queued, .running, .interrupted, .resuming, .verifying,
    .completed, .failed, .cancelled]

/-- `GET /api/exports/stats`. -/
def Vault.stats (server : Server) (vault : Vault) (userId : String) :
    Response :=
  let rows := vault.owned userId
  let count := countStatus rows
  let grouped := allStatuses.filter fun status => 0 < count status
  let completed := rows.filter fun row => row.job.status = .completed
  success
    [("stats", .obj
      [("total", .num rows.length),
        ("completed", .num (count .completed)),
        ("failed", .num (count .failed)),
        ("running", .num (count .running + count .queued + count .resuming +
          count .verifying + count .pending : Nat)),
        ("interrupted", .num (count .interrupted)),
        ("cancelled", .num (count .cancelled)),
        ("totalRowsExported",
          .num (completed.map fun row => row.job.exportedRowCount).sum),
        ("byStatus", .obj (grouped.map fun status =>
          (status.name, .num (count status)))),
        ("latest", .optional (fun row => .obj (row.serialize server))
          (newestFirst Export.createdAt rows).head?)])]

/-- `GET /api/exports/:id`. -/
def Vault.detail (server : Server) (vault : Vault) (call : Call)
    (userId exportJobId : String) : Response :=
  match vault.find exportJobId with
  | none => errorHandler server call exportNotFound
  | some row =>
      if row.job.userId ≠ userId then errorHandler server call exportNotFound
      else
        success (row.serialize server ++
          [("checkpointCount", .num row.checkpoints.length),
            ("verification", serializeVerification row.latestVerification),
            ("failures", .arr
              (((newestFirst Stamped.createdAt row.failures).take 10).map
                serializeFailure))])

/-! ## The routes -/

/-- What `exportIdParamSchema` refuses. -/
def invalidParams : AppError :=
  validationError "Request parameters failed validation"
    (some (.issues [⟨"id", "Export id must be a UUID"⟩]))

/-- What `createExportSchema` refuses. -/
def invalidBody (rowLimit : Int) : AppError :=
  validationError "Request body failed validation"
    (some (.issues
      [⟨"rowLimit",
        if rowLimit ≤ 0 then "rowLimit must be positive"
        else "rowLimit may not exceed " ++ toString maxRowLimit⟩]))

/-- One request of a user: the validation of the route, then the
controller. -/
def Vault.serve (server : Server) (userId : String) (vault : Vault)
    (call : Call) : Vault × Response :=
  let withId := fun (exportJobId : String) (handler : Vault × Response) =>
    if isUuid exportJobId then handler
    else (vault, errorHandler server call invalidParams)
  match call.operation with
  | .create rowLimit =>
      let rowLimit := rowLimit.getD maxRowLimit
      if rowLimit ≤ 0 ∨ maxRowLimit < rowLimit then
        (vault, errorHandler server call (invalidBody rowLimit))
      else
        vault.serveCommand server call 201 call.newId
          (.create userId rowLimit)
  | .list => (vault, vault.list server userId)
  | .stats => (vault, vault.stats server userId)
  | .detail exportJobId =>
      withId exportJobId
        (vault, vault.detail server call userId exportJobId)
  | .resume exportJobId =>
      withId exportJobId
        (vault.serveCommand server call 200 exportJobId (.resume userId))
  | .cancel exportJobId =>
      withId exportJobId
        (vault.serveCommand server call 200 exportJobId (.cancel userId))
  | .download exportJobId =>
      withId exportJobId
        (vault.serveCommand server call 200 exportJobId (.download userId))
  | .verify exportJobId =>
      withId exportJobId
        (vault.serveCommand server call 200 exportJobId (.verify userId))

/-- A sequence of requests of a user, with the answers. -/
def Vault.serveAll (server : Server) (userId : String) :
    Vault → List Call → Vault × List Response
  | vault, [] => (vault, [])
  | vault, call :: calls =>
      let result := vault.serve server userId call
      let rest := Vault.serveAll server userId result.1 calls
      (rest.1, result.2 :: rest.2)

end ExportVault
