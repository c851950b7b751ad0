import ExportVault.Commands
import ExportVault.Projection

/-!
# The installation

All exports at once: one database, one queue and one bucket, any number of
runs and commands on any exports, and sweeps that go through all of them
(`sweepStalledExports` of `server/src/services/stalledJobs.service.ts`).  A
process that works on one export acts as the system of that export says, on
the rows of the export and on the whole bucket.
-/

namespace ExportVault

open Interleaving

structure ExportRows where
  job : Option ExportJob := none
  checkpoints : List ExportCheckpoint := []
  failures : List ExportFailure := []
  verifications : List ExportVerification := []

/-- The database, the queue and the bucket; `ids` are the keys of
`export_jobs`.  The queue knows an export by the text it was enqueued
under. -/
structure Installation where
  now : Int
  records : RecordTable
  ids : List String := []
  rows : String → ExportRows := fun _ => {}
  queue : String → Option QueueEntry := fun _ => none
  store : ObjectStore := ⟨[]⟩

def Env.forExport (env : Env) (exportJobId : String) : Env :=
  { env with exportJobId := exportJobId }

def World.exportRows (world : World) : ExportRows where
  job := world.job
  checkpoints := world.checkpoints
  failures := world.failures
  verifications := world.verifications

namespace Installation

/-- What a process reads that names an export by the given text: the rows of
the id that the text stands for, the queue entry under the text, and the
bucket. -/
def view (installation : Installation) (exportJobId : String) : World :=
  let rows := installation.rows (canonical exportJobId)
  { now := installation.now
    records := installation.records
    job := rows.job
    checkpoints := rows.checkpoints
    failures := rows.failures
    verifications := rows.verifications
    store := installation.store
    entry := installation.queue exportJobId }

/-- The installation after a statement of such a process. -/
def absorb (installation : Installation) (exportJobId : String)
    (after : World) : Installation :=
  let id := canonical exportJobId
  { installation with
    ids :=
      if (installation.rows id).job.isNone && after.job.isSome then
        installation.ids ++ [id]
      else installation.ids
    rows := Function.update installation.rows id after.exportRows
    queue := Function.update installation.queue exportJobId after.entry
    store := after.store }

/-- The exports `findMany` of a sweep selects. -/
def stalledIds (installation : Installation) (cutoff : Int) : List String :=
  installation.ids.filter fun exportJobId =>
    (installation.rows exportJobId).job.any (stalled cutoff)

end Installation

/-- The next statement of `sweepStalledExports`: `visit` is inside the loop,
with the ids and messages of the exports that follow. -/
inductive SweeperPc where
  | findStalled (cutoff : Int)
  | visit (cutoff : Int) (count : Nat) (exportJobId : String) (pc : SweepPc)
      (rest : List (String × String))
  | returned (count : Nat)
  | threw (error : AppError)
  deriving DecidableEq

def SweeperPc.loopTop (cutoff : Int) (count : Nat) :
    List (String × String) → SweeperPc
  | [] => .returned count
  | (exportJobId, message) :: rest =>
      .visit cutoff count exportJobId (.markInterrupted cutoff message) rest

/-- The rows `findMany` answers, with the messages the loop makes of them. -/
def Installation.scanned (installation : Installation)
    (order : List String) : List (String × String) :=
  order.filterMap fun exportJobId =>
    (installation.rows exportJobId).job.map fun job =>
      (exportJobId, stalledMessage job)

/-- The answer of `findMany`, in the order the database gives. -/
def sweeperScan (installation : Installation) (cutoff : Int)
    (order : List String) : Option SweeperPc :=
  if order.Perm (installation.stalledIds cutoff) then
    some (.loopTop cutoff order.length (installation.scanned order))
  else none

/-- After a statement of the loop body. -/
def SweeperPc.goOn (cutoff : Int) (count : Nat) (exportJobId : String)
    (rest : List (String × String)) : SweepPc → SweeperPc
  | .ended => .loopTop cutoff count rest
  | pc => .visit cutoff count exportJobId pc rest

/-- The error a statement of the loop body ends the sweep with:
`recordExportFailure` swallows its own. -/
def SweepPc.throws : SweepPc → Fault → Option AppError
  | .recordStalled _, _ => none
  | _, .refused message => some (callError message)
  | _, .lost message => some (callError message)
  | _, _ => none

def sweeperCall (env : Env) (installation : Installation) :
    SweeperPc → Fault → Option (Installation × SweeperPc)
  | .findStalled _, .refused message =>
      some (installation, .threw (callError message))
  | .findStalled _, .lost message =>
      some (installation, .threw (callError message))
  | .visit cutoff count exportJobId pc rest, fault =>
      let result :=
        sweepCall (env.forExport exportJobId) (installation.view exportJobId)
          pc fault
      some (installation.absorb exportJobId result.1,
        match pc.throws fault with
        | some error => .threw error
        | none => .goOn cutoff count exportJobId rest result.2)
  | _, _ => none

/-- What a process is doing.  It names its export by the text it was given:
an API process by the parameter of the route, a worker by the data of the
queue entry. -/
inductive Activity where
  | idle
  | on (exportJobId : String) (proc : Proc)
  | sweep (pc : SweeperPc)

/-- A process that is idle again belongs to no export. -/
def Activity.of (exportJobId : String) : Proc → Activity
  | .idle => .idle
  | proc => .on exportJobId proc

inductive Move where
  /-- An idle process turns to an export. -/
  | take (exportJobId : String) (action : Action)
  | go (action : Action)
  | beginSweep
  /-- The first query of a sweep answers, in the given order. -/
  | scan (order : List String)
  deriving DecidableEq, Repr

/-- What an idle process may turn to: a route accepts the text of any UUID, an
export that is created gets a new id in lower case, and a sweep is for no
single export. -/
def Action.accepts (exportJobId : String) : Action → Bool
  | .beginSweep => false
  | .request (.create _ _) =>
      isUuid exportJobId && canonical exportJobId = exportJobId
  | _ => isUuid exportJobId

namespace Installation

/-- A statement of a process that works on one export. -/
def actOn (env : Env) (index : Nat) (installation : Installation)
    (exportJobId : String) (proc : Proc) (action : Action) :
    Option (Installation × Activity) :=
  (ExportVault.act (env.forExport exportJobId) index
      (installation.view exportJobId) proc action).map fun result =>
    (installation.absorb exportJobId result.1, .of exportJobId result.2)

/-- What one process does next. -/
def act (env : Env) (index : Nat) (installation : Installation) :
    Activity → Move → Option (Installation × Activity)
  | .idle, .take exportJobId action =>
      if action.accepts exportJobId then
        installation.actOn env index exportJobId .idle action
      else none
  | .on exportJobId proc, .go action =>
      installation.actOn env index exportJobId proc action
  | .idle, .beginSweep =>
      some (installation, .sweep (.findStalled
        (installation.now - env.stallTimeoutSeconds * 1000)))
  | .sweep (.findStalled cutoff), .scan order =>
      (sweeperScan installation cutoff order).map fun pc =>
        (installation, .sweep pc)
  | .sweep pc, .go (.call fault) =>
      (sweeperCall env installation pc fault).map fun result =>
        (result.1, .sweep result.2)
  | .sweep _, .go .crash =>
      some (installation, .sweep (.threw (callError "crashed")))
  | _, _ => none

def change (installation : Installation) : Change → Installation
  | .tick milliseconds =>
      { installation with now := installation.now + milliseconds }
  | .setRecords table => { installation with records := table }

def network (env : Env) : Network Installation Activity Move Change where
  act := act env
  env installation change := some (installation.change change)

end Installation

def installationMachine (env : Env) :
    Machine (Config Installation Activity) (Event Move Change) :=
  (Installation.network env).machine

/-- Nothing has been exported yet. -/
structure Unexported (config : Config Installation Activity) : Prop where
  noIds : config.shared.ids = []
  noRows : ∀ id, config.shared.rows id = {}
  noEntries : ∀ exportJobId, config.shared.queue exportJobId = none
  noObjects : ∀ key, hasPrefix "exports/" key = true →
    config.shared.store.get? key = none
  idle : ∀ index, config.procs index = .idle

/-- A condition on the steps of a history of the installation. -/
abbrev InstallationCondition :=
  Config Installation Activity → Event Move Change → Prop

/-- Any history of the installation at all. -/
def AnyMove : InstallationCondition := fun _ _ => True

/-- The action hands the text of an export to the queue, or comes from there
without an entry. -/
def Action.enqueues : Action → Bool
  | .start => true
  | .request (.resume _) => true
  | _ => false

/-- Every resume of the export, and every run of it that begins without a
queue entry, names it by its id and not by another spelling of it. -/
def SameSpelling (id : String) : InstallationCondition := fun _ event =>
  match event with
  | .act _ (.take exportJobId action) =>
      canonical exportJobId = id → action.enqueues = true → exportJobId = id
  | _ => True

/-- Every process names its export in lower case. -/
def NamesExports : InstallationCondition := fun _ event =>
  match event with
  | .act _ (.take exportJobId _) =>
      isUuid exportJobId = true ∧ canonical exportJobId = exportJobId
  | _ => True

theorem sameSpelling_of_namesExports {id : String}
    {config : Config Installation Activity} {event : Event Move Change}
    (named : NamesExports config event) : SameSpelling id config event := by
  cases event with
  | act index move =>
      cases move with
      | take exportJobId action => exact fun same _ => named.2.symm.trans same
      | _ => trivial
  | env => trivial

end ExportVault
