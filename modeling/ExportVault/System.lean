import ExportVault.Api
import ExportVault.Interleaving

/-!
# The system

All processes that work on one export: runs on the workers that received it
from the queue, API commands and sweeps, interleaved one statement at a time.
A process can crash between any two statements and any call can fail.  The
clock and the records table change from outside.
-/

namespace ExportVault

open Interleaving

inductive Proc where
  | idle
  | run (pc : RunPc)
  | api (pc : ApiPc)
  | sweep (pc : SweepPc)
  /-- The `failed` handler of `createExportWorker`. -/
  | queueFailed (error : AppError)

inductive Action where
  /-- A delivery of the export, however the queue came to make it. -/
  | start
  /-- A delivery of the queue entry. -/
  | deliver
  | request (request : Request)
  | beginSweep
  | call (fault : Fault)
  | crash
  /-- The queue records how the processor of its active entry ended. -/
  | settle
  /-- The lock of the active entry expires. -/
  | stall
  deriving DecidableEq, Repr

inductive Change where
  | tick (milliseconds : Nat)
  | setRecords (table : RecordTable)

/-- `attempts` of `defaultJobOptions`. -/
def queueAttempts : Nat := 3

/-- `maxStalledCount` of the worker. -/
def maxStalledCount : Nat := 3

def QueueEntry.afterThrow (entry : QueueEntry) : QueueEntry :=
  { entry with
    state :=
      if entry.attemptsMade + 1 < queueAttempts then .delayed else .failed
    attemptsMade := entry.attemptsMade + 1 }

def QueueEntry.afterStall (entry : QueueEntry) : QueueEntry :=
  { entry with
    state :=
      if maxStalledCount < entry.stalledCounter + 1 then .failed
      else .waiting
    stalledCounter := entry.stalledCounter + 1 }

def World.heldEntry (world : World) (holder : Nat) : Option QueueEntry :=
  world.entry.filter fun entry => entry.state = .active holder

def World.readyEntry (world : World) : Option QueueEntry :=
  world.entry.filter fun entry =>
    entry.state = .waiting || entry.state = .delayed

def queueMove (world : World) (index : Nat) (pc : RunPc) :
    Action → Option (World × Proc)
  | .settle =>
      match pc with
      | .returned outcome =>
          (world.heldEntry index).map fun entry =>
            (world.setEntry (some { entry with state := .completed }),
              .run (.returned outcome))
      | .threw error =>
          (world.heldEntry index).map fun entry =>
            (world.setEntry (some entry.afterThrow), .queueFailed error)
      | _ => none
  | .stall =>
      match pc with
      | .returned _ => none
      | .threw _ => none
      | pc =>
          (world.heldEntry index).map fun entry =>
            (world.setEntry (some entry.afterStall), .run pc)
  | _ => none

/-- What one process does next. -/
def act (env : Env) (index : Nat) (world : World) :
    Proc → Action → Option (World × Proc)
  | .idle, .start => some (world, .run .findJob)
  | .idle, .deliver =>
      world.readyEntry.map fun entry =>
        (world.setEntry (some { entry with state := .active index }),
          .run .findJob)
  | .idle, .request request => some (world, .api request.begin)
  | .idle, .beginSweep =>
      some (world, .sweep (.findStalled (env.staleCutoff world)))
  | .run pc, .call fault =>
      if pc.ended then none
      else
        match runCall env world pc fault with
        | (after, next) => some (after, .run next)
  | .run pc, .crash =>
      if pc.ended then none else some (world, .run .crashed)
  | .run pc, action => queueMove world index pc action
  | .api pc, .call fault =>
      if pc.ended then none
      else
        match apiCall env world pc fault with
        | (after, next) => some (after, .api next)
  | .api pc, .crash =>
      if pc.ended then none else some (world, .api .crashed)
  | .sweep pc, .call fault =>
      match sweepCall env world pc fault with
      | (after, next) => some (after, .sweep next)
  | .sweep _, .crash => some (world, .sweep .ended)
  | .queueFailed error, .call fault =>
      let recorded := world.insertFailure
        { exportJobId := some env.exportJobId
          errorType := "QUEUE_JOB_FAILED"
          errorMessage := slice error.message 8000 }
      some (match fault with | .refused _ => world | _ => recorded, .idle)
  | .queueFailed _, .crash => some (world, .idle)
  | _, _ => none

def Change.apply (world : World) : Change → World
  | .tick milliseconds => { world with now := world.now + milliseconds }
  | .setRecords table => { world with records := table }

def network (env : Env) : Network World Proc Action Change where
  act := act env
  env world change := some (change.apply world)

/-- The interleaving semantics of the program. -/
def machine (env : Env) : Machine (Config World Proc) (Event Action Change) :=
  (network env).machine

/-- A condition on the steps of a history. -/
abbrev Condition := Config World Proc → Event Action Change → Prop

/-- Nothing has happened to the export yet. -/
structure Initial (env : Env) (config : Config World Proc) : Prop where
  noJob : config.shared.job = none
  noCheckpoints : config.shared.checkpoints = []
  noChunks : ∀ key, hasPrefix (chunkPrefix env.exportJobId) key = true →
    config.shared.store.get? key = none
  noFile : config.shared.store.get? (finalKey env.exportJobId) = none
  noEntry : config.shared.entry = none
  idle : ∀ index, config.procs index = .idle

def RunPc.claimed : RunPc → Bool
  | .findJob => false
  | .recordMissing _ => false
  | .cancelBeforeStart _ => false
  | .claim _ _ => false
  | .returned _ => false
  | .threw _ => false
  | .crashed => false
  | _ => true

theorem live_of_claimed {pc : RunPc} (claimed : pc.claimed = true) :
    pc.ended = false := by
  cases pc <;> first | rfl | cases claimed

def Proc.executing : Proc → Bool
  | .run pc => !pc.ended
  | _ => false

def Proc.owning : Proc → Bool
  | .run pc => pc.claimed
  | _ => false

def Proc.runs (test : RunPc → Bool) : Proc → Bool
  | .run pc => test pc
  | _ => false

def Proc.commands (test : ApiPc → Bool) : Proc → Bool
  | .api pc => test pc
  | _ => false

theorem Proc.exists_of_runs {test : RunPc → Bool} {proc : Proc}
    (passes : proc.runs test = true) :
    ∃ pc, proc = .run pc ∧ test pc = true := by
  cases proc with
  | run pc => exact ⟨pc, rfl, passes⟩
  | _ => cases passes

theorem Proc.exists_of_commands {test : ApiPc → Bool} {proc : Proc}
    (passes : proc.commands test = true) :
    ∃ pc, proc = .api pc ∧ test pc = true := by
  cases proc with
  | api pc => exact ⟨pc, rfl, passes⟩
  | _ => cases passes

def NoRunExecuting (config : Config World Proc) : Prop :=
  ∀ index, (config.procs index).executing = false

/-- The two worlds differ at most in the queue entry and the failures. -/
structure World.SameExport (before after : World) : Prop where
  now : after.now = before.now
  records : after.records = before.records
  job : after.job = before.job
  checkpoints : after.checkpoints = before.checkpoints
  verifications : after.verifications = before.verifications
  store : after.store = before.store

theorem World.SameExport.refl (world : World) : world.SameExport world :=
  ⟨rfl, rfl, rfl, rfl, rfl, rfl⟩

theorem World.sameExport_setEntry (world : World)
    (entry : Option QueueEntry) : world.SameExport (world.setEntry entry) :=
  ⟨rfl, rfl, rfl, rfl, rfl, rfl⟩

theorem World.sameExport_insertFailure (world : World)
    (failure : ExportFailure) :
    world.SameExport (world.insertFailure failure) :=
  ⟨rfl, rfl, rfl, rfl, rfl, rfl⟩

inductive ActStep (env : Env) (index : Nat) (world : World) :
    Proc → Action → World → Proc → Prop where
  | start : ActStep env index world .idle .start world (.run .findJob)
  | deliver {entry : QueueEntry} (ready : world.readyEntry = some entry) :
      ActStep env index world .idle .deliver
        (world.setEntry (some { entry with state := .active index }))
        (.run .findJob)
  | request (request : Request) :
      ActStep env index world .idle (.request request) world
        (.api request.begin)
  | beginSweep :
      ActStep env index world .idle .beginSweep world
        (.sweep (.findStalled (env.staleCutoff world)))
  | run {pc : RunPc} (fault : Fault) (live : pc.ended = false) :
      ActStep env index world (.run pc) (.call fault)
        (runCall env world pc fault).1 (.run (runCall env world pc fault).2)
  | runCrash {pc : RunPc} (live : pc.ended = false) :
      ActStep env index world (.run pc) .crash world (.run .crashed)
  | settleReturned {outcome : RunOutcome} {entry : QueueEntry}
      (held : world.heldEntry index = some entry) :
      ActStep env index world (.run (.returned outcome)) .settle
        (world.setEntry (some { entry with state := .completed }))
        (.run (.returned outcome))
  | settleThrew {error : AppError} {entry : QueueEntry}
      (held : world.heldEntry index = some entry) :
      ActStep env index world (.run (.threw error)) .settle
        (world.setEntry (some entry.afterThrow)) (.queueFailed error)
  | stall {pc : RunPc} {entry : QueueEntry}
      (held : world.heldEntry index = some entry) :
      ActStep env index world (.run pc) .stall
        (world.setEntry (some entry.afterStall)) (.run pc)
  | api {pc : ApiPc} (fault : Fault) (live : pc.ended = false) :
      ActStep env index world (.api pc) (.call fault)
        (apiCall env world pc fault).1 (.api (apiCall env world pc fault).2)
  | apiCrash {pc : ApiPc} (live : pc.ended = false) :
      ActStep env index world (.api pc) .crash world (.api .crashed)
  | sweep {pc : SweepPc} (fault : Fault) :
      ActStep env index world (.sweep pc) (.call fault)
        (sweepCall env world pc fault).1
        (.sweep (sweepCall env world pc fault).2)
  | sweepCrash {pc : SweepPc} :
      ActStep env index world (.sweep pc) .crash world (.sweep .ended)
  | queueFailed {error : AppError} (fault : Fault) {after : World}
      (same : world.SameExport after) (entry : after.entry = world.entry) :
      ActStep env index world (.queueFailed error) (.call fault) after .idle
  | queueFailedCrash {error : AppError} :
      ActStep env index world (.queueFailed error) .crash world .idle

theorem actStep_of_act {env : Env} {index : Nat} {world after : World}
    {proc next : Proc} {action : Action}
    (stepEq : act env index world proc action = some (after, next)) :
    ActStep env index world proc action after next := by
  cases proc with
  | idle =>
      cases action <;> simp only [act, Option.some.injEq, Prod.mk.injEq,
        Option.map_eq_some_iff, reduceCtorEq] at stepEq
      · obtain ⟨rfl, rfl⟩ := stepEq
        exact .start
      · obtain ⟨entry, ready, rfl, rfl⟩ := stepEq
        exact .deliver ready
      · obtain ⟨rfl, rfl⟩ := stepEq
        exact .request _
      · obtain ⟨rfl, rfl⟩ := stepEq
        exact .beginSweep
  | run pc =>
      cases action with
      | call fault =>
          simp only [act, Option.ite_none_left_eq_some, Option.some.injEq,
            Prod.mk.injEq, Bool.not_eq_true] at stepEq
          obtain ⟨live, rfl, rfl⟩ := stepEq
          exact .run fault live
      | crash =>
          simp only [act, Option.ite_none_left_eq_some, Option.some.injEq,
            Prod.mk.injEq, Bool.not_eq_true] at stepEq
          obtain ⟨live, rfl, rfl⟩ := stepEq
          exact .runCrash live
      | settle =>
          cases pc <;> simp only [act, queueMove, Option.map_eq_some_iff,
            Prod.mk.injEq, reduceCtorEq] at stepEq
          · obtain ⟨entry, held, rfl, rfl⟩ := stepEq
            exact .settleReturned held
          · obtain ⟨entry, held, rfl, rfl⟩ := stepEq
            exact .settleThrew held
      | stall =>
          simp only [act, queueMove] at stepEq
          split at stepEq
          · cases stepEq
          · cases stepEq
          · obtain ⟨entry, held, pairEq⟩ := Option.map_eq_some_iff.mp stepEq
            obtain ⟨rfl, rfl⟩ := Prod.mk.inj pairEq
            exact .stall held
      | start => simp [act, queueMove] at stepEq
      | deliver => simp [act, queueMove] at stepEq
      | request => simp [act, queueMove] at stepEq
      | beginSweep => simp [act, queueMove] at stepEq
  | api pc =>
      cases action <;> simp only [act, Option.ite_none_left_eq_some,
        Option.some.injEq, Prod.mk.injEq, Bool.not_eq_true,
        reduceCtorEq] at stepEq
      · obtain ⟨live, rfl, rfl⟩ := stepEq
        exact .api _ live
      · obtain ⟨live, rfl, rfl⟩ := stepEq
        exact .apiCrash live
  | sweep pc =>
      cases action <;> simp only [act, Option.some.injEq, Prod.mk.injEq,
        reduceCtorEq] at stepEq
      · obtain ⟨rfl, rfl⟩ := stepEq
        exact .sweep _
      · obtain ⟨rfl, rfl⟩ := stepEq
        exact .sweepCrash
  | queueFailed error =>
      cases action <;> simp only [act, Option.some.injEq, Prod.mk.injEq,
        reduceCtorEq] at stepEq
      · obtain ⟨rfl, rfl⟩ := stepEq
        split
        · exact .queueFailed _ (.refl _) rfl
        · exact .queueFailed _ (world.sameExport_insertFailure _) rfl
      · obtain ⟨rfl, rfl⟩ := stepEq
        exact .queueFailedCrash

/-- A call of a run leaves the world as the statement does, or untouched. -/
theorem runCall_cases {env : Env} {world : World} {pc : RunPc}
    {motive : World × RunPc → Prop} (fault : Fault)
    (answered : ∀ kept, motive (runStep env kept world pc))
    (refused : ∀ error, motive (world, pc.onError error))
    (lost : ∀ error,
      motive ((runStep env [] world pc).1, pc.onError error)) :
    motive (runCall env world pc fault) := by
  cases fault with
  | none => exact answered []
  | refused message => exact refused _
  | lost message => exact lost _
  | keeping kept => exact answered kept

theorem apiCall_cases {env : Env} {world : World} {pc : ApiPc}
    {motive : World × ApiPc → Prop} (fault : Fault)
    (answered : motive (apiStep env world pc))
    (refused : ∀ error, motive (world, .threw error))
    (lost : ∀ error, motive ((apiStep env world pc).1, .threw error)) :
    motive (apiCall env world pc fault) := by
  cases fault with
  | none => exact answered
  | refused message => exact refused _
  | lost message => exact lost _
  | keeping kept => exact answered

theorem sweepCall_cases {env : Env} {world : World} {pc : SweepPc}
    {motive : World × SweepPc → Prop} (fault : Fault)
    (answered : motive (sweepStep env world pc))
    (refused : motive (world, .ended))
    (lost : motive ((sweepStep env world pc).1, .ended)) :
    motive (sweepCall env world pc fault) := by
  cases fault with
  | none => exact answered
  | refused message => exact refused
  | lost message => exact lost
  | keeping kept => exact answered

/-- A call of a run that succeeds and meets nobody else. -/
theorem solo_run {env : Env} {index : Nat} {world : World} {pc : RunPc}
    {rest : List Action} (live : pc.ended = false) :
    (network env).solo index world (.run pc) (.call .none :: rest) =
      (network env).solo index (runStep env [] world pc).1
        (.run (runStep env [] world pc).2) rest := by
  simp [Network.solo, network, act, live, runCall]

theorem solo_api {env : Env} {index : Nat} {world : World} {pc : ApiPc}
    {rest : List Action} :
    (network env).solo index world (.api pc) (.call .none :: rest) =
      if pc.ended then none
      else (network env).solo index (apiStep env world pc).1
        (.api (apiStep env world pc).2) rest := by
  cases live : pc.ended <;> simp [Network.solo, network, act, live, apiCall]

/-- The records up to the boundary do not change once the job exists. -/
def StableRecords : Condition := fun config event =>
  match event with
  | .env (.setRecords table) =>
      ∀ job, config.shared.job = some job →
        table.upTo job.snapshotMaxId =
          config.shared.records.upTo job.snapshotMaxId
  | _ => True

/-- A run claims the job only when no other run owns it. -/
def AloneAtClaim : Condition := fun config event =>
  ∀ index fault job staleCutoff, event = .act index (.call fault) →
    config.procs index = .run (.claim job staleCutoff) →
    ∀ other, other ≠ index → (config.procs other).owning = false

/-- No process from the bound on has begun. -/
def IdleFrom (bound : Nat) (config : Config World Proc) : Prop :=
  ∀ index, bound ≤ index → config.procs index = .idle

/-- The event concerns one of the first processes. -/
def actsBelow (bound : Nat) : Event Action Change → Bool
  | .act index _ => decide (index < bound)
  | .env _ => true

theorem noRunExecuting_of_idleFrom {bound : Nat}
    {config : Config World Proc} (idle : IdleFrom bound config)
    (below : (List.range bound).all (fun index =>
      !(config.procs index).executing) = true) : NoRunExecuting config := by
  intro index
  by_cases inside : index < bound
  · simpa using List.all_eq_true.mp below index (List.mem_range.mpr inside)
  · rw [idle index (not_lt.mp inside)]
    rfl

theorem idleFrom_step {env : Env} {bound : Nat}
    {before after : Config World Proc} {event : Event Action Change}
    (below : actsBelow bound event = true)
    (stepEq : (machine env).step before event = some after)
    (idle : IdleFrom bound before) : IdleFrom bound after := by
  cases event with
  | act index action =>
      obtain ⟨shared, proc, _, rfl⟩ := Network.step_act_iff.mp stepEq
      intro other outside
      have inside : index < bound := of_decide_eq_true below
      have different : other ≠ index := by omega
      simpa [Function.update_of_ne different] using idle other outside
  | env change =>
      obtain ⟨shared, _, rfl⟩ := Network.step_env_iff.mp stepEq
      exact idle

/-- `StableRecords`, computed. -/
def stableRecords (config : Config World Proc) :
    Event Action Change → Bool
  | .env (.setRecords table) =>
      config.shared.job.all fun job : ExportJob =>
        decide (table.upTo job.snapshotMaxId =
          config.shared.records.upTo job.snapshotMaxId)
  | _ => true

/-- `AloneAtClaim`, computed for the first processes. -/
def aloneAtClaim (bound : Nat) (config : Config World Proc) :
    Event Action Change → Bool
  | .act index (.call _) =>
      match config.procs index with
      | .run (.claim _ _) =>
          (List.range bound).all fun other =>
            decide (other = index) || !(config.procs other).owning
      | _ => true
  | _ => true

theorem stableRecords_sound {config : Config World Proc}
    {event : Event Action Change} (passes : stableRecords config event = true) :
    StableRecords config event := by
  cases event with
  | act => trivial
  | env change =>
      cases change with
      | tick => trivial
      | setRecords table =>
          intro job found
          simpa [stableRecords, found] using passes

theorem aloneAtClaim_sound {bound : Nat} {config : Config World Proc}
    {event : Event Action Change} (idle : IdleFrom bound config)
    (passes : aloneAtClaim bound config event = true) :
    AloneAtClaim config event := by
  rintro index fault job staleCutoff rfl here other different
  by_cases below : other < bound
  · simp only [aloneAtClaim, here, List.all_eq_true, List.mem_range,
      Bool.or_eq_true, decide_eq_true_eq, Bool.not_eq_true'] at passes
    exact (passes other below).resolve_left different
  · rw [idle other (not_lt.mp below)]
    rfl

/-! ## A small installation -/

def smallRecord (id : Int) : RawRecordRow where
  id := id
  externalId := "r"
  name := "Ada, \"A\""
  email := "ada@example.org"
  category := none
  amount := some (.number 150)
  status := some "active"
  createdAt := 0
  updatedAt := 0

def oneRecord : RecordTable :=
  ⟨[smallRecord 1], by decide, by decide⟩

def twoRecords : RecordTable :=
  ⟨[smallRecord 1, smallRecord 3], by decide, by decide⟩

def threeRecords : RecordTable :=
  ⟨[smallRecord 1, smallRecord 3, smallRecord 4], by decide, by decide⟩

/-- One row a batch. -/
def smallEnv : Env where
  exportJobId := "3f0d1c52-8a47-4be1-9c6e-0a5b7d2e9f10"
  stallTimeoutSeconds := 45
  exportBatchSize := 1
  signedUrlTtl := 900
  csvParse := readCsv
  sha256 body := toString body.size
  signedUrl key _ := "https://storage.example.org/" ++ key

/-- Nothing has happened yet; the table holds the given rows. -/
def smallStart (records : RecordTable) : Config World Proc where
  shared := { now := 0, records := records }
  procs _ := .idle

theorem initial_smallStart (records : RecordTable) :
    Initial smallEnv (smallStart records) where
  noJob := rfl
  noCheckpoints := rfl
  noChunks _ _ := rfl
  noFile := rfl
  noEntry := rfl
  idle _ := rfl

def calls (index count : Nat) : List (Event Action Change) :=
  List.replicate count (.act index (.call .none))

def createSteps (rowLimit : Int) : List (Event Action Change) :=
  .act 0 (.request (.create "u" rowLimit)) :: calls 0 6

/-- Any history at all. -/
def Anything : Condition := fun _ _ => True

/-- A computation from the small start that passes a check and ends as a test
says is a history of the first processes. -/
theorem exists_history (permitted : Condition) (records : RecordTable)
    (bound : Nat) (check : Config World Proc → Event Action Change → Bool)
    (events : List (Event Action Change)) (test : Config World Proc → Bool)
    (sound : ∀ {config event}, IdleFrom bound config →
      check config event = true → permitted config event)
    (accepted : ((machine smallEnv).runChecked
      (fun config event => actsBelow bound event && check config event)
      (smallStart records) events).any test = true) :
    ∃ target,
      (machine smallEnv).Exec permitted (smallStart records) events target ∧
        IdleFrom bound target ∧ test target = true := by
  obtain ⟨target, runEq, ends⟩ := Machine.exists_of_any_runChecked accepted
  have history : (machine smallEnv).Exec
      (fun config event => permitted config event ∧
        actsBelow bound event = true)
      (smallStart records) events target := by
    refine Machine.exec_of_runChecked (IdleFrom bound)
      (fun idle passes => ?_) (fun passes stepEq idle => ?_)
      (fun _ _ => rfl) runEq
    · simp only [Bool.and_eq_true] at passes
      exact ⟨sound idle passes.2, passes.1⟩
    · simp only [Bool.and_eq_true] at passes
      exact idleFrom_step passes.1 stepEq idle
  exact ⟨target, history.mono fun permission => permission.1,
    history.invariant (fun permission stepEq =>
      idleFrom_step permission.2 stepEq) (fun _ _ => rfl), ends⟩

/-- Two batches; the worker dies before the second checkpoint, a record is
inserted, another worker takes over. -/
def crashedAndResumed : List (Event Action Change) :=
  createSteps 2 ++ .act 1 .deliver :: calls 1 14 ++
    [.act 1 .crash, .act 1 .stall, .env (.setRecords threeRecords),
      .env (.tick 60000), .act 2 .deliver] ++
    calls 2 22

theorem crashedAndResumed_ends :
    ∃ target job,
      (machine smallEnv).Exec
          (fun config event => StableRecords config event ∧
            AloneAtClaim config event)
          (smallStart twoRecords) crashedAndResumed target ∧
        target.shared.job = some job ∧ job.status = .completed ∧
        job.snapshotMaxId = 3 ∧ job.requestedRowLimit = 2 ∧
        target.shared.records.rows =
          [smallRecord 1, smallRecord 3, smallRecord 4] := by
  obtain ⟨target, history, _, ends⟩ :=
    exists_history
      (fun config event => StableRecords config event ∧
        AloneAtClaim config event) twoRecords 3
      (fun config event => stableRecords config event &&
        aloneAtClaim 3 config event) crashedAndResumed
      (fun target =>
        target.shared.job.any (fun job : ExportJob =>
          decide (job.status = .completed) &&
            decide (job.snapshotMaxId = 3) &&
            decide (job.requestedRowLimit = 2)) &&
          decide (target.shared.records.rows =
            [smallRecord 1, smallRecord 3, smallRecord 4]))
      (fun idle passes => by
        simp only [Bool.and_eq_true] at passes
        exact ⟨stableRecords_sound passes.1,
          aloneAtClaim_sound idle passes.2⟩)
      (by decide +kernel)
  simp only [Bool.and_eq_true, decide_eq_true_eq, Option.any_eq_true]
    at ends
  obtain ⟨⟨job, found, ⟨completed, boundary⟩, limit⟩, records⟩ := ends
  exact ⟨target, job, history, found, completed, boundary, limit, records⟩

end ExportVault
