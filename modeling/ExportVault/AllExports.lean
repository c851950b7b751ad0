import ExportVault.Coherence
import ExportVault.Exports
import ExportVault.Remnants
import ExportVault.Resume

/-!
# All exports of an installation

What is proved of every run of the system of one export, for each export of an
installation in which the others do what they like.  The condition they share
is `SameSpelling`: a resume that names the export by another spelling of its
id is a run of its own to the queue and to the bucket, and the same run to the
database.
-/

namespace ExportVault

open Interleaving

/-- No process of the installation from the bound on has begun. -/
def QuietFrom (bound : Nat) (config : Config Installation Activity) : Prop :=
  ∀ index, bound ≤ index → config.procs index = .idle

/-- The event concerns one of the first processes. -/
def movesBelow (bound : Nat) : Event Move Change → Bool
  | .act index _ => decide (index < bound)
  | .env _ => true

theorem quietFrom_step {env : Env} {bound : Nat}
    {before after : Config Installation Activity} {event : Event Move Change}
    (below : movesBelow bound event = true)
    (stepEq : (installationMachine env).step before event = some after)
    (quiet : QuietFrom bound before) : QuietFrom bound after := by
  cases event with
  | act index move =>
      obtain ⟨shared, proc, _, rfl⟩ := Network.step_act_iff.mp stepEq
      intro other outside
      have inside : index < bound := of_decide_eq_true below
      have different : other ≠ index := by omega
      simpa [Function.update_of_ne different] using quiet other outside
  | env change =>
      obtain ⟨shared, _, rfl⟩ := Network.step_env_iff.mp stepEq
      exact quiet

theorem idleFrom_exportConfig {env : Env} {id : String} {bound : Nat}
    {config : Config Installation Activity} (quiet : QuietFrom bound config) :
    IdleFrom bound (exportConfig env id config) := by
  intro index beyond
  simp only [exportConfig, quiet index beyond, Activity.toward]

/-- A computation of the small installation that passes a check and ends as a
test says is a history of it. -/
theorem exists_installation_history (permitted : InstallationCondition)
    (records : RecordTable) (bound : Nat)
    (check : Config Installation Activity → Event Move Change → Bool)
    (events : List (Event Move Change))
    (test : Config Installation Activity → Bool)
    (sound : ∀ {config event}, QuietFrom bound config →
      check config event = true → permitted config event)
    (accepted : ((installationMachine smallEnv).runChecked
      (fun config event => movesBelow bound event && check config event)
      (smallInstallation records) events).any test = true) :
    ∃ target, (installationMachine smallEnv).Exec permitted
        (smallInstallation records) events target ∧
      QuietFrom bound target ∧ test target = true := by
  obtain ⟨target, runEq, ends⟩ := Machine.exists_of_any_runChecked accepted
  have history : (installationMachine smallEnv).Exec
      (fun config event => permitted config event ∧
        movesBelow bound event = true)
      (smallInstallation records) events target := by
    refine Machine.exec_of_runChecked (QuietFrom bound)
      (fun quiet passes => ?_) (fun passes stepEq quiet => ?_)
      (fun _ _ => rfl) runEq
    · simp only [Bool.and_eq_true] at passes
      exact ⟨sound quiet passes.2, passes.1⟩
    · simp only [Bool.and_eq_true] at passes
      exact quietFrom_step passes.1 stepEq quiet
  exact ⟨target, history.mono fun allowed => allowed.1,
    history.invariant (fun allowed stepEq =>
      quietFrom_step allowed.2 stepEq) (fun _ _ => rfl), ends⟩

/-- `SameSpelling`, computed. -/
def sameSpelling (id : String) : Event Move Change → Bool
  | .act _ (.take exportJobId action) =>
      !action.enqueues || exportJobId = id || canonical exportJobId ≠ id
  | _ => true

theorem sameSpelling_sound {id : String}
    {config : Config Installation Activity} {event : Event Move Change}
    (passes : sameSpelling id event = true) :
    SameSpelling id config event := by
  cases event with
  | act index move =>
      cases move with
      | take exportJobId action =>
          intro same enqueues
          simpa [sameSpelling, same, enqueues] using passes
      | _ => trivial
  | env => trivial

def onExport (id : String)
    (check : Config World Proc → Event Action Change → Bool)
    (config : Config Installation Activity) (event : Event Move Change) :
    Bool :=
  sameSpelling id event &&
    (exportEvent id config event).all fun noticed =>
      check (exportConfig smallEnv id config) noticed

theorem onExport_sound {id : String} {bound : Nat} {condition : Condition}
    {check : Config World Proc → Event Action Change → Bool}
    (sound : ∀ {config event}, IdleFrom bound config →
      check config event = true → condition config event)
    {config : Config Installation Activity} {event : Event Move Change}
    (quiet : QuietFrom bound config)
    (passes : onExport id check config event = true) :
    SameSpelling id config event ∧
      OnExport smallEnv id condition config event := by
  simp only [onExport, Bool.and_eq_true, Option.all_eq_true] at passes
  exact ⟨sameSpelling_sound passes.1, fun noticed isNoticed =>
    sound (idleFrom_exportConfig quiet) (passes.2 noticed isNoticed)⟩

/-- A step of one export, as its processes take it in the installation. -/
def named (id : String) : Event Action Change → Event Move Change
  | .act index .beginSweep => .act index .beginSweep
  | .act index (.request request) => .act index (.take id (.request request))
  | .act index .start => .act index (.take id .start)
  | .act index .deliver => .act index (.take id .deliver)
  | .act index action => .act index (.go action)
  | .env change => .env change

def firstRespelled : String := "3F0D1C52-8A47-4BE1-9C6E-0A5B7D2E9F10"

section Histories

variable {env : Env} {id : String}
variable {source target : Config Installation Activity}
variable {events : List (Event Move Change)}

theorem status_part (isId : canonical id = id) :
    (exportConfig env id target).shared.status =
      (target.shared.rows id).job.map ExportJob.status :=
  congrArg (Option.map ExportJob.status) (job_part isId)

theorem checkpoints_part (isId : canonical id = id) :
    (exportConfig env id target).shared.checkpoints =
      (target.shared.rows id).checkpoints := by
  simp only [exportConfig, Installation.part, World.own_checkpoints,
    Installation.view, isId]

/-- An object of the export is there when its processes see it. -/
theorem get?_part {key : String} (own : ownKey id key = true) :
    (exportConfig env id target).shared.store.get? key =
      target.shared.store.get? key :=
  ObjectStore.get?_own own

/-! ## Exactness -/

/-- Whatever runs, commands, sweeps, crashes and faults there were on all
exports: the file of a completed export is the header and the requested number
of records with the smallest ids in `1..snapshotMaxId`, in ascending order. -/
theorem completed_export_exact (initial : Unexported source)
    (history : (installationMachine env).Exec
      (fun config event => SameSpelling id config event ∧
        OnExport env id StableRecords config event) source events target)
    (uuid : isUuid id = true) (isId : canonical id = id) {job : ExportJob}
    (found : (target.shared.rows id).job = some job)
    (completed : job.status = .completed) :
    target.shared.store.get? (finalKey id) =
        some (exportBytes (selection target.shared.records job.terms)) ∧
      ((selection target.shared.records job.terms).length : Int) =
        job.requestedRowLimit :=
  completedFile_part initial (export_history initial history uuid isId) isId
    found completed

end Histories

theorem completed_export_exact_crashedAndResumed :
    ∃ target job, (installationMachine smallEnv).Exec
        (fun config event => SameSpelling firstExport config event ∧
          OnExport smallEnv firstExport StableRecords config event)
        (smallInstallation twoRecords)
        (crashedAndResumed.map (named firstExport)) target ∧
      (target.shared.rows firstExport).job = some job ∧
      job.status = .completed ∧
      target.shared.store.get? (finalKey firstExport) =
        some (exportBytes (selection target.shared.records job.terms)) := by
  obtain ⟨target, history, _, ends⟩ := exists_installation_history
    (fun config event => SameSpelling firstExport config event ∧
      OnExport smallEnv firstExport StableRecords config event)
    twoRecords 3 (onExport firstExport stableRecords)
    (crashedAndResumed.map (named firstExport))
    (statusIs firstExport .completed)
    (onExport_sound fun _ passes => stableRecords_sound passes)
    (by decide +kernel)
  obtain ⟨job, found, completed⟩ := (Option.any_eq_true _ _).mp ends
  have isCompleted : job.status = .completed := of_decide_eq_true completed
  exact ⟨target, job, history, found, isCompleted,
    (completed_export_exact (unexported_smallInstallation _) history
      (by decide) (by decide) found isCompleted).1⟩

/-- Processes 0 and 1 create the first export and resume it under another
spelling of its id. -/
def createdAndRespelled (rowLimit : Int) : List (Event Move Change) :=
  .act 0 (.take firstExport (.request (.create "ada" rowLimit))) ::
    goes 0 6 ++
    .act 1 (.take firstRespelled (.request (.resume "ada"))) :: goes 1 5

/-- The worker that finds the second entry completes the export. -/
def respelledRun : List (Event Move Change) :=
  createdAndRespelled 1 ++
    .act 2 (.take firstRespelled .deliver) :: goes 2 21

def leavesRecords : Event Move Change → Bool
  | .env _ => false
  | .act _ _ => true

theorem respelled_resume_moves_file :
    ∃ target, (installationMachine smallEnv).Exec StableInstallation
        (smallInstallation oneRecord) respelledRun target ∧
      statusIs firstExport .completed target = true ∧
      target.shared.store.get? (finalKey firstExport) = none := by
  obtain ⟨target, history, _, ends⟩ := exists_installation_history
    StableInstallation oneRecord 3
    (fun _ => leavesRecords) respelledRun
    (fun target => statusIs firstExport .completed target &&
      decide (target.shared.store.get? (finalKey firstExport) = none))
    (fun {config event} _ passes => by
      cases event with
      | act => trivial
      | env => cases passes) (by decide +kernel)
  simp only [Bool.and_eq_true, decide_eq_true_eq] at ends
  exact ⟨target, history, ends.1, ends.2⟩

section Histories

variable {env : Env} {id : String}
variable {source target : Config Installation Activity}
variable {events : List (Event Move Change)}

/-- The row of every export is coherent, whatever the spellings under which
others cancel, verify and download it. -/
theorem export_row_coherent (initial : Unexported source)
    (history : (installationMachine env).Exec (SameSpelling id) source events
      target) (uuid : isUuid id = true) (isId : canonical id = id)
    {job : ExportJob} (found : (target.shared.rows id).job = some job) :
    job.Coherent (env.forExport id) target.shared.now :=
  rowCoherent_history (initial_unexported env id initial)
    (export_history initial
      (history.mono fun allowed => ⟨allowed, fun _ _ => trivial⟩) uuid isId)
    job ((job_part isId).trans found)

theorem export_row_coherent_twoExports :
    ∃ target job, (installationMachine smallEnv).Exec
        (SameSpelling secondExport) (smallInstallation twoRecords) twoExports
        target ∧
      (target.shared.rows secondExport).job = some job ∧
      job.status = .running ∧
      job.Coherent (smallEnv.forExport secondExport) target.shared.now := by
  obtain ⟨target, history, _, second, _⟩ := twoExports_ends
  have spelled : (installationMachine smallEnv).Exec
      (SameSpelling secondExport) (smallInstallation twoRecords) twoExports
      target :=
    history.mono fun allowed => sameSpelling_of_namesExports allowed.1
  obtain ⟨job, found, running⟩ := (Option.any_eq_true _ _).mp second
  exact ⟨target, job, spelled, found, of_decide_eq_true running,
    export_row_coherent (unexported_smallInstallation _) spelled
      (by decide) (by decide) found⟩

/-- As long as late writes and deletions spare the chunks, the chunk of every
checkpoint of an export that is not over is under its key and holds the rows
the checkpoint speaks of. -/
theorem export_chunks_hold (initial : Unexported source)
    (history : (installationMachine env).Exec
      (fun config event => SameSpelling id config event ∧
        OnExport env id (fun config event =>
          ChunksSpared (env.forExport id) config event ∧
            PutsAgree (env.forExport id) config event) config event)
      source events target) (uuid : isUuid id = true)
    (isId : canonical id = id)
    (notCompleted : (target.shared.rows id).job.map ExportJob.status ≠
      some .completed)
    (notCancelled : (target.shared.rows id).job.map ExportJob.status ≠
      some .cancelled)
    {done : List ExportCheckpoint} {checkpoint : ExportCheckpoint}
    (committed : done ++ [checkpoint] <+:
      (target.shared.rows id).checkpoints) :
    checkpoint.batchNumber = done.length + 1 ∧
      ∃ body, target.shared.store.get?
          (chunkKey id checkpoint.batchNumber) = some body ∧
        ChunkHolds (cursorOf done) checkpoint body := by
  have sameStatus : (exportConfig env id target).shared.status =
      (target.shared.rows id).job.map ExportJob.status := status_part isId
  have sameCheckpoints : (exportConfig env id target).shared.checkpoints =
      (target.shared.rows id).checkpoints := checkpoints_part isId
  rw [← sameStatus] at notCompleted notCancelled
  rw [← sameCheckpoints] at committed
  obtain ⟨number, body, stored, holds⟩ := chunk_holds_checkpoint
    (initial_unexported env id initial)
    (export_history initial history uuid isId) notCompleted notCancelled
    committed
  exact ⟨number, body,
    (get?_part (ownKey_chunkKey id _)).symm.trans stored, holds⟩

theorem export_chunks_hold_lateSameWrite :
    ∃ target checkpoint, (installationMachine smallEnv).Exec
        (fun config event => SameSpelling firstExport config event ∧
          OnExport smallEnv firstExport (fun config event =>
            ChunksSpared smallEnv config event ∧
              PutsAgree smallEnv config event) config event)
        (smallInstallation twoRecords)
        (lateSameWrite.map (named firstExport)) target ∧
      (target.shared.rows firstExport).checkpoints = [checkpoint] ∧
      ∃ body, target.shared.store.get?
          (chunkKey firstExport checkpoint.batchNumber) = some body ∧
        ChunkHolds 0 checkpoint body := by
  obtain ⟨target, history, _, ends⟩ := exists_installation_history
    (fun config event => SameSpelling firstExport config event ∧
      OnExport smallEnv firstExport (fun config event =>
        ChunksSpared smallEnv config event ∧
          PutsAgree smallEnv config event) config event)
    twoRecords 3
    (onExport firstExport fun config event => chunksSpared config event &&
      putsAgree smallEnv 3 config event)
    (lateSameWrite.map (named firstExport))
    (fun target => statusIs firstExport .running target &&
      decide ((target.shared.rows firstExport).checkpoints.length = 1))
    (onExport_sound fun idle passes => by
      simp only [Bool.and_eq_true] at passes
      exact ⟨chunksSpared_sound passes.1, putsAgree_sound idle passes.2⟩)
    (by decide +kernel)
  rw [Bool.and_eq_true] at ends
  obtain ⟨job, found, running⟩ := (Option.any_eq_true _ _).mp ends.1
  obtain ⟨checkpoint, checkpoints⟩ :=
    List.length_eq_one_iff.mp (of_decide_eq_true ends.2)
  have isRunning : job.status = .running := of_decide_eq_true running
  have holds := export_chunks_hold (unexported_smallInstallation _) history
    (by decide) (by decide) (by simp [found, isRunning])
    (by simp [found, isRunning])
    (show [] ++ [checkpoint] <+:
        (target.shared.rows firstExport).checkpoints by
      rw [checkpoints]
      exact List.prefix_refl _)
  exact ⟨target, checkpoint, history, checkpoints, holds.2⟩

/-- The process executes the export or is in a command on it, under whatever
spelling of its id. -/
def Activity.busy (id : String) : Activity → Bool
  | .on exportJobId proc =>
      canonical exportJobId = id &&
        (proc.executing || proc.commands fun pc => !pc.ended)
  | _ => false

/-- Nobody executes the export and no command on it is in progress. -/
def AtRestOn (id : String) (config : Config Installation Activity) : Prop :=
  ∀ index, (config.procs index).busy id = false

theorem atRest_part (isId : canonical id = id)
    (atRest : AtRestOn id target) : AtRest (exportConfig env id target) := by
  have rests : ∀ index,
      ((target.procs index).toward env id).executing = false ∧
        ((target.procs index).toward env id).commands
          (fun pc => !pc.ended) = false := by
    intro index
    have calm := atRest index
    cases here : target.procs index with
    | on exportJobId proc =>
        rw [here] at calm
        simp only [Activity.busy, Bool.and_eq_false_iff,
          decide_eq_false_iff_not, Bool.or_eq_false_iff] at calm
        by_cases same : canonical exportJobId = id
        · have still := calm.resolve_left (not_not.mpr same)
          by_cases here : exportJobId = id
          · subst here
            rwa [toward_on_self]
          · rw [toward_on_spelled same here]
            cases proc with
            | api pc => simpa [Proc.renamed, Proc.commands,
                Proc.executing] using still
            | _ => exact still
        · rw [toward_on_of_ne isId same]
          exact ⟨rfl, rfl⟩
    | _ => exact ⟨rfl, rfl⟩
  exact ⟨fun index => (rests index).1, fun index => (rests index).2⟩

/-- In every history of calls on the export that do not fail and of its
successive runs, whose cancellations leave the deletion of the chunks to
somebody, a cancelled export at rest has no chunks. -/
theorem cancelled_export_leaves_no_chunks (initial : Unexported source)
    (history : (installationMachine env).Exec
      (fun config event => SameSpelling id config event ∧
        OnExport env id (fun config event => FaultFree config event ∧
          AloneAtClaim config event ∧
            CleanupLeft (env.forExport id) config event) config event)
      source events target) (uuid : isUuid id = true)
    (isId : canonical id = id) {job : ExportJob}
    (found : (target.shared.rows id).job = some job)
    (cancelled : job.status = .cancelled) (atRest : AtRestOn id target)
    {key : String} (isChunk : hasPrefix (chunkPrefix id) key = true) :
    target.shared.store.get? key = none := by
  have status : (exportConfig env id target).shared.status =
      some .cancelled := by
    rw [status_part isId, found, Option.map_some, cancelled]
  have gone := cancelled_leaves_no_chunks (initial_unexported env id initial)
    (export_history initial history uuid isId) status
    (atRest_part isId atRest) key isChunk
  exact (get?_part (ownKey_of_hasPrefix isChunk)).symm.trans gone

end Histories

/-- No process below the bound is busy with the export. -/
theorem atRestOn_of_quietFrom {id : String} {bound : Nat}
    {config : Config Installation Activity} (quiet : QuietFrom bound config)
    (below : ((List.range bound).all fun index =>
      !(config.procs index).busy id) = true) : AtRestOn id config := by
  intro index
  simp only [List.all_eq_true, List.mem_range, Bool.not_eq_true'] at below
  by_cases inside : index < bound
  · exact below index inside
  · rw [quiet index (not_lt.mp inside)]
    rfl

/-- The user cancels under another spelling of the id, while the worker is
between two batches. -/
def cancelledRespelled : List (Event Move Change) :=
  (createSteps 2 ++ .act 1 .deliver :: calls 1 10).map (named firstExport) ++
    (.act 2 (.request (.cancel "u")) :: calls 2 2).map
      (named firstRespelled) ++ goes 1 4

theorem cancelled_export_leaves_no_chunks_midRun :
    ∃ target, (installationMachine smallEnv).Exec
        (fun config event => SameSpelling firstExport config event ∧
          OnExport smallEnv firstExport (fun config event =>
            FaultFree config event ∧ AloneAtClaim config event ∧
              CleanupLeft smallEnv config event) config event)
        (smallInstallation twoRecords) cancelledRespelled target ∧
      (target.shared.rows firstExport).checkpoints ≠ [] ∧
      target.shared.store.get? (chunkKey firstExport 1) = none := by
  obtain ⟨target, history, quiet, ends⟩ := exists_installation_history
    (fun config event => SameSpelling firstExport config event ∧
      OnExport smallEnv firstExport (fun config event =>
        FaultFree config event ∧ AloneAtClaim config event ∧
          CleanupLeft smallEnv config event) config event)
    twoRecords 3
    (onExport firstExport fun config event => faultFree event &&
      aloneAtClaim 3 config event && needsNoCleanup config event)
    cancelledRespelled
    (fun target => statusIs firstExport .cancelled target &&
      ((List.range 3).all fun index =>
        !(target.procs index).busy firstExport) &&
      decide ((target.shared.rows firstExport).checkpoints ≠ []))
    (onExport_sound fun idle passes => by
      simp only [Bool.and_eq_true] at passes
      exact ⟨faultFree_sound passes.1.1, aloneAtClaim_sound idle passes.1.2,
        needsNoCleanup_sound passes.2⟩)
    (by decide +kernel)
  simp only [Bool.and_eq_true, decide_eq_true_eq] at ends
  obtain ⟨⟨cancelled, rests⟩, written⟩ := ends
  obtain ⟨job, found, isCancelled⟩ := (Option.any_eq_true _ _).mp cancelled
  exact ⟨target, history, written,
    cancelled_export_leaves_no_chunks (unexported_smallInstallation _) history
      (by decide) (by decide) found (of_decide_eq_true isCancelled)
      (atRestOn_of_quietFrom quiet rests) (hasPrefix_chunkKey _ _)⟩

/-- The owner's resume of the export, by its id, returns, and a run that then
executes the export ends with it completed; nobody else acts and no call
fails. -/
def ExportResumes (env : Env) (id : String)
    (config : Config Installation Activity) (userId : String)
    (command worker : Nat) : Prop :=
  ∃ resumeCalls runCalls resumed completed row rows,
    (installationMachine env).Exec AnyMove config
      (.act command (.take id (.request (.resume userId))) ::
        goes command resumeCalls) resumed ∧
    resumed.procs command = .on id (.api (.returned (.job row))) ∧
    (installationMachine env).Exec AnyMove resumed
      (.act worker (.take id .start) :: goes worker runCalls) completed ∧
    completed.procs worker = .on id (.run (.returned (.completed rows))) ∧
    (completed.shared.rows id).job.map ExportJob.status = some .completed

def WorksOn (env : Env) (id : String) (index : Nat)
    (config : Config Installation Activity) : Prop :=
  config.procs index = .of id ((exportConfig env id config).procs index)

section Lifting

variable {env : Env} {id : String} {index : Nat}
variable {config : Config Installation Activity}
variable {after : Config World Proc}

/-- What a process that names the export by its id does in the system of the
export, it does in the installation. -/
theorem actOn_lifts (tidy : TidyConfig id config) {proc : Proc}
    (opened : proc.FileOf id) {action : Action} {world : World}
    {following : Proc}
    (step : act (env.forExport id) index (config.shared.part id) proc action =
      some (world, following)) :
    ∃ shared, config.shared.actOn env index id proc action =
        some (shared, .of id following) ∧ shared.part id = world := by
  have file : (config.shared.view id).FileOf
      (env.forExport id).exportJobId := tidy.shared.file
  have same := act_own index action file opened
  have viewed := same.symm.trans step
  obtain ⟨result, acted, split⟩ := Option.map_eq_some_iff.mp viewed
  obtain ⟨own, rfl⟩ := Prod.mk.inj split
  have stays : Stays (config.shared.view id) result.1 :=
    stays_actStep (actStep_of_act acted)
  refine ⟨config.shared.absorb id result.1, ?_, ?_⟩
  · simp only [Installation.actOn, acted, Option.map_some]
  · rw [part_absorb_self stays]
    exact own

/-- The configuration after such a step. -/
theorem worksOn_update {shared : Installation} {following : Proc}
    (split : after = ⟨shared.part id,
      Function.update (exportConfig env id config).procs index following⟩) :
    exportConfig env id
        ⟨shared, Function.update config.procs index (.of id following)⟩ =
        after ∧
      WorksOn env id index
        ⟨shared, Function.update config.procs index (.of id following)⟩ := by
  have same : exportConfig env id
      ⟨shared, Function.update config.procs index (.of id following)⟩ =
        after := by
    rw [split, exportConfig_update, toward_of, toward_on_self]
    rfl
  refine ⟨same, ?_⟩
  rw [WorksOn, same, split]
  simp only [Function.update_self]

theorem take_lifts (isId : canonical id = id) (tidy : TidyConfig id config)
    (idle : config.procs index = .idle) {action : Action}
    (accepted : action.accepts id = true)
    (step : (machine (env.forExport id)).step (exportConfig env id config)
      (.act index action) = some after) :
    ∃ next, (installationMachine env).step config
        (.act index (.take id action)) = some next ∧
      exportConfig env id next = after ∧ TidyConfig id next ∧
      WorksOn env id index next := by
  obtain ⟨world, following, acted, split⟩ := Network.step_act_iff.mp step
  have isIdle : (exportConfig env id config).procs index = .idle := by
    simp only [exportConfig, idle, Activity.toward]
  rw [isIdle] at acted
  have opened : Proc.FileOf id .idle := trivial
  obtain ⟨shared, taken, rfl⟩ := actOn_lifts tidy opened acted
  obtain ⟨same, works⟩ := worksOn_update split
  have stepEq : (installationMachine env).step config
      (.act index (.take id action)) =
        some ⟨shared, Function.update config.procs index (.of id following)⟩ :=
    Network.step_act_iff.mpr ⟨_, _, by
      rw [idle]
      exact (if_pos accepted).trans taken, rfl⟩
  have spelled : SameSpelling id config (.act index (.take id action)) :=
    fun _ _ => rfl
  exact ⟨_, stepEq, same, tidy_step isId spelled stepEq tidy, works⟩

theorem go_lifts (isId : canonical id = id) (tidy : TidyConfig id config)
    (works : WorksOn env id index config) {fault : Fault}
    (step : (machine (env.forExport id)).step (exportConfig env id config)
      (.act index (.call fault)) = some after) :
    ∃ next, (installationMachine env).step config
        (.act index (.go (.call fault))) = some next ∧
      exportConfig env id next = after ∧ TidyConfig id next ∧
      WorksOn env id index next := by
  obtain ⟨world, following, acted, split⟩ := Network.step_act_iff.mp step
  have own := tidy.procs index
  rw [WorksOn] at works
  generalize (exportConfig env id config).procs index = proc
    at acted works
  have named : config.procs index = .on id proc := by
    cases proc with
    | idle => cases acted
    | _ => exact works
  rw [named] at own
  obtain ⟨shared, gone, rfl⟩ := actOn_lifts tidy (own.2.2 isId).1 acted
  obtain ⟨same, worksThen⟩ := worksOn_update split
  have stepEq : (installationMachine env).step config
      (.act index (.go (.call fault))) =
        some ⟨shared, Function.update config.procs index (.of id following)⟩ :=
    Network.step_act_iff.mpr ⟨_, _, by
      rw [named]
      exact gone, rfl⟩
  have spelled : SameSpelling id config (.act index (.go (.call fault))) :=
    trivial
  exact ⟨_, stepEq, same, tidy_step isId spelled stepEq tidy, worksThen⟩

/-- The calls a process makes alone in the system of the export, it makes in
the installation. -/
theorem goes_lift (isId : canonical id = id) {count : Nat}
    (tidy : TidyConfig id config) (works : WorksOn env id index config)
    (history : (machine (env.forExport id)).Exec Anything
      (exportConfig env id config) (calls index count) after) :
    ∃ target, (installationMachine env).Exec AnyMove config
        (goes index count) target ∧
      exportConfig env id target = after ∧ TidyConfig id target ∧
      WorksOn env id index target := by
  induction count generalizing config with
  | zero => exact ⟨config, rfl, history, tidy, works⟩
  | succ count inductionHypothesis =>
      obtain ⟨_, middle, stepEq, rest⟩ := history
      obtain ⟨next, goesOn, rfl, tidyThen, worksThen⟩ :=
        go_lifts isId tidy works stepEq
      obtain ⟨target, later, ends⟩ :=
        inductionHypothesis tidyThen worksThen rest
      exact ⟨target, ⟨trivial, next, goesOn, later⟩, ends⟩

theorem runs_lift (isId : canonical id = id) {count : Nat}
    (tidy : TidyConfig id config) (idle : config.procs index = .idle)
    {action : Action} (accepted : action.accepts id = true)
    (history : (machine (env.forExport id)).Exec Anything
      (exportConfig env id config) (.act index action :: calls index count)
      after) :
    ∃ target, (installationMachine env).Exec AnyMove config
        (.act index (.take id action) :: goes index count) target ∧
      exportConfig env id target = after ∧ TidyConfig id target ∧
      WorksOn env id index target := by
  obtain ⟨_, middle, stepEq, rest⟩ := history
  obtain ⟨next, takes, rfl, tidyThen, works⟩ :=
    take_lifts isId tidy idle accepted stepEq
  obtain ⟨target, later, ends⟩ := goes_lift isId tidyThen works rest
  exact ⟨target, ⟨trivial, next, takes, later⟩, ends⟩

/-- The steps of a process leave the others as they are. -/
theorem procs_of_exec {events : List (Event Move Change)}
    {permitted : InstallationCondition} {other : Nat}
    {target : Config Installation Activity}
    (history : (installationMachine env).Exec permitted config events target)
    (elsewhere : ∀ event ∈ events, ∃ move, event = .act index move)
    (different : other ≠ index) : target.procs other = config.procs other := by
  have kept : ∀ {before event next},
      permitted before event ∧ event ∈ events →
      (installationMachine env).step before event = some next →
      before.procs other = config.procs other →
      next.procs other = config.procs other := by
    intro before event next allowed stepEq same
    obtain ⟨move, rfl⟩ := elsewhere _ allowed.2
    obtain ⟨shared, proc, _, rfl⟩ := Network.step_act_iff.mp stepEq
    simpa only [Function.update_of_ne different] using same
  exact history.events.invariant kept rfl

/-- The events of one process that makes calls. -/
theorem act_of_mem_goes {move : Move} {count : Nat}
    {event : Event Move Change}
    (member : event ∈ .act index move :: goes index count) :
    ∃ move, event = .act index move := by
  rcases List.mem_cons.mp member with rfl | called
  · exact ⟨_, rfl⟩
  · exact ⟨_, List.eq_of_mem_replicate called⟩

/-- A resume that completes in the system of the export completes in the
installation. -/
theorem resumes_lift (uuid : isUuid id = true) (isId : canonical id = id)
    (tidy : TidyConfig id config) {userId : String} {command worker : Nat}
    (apart : worker ≠ command) (commandIdle : config.procs command = .idle)
    (workerIdle : config.procs worker = .idle)
    (completes : ResumeCompletes (env.forExport id)
      (exportConfig env id config) userId command worker) :
    ExportResumes env id config userId command worker := by
  obtain ⟨resumeCalls, runCalls, resumed, completed, row, rows, resumes,
    replied, runs, ended, isCompleted⟩ := completes
  have resumable : (Action.request (.resume userId)).accepts id = true := uuid
  have executable : Action.start.accepts id = true := uuid
  obtain ⟨between, resumesHere, rfl, tidyThen, repliedHere⟩ :=
    runs_lift isId tidy commandIdle resumable resumes
  have stillIdle : between.procs worker = .idle :=
    (procs_of_exec resumesHere (fun _ => act_of_mem_goes) apart).trans
      workerIdle
  obtain ⟨last, runsHere, rfl, _, endedHere⟩ :=
    runs_lift isId tidyThen stillIdle executable runs
  rw [WorksOn, replied] at repliedHere
  rw [WorksOn, ended] at endedHere
  exact ⟨resumeCalls, runCalls, between, last, row, rows, resumesHere,
    repliedHere, runsHere, endedHere, (status_part isId).symm.trans
      isCompleted⟩

end Lifting

/-- While the records of an export stay as they are and its chunks are spared,
a resume of it that is accepted can succeed: the chunk of every checkpoint is
under its key, and a run without further faults completes the export. -/
theorem accepted_resume_completes {env : Env} {id : String}
    {source target : Config Installation Activity}
    {events : List (Event Move Change)} (room : 0 < env.exportBatchSize)
    (parses : ParsesRfc4180 env.csvParse) (initial : Unexported source)
    (history : (installationMachine env).Exec
      (fun config event => SameSpelling id config event ∧
        OnExport env id (Resumable (env.forExport id)) config event)
      source events target) (uuid : isUuid id = true)
    (isId : canonical id = id) {job : ExportJob}
    (found : (target.shared.rows id).job = some job)
    (accepted : job.status ∈ resumableForUser) {command worker : Nat}
    (apart : worker ≠ command) (commandIdle : target.procs command = .idle)
    (workerIdle : target.procs worker = .idle) :
    (∀ checkpoint ∈ (target.shared.rows id).checkpoints,
      target.shared.store.get? (chunkKey id checkpoint.batchNumber) ≠
        none) ∧
    ExportResumes env id target job.userId command worker := by
  have tidy := tidy_history initial isId
    (history.mono fun allowed => allowed.1)
  have idle : ∀ {index}, target.procs index = .idle →
      (exportConfig env id target).procs index = .idle := by
    intro index isIdle
    simp only [exportConfig, isIdle, Activity.toward]
  have roomThere : 0 < (env.forExport id).exportBatchSize := room
  have parsesThere : ParsesRfc4180 (env.forExport id).csvParse := parses
  obtain ⟨stored, completes⟩ := resumed_completes roomThere parsesThere
    (initial_unexported env id initial)
    (export_history initial history uuid isId) ((job_part isId).trans found)
    accepted apart (idle commandIdle) (idle workerIdle)
  refine ⟨fun checkpoint member => ?_,
    resumes_lift uuid isId tidy apart commandIdle workerIdle completes⟩
  have there := stored checkpoint
    (by rwa [checkpoints_part isId])
  intro gone
  exact there ((get?_part (ownKey_chunkKey id _)).trans gone)

/-- The worker dies in its second batch, and a sweep of all exports
notices. -/
def sweptMidRun : List (Event Move Change) :=
  diedRunning.map (named firstExport) ++
    [.env (.tick 60000), .act 2 .beginSweep, .act 2 (.scan [firstExport])] ++
    goes 2 2

theorem accepted_resume_completes_sweptMidRun :
    ∃ target job, (installationMachine smallEnv).Exec
        (fun config event => SameSpelling firstExport config event ∧
          OnExport smallEnv firstExport (Resumable smallEnv) config event)
        (smallInstallation twoRecords) sweptMidRun target ∧
      (target.shared.rows firstExport).job = some job ∧
      job.status = .interrupted ∧
      ExportResumes smallEnv firstExport target job.userId 3 4 := by
  obtain ⟨target, history, quiet, ends⟩ := exists_installation_history
    (fun config event => SameSpelling firstExport config event ∧
      OnExport smallEnv firstExport (Resumable smallEnv) config event)
    twoRecords 3 (onExport firstExport resumable) sweptMidRun
    (statusIs firstExport .interrupted)
    (onExport_sound fun _ passes => resumable_sound passes)
    (by decide +kernel)
  obtain ⟨job, found, status⟩ := (Option.any_eq_true _ _).mp ends
  have interrupted : job.status = .interrupted := of_decide_eq_true status
  exact ⟨target, job, history, found, interrupted,
    (accepted_resume_completes (by decide) parsesRfc4180_readCsv
      (unexported_smallInstallation _) history (by decide) (by decide) found
      (by rw [interrupted]; decide) (by decide) (quiet 3 (by decide))
      (quiet 4 (by decide))).2⟩

end ExportVault
