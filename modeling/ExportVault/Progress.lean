import ExportVault.Log

/-!
# Progress and checkpoint log

The job row repeats what the checkpoint log accounts for.  The transaction of
a batch writes both; `reconcileJobProgress` writes the row from a log read two
statements before.  The copies agree in every state of a history exactly when
no such write is out of date (`progress_agrees_iff`).
-/

namespace ExportVault

open Interleaving

/-- The job row shows the rows and the cursor of the log. -/
def ProgressAgrees (world : World) : Prop :=
  ∀ job, world.job = some job →
    job.exportedRowCount = rowsOf world.checkpoints ∧
      job.lastExportedId.getD 0 = cursorOf world.checkpoints

def World.shownRows (world : World) : Int :=
  (world.job.map ExportJob.exportedRowCount).getD 0

/-- When `reconcileJobProgress` writes the position of the log it was given,
this is still the position of the log. -/
def ReconcilesCurrent : Condition := fun config event =>
  ∀ index fault job resume, event = .act index (.call fault) →
    config.procs index = .run (.reconcile job resume) →
    fault.lands = true →
    resume.rowsWritten = rowsOf config.shared.checkpoints ∧
      resume.lastExportedId = cursorOf config.shared.checkpoints

def World.progress (world : World) : Option (Int × Option Int) :=
  world.job.map fun job => (job.exportedRowCount, job.lastExportedId)

theorem World.progress_updateJob (world : World)
    {change : ExportJob → ExportJob}
    (count : ∀ job, (change job).exportedRowCount = job.exportedRowCount)
    (last : ∀ job, (change job).lastExportedId = job.lastExportedId) :
    (world.updateJob change).progress = world.progress := by
  simp only [World.progress, World.updateJob_job, Option.map_map]
  congr 1
  funext job
  exact Prod.ext (count job) (last job)

def RunPc.reconciles : RunPc → Bool
  | .reconcile _ _ => true
  | _ => false

/-- Only the commit of a batch and the reconciliation change the progress. -/
theorem runStep_progress (env : Env) (kept : List String) (world : World)
    {pc : RunPc} (noCommit : pc.commits = false)
    (noReconcile : pc.reconciles = false) :
    (runStep env kept world pc).1.progress = world.progress := by
  cases pc with
  | commitBatch => cases noCommit
  | reconcile => cases noReconcile
  | claim =>
      simp only [runStep, claimStep]
      split
      · exact world.progress_updateJob (fun _ => rfl) fun _ => rfl
      · rfl
  | setStartedAt =>
      simp only [runStep]
      split
      · exact world.progress_updateJob (fun _ => rfl) fun _ => rfl
      · rfl
  | saveVerification =>
      simp only [runStep]
      split <;> rfl
  | cancelBeforeStart | writeCancelled | writeVerifying | writeFileKey
  | writeCompleted | failJob =>
      exact world.progress_updateJob (fun _ => rfl) fun _ => rfl
  | _ => rfl

theorem apiStep_progress (env : Env) {world : World} {pc : ApiPc}
    (other : pc.inserts = false ∨ world.job ≠ none) :
    (apiStep env world pc).1.progress = world.progress := by
  cases pc with
  | insertJob =>
      obtain ⟨job, found⟩ :=
        Option.ne_none_iff_exists'.mp (other.resolve_left (by simp [ApiPc.inserts]))
      simp only [apiStep, found]
  | remove | add | saveVerification =>
      simp only [apiStep]
      split <;> rfl
  | writeQueued | writeResuming =>
      exact world.progress_updateJob (fun _ => rfl) fun _ => rfl
  | writeCancel job =>
      refine world.progress_updateJob (fun row => ?_) fun row => ?_ <;>
        rw [cancelChange] <;> split <;> rfl
  | _ => rfl

theorem sweepStep_progress (env : Env) (world : World) (pc : SweepPc) :
    (sweepStep env world pc).1.progress = world.progress := by
  cases pc with
  | markInterrupted =>
      simp only [sweepStep]
      split
      · exact world.progress_updateJob (fun _ => rfl) fun _ => rfl
      · rfl
  | _ => rfl

variable {env : Env} {before after world : World} {run : Progress}

structure KeepsProgress (before after : World) : Prop where
  agrees : ProgressAgrees after
  forward : before.shownRows ≤ after.shownRows

/-- A step that changes neither the progress nor the log. -/
theorem KeepsProgress.same (agrees : ProgressAgrees before)
    (progress : after.progress = before.progress)
    (checkpoints : after.checkpoints = before.checkpoints) :
    KeepsProgress before after where
  agrees := by
    intro job found
    have shown : before.progress =
        some (job.exportedRowCount, job.lastExportedId) := by
      rw [← progress, World.progress, found, Option.map_some]
    obtain ⟨old, oldFound, pairEq⟩ := Option.map_eq_some_iff.mp shown
    obtain ⟨count, last⟩ := Prod.mk.inj pairEq
    rw [checkpoints, ← count, ← last]
    exact agrees old oldFound
  forward := by
    have rows : ∀ world : World, world.shownRows =
        (world.progress.map Prod.fst).getD 0 := by
      intro world
      rw [World.shownRows, World.progress, Option.map_map]
      rfl
    rw [rows before, rows after, progress]

theorem progress_commit {rows : List ExportableRow} {batchLastId : Int}
    (track : OnTrack world run) (log : LogInvariant world)
    (agrees : ProgressAgrees world) :
    KeepsProgress world (commitStep world run rows batchLastId).1 := by
  apply commitBatch_cases track log fun result => KeepsProgress world result.1
  · intro error
    exact .same agrees rfl rfl
  · rintro after ⟨_, _, count⟩ rfl
    obtain ⟨job, found, _⟩ := Option.map_eq_some_iff.mp track.job
    constructor
    · intro row rowFound
      simp only [found, Option.map_some, Option.some.injEq] at rowFound
      subst rowFound
      simp [count]
    · have same := (agrees job found).1
      simp only [World.shownRows, found, Option.map_some, Option.getD_some]
      omega

theorem progress_reconcile {job : ExportJob} {resume : ResumeState}
    (kept : List String)
    (rows : resume.rowsWritten = rowsOf world.checkpoints)
    (cursor : resume.lastExportedId = cursorOf world.checkpoints)
    (agrees : ProgressAgrees world) :
    KeepsProgress world
      (runStep env kept world (.reconcile job resume)).1 := by
  constructor
  · intro row found
    obtain ⟨old, oldFound, rfl⟩ := Option.map_eq_some_iff.mp found
    refine ⟨rows, ?_⟩
    change (if resume.lastExportedId = 0 then none
      else some resume.lastExportedId).getD 0 = cursorOf world.checkpoints
    rw [← cursor]
    split
    · next atStart => exact atStart.symm
    · rfl
  · cases found : world.job with
    | none => simp [World.shownRows, runStep, found]
    | some old =>
        simp [World.shownRows, runStep, found, rows, (agrees old found).1]

/-- A statement of a run that may write back what it has loaded. -/
theorem progress_runStep {pc : RunPc} (kept : List String)
    (known : logRuns world pc) (log : LogInvariant world)
    (current : ∀ job resume, pc = .reconcile job resume →
      resume.rowsWritten = rowsOf world.checkpoints ∧
        resume.lastExportedId = cursorOf world.checkpoints)
    (agrees : ProgressAgrees world) :
    KeepsProgress world (runStep env kept world pc).1 := by
  by_cases commits : pc.commits = true
  · cases pc with
    | commitBatch run rows batchLastId =>
        have batch : HasBatch world run rows batchLastId := known
        exact progress_commit batch.toOnTrack log agrees
    | _ => cases commits
  by_cases reconciles : pc.reconciles = true
  · cases pc with
    | reconcile job resume =>
        obtain ⟨rows, cursor⟩ := current job resume rfl
        exact progress_reconcile kept rows cursor agrees
    | _ => cases reconciles
  · simp only [Bool.not_eq_true] at commits reconciles
    exact .same agrees (runStep_progress env kept world commits reconciles)
      (runStep_checkpoints env kept world commits)

theorem progress_apiStep {pc : ApiPc} (log : LogInvariant world)
    (agrees : ProgressAgrees world) :
    KeepsProgress world (apiStep env world pc).1 := by
  by_cases other : pc.inserts = false ∨ world.job ≠ none
  · exact .same agrees (apiStep_progress env other)
      (apiStep_checkpoints env world pc)
  · simp only [not_or, not_not, Bool.not_eq_false] at other
    obtain ⟨inserts, absent⟩ := other
    have empty : world.checkpoints = [] :=
      log.empty (by rw [World.terms, absent, Option.map_none])
    cases pc with
    | insertJob userId rowLimit snapshotMaxId =>
        constructor
        · intro row found
          simp only [apiStep, absent, Option.some.injEq] at found
          subst found
          rw [apiStep_checkpoints, empty]
          exact ⟨rfl, rfl⟩
        · simp [World.shownRows, apiStep, absent, newExportJob]
    | _ => cases inserts

/-- A step that reconciles with the log as it is keeps the progress in step
with the log. -/
theorem progress_step {source target : Config World Proc}
    {event : Event Action Change} {permitted : Condition}
    (current : ReconcilesCurrent source event)
    (log : (logOutline env permitted).Holds source)
    (stepEq : (machine env).step source event = some target)
    (agrees : ProgressAgrees source.shared) :
    KeepsProgress source.shared target.shared := by
  cases event with
  | env change =>
      obtain ⟨shared, envEq, rfl⟩ := Network.step_env_iff.mp stepEq
      obtain rfl := Option.some.inj envEq
      exact .same agrees (by rw [World.progress, change.apply_job]; rfl)
        (change.apply_checkpoints _)
  | act index action =>
      obtain ⟨shared, proc, actEq, rfl⟩ := Network.step_act_iff.mp stepEq
      have step := actStep_of_act actEq
      generalize here : source.procs index = own at step
      have unchanged : KeepsProgress source.shared source.shared :=
        .same agrees rfl rfl
      cases step with
      | @run pc fault live =>
          have lands : fault.lands = true → ∀ kept, KeepsProgress
              source.shared (runStep env kept source.shared pc).1 :=
            fun landed kept => progress_runStep kept (log.run here) log.1
              (fun job resume same => current index fault job resume rfl
                (by rw [here, same]) landed) agrees
          cases fault with
          | refused => exact unchanged
          | none | lost | keeping => exact lands rfl _
      | api fault live =>
          exact apiCall_cases (motive := fun result =>
            KeepsProgress source.shared result.1) fault
            (progress_apiStep log.1 agrees) (fun _ => unchanged)
            fun _ => progress_apiStep log.1 agrees
      | @sweep pc fault =>
          have swept : KeepsProgress source.shared
              (sweepStep env source.shared pc).1 :=
            .same agrees (sweepStep_progress env source.shared pc)
              (sweepStep_checkpoints env source.shared pc)
          exact sweepCall_cases (motive := fun result =>
            KeepsProgress source.shared result.1) fault swept unchanged swept
      | queueFailed fault same =>
          exact .same agrees (by rw [World.progress, same.job]; rfl)
            same.checkpoints
      | _ => exact .same agrees rfl rfl

/-- A reconciliation after which progress and log agree was not out of
date. -/
theorem current_of_agrees {config : Config World Proc}
    {event : Event Action Change} {permitted : Condition}
    (log : (logOutline env permitted).Holds config)
    (agrees : ∀ next, (machine env).step config event = some next →
      ProgressAgrees next.shared) : ReconcilesCurrent config event := by
  rintro index fault job resume rfl here lands
  have track : OnTrack config.shared (.start job resume) := log.run here
  obtain ⟨old, found, _⟩ := Option.map_eq_some_iff.mp track.job
  let written := (runCall env config.shared (.reconcile job resume) fault).1
  have row : written.job = some
      { old with
        lastExportedId :=
          if resume.lastExportedId = 0 then none
          else some resume.lastExportedId
        exportedRowCount := resume.rowsWritten
        updatedAt := config.shared.now } := by
    cases fault with
    | refused => cases lands
    | _ => simp [written, runCall, runStep, found]
  have log_same : written.checkpoints = config.shared.checkpoints := by
    cases fault with
    | refused => cases lands
    | _ => rfl
  obtain ⟨rows, cursor⟩ := agrees
    ⟨written, Function.update config.procs index
      (.run (runCall env config.shared (.reconcile job resume) fault).2)⟩
    (Network.step_act_iff.mpr ⟨_, _, by
      simp [network, act, here, RunPc.ended, written], rfl⟩) _ row
  rw [log_same] at rows cursor
  refine ⟨rows, ?_⟩
  rw [← cursor]
  by_cases atStart : resume.lastExportedId = 0 <;> simp [atStart]

/-- Whatever runs, commands, sweeps, crashes and faults there are: the
progress shown agrees with the log in all states of a history if and only if
no reconciliation of it is out of date; and then it never goes back. -/
theorem progress_agrees_iff {source target : Config World Proc}
    {events : List (Event Action Change)} (initial : Initial env source)
    (history : (machine env).Exec Anything source events target) :
    ((∀ state ∈ (machine env).states source events,
        ProgressAgrees state.shared) ↔
      (machine env).Exec ReconcilesCurrent source events target) ∧
    ((machine env).Exec ReconcilesCurrent source events target →
      ((machine env).states source events).Pairwise fun earlier later =>
        earlier.shared.shownRows ≤ later.shared.shownRows) := by
  have start : ProgressAgrees source.shared := by
    intro job found
    rw [initial.noJob] at found
    cases found
  refine ⟨⟨fun agrees => ?_, fun current state visited => ?_⟩,
    fun current => ?_⟩
  · have visits := ((logOutline env Anything).strengthen history
      (logOutline_initial initial)).through
    refine visits.mono fun {config event} permission => ?_
    obtain ⟨⟨_, log⟩, _, visited⟩ := permission
    exact current_of_agrees log fun next stepEq =>
      agrees next (visited next stepEq)
  · have known := (logOutline env ReconcilesCurrent).strengthen current
      (logOutline_initial initial)
    exact known.invariant_of_mem_states visited
      (fun permission stepEq agrees =>
        (progress_step permission.1 permission.2 stepEq agrees).agrees) start
  · have known := ((logOutline env ReconcilesCurrent).strengthen current
      (logOutline_initial initial)).strengthen
        (fun permission stepEq agrees =>
          (progress_step permission.1 permission.2 stepEq agrees).agrees) start
    exact known.pairwise_states (fun first second => le_trans first second)
      fun permission stepEq =>
        (progress_step permission.1.1 permission.1.2 stepEq
          permission.2).forward

/-- `ReconcilesCurrent`, computed. -/
def reconcilesCurrent (config : Config World Proc) :
    Event Action Change → Bool
  | .act index (.call fault) =>
      match config.procs index with
      | .run (.reconcile _ resume) =>
          !fault.lands ||
            decide (resume.rowsWritten = rowsOf config.shared.checkpoints) &&
              decide (resume.lastExportedId =
                cursorOf config.shared.checkpoints)
      | _ => true
  | _ => true

theorem reconcilesCurrent_sound {config : Config World Proc}
    {event : Event Action Change}
    (passes : reconcilesCurrent config event = true) :
    ReconcilesCurrent config event := by
  rintro index fault job resume rfl here lands
  simpa [reconcilesCurrent, here, lands] using passes

theorem progress_agrees_iff_crashedAndResumed :
    ∃ target,
      (machine smallEnv).Exec ReconcilesCurrent (smallStart twoRecords)
        crashedAndResumed target ∧
      target.shared.shownRows = 2 ∧
      ∀ state ∈ (machine smallEnv).states (smallStart twoRecords)
        crashedAndResumed, ProgressAgrees state.shared := by
  obtain ⟨target, current, _, ends⟩ :=
    exists_history ReconcilesCurrent twoRecords 3 reconcilesCurrent
      crashedAndResumed
      (fun target => decide (target.shared.shownRows = 2))
      (fun _ passes => reconcilesCurrent_sound passes) (by decide +kernel)
  have agrees := (progress_agrees_iff (initial_smallStart _)
    (current.mono fun _ => trivial)).1.mpr current
  exact ⟨target, current, of_decide_eq_true ends, agrees⟩

/-- A worker stops for a minute before it commits; another one takes over and
loads the log; the first one commits; the second one reconciles. -/
def reconciledLate : List (Event Action Change) :=
  createSteps 1 ++ .act 1 .deliver :: calls 1 9 ++
    [.env (.tick 60000), .act 2 .start] ++ calls 2 4 ++ calls 1 1 ++
    calls 2 2

/-- The job shows no rows although its log accounts for one. -/
theorem reconciledLate_disagrees :
    ∃ target,
      (machine smallEnv).Exec Anything (smallStart oneRecord)
        reconciledLate target ∧
      target.shared.shownRows = 0 ∧ rowsOf target.shared.checkpoints = 1 ∧
      ¬ ProgressAgrees target.shared := by
  obtain ⟨target, history, _, ends⟩ :=
    exists_history Anything oneRecord 3 (fun _ _ => true) reconciledLate
      (fun target =>
        target.shared.job.any (fun job : ExportJob =>
          decide (job.exportedRowCount = 0)) &&
          decide (rowsOf target.shared.checkpoints = 1))
      (fun _ _ => trivial) (by decide +kernel)
  simp only [Bool.and_eq_true, decide_eq_true_eq, Option.any_eq_true] at ends
  obtain ⟨⟨job, found, none⟩, one⟩ := ends
  refine ⟨target, history, ?_, one, fun agrees => ?_⟩
  · rw [World.shownRows, found, Option.map_some, Option.getD_some, none]
  · have same := (agrees job found).1
    rw [none, one] at same
    exact absurd same (by decide)

end ExportVault
