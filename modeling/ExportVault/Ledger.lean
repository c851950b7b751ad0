import ExportVault.Frames

/-!
# The record of every failure

A status `FAILED` or `INTERRUPTED` and its row in `export_failures` are two
statements, in that order.  The row is there for the transition that stands,
once its process has gone on, exactly as long as nothing goes wrong between
the two (`FailuresRecorded`).
-/

namespace ExportVault

open Interleaving

def ExportStatus.failing : ExportStatus → Bool
  | .failed => true
  | .interrupted => true
  | _ => false

/-- The row a process is about to insert for the status it has written. -/
def Proc.toRecord (env : Env) : Proc → Option ExportFailure
  | .run (.recordFailure error _) =>
      some
        { exportJobId := some env.exportJobId
          errorType := "EXPORT_RUN_FAILED"
          errorMessage := slice error.message 8000 }
  | .sweep (.recordStalled message) =>
      some
        { exportJobId := some env.exportJobId
          errorType := "WORKER_STALLED"
          errorMessage := slice message 8000 }
  | _ => none

def Proc.recording : Proc → Option ExportStatus
  | .run (.recordFailure _ _) => some .failed
  | .sweep (.recordStalled _) => some .interrupted
  | _ => none

/-- No process writes a status. -/
def StatusKept : Condition := fun config event =>
  ∀ index action, event = .act index action →
    (config.procs index).writes config.shared action = none

/-- The process wrote the status that stands in the target, with this step of
the history; it had the row to insert after it, and these rows have been
inserted since. -/
def LastTransition (env : Env) (source : Config World Proc)
    (events : List (Event Action Change)) (target : Config World Proc)
    (status : ExportStatus) (index : Nat) (row : ExportFailure)
    (inserted : List ExportFailure) : Prop :=
  ∃ early action late before after,
    events = early ++ .act index action :: late ∧
    (machine env).Exec Anything source early before ∧
    (before.procs index).writes before.shared action = some status ∧
    (machine env).step before (.act index action) = some after ∧
    (machine env).Exec StatusKept after late target ∧
    (after.procs index).toRecord env = some row ∧
    target.shared.failures = after.shared.failures ++ inserted

/-- When the export is `FAILED` or `INTERRUPTED`, and the process that made it
so is not about to record it, the failures hold the row for that
transition. -/
def NotSilent (env : Env) (source : Config World Proc)
    (events : List (Event Action Change)) (target : Config World Proc) :
    Prop :=
  ∀ status, target.shared.status = some status → status.failing = true →
    ∃ index row inserted,
      LastTransition env source events target status index row inserted ∧
      ((target.procs index).recording = none → row ∈ inserted)

/-- The write of such a status is answered; and while it stands, the process
that goes on to record it neither dies nor has its insert refused. -/
def FailuresRecorded : Condition := fun config event =>
  ∀ index action, event = .act index action →
    (∀ status, (config.procs index).writes config.shared action =
      some status → status.failing = true →
      ∀ message, action ≠ .call (.lost message)) ∧
    (∀ status, (config.procs index).recording = some status →
      config.shared.status = some status →
      action ≠ .crash ∧ ∀ message, action ≠ .call (.refused message))

variable {env : Env} {index : Nat} {world after : World}
variable {proc next : Proc} {action : Action} {status : ExportStatus}

theorem runStep_written (env : Env) (kept : List String) {pc : RunPc}
    (writes : pc.writes world = some status) :
    (runStep env kept world pc).1.status = world.status.map fun _ => status := by
  have set : ∀ {change : ExportJob → ExportJob},
      (∀ job, (change job).status = status) →
        (world.updateJob change).status = world.status.map fun _ => status :=
    fun always => world.status_updateJob_set always
  cases pc with
  | claim job staleCutoff =>
      simp only [RunPc.writes, Option.ite_none_right_eq_some,
        Option.some.injEq] at writes
      obtain ⟨free, rfl⟩ := writes
      rw [runStep, claimStep, if_pos free]
      exact set fun _ => rfl
  | cancelBeforeStart | writeCancelled | writeVerifying | writeCompleted |
      failJob =>
      obtain rfl := Option.some.inj writes
      exact set fun _ => rfl
  | _ => cases writes

theorem apiStep_written (env : Env) {pc : ApiPc}
    (sets : pc.sets = some status) :
    (apiStep env world pc).1.status = world.status.map fun _ => status := by
  have set : ∀ {change : ExportJob → ExportJob},
      (∀ job, (change job).status = status) →
        (world.updateJob change).status = world.status.map fun _ => status :=
    fun always => world.status_updateJob_set always
  cases pc with
  | writeQueued | writeResuming =>
      obtain rfl := Option.some.inj sets
      exact set fun _ => rfl
  | writeCancel job =>
      simp only [ApiPc.sets, Option.ite_none_left_eq_some,
        Option.some.injEq] at sets
      obtain ⟨notRunning, rfl⟩ := sets
      apply set
      intro row
      rw [cancelChange, if_neg notRunning]
  | _ => cases sets

theorem sweepStep_written (env : Env) {pc : SweepPc}
    (writes : pc.writes world = some status) :
    (sweepStep env world pc).1.status = world.status.map fun _ => status := by
  cases pc with
  | markInterrupted cutoff message =>
      simp only [SweepPc.writes, Option.ite_none_right_eq_some,
        Option.some.injEq] at writes
      obtain ⟨stale, rfl⟩ := writes
      rw [sweepStep, if_pos stale]
      exact world.status_updateJob_set fun _ => rfl
  | _ => cases writes

/-- A step that writes a status sets it. -/
theorem actStep_written
    (step : ActStep env index world proc action after next)
    (writes : proc.writes world action = some status) :
    after.status = world.status.map fun _ => status := by
  cases step with
  | run fault live =>
      cases fault with
      | refused message => cases writes
      | none => exact runStep_written env [] writes
      | keeping kept => exact runStep_written env kept writes
      | lost message => exact runStep_written env [] writes
  | api fault live =>
      cases fault with
      | refused message => cases writes
      | _ => exact apiStep_written env writes
  | sweep fault =>
      cases fault with
      | refused message => cases writes
      | _ => exact sweepStep_written env writes
  | queueFailed fault same entry => cases fault <;> cases writes
  | _ => cases writes

/-- A step after which the export has failed wrote that status, or found
it. -/
theorem actStep_failing
    (step : ActStep env index world proc action after next)
    (now : after.status = some status) (failing : status.failing = true) :
    proc.writes world action = some status ∨
      proc.writes world action = none ∧ world.status = some status := by
  cases writes : proc.writes world action with
  | some written =>
      left
      rw [actStep_written step writes, Option.map_eq_some_iff] at now
      obtain ⟨_, _, rfl⟩ := now
      rfl
  | none =>
      refine .inr ⟨rfl, ?_⟩
      have foreign : status ∉ commandStatuses := by
        cases status <;> first | decide | cases failing
      have same : ∀ {sets : Option ExportStatus} {later : World},
          SetsStatus sets world later → sets = none →
            later.status = some status → world.status = some status :=
        fun change nothing => change.before (nothing ▸ nofun)
      cases step with
      | run fault live =>
          cases fault with
          | refused message => exact now
          | none => exact same (runStep_writes env [] world _) writes now
          | keeping kept =>
              exact same (runStep_writes env kept world _) writes now
          | lost message => exact same (runStep_writes env [] world _) writes now
      | api fault live =>
          exact apiCall_cases (motive := fun result =>
            result.1.status = some status → world.status = some status) fault
            (apiStep_before foreign) (fun _ => id)
            (fun _ => apiStep_before foreign) now
      | sweep fault =>
          cases fault with
          | refused message => exact now
          | none => exact same (sweepStep_writes env world _) writes now
          | keeping kept => exact same (sweepStep_writes env world _) writes now
          | lost message => exact same (sweepStep_writes env world _) writes now
      | queueFailed fault sameExport entry =>
          exact sameExport.status.symm.trans now
      | _ => exact now

/-- The process that has written such a status goes on to record it. -/
theorem actStep_records
    (step : ActStep env index world proc action after next)
    (writes : proc.writes world action = some status)
    (failing : status.failing = true)
    (answered : ∀ message, action ≠ .call (.lost message)) :
    next.recording = some status ∧ ∃ row, next.toRecord env = some row := by
  cases step with
  | @run pc fault live =>
      have goesOn : ∀ kept,
          (Proc.run (runStep env kept world pc).2).recording = some status ∧
            ∃ row, (Proc.run (runStep env kept world pc).2).toRecord env =
              some row := by
        intro kept
        have written : pc.writes world = some status := by
          cases fault with
          | refused message => cases writes
          | _ => exact writes
        cases pc with
        | failJob reason error exit =>
            exact ⟨written, _, rfl⟩
        | claim job staleCutoff =>
            simp only [RunPc.writes, Option.ite_none_right_eq_some,
              Option.some.injEq] at written
            obtain ⟨_, rfl⟩ := written
            cases failing
        | cancelBeforeStart | writeCancelled | writeVerifying |
            writeCompleted =>
            obtain rfl := Option.some.inj written
            cases failing
        | _ => cases written
      cases fault with
      | refused message => cases writes
      | none => exact goesOn []
      | keeping kept => exact goesOn kept
      | lost message => exact absurd rfl (answered message)
  | @api pc fault live =>
      have sets : pc.sets = some status := by
        cases fault with
        | refused message => cases writes
        | _ => exact writes
      cases pc with
      | writeQueued | writeResuming =>
          obtain rfl := Option.some.inj sets
          cases failing
      | writeCancel job =>
          simp only [ApiPc.sets, Option.ite_none_left_eq_some,
            Option.some.injEq] at sets
          obtain ⟨_, rfl⟩ := sets
          cases failing
      | _ => cases sets
  | @sweep pc fault =>
      have goesOn : (Proc.sweep (sweepStep env world pc).2).recording =
            some status ∧
          ∃ row, (Proc.sweep (sweepStep env world pc).2).toRecord env =
            some row := by
        have written : pc.writes world = some status := by
          cases fault with
          | refused message => cases writes
          | _ => exact writes
        cases pc with
        | markInterrupted cutoff message =>
            simp only [SweepPc.writes, Option.ite_none_right_eq_some,
              Option.some.injEq] at written
            obtain ⟨stale, rfl⟩ := written
            rw [sweepStep, if_pos stale]
            exact ⟨rfl, _, rfl⟩
        | _ => cases written
      cases fault with
      | refused message => cases writes
      | none => exact goesOn
      | keeping kept => exact goesOn
      | lost message => exact absurd rfl (answered message)
  | queueFailed fault same entry => cases fault <;> cases writes
  | _ => cases writes

theorem runStep_failures (env : Env) (kept : List String) (world : World)
    (pc : RunPc) :
    ∃ more, (runStep env kept world pc).1.failures =
      world.failures ++ more := by
  have same : ∀ {later : World}, later.failures = world.failures →
      ∃ more, later.failures = world.failures ++ more :=
    fun unchanged => ⟨[], by rw [unchanged, List.append_nil]⟩
  cases pc with
  | recordMissing | recordFailure => exact ⟨_, rfl⟩
  | claim =>
      simp only [runStep, claimStep]
      split <;> exact same rfl
  | setStartedAt | saveVerification =>
      simp only [runStep]
      split <;> exact same rfl
  | commitBatch =>
      simp only [runStep, commitStep, World.commitBatch]
      split
      · exact same rfl
      · next after committed =>
          split at committed
          · cases committed
          · obtain rfl := Option.some.inj committed
            exact same rfl
  | _ => exact same rfl

theorem sweepStep_failures (env : Env) (world : World) (pc : SweepPc) :
    ∃ more, (sweepStep env world pc).1.failures = world.failures ++ more := by
  have same : ∀ {later : World}, later.failures = world.failures →
      ∃ more, later.failures = world.failures ++ more :=
    fun unchanged => ⟨[], by rw [unchanged, List.append_nil]⟩
  cases pc with
  | recordStalled => exact ⟨_, rfl⟩
  | markInterrupted =>
      simp only [sweepStep]
      split <;> exact same rfl
  | _ => exact same rfl

/-- No failure is ever removed. -/
theorem act_failures
    (actEq : act env index world proc action = some (after, next)) :
    ∃ more, after.failures = world.failures ++ more := by
  have same : ∃ more, world.failures = world.failures ++ more :=
    ⟨[], (List.append_nil _).symm⟩
  have step := actStep_of_act actEq
  cases step with
  | @run pc fault live =>
      exact runCall_cases (motive := fun result =>
        ∃ more, result.1.failures = world.failures ++ more) fault
        (fun kept => runStep_failures env kept world pc) (fun _ => same)
        fun _ => runStep_failures env [] world pc
  | @api pc fault live =>
      have unchanged : ∃ more, (apiStep env world pc).1.failures =
          world.failures ++ more :=
        ⟨[], by rw [apiStep_failures, List.append_nil]⟩
      exact apiCall_cases (motive := fun result =>
        ∃ more, result.1.failures = world.failures ++ more) fault unchanged
        (fun _ => same) fun _ => unchanged
  | @sweep pc fault =>
      exact sweepCall_cases (motive := fun result =>
        ∃ more, result.1.failures = world.failures ++ more) fault
        (sweepStep_failures env world pc) same
        (sweepStep_failures env world pc)
  | queueFailed fault sameExport entry =>
      simp only [act, Option.some.injEq, Prod.mk.injEq] at actEq
      obtain ⟨rfl, _⟩ := actEq
      split
      · exact same
      · exact ⟨_, rfl⟩
  | _ => exact same

/-- The process inserts its row, or is still about to. -/
theorem actStep_inserts {row : ExportFailure}
    (step : ActStep env index world proc action after next)
    (recorded : proc.toRecord env = some row)
    (survives : action ≠ .crash ∧
      ∀ message, action ≠ .call (.refused message)) :
    next.toRecord env = some row ∧ next.recording = proc.recording ∨
      after.failures = world.failures ++ [row] := by
  cases step with
  | @run pc fault live =>
      cases pc with
      | recordFailure error exit =>
          obtain rfl := Option.some.inj recorded
          cases fault with
          | refused message => exact absurd rfl (survives.2 message)
          | _ => exact .inr rfl
      | _ => cases recorded
  | runCrash live => exact absurd rfl survives.1
  | sweepCrash => exact absurd rfl survives.1
  | stall held => exact .inl ⟨recorded, rfl⟩
  | @sweep pc fault =>
      cases pc with
      | recordStalled message =>
          obtain rfl := Option.some.inj recorded
          cases fault with
          | refused message => exact absurd rfl (survives.2 message)
          | _ => exact .inr rfl
      | _ => cases recorded
  | _ => cases recorded

/-- The transition that stands, with its row inserted or about to be. -/
def Accounted (env : Env) (source : Config World Proc)
    (events : List (Event Action Change)) (target : Config World Proc) :
    Prop :=
  ∀ status, target.shared.status = some status → status.failing = true →
    ∃ index row inserted,
      LastTransition env source events target status index row inserted ∧
      ((target.procs index).recording = some status ∧
          (target.procs index).toRecord env = some row ∨
        row ∈ inserted)

variable {source before later : Config World Proc}
variable {early : List (Event Action Change)}

/-- A transition stands after a step that writes no status. -/
theorem LastTransition.extend {row : ExportFailure}
    {inserted more : List ExportFailure} {event : Event Action Change}
    (last : LastTransition env source early before status index row inserted)
    (kept : StatusKept before event)
    (stepEq : (machine env).step before event = some later)
    (failures : later.shared.failures = before.shared.failures ++ more) :
    LastTransition env source (early ++ [event]) later status index row
      (inserted ++ more) := by
  obtain ⟨first, action, late, setting, set, split, reached, writes, stepped,
    stood, recorded, rows⟩ := last
  refine ⟨first, action, late ++ [event], setting, set, ?_, reached, writes,
    stepped, Machine.exec_append.mpr ⟨before, stood, kept, later, stepEq,
      rfl⟩, recorded, ?_⟩
  · rw [split, List.append_assoc, List.cons_append]
  · rw [failures, rows, List.append_assoc]

/-- A step keeps the transition that stands accounted for. -/
theorem accounted_step {event : Event Action Change}
    (reached : (machine env).Exec Anything source early before)
    (allowed : FailuresRecorded before event)
    (stepEq : (machine env).step before event = some later)
    (accounted : Accounted env source early before) :
    Accounted env source (early ++ [event]) later := by
  intro status now failing
  cases event with
  | env change =>
      have kept : StatusKept before (.env change) := nofun
      obtain ⟨shared, changeEq, rfl⟩ := Network.step_env_iff.mp stepEq
      obtain rfl := Option.some.inj changeEq
      have stood := (change.apply_status before.shared).symm.trans now
      obtain ⟨writer, row, inserted, last, recorded⟩ :=
        accounted status stood failing
      have failures : (change.apply before.shared).failures =
          before.shared.failures ++ [] := by
        rw [List.append_nil]
        cases change <;> rfl
      refine ⟨writer, row, inserted ++ [], last.extend kept stepEq failures, ?_⟩
      rwa [List.append_nil]
  | act index action =>
      obtain ⟨shared, proc, actEq, rfl⟩ := Network.step_act_iff.mp stepEq
      have step := actStep_of_act actEq
      obtain ⟨answered, survives⟩ := allowed index action rfl
      rcases actStep_failing step now failing with writes | ⟨keeps, stood⟩
      · -- this step is the transition
        obtain ⟨records, row, recorded⟩ :=
          actStep_records step writes failing (answered status writes failing)
        have here : Function.update before.procs index proc index = proc :=
          Function.update_self ..
        refine ⟨index, row, [], ⟨early, action, [], before, _, rfl, reached,
          writes, stepEq, rfl, ?_, (List.append_nil _).symm⟩, .inl ⟨?_, ?_⟩⟩
        · exact (congrArg (Proc.toRecord env) here).trans recorded
        · exact (congrArg Proc.recording here).trans records
        · exact (congrArg (Proc.toRecord env) here).trans recorded
      · have kept : StatusKept before (.act index action) := by
          rintro _ _ ⟨⟩
          exact keeps
        obtain ⟨writer, row, inserted, last, recorded⟩ :=
          accounted status stood failing
        obtain ⟨more, failures⟩ := act_failures actEq
        refine ⟨writer, row, inserted ++ more,
          last.extend kept stepEq failures, ?_⟩
        rcases recorded with ⟨recording, recorded⟩ | done
        · by_cases same : writer = index
          · subst same
            have here : Function.update before.procs writer proc writer =
                proc :=
              Function.update_self ..
            rcases actStep_inserts step recorded
              (survives status recording stood) with ⟨still, same⟩ | now
            · refine .inl ⟨?_, ?_⟩
              · exact (congrArg Proc.recording here).trans
                  (same.trans recording)
              · exact (congrArg (Proc.toRecord env) here).trans still
            · right
              rw [failures] at now
              rw [List.append_cancel_left now]
              exact List.mem_append_right _ (List.mem_singleton.mpr rfl)
          · have elsewhere : Function.update before.procs index proc writer =
                before.procs writer :=
              Function.update_of_ne same ..
            refine .inl ⟨?_, ?_⟩
            · exact (congrArg Proc.recording elsewhere).trans recording
            · exact (congrArg (Proc.toRecord env) elsewhere).trans recorded
        · exact .inr (List.mem_append_left _ done)

/-- In every history in which the failures are recorded without a fault, the
row for the transition that stands is there. -/
theorem no_silent_failure {target : Config World Proc}
    {events : List (Event Action Change)} (initial : Initial env source)
    (history : (machine env).Exec FailuresRecorded source events target) :
    NotSilent env source events target := by
  have accounted : Accounted env source events target := by
    refine history.history (fun reached allowed stepEq => accounted_step
      (reached.mono fun _ => trivial) allowed stepEq) ?_
    intro status now
    rw [World.status, initial.noJob] at now
    cases now
  intro status now failing
  obtain ⟨index, row, inserted, last, recorded⟩ :=
    accounted status now failing
  refine ⟨index, row, inserted, last, fun noneLeft => ?_⟩
  rcases recorded with ⟨recording, _⟩ | done
  · rw [noneLeft] at recording
    cases recording
  · exact done

/-- `FailuresRecorded`, computed: no process that has a row to insert dies or
is refused. -/
def failuresRecorded (config : Config World Proc) :
    Event Action Change → Bool
  | .act index action =>
      match action with
      | .crash => (config.procs index).recording.isNone
      | .call (.refused _) => (config.procs index).recording.isNone
      | .call (.lost _) => false
      | _ => true
  | .env _ => true

theorem failuresRecorded_sound {config : Config World Proc}
    {event : Event Action Change}
    (passes : failuresRecorded config event = true) :
    FailuresRecorded config event := by
  rintro index action rfl
  constructor
  · rintro status _ _ message rfl
    cases passes
  · intro status recording _
    constructor
    · rintro rfl
      simp [failuresRecorded, recording] at passes
    · rintro message rfl
      simp [failuresRecorded, recording] at passes

/-- The worker dies after its claim; the heartbeat expires and a sweep finds
the export. -/
def sweptUp : List (Event Action Change) :=
  createSteps 1 ++ .act 1 .deliver :: calls 1 2 ++
    [.act 1 .crash, .env (.tick 60000), .act 2 .beginSweep] ++ calls 2 2

theorem no_silent_failure_sweptUp :
    ∃ target,
      (machine smallEnv).Exec FailuresRecorded (smallStart oneRecord)
        (sweptUp ++ calls 2 1) target ∧
      target.shared.status = some .interrupted ∧
      NotSilent smallEnv (smallStart oneRecord) (sweptUp ++ calls 2 1)
        target := by
  obtain ⟨target, history, _, ends⟩ :=
    exists_history FailuresRecorded oneRecord 3 failuresRecorded
      (sweptUp ++ calls 2 1)
      (fun target => decide (target.shared.status = some .interrupted))
      (fun _ passes => failuresRecorded_sound passes) (by decide +kernel)
  exact ⟨target, history, of_decide_eq_true ends,
    no_silent_failure (initial_smallStart _) history⟩

/-- The sweeper dies between the status and the row: no row is ever
written. -/
theorem sweeper_dies_silently :
    ∃ target,
      (machine smallEnv).Exec Anything (smallStart oneRecord)
        (sweptUp ++ [.act 2 .crash]) target ∧
      (∀ index, (target.procs index).recording = none) ∧
      ¬ NotSilent smallEnv (smallStart oneRecord)
        (sweptUp ++ [.act 2 .crash]) target := by
  obtain ⟨target, history, idle, ends⟩ :=
    exists_history Anything oneRecord 3 (fun _ _ => true)
      (sweptUp ++ [.act 2 .crash])
      (fun target =>
        decide (target.shared.status = some .interrupted) &&
          decide (target.shared.failures = []) &&
          (List.range 3).all fun index =>
            (target.procs index).recording.isNone)
      (fun _ _ => trivial) (by decide +kernel)
  simp only [Bool.and_eq_true, decide_eq_true_eq, List.all_eq_true,
    List.mem_range, Option.isNone_iff_eq_none] at ends
  obtain ⟨⟨interrupted, nothing⟩, below⟩ := ends
  have noneLeft : ∀ index, (target.procs index).recording = none := by
    intro index
    by_cases inside : index < 3
    · exact below index inside
    · rw [idle index (not_lt.mp inside)]
      rfl
  refine ⟨target, history, noneLeft, fun notSilent => ?_⟩
  obtain ⟨index, row, inserted, ⟨_, _, _, _, after, _, _, _, _, _, _, rows⟩,
    recorded⟩ := notSilent .interrupted interrupted rfl
  rw [nothing] at rows
  have none := (List.append_eq_nil_iff.mp rows.symm).2
  rw [none] at recorded
  exact absurd (recorded (noneLeft index)) List.not_mem_nil

end ExportVault
