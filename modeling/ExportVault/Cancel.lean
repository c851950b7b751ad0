import ExportVault.Terminal

/-!
# Accepted cancels

A cancel of a `RUNNING` job sets a flag that a run polls at the head of its
batch loop only.  Once a cancel has returned, the job can still be completed by
a run that has polled for the last time.  When there is none, every other run
comes to a poll or to its claim first, so the job is not completed, and the
next delivery leaves it `CANCELLED`.
-/

namespace ExportVault

open Interleaving

def World.cancelFlagged (world : World) : Bool :=
  world.job.any ExportJob.cancelRequested

/-- Past the batch loop: the next status is `COMPLETED` unless something goes
wrong. -/
def RunPc.finishing : RunPc → Bool
  | .loadFinal _ => true
  | .writeVerifying _ _ => true
  | .readChunk _ _ _ _ => true
  | .uploadFinal _ _ => true
  | .headAssembled _ => true
  | .verifyHead _ => true
  | .verifyRead _ _ => true
  | .saveVerification _ _ => true
  | .writeCompleted _ => true
  | _ => false

/-- The checkpoints account for all requested rows. -/
def World.allExported (world : World) : Bool :=
  world.terms.any fun terms =>
    rowsOf world.checkpoints = terms.requestedRowLimit

/-- The run does not poll the flag again before it completes the job: it is
past its batch loop or in what may be its last batch, or it is on its way to
the loop and there is nothing left to export. -/
def RunPc.pastLastPoll (world : World) : RunPc → Bool
  | .claim _ _ => world.allExported
  | .setStartedAt _ => world.allExported
  | .loadResume _ => world.allExported
  | .readProgress job resume => resume.rowsWritten = job.requestedRowLimit
  | .reconcile job resume => resume.rowsWritten = job.requestedRowLimit
  | .fetchBatch run =>
      run.exportedRowCount + run.limit = run.job.requestedRowLimit
  | .putChunk run rows _ =>
      run.exportedRowCount + rows.length = run.job.requestedRowLimit
  | .confirmChunk run rows _ =>
      run.exportedRowCount + rows.length = run.job.requestedRowLimit
  | .commitBatch run rows _ =>
      run.exportedRowCount + rows.length = run.job.requestedRowLimit
  | pc => pc.finishing

/-- Every run has a poll before it, or its look at the job. -/
def NonePastLastPoll (config : Config World Proc) : Prop :=
  ∀ index pc, config.procs index = .run pc →
    pc.pastLastPoll config.shared = false

/-- Every run that has claimed the job is removing its chunks. -/
def OnlyTidying (config : Config World Proc) : Prop :=
  ∀ index pc, config.procs index = .run pc → pc.claimed = true →
    pc.tidies = true

def CancelInTime (config : Config World Proc) : ApiPc → Prop
  | .writeCancel job =>
      NonePastLastPoll config ∧
        (job.status = .running → config.shared.status ≠ some .completed)
  | .findForCancel _ =>
      config.shared.status = some .cancelled ∧
        (config.shared.cancelFlagged = true → NonePastLastPoll config) ∧
        (config.shared.cancelFlagged = false → OnlyTidying config)
  | _ => False

/-- No resume takes the cancel back. -/
def NoResume : Condition := fun config event =>
  ∀ index fault, event = .act index (.call fault) →
    config.procs index = .api .writeResuming →
      ∃ message, fault = .refused message

/-- No `QUEUED` is written, and no removal of chunks fails. -/
def CancelledKept : Condition := fun config event =>
  ∀ index fault, event = .act index (.call fault) →
    (config.procs index = .api .writeQueued →
      ∃ message, fault = .refused message) ∧
    ∀ pc, config.procs index = .run pc → pc.claimed = true →
      fault.fails = false

/-- What keeps a job whose flag is set from being completed. -/
structure FlagHolds (config : Config World Proc) : Prop where
  notCompleted : config.shared.status ≠ some .completed
  flagged : config.shared.cancelFlagged = true
  nonePast : NonePastLastPoll config

/-- What keeps a `CANCELLED` job so, whatever its flag. -/
structure CancelledHolds (config : Config World Proc) : Prop where
  cancelled : config.shared.status = some .cancelled
  tidying : OnlyTidying config

variable {env : Env} {world : World}

theorem World.cancelFlagged_updateJob (world : World)
    {change : ExportJob → ExportJob}
    (kept : ∀ job, (change job).cancelRequested = job.cancelRequested) :
    (world.updateJob change).cancelFlagged = world.cancelFlagged := by
  simp only [World.cancelFlagged, World.updateJob_job, Option.any_map]
  congr 1
  funext job
  exact kept job

theorem runStep_cancelFlagged (env : Env) (kept : List String)
    (world : World) (pc : RunPc) :
    (runStep env kept world pc).1.cancelFlagged = world.cancelFlagged := by
  cases pc with
  | cancelBeforeStart => exact world.cancelFlagged_updateJob fun _ => rfl
  | claim =>
      simp only [runStep, claimStep]
      split
      · exact world.cancelFlagged_updateJob fun _ => rfl
      · rfl
  | setStartedAt =>
      simp only [runStep]
      split
      · exact world.cancelFlagged_updateJob fun _ => rfl
      · rfl
  | reconcile => exact world.cancelFlagged_updateJob fun _ => rfl
  | writeCancelled => exact world.cancelFlagged_updateJob fun _ => rfl
  | commitBatch run rows batchLastId =>
      simp only [runStep, commitStep, World.commitBatch]
      split
      · rfl
      · next after committed =>
          split at committed
          · cases committed
          · obtain rfl := Option.some.inj committed
            simp only [World.cancelFlagged, Option.any_map]
  | writeVerifying => exact world.cancelFlagged_updateJob fun _ => rfl
  | saveVerification =>
      simp only [runStep]
      split <;> rfl
  | writeFileKey => exact world.cancelFlagged_updateJob fun _ => rfl
  | writeCompleted => exact world.cancelFlagged_updateJob fun _ => rfl
  | failJob => exact world.cancelFlagged_updateJob fun _ => rfl
  | _ => rfl

theorem sweepStep_cancelFlagged (env : Env) (world : World) (pc : SweepPc) :
    (sweepStep env world pc).1.cancelFlagged = world.cancelFlagged := by
  cases pc with
  | markInterrupted =>
      simp only [sweepStep]
      split
      · exact world.cancelFlagged_updateJob fun _ => rfl
      · rfl
  | _ => rfl

/-- Only a resume clears the flag. -/
theorem apiStep_cancelFlagged (env : Env) {world : World} {pc : ApiPc}
    (other : pc ≠ .writeResuming) (flagged : world.cancelFlagged = true) :
    (apiStep env world pc).1.cancelFlagged = true := by
  cases pc with
  | insertJob =>
      simp only [apiStep]
      split
      · exact flagged
      · next absent =>
          rw [World.cancelFlagged, absent] at flagged
          cases flagged
  | remove | add | saveVerification =>
      simp only [apiStep]
      split <;> exact flagged
  | writeQueued =>
      have kept : (world.updateJob fun row =>
          { row with status := .queued }).cancelFlagged =
          world.cancelFlagged := world.cancelFlagged_updateJob fun _ => rfl
      exact kept.trans flagged
  | writeResuming => exact absurd rfl other
  | writeCancel job =>
      obtain ⟨row, found, _⟩ := (Option.any_eq_true _ _).mp flagged
      simp only [apiStep, World.cancelFlagged, World.updateJob_job, found,
        Option.map_some, Option.any_some, cancelChange]
      split <;> rfl
  | _ => exact flagged

/-- The update of a cancel sets the flag. -/
theorem writeCancel_cancelFlagged (env : Env) {world : World}
    {job : ExportJob} (present : world.job ≠ none) :
    (apiStep env world (.writeCancel job)).1.cancelFlagged = true := by
  obtain ⟨row, found⟩ := Option.ne_none_iff_exists'.mp present
  simp only [apiStep, World.cancelFlagged, World.updateJob_job, found,
    Option.map_some, Option.any_some, cancelChange]
  split <;> rfl

/-! ## Polls -/

theorem pastLastPoll_of_finishing {pc : RunPc}
    (finishing : pc.finishing = true) : pc.pastLastPoll world = true := by
  cases pc <;> first | exact finishing | cases finishing

/-- The head of the loop polls as long as there is something to export. -/
theorem not_past_loopTop {run : Progress}
    (more : run.exportedRowCount ≠ run.job.requestedRowLimit) :
    (RunPc.loopTop run).pastLastPoll world = false :=
  RunPc.loopTop_cases (motive := fun next => next.pastLastPoll world = false)
    run (fun _ => rfl) (fun _ _ => rfl) fun all => absurd all more

theorem not_past_nextPage (outcome : RunOutcome) (token : Option String)
    (deleted : Nat) :
    (RunPc.nextPage outcome token deleted).pastLastPoll world = false :=
  RunPc.nextPage_cases (motive := fun next =>
    next.pastLastPoll world = false) outcome token deleted rfl fun _ => rfl

theorem not_past_of_ended {pc : RunPc} (ended : pc.ended = true) :
    pc.pastLastPoll world = false := by
  cases pc <;> first | rfl | cases ended

theorem not_past_onError (pc : RunPc) (error : AppError) :
    (pc.onError error).pastLastPoll world = false :=
  RunPc.onError_cases (motive := fun next =>
    next.pastLastPoll world = false) pc error
    (fun _ ended => not_past_of_ended ended) fun _ => rfl

/-- Whether all rows are exported is a matter of the terms and the log. -/
theorem World.allExported_congr {before after : World}
    (terms : after.terms = before.terms)
    (checkpoints : after.checkpoints = before.checkpoints) :
    after.allExported = before.allExported := by
  rw [World.allExported, World.allExported, terms, checkpoints]

/-- A run that is on its way to the loop finds there what the log holds. -/
theorem allExported_of_loaded {job : ExportJob} (knows : KnowsJob world job) :
    world.allExported =
      decide (rowsOf world.checkpoints = job.requestedRowLimit) := by
  rw [World.allExported, show world.terms = some job.terms from knows,
    Option.any_some]
  rfl

/-- A run that has a poll before it either polls, sees the flag and cancels,
or still has the poll before it. -/
theorem not_past_runStep (env : Env) (kept : List String) {pc : RunPc}
    (log : LogInvariant world) (assertion : logRuns world pc)
    (flagged : world.cancelFlagged = true)
    (before : pc.pastLastPoll world = false) :
    (runStep env kept world pc).2.pastLastPoll
      (runStep env kept world pc).1 = false := by
  have onward : pc.commits = false →
      (runStep env kept world pc).1.allExported = world.allExported :=
    fun other => World.allExported_congr (runStep_terms env kept world pc)
      (runStep_checkpoints env kept world other)
  cases pc with
  | findJob =>
      obtain ⟨job, found, wanted⟩ := (Option.any_eq_true _ _).mp flagged
      simp only [runStep, afterFindJob, found, wanted, if_true]
      repeat' split
      all_goals rfl
  | claim job staleCutoff =>
      have still := onward rfl
      simp only [runStep, claimStep] at still ⊢
      split
      · next claimed =>
          rw [if_pos claimed] at still
          exact still.trans before
      · rfl
  | setStartedAt job => exact (onward rfl).trans before
  | loadResume job =>
      have loaded := @allExported_of_loaded world job assertion
      simp only [runStep, log.load assertion]
      exact loaded.symm.trans before
  | readProgress job resume =>
      have more : resume.rowsWritten ≠ job.requestedRowLimit :=
        of_decide_eq_false before
      simp only [runStep]
      split
      · exact not_past_loopTop more
      · exact before
  | reconcile job resume =>
      exact not_past_loopTop (of_decide_eq_false before)
  | pollCancel run =>
      -- the poll sees the flag
      have seen : world.job.any ExportJob.cancelRequested = true := flagged
      simp only [runStep, seen, if_true]
      rfl
  | fetchBatch run =>
      have more : run.exportedRowCount + run.limit ≠
          run.job.requestedRowLimit := of_decide_eq_false before
      apply fetchBatch_cases env kept (fun next => next.pastLastPoll
        (runStep env kept world (.fetchBatch run)).1 = false)
      · exact fun _ => rfl
      · intro raw batchLastId _ fetched
        have few := fetched.few
        have most : run.limit ≤
            run.job.requestedRowLimit - run.exportedRowCount :=
          min_le_right _ _
        simp only [RunPc.pastLastPoll, List.length_map,
          decide_eq_false_iff_not]
        omega
  | putChunk => exact before
  | confirmChunk =>
      simp only [runStep, confirmStep]
      split
      · rfl
      · split
        · rfl
        · exact before
  | commitBatch run rows batchLastId =>
      have batch : HasBatch world run rows batchLastId := assertion
      exact commitBatch_cases batch.toOnTrack log
        (fun result => result.2.pastLastPoll result.1 = false)
        (fun _ => rfl)
        fun _ _ _ => not_past_loopTop (of_decide_eq_false before)
  | listChunks =>
      simp only [runStep]
      split
      · rfl
      · exact not_past_nextPage _ _ _
  | deletePage => exact not_past_nextPage _ _ _
  | recordFailure error exit => cases exit <;> rfl
  | loadFinal | writeVerifying | readChunk | uploadFinal => cases before
  | headAssembled | verifyHead | verifyRead | saveVerification => cases before
  | writeCompleted => cases before
  | _ => rfl

/-- Only a run that is past its last poll commits the last batch. -/
theorem not_allExported_runStep (env : Env) (kept : List String) {pc : RunPc}
    (log : LogInvariant world) (assertion : logRuns world pc)
    (before : pc.pastLastPoll world = false)
    (missing : world.allExported = false) :
    (runStep env kept world pc).1.allExported = false := by
  by_cases commits : pc.commits = false
  · rwa [World.allExported_congr (runStep_terms env kept world pc)
      (runStep_checkpoints env kept world commits)]
  · cases pc with
    | commitBatch run rows batchLastId =>
        have more : run.exportedRowCount + rows.length ≠
            run.job.requestedRowLimit := of_decide_eq_false before
        have batch : HasBatch world run rows batchLastId := assertion
        have terms := runStep_terms env kept world
          (.commitBatch run rows batchLastId)
        have knows : KnowsJob (commitStep world run rows batchLastId).1
            run.job := terms.trans batch.job
        refine (allExported_of_loaded knows).trans ?_
        apply commitBatch_cases batch.toOnTrack log (fun result =>
          decide (rowsOf result.1.checkpoints = run.job.requestedRowLimit) =
            false)
        · intro _
          rwa [← allExported_of_loaded batch.job]
        · rintro after ⟨_, _, count⟩ rfl
          simp only [rowsOf_append, rowsOf_cons, rowsOf_nil, ← count,
            decide_eq_false_iff_not]
          omega
    | _ => exact absurd rfl commits

theorem not_past_runCall (env : Env) {pc : RunPc} (fault : Fault)
    (log : LogInvariant world) (assertion : logRuns world pc)
    (flagged : world.cancelFlagged = true)
    (before : pc.pastLastPoll world = false) :
    (runCall env world pc fault).2.pastLastPoll
      (runCall env world pc fault).1 = false :=
  runCall_cases (motive := fun result =>
    result.2.pastLastPoll result.1 = false) fault
    (fun kept => not_past_runStep env kept log assertion flagged before)
    (fun _ => not_past_onError _ _) fun _ => not_past_onError _ _

theorem not_allExported_runCall (env : Env) {pc : RunPc} (fault : Fault)
    (log : LogInvariant world) (assertion : logRuns world pc)
    (before : pc.pastLastPoll world = false)
    (missing : world.allExported = false) :
    (runCall env world pc fault).1.allExported = false :=
  runCall_cases (motive := fun result => result.1.allExported = false) fault
    (fun kept => not_allExported_runStep env kept log assertion before missing)
    (fun _ => missing)
    fun _ => not_allExported_runStep env [] log assertion before missing

/-- A run keeps its poll as long as the others leave something to export. -/
theorem not_past_stable {after : World} {pc : RunPc}
    (missing : world.allExported = false → after.allExported = false)
    (before : pc.pastLastPoll world = false) :
    pc.pastLastPoll after = false := by
  cases pc <;> first | exact missing before | exact before

/-- A statement of a run does not complete the job unless it is past its
loop. -/
theorem runCall_notCompleted (env : Env) {pc : RunPc} (fault : Fault)
    (notFinishing : pc.finishing = false)
    (notCompleted : world.status ≠ some .completed) :
    (runCall env world pc fault).1.status ≠ some .completed := by
  have other : pc.sets ≠ some .completed := by
    cases pc with
    | writeCompleted => cases notFinishing
    | _ => simp [RunPc.sets]
  apply runCall_cases (motive := fun result =>
    result.1.status ≠ some .completed) fault
  · exact fun kept completed => notCompleted
      ((runStep_status env kept world pc).before other completed)
  · exact fun _ => notCompleted
  · exact fun _ completed => notCompleted
      ((runStep_status env [] world pc).before other completed)

theorem runCall_cancelFlagged (env : Env) (world : World) (fault : Fault)
    (pc : RunPc) :
    (runCall env world pc fault).1.cancelFlagged = world.cancelFlagged := by
  apply runCall_cases (motive := fun result =>
    result.1.cancelFlagged = world.cancelFlagged) fault
  · exact fun kept => runStep_cancelFlagged env kept world pc
  · exact fun _ => rfl
  · exact fun _ => runStep_cancelFlagged env [] world pc

/-- While the job is `CANCELLED` a run that only tidies, or has not claimed
the job, leaves it so and does not claim it. -/
theorem runCall_cancelled {pc : RunPc} {fault : Fault}
    (cancelled : world.status = some .cancelled)
    (tidying : pc.claimed = true → pc.tidies = true ∧ fault.fails = false)
    (live : pc.ended = false) :
    (runCall env world pc fault).1.status = some .cancelled ∧
      ((runCall env world pc fault).2.claimed = true →
        (runCall env world pc fault).2.tidies = true) := by
  obtain ⟨job, found, jobCancelled⟩ := Option.map_eq_some_iff.mp cancelled
  cases claimed : pc.claimed with
  | true =>
      obtain ⟨tidies, answered⟩ := tidying claimed
      have same : ∀ kept,
          (runStep env kept world pc).1.status = some .cancelled ∧
            ((runStep env kept world pc).2.claimed = true →
              (runStep env kept world pc).2.tidies = true) := by
        intro kept
        obtain ⟨sameJob, next⟩ := tidies_step env kept world tidies
        rw [World.status, sameJob]
        exact ⟨cancelled, fun _ => next⟩
      cases fault with
      | none => exact same []
      | keeping kept => exact same kept
      | refused => cases answered
      | lost => cases answered
  | false =>
      have unclaimed : ∀ {next : RunPc} {after : World},
          next.claimed = false → after.status = some .cancelled →
          after.status = some .cancelled ∧
            (next.claimed = true → next.tidies = true) := by
        intro next after free still
        refine ⟨still, fun owns => ?_⟩
        rw [free] at owns
        cases owns
      cases pc with
      | findJob =>
          have turnedAway : ∀ kept,
              (runStep env kept world .findJob).2.claimed = false := by
            intro kept
            simp [runStep, afterFindJob, found, jobCancelled, RunPc.claimed]
          cases fault with
          | none => exact unclaimed (turnedAway []) cancelled
          | keeping kept => exact unclaimed (turnedAway kept) cancelled
          | refused => exact unclaimed rfl cancelled
          | lost => exact unclaimed rfl cancelled
      | recordMissing => cases fault <;> exact unclaimed rfl cancelled
      | cancelBeforeStart =>
          have still : (runStep env [] world (.cancelBeforeStart job)).1.status =
              some .cancelled := by
            simp [runStep, World.status, found]
          cases fault with
          | refused => exact unclaimed rfl cancelled
          | _ => exact unclaimed rfl still
      | claim read staleCutoff =>
          have refused : world.job.any (claimable staleCutoff) = false := by
            simp [found, claimable, jobCancelled, resumableStatuses]
          have skipped : claimStep env world read staleCutoff =
              (world, .returned (.skipped (alreadyOwned env read))) := by
            simp [claimStep, refused]
          cases fault with
          | refused => exact unclaimed rfl cancelled
          | lost =>
              simp only [runCall, runStep, skipped]
              exact unclaimed rfl cancelled
          | none =>
              simp only [runCall, runStep, skipped]
              exact unclaimed rfl cancelled
          | keeping =>
              simp only [runCall, runStep, skipped]
              exact unclaimed rfl cancelled
      | returned | threw | crashed => cases live
      | _ => cases claimed

/-- A statement of a command leaves the flag, unless it takes the cancel
back. -/
theorem apiCall_cancelFlagged (env : Env) {pc : ApiPc} {fault : Fault}
    (noResume : pc = .writeResuming → ∃ message, fault = .refused message)
    (flagged : world.cancelFlagged = true) :
    (apiCall env world pc fault).1.cancelFlagged = true := by
  by_cases resumes : pc = .writeResuming
  · obtain ⟨message, rfl⟩ := noResume resumes
    exact flagged
  · exact apiCall_cases (motive := fun result =>
      result.1.cancelFlagged = true) fault
      (apiStep_cancelFlagged env resumes flagged) (fun _ => flagged)
      fun _ => apiStep_cancelFlagged env resumes flagged

/-- A statement of a command leaves a `CANCELLED` job so, unless it takes the
cancel back or is the last one of the creation. -/
theorem apiCall_cancelled (env : Env) {pc : ApiPc} {fault : Fault}
    (noResume : pc = .writeResuming → ∃ message, fault = .refused message)
    (noQueued : pc = .writeQueued → ∃ message, fault = .refused message)
    (cancelled : world.status = some .cancelled) :
    (apiCall env world pc fault).1.status = some .cancelled := by
  have present : world.job ≠ none := by
    intro absent
    rw [World.status, absent] at cancelled
    cases cancelled
  by_cases overwrites : pc = .writeResuming ∨ pc = .writeQueued
  · obtain ⟨message, rfl⟩ := overwrites.elim noResume noQueued
    exact cancelled
  · have step : (apiStep env world pc).1.status = some .cancelled := by
      rcases apiStep_status env (.inr present) with same | written
      · exact same.trans cancelled
      · obtain ⟨status, sets, same⟩ := written
        cases pc with
        | writeCancel job =>
            by_cases running : job.status = .running
            · simp [ApiPc.sets, running] at sets
            · rw [same, cancelled]
              simpa [ApiPc.sets, running, eq_comm] using sets
        | writeQueued => exact absurd (.inr rfl) overwrites
        | writeResuming => exact absurd (.inl rfl) overwrites
        | _ => cases sets
    exact apiCall_cases (motive := fun result =>
      result.1.status = some .cancelled) fault step (fun _ => cancelled)
      fun _ => step

/-- A statement of a sweep leaves a `CANCELLED` job alone. -/
theorem sweepCall_cancelled {pc : SweepPc} {fault : Fault}
    (cancelled : world.status = some .cancelled) :
    (sweepCall env world pc fault).1.status = some .cancelled := by
  obtain ⟨job, found, jobCancelled⟩ := Option.map_eq_some_iff.mp cancelled
  have step : (sweepStep env world pc).1.status = some .cancelled := by
    cases pc with
    | markInterrupted cutoff message =>
        have spared : world.job.any (stalled cutoff) = false := by
          simp [found, stalled, jobCancelled]
        simp only [sweepStep, spared, Bool.false_eq_true, if_false]
        exact cancelled
    | _ => exact cancelled
  cases fault with
  | refused => exact cancelled
  | _ => exact step

/-- Where the flag is set and every run has a poll before it, it stays so: a
run that comes to its poll cancels the job. -/
theorem flagHolds_step {before after : Config World Proc}
    {event : Event Action Change} (noResume : NoResume before event)
    (logged : (logOutline env Anything).Holds before)
    (stepEq : (machine env).step before event = some after)
    (holds : FlagHolds before) : FlagHolds after := by
  obtain ⟨notCompleted, flagged, nonePast⟩ := holds
  have present : before.shared.job ≠ none := by
    intro absent
    rw [World.cancelFlagged, absent] at flagged
    cases flagged
  cases event with
  | env change =>
      obtain ⟨shared, changeEq, rfl⟩ := Network.step_env_iff.mp stepEq
      obtain rfl := Option.some.inj changeEq
      have job := change.apply_job before.shared
      have still := World.allExported_congr (change.apply_terms before.shared)
        (change.apply_checkpoints before.shared)
      refine ⟨?_, ?_, fun index pc there => ?_⟩
      · rw [World.status, job]
        exact notCompleted
      · rw [World.cancelFlagged, job]
        exact flagged
      · exact not_past_stable (fun missing => still.trans missing)
          (nonePast index pc there)
  | act index action =>
      obtain ⟨shared, proc, actEq, rfl⟩ := Network.step_act_iff.mp stepEq
      have step := actStep_of_act actEq
      -- the processes other than the acting one keep their polls
      have next : shared.status ≠ some .completed →
          shared.cancelFlagged = true →
          (before.shared.allExported = false →
            shared.allExported = false) →
          (∀ pc, proc = .run pc → pc.pastLastPoll shared = false) →
          FlagHolds ⟨shared, Function.update before.procs index proc⟩ := by
        intro stillOpen stillFlagged missing own
        refine ⟨stillOpen, stillFlagged, fun other pc there => ?_⟩
        by_cases same : other = index
        · subst same
          exact own pc (by simpa using there)
        · exact not_past_stable missing (nonePast other pc
            (by simpa [Function.update_of_ne same] using there))
      -- a step that leaves the job and the log alone
      have passive : before.shared.SameExport shared →
          (∀ pc, proc = .run pc → pc.pastLastPoll shared = false) →
          FlagHolds ⟨shared, Function.update before.procs index proc⟩ := by
        intro same
        refine next ?_ ?_ ?_
        · rw [World.status, same.job]
          exact notCompleted
        · rw [World.cancelFlagged, same.job]
          exact flagged
        · rw [World.allExported_congr same.terms same.checkpoints]
          exact id
      generalize mine : before.procs index = old at step
      cases step with
      | start =>
          exact passive (.refl _) fun pc same => by cases same; rfl
      | deliver | settleReturned =>
          refine passive (World.sameExport_setEntry _ _) fun pc same => ?_
          cases same
          rfl
      | settleThrew =>
          exact passive (World.sameExport_setEntry _ _) fun pc same => by
            cases same
      | stall =>
          refine passive (World.sameExport_setEntry _ _) fun pc same => ?_
          cases same
          exact not_past_stable
            (World.allExported_congr rfl rfl).trans (nonePast index _ mine)
      | @run pc fault live =>
          have log := logged.1
          have assertion := logged.run mine
          have before := nonePast index pc mine
          have notFinishing : pc.finishing = false := by
            rw [Bool.eq_false_iff]
            intro finishing
            rw [pastLastPoll_of_finishing finishing] at before
            cases before
          refine next (runCall_notCompleted env fault notFinishing
              notCompleted)
            ((runCall_cancelFlagged env _ fault pc).trans flagged)
            (not_allExported_runCall env fault log assertion before)
            fun after same => ?_
          rw [← Proc.run.inj same]
          exact not_past_runCall env fault log assertion flagged before
      | runCrash live =>
          exact passive (.refl _) fun pc same => by cases same; rfl
      | @api pc fault live =>
          have terms := @apiStep_terms env before.shared pc (.inr present)
          have still := World.allExported_congr terms
            (apiStep_checkpoints env before.shared pc)
          refine next ?_ (apiCall_cancelFlagged env
              (fun same => noResume index fault rfl (by rw [mine, same]))
              flagged) ?_ fun pc same => by cases same
          · apply apiCall_cases (motive := fun result =>
              result.1.status ≠ some .completed) fault
            · exact fun completed =>
                notCompleted (apiStep_before (by decide) completed)
            · exact fun _ => notCompleted
            · exact fun _ completed =>
                notCompleted (apiStep_before (by decide) completed)
          · intro missing
            exact apiCall_cases (motive := fun result =>
              result.1.allExported = false) fault (still.trans missing)
              (fun _ => missing) fun _ => still.trans missing
      | @sweep pc fault =>
          have still := World.allExported_congr
            (sweepStep_terms env before.shared pc)
            (sweepStep_checkpoints env before.shared pc)
          refine next ?_ ?_ ?_ fun pc same => by cases same
          · apply sweepCall_cases (motive := fun result =>
              result.1.status ≠ some .completed) fault
            · exact fun completed =>
                notCompleted (sweepStep_before (by decide) completed)
            · exact notCompleted
            · exact fun completed =>
                notCompleted (sweepStep_before (by decide) completed)
          · exact sweepCall_cases (motive := fun result =>
              result.1.cancelFlagged = true) fault
              ((sweepStep_cancelFlagged env _ pc).trans flagged) flagged
              ((sweepStep_cancelFlagged env _ pc).trans flagged)
          · intro missing
            exact sweepCall_cases (motive := fun result =>
              result.1.allExported = false) fault (still.trans missing)
              missing (still.trans missing)
      | queueFailed fault same =>
          exact passive same fun pc same => by cases same
      | _ => exact passive (.refl _) fun pc same => by cases same

/-- While nothing takes the cancel back, a `CANCELLED` job stays so. -/
theorem cancelledHolds_step {before after : Config World Proc}
    {event : Event Action Change} (noResume : NoResume before event)
    (kept : CancelledKept before event)
    (stepEq : (machine env).step before event = some after)
    (holds : CancelledHolds before) : CancelledHolds after := by
  obtain ⟨cancelled, tidying⟩ := holds
  cases event with
  | env change =>
      obtain ⟨shared, changeEq, rfl⟩ := Network.step_env_iff.mp stepEq
      obtain rfl := Option.some.inj changeEq
      refine ⟨?_, tidying⟩
      rw [World.status, change.apply_job before.shared]
      exact cancelled
  | act index action =>
      obtain ⟨shared, proc, actEq, rfl⟩ := Network.step_act_iff.mp stepEq
      have step := actStep_of_act actEq
      have next : shared.status = some .cancelled →
          (∀ pc, proc = .run pc → pc.claimed = true → pc.tidies = true) →
          CancelledHolds
            ⟨shared, Function.update before.procs index proc⟩ := by
        intro still own
        refine ⟨still, fun other pc there claimed => ?_⟩
        by_cases same : other = index
        · subst same
          exact own pc (by simpa using there) claimed
        · exact tidying other pc
            (by simpa [Function.update_of_ne same] using there) claimed
      generalize mine : before.procs index = old at step
      cases step with
      | start | deliver | settleReturned | runCrash =>
          refine next cancelled fun pc same claimed => ?_
          cases same
          cases claimed
      | stall =>
          refine next cancelled fun pc same => ?_
          cases same
          exact tidying index _ mine
      | @run pc fault live =>
          obtain ⟨still, tidies⟩ := runCall_cancelled cancelled
            (fun claimed => ⟨tidying index pc mine claimed,
              (kept index fault rfl).2 pc mine claimed⟩) live
          refine next still fun after same => ?_
          rw [← Proc.run.inj same]
          exact tidies
      | @api pc fault live =>
          exact next (apiCall_cancelled env
              (fun same => noResume index fault rfl (by rw [mine, same]))
              (fun same => (kept index fault rfl).1 (by rw [mine, same]))
              cancelled)
            fun pc same => by cases same
      | sweep fault =>
          exact next (sweepCall_cancelled cancelled) fun pc same => by
            cases same
      | queueFailed fault same =>
          refine next ?_ fun pc same => by cases same
          rw [World.status, same.job]
          exact cancelled
      | _ => exact next cancelled fun pc same => by cases same

/-- The deciding statement of a cancel that comes in time and returns: the
flag is set and every run has a poll before it, or the job is `CANCELLED` and
nobody does more than remove its chunks. -/
theorem holds_of_inTime {deciding decided : Config World Proc}
    {index : Nat} {pc : ApiPc} {fault : Fault} {reply : ApiReply}
    (here : deciding.procs index = .api pc)
    (inTime : CancelInTime deciding pc)
    (decision : (machine env).step deciding (.act index (.call fault)) =
      some decided)
    (returned : decided.procs index = .api (.returned reply)) :
    FlagHolds decided ∨
      decided.shared.cancelFlagged = false ∧ CancelledHolds decided := by
  obtain ⟨shared, proc, actEq, rfl⟩ := Network.step_act_iff.mp decision
  have step := actStep_of_act actEq
  rw [here] at step
  simp only [Function.update_self] at returned
  -- the runs are where they were
  have elsewhere : ∀ {other : Nat} {otherPc : RunPc},
      Function.update deciding.procs index proc other = .run otherPc →
      deciding.procs other = .run otherPc := by
    intro other otherPc there
    by_cases same : other = index
    · subst same
      rw [Function.update_self, returned] at there
      cases there
    · rwa [Function.update_of_ne same] at there
  cases step with
  | api fault live =>
      have answered : (apiCall env deciding.shared pc fault).1 =
          (apiStep env deciding.shared pc).1 := by
        cases fault with
        | refused => cases returned
        | lost => cases returned
        | _ => rfl
      cases pc with
      | writeCancel job =>
          obtain ⟨nonePast, unfinished⟩ := inTime
          have present : deciding.shared.job ≠ none := by
            intro absent
            have threw : (apiStep env deciding.shared (.writeCancel job)).2 =
                .threw ⟨"Record to update not found", 500, "P2025", none⟩ := by
              simp [apiStep, returnJob, absent]
            cases fault with
            | refused => cases returned
            | lost => cases returned
            | _ =>
                simp only [apiCall, threw] at returned
                cases returned
          have still := World.allExported_congr
            (@apiStep_terms env deciding.shared (.writeCancel job)
              (.inr present))
            (apiStep_checkpoints env deciding.shared (.writeCancel job))
          refine .inl ⟨?_, ?_, fun other otherPc there => ?_⟩
          · simp only [answered]
            intro completed
            have before := apiStep_before (by decide) completed
            by_cases running : job.status = .running
            · exact unfinished running before
            · have written : (apiStep env deciding.shared
                  (.writeCancel job)).1.status =
                  deciding.shared.status.map fun _ => .cancelled := by
                apply World.status_updateJob_set
                intro row
                rw [cancelChange, if_neg running]
              rw [written, before] at completed
              cases completed
          · simp only [answered]
            exact writeCancel_cancelFlagged env present
          · simp only [answered]
            exact not_past_stable still.trans
              (nonePast other otherPc (elsewhere there))
      | findForCancel userId =>
          obtain ⟨cancelled, whenFlagged, whenNot⟩ := inTime
          have same : (apiCall env deciding.shared (.findForCancel userId)
              fault).1 = deciding.shared := answered
          simp only [same] at elsewhere ⊢
          cases flagged : deciding.shared.cancelFlagged with
          | true =>
              refine .inl ⟨?_, flagged, fun other otherPc there =>
                whenFlagged flagged other otherPc (elsewhere there)⟩
              simp [cancelled]
          | false =>
              exact .inr ⟨rfl, cancelled, fun other otherPc there =>
                whenNot flagged other otherPc (elsewhere there)⟩
      | _ => cases inTime

/-- A delivery of a job whose flag is set, or that is `CANCELLED`, leaves it
`CANCELLED`. -/
theorem delivery_cancels {config : Config World Proc}
    (unfinished : config.shared.status ≠ some .completed)
    (wanted : config.shared.cancelFlagged = true ∨
      config.shared.status = some .cancelled) {index : Nat}
    (idle : config.procs index = .idle) :
    ∃ count final outcome,
      (machine env).Exec Anything config
        (.act index .start :: calls index count) final ∧
      final.procs index = .run (.returned outcome) ∧
      final.shared.status = some .cancelled := by
  obtain ⟨job, found⟩ : ∃ job, config.shared.job = some job := by
    rcases wanted with flagged | cancelled
    · obtain ⟨job, found, _⟩ := (Option.any_eq_true _ _).mp flagged
      exact ⟨job, found⟩
    · obtain ⟨job, found, _⟩ := Option.map_eq_some_iff.mp cancelled
      exact ⟨job, found⟩
  have notCompleted : job.status ≠ .completed := by
    intro completed
    apply unfinished
    rw [World.status, found, Option.map_some, completed]
  have alone : ∀ {count : Nat} {after : World} {outcome : RunOutcome},
      (network env).solo index config.shared .idle
          (.start :: List.replicate count (.call .none)) =
        some (after, .run (.returned outcome)) →
      (machine env).Exec Anything config
        (.act index .start :: calls index count)
        ⟨after, Function.update config.procs index
          (.run (.returned outcome))⟩ := by
    intro count after outcome soloEq
    rw [← idle] at soloEq
    have execution : (machine env).Exec Anything config _ _ :=
      Network.exec_solo (fun _ _ _ => trivial) soloEq
    rwa [List.map_cons, List.map_replicate] at execution
  by_cases cancelled : job.status = .cancelled
  · have skips := @alone 1 config.shared (.skipped "Job was cancelled") (by
      simp [Network.solo, network, act, RunPc.ended, runCall, runStep,
        afterFindJob, found, cancelled])
    refine ⟨1, _, _, skips, Function.update_self _ _ _, ?_⟩
    rw [World.status, found, Option.map_some, cancelled]
  · have flagged : job.cancelRequested = true := by
      rcases wanted with flagged | status
      · rwa [World.cancelFlagged, found] at flagged
      · rw [World.status, found] at status
        exact absurd (Option.some.inj status) cancelled
    have cancels := @alone 2
      (runStep env [] config.shared (.cancelBeforeStart job)).1
      (.cancelled job.exportedRowCount) (by
        simp [Network.solo, network, act, RunPc.ended, runCall, runStep,
          afterFindJob, found, notCompleted, cancelled, flagged,
          List.replicate])
    refine ⟨2, _, _, cancels, Function.update_self _ _ _, ?_⟩
    simp [runStep, World.status, found]

/-- A cancel that is decided while every run has a poll before it, and
returns, is final: whatever happens then, short of a resume, the job is not
completed, and a further delivery leaves it `CANCELLED`.  (A job found
`CANCELLED` without its flag relies on its status alone.) -/
theorem cancel_final {source deciding decided target : Config World Proc}
    {earlier events : List (Event Action Change)} {index : Nat} {pc : ApiPc}
    {fault : Fault} {reply : ApiReply} (initial : Initial env source)
    (reached : (machine env).Exec Anything source earlier deciding)
    (here : deciding.procs index = .api pc)
    (inTime : CancelInTime deciding pc)
    (decision : (machine env).step deciding (.act index (.call fault)) =
      some decided)
    (returned : decided.procs index = .api (.returned reply))
    (history : (machine env).Exec
      (fun config event => NoResume config event ∧
        (decided.shared.cancelFlagged = false → CancelledKept config event))
      decided events target) :
    target.shared.status ≠ some .completed ∧
      ∀ worker, target.procs worker = .idle →
        ∃ count final outcome,
          (machine env).Exec Anything target
            (.act worker .start :: calls worker count) final ∧
          final.procs worker = .run (.returned outcome) ∧
          final.shared.status = some .cancelled := by
  let logs := logOutline env Anything
  have logged : logs.Holds decided :=
    logs.toProofOutline.step_preserved trivial decision
      (logs.preserved reached (logOutline_initial initial))
  rcases holds_of_inTime here inTime decision returned with
    flag | ⟨unflagged, cancelled⟩
  · have later : (machine env).Exec
        (fun config event => NoResume config event ∧ logs.Holds config)
        decided events target :=
      (history.strengthen (fun _ => logs.toProofOutline.step_preserved trivial)
        logged).mono fun allowed => ⟨allowed.1.1, allowed.2⟩
    have holds : FlagHolds target :=
      later.invariant (fun allowed => flagHolds_step allowed.1 allowed.2) flag
    exact ⟨holds.notCompleted, fun worker idle =>
      delivery_cancels holds.notCompleted (.inl holds.flagged) idle⟩
  · have holds : CancelledHolds target :=
      history.invariant (fun allowed =>
        cancelledHolds_step allowed.1 (allowed.2 unflagged)) cancelled
    have unfinished : target.shared.status ≠ some .completed := by
      simp [holds.cancelled]
    exact ⟨unfinished, fun worker idle =>
      delivery_cancels unfinished (.inr holds.cancelled) idle⟩

/-- `NoResume`, where a resume is not taken up at all. -/
def noResume (config : Config World Proc) : Event Action Change → Bool
  | .act index (.call _) =>
      !(config.procs index).commands (fun pc => pc = .writeResuming)
  | _ => true

theorem noResume_sound {config : Config World Proc}
    {event : Event Action Change} (passes : noResume config event = true) :
    NoResume config event := by
  rintro index fault rfl here
  simp [noResume, here, Proc.commands] at passes

def cancelsBeforePoll : List (Event Action Change) :=
  createSteps 1 ++ .act 1 .deliver :: calls 1 5 ++
    .act 2 (.request (.cancel "u")) :: calls 2 1

def ApiPc.cancels : ApiPc → Bool
  | .writeCancel _ => true
  | _ => false

def ApiPc.answers : ApiPc → Bool
  | .returned (.job _) => true
  | _ => false

theorem cancel_final_cancelsBeforePoll :
    ∃ deciding decided target : Config World Proc,
      (machine smallEnv).Exec Anything (smallStart oneRecord)
        cancelsBeforePoll deciding ∧
      (machine smallEnv).step deciding (.act 2 (.call .none)) =
        some decided ∧
      (machine smallEnv).Exec NoResume decided
        (calls 1 3 ++ [.act 1 .settle]) target ∧
      target.shared.status ≠ some .completed ∧
      ∀ worker, target.procs worker = .idle →
        ∃ count final outcome,
          (machine smallEnv).Exec Anything target
            (.act worker .start :: calls worker count) final ∧
          final.procs worker = .run (.returned outcome) ∧
          final.shared.status = some .cancelled := by
  obtain ⟨deciding, history, idle, ends⟩ :=
    exists_history Anything oneRecord 3 (fun _ _ => true) cancelsBeforePoll
      (fun deciding =>
        (deciding.procs 2).commands ApiPc.cancels &&
          decide (deciding.shared.status ≠ some .completed) &&
          (List.range 3).all (fun index =>
            !(deciding.procs index).runs
              (RunPc.pastLastPoll deciding.shared)) &&
          ((machine smallEnv).step deciding (.act 2 (.call .none))).any
            fun decided : Config World Proc =>
              (decided.procs 2).commands ApiPc.answers &&
                decided.shared.cancelFlagged &&
                ((machine smallEnv).runChecked noResume decided
                  (calls 1 3 ++ [.act 1 .settle])).isSome)
      (fun _ _ => trivial) (by decide +kernel)
  simp only [Bool.and_eq_true, decide_eq_true_eq, List.all_eq_true,
    List.mem_range, Option.any_eq_true, Option.isSome_iff_exists] at ends
  obtain ⟨⟨⟨cancelling, unfinished⟩, polling⟩, decided, decision,
    ⟨replied, flagged⟩, target, runEq⟩ := ends
  have nonePast : NonePastLastPoll deciding := by
    intro index pc there
    by_cases below : index < 3
    · simpa [there, Proc.runs] using polling index below
    · rw [idle index (not_lt.mp below)] at there
      cases there
  have later : (machine smallEnv).Exec NoResume decided
      (calls 1 3 ++ [.act 1 .settle]) target :=
    Machine.exec_of_runChecked (fun _ => True)
      (fun _ passes => noResume_sound passes) (fun _ _ _ => trivial)
      trivial runEq
  obtain ⟨pc, here, cancels⟩ := Proc.exists_of_commands cancelling
  obtain ⟨after, returned, answers⟩ := Proc.exists_of_commands replied
  cases pc with
  | writeCancel job =>
      cases after with
      | returned reply =>
          have final := cancel_final (initial_smallStart _) history here
            ⟨nonePast, fun _ => unfinished⟩ decision returned
            (later.mono fun allowed =>
              ⟨allowed, fun unflagged => absurd flagged (by simp [unflagged])⟩)
          exact ⟨deciding, decided, target, history, decision, later, final⟩
      | _ => cases answers
  | _ => cases cancels

def cancelsAfterPoll : List (Event Action Change) :=
  createSteps 1 ++ .act 1 .deliver :: calls 1 6 ++
    .act 2 (.request (.cancel "u")) :: calls 2 2

/-- A cancelled export is completed all the same. -/
theorem cancelled_then_completed :
    ∃ cancelled completed : Config World Proc,
      (machine smallEnv).Exec Anything (smallStart oneRecord)
        cancelsAfterPoll cancelled ∧
      (∃ job, cancelled.procs 2 = .api (.returned (.job job))) ∧
      (machine smallEnv).Exec Anything cancelled (calls 1 13) completed ∧
      completed.shared.status = some .completed := by
  obtain ⟨cancelled, history, _, ends⟩ :=
    exists_history Anything oneRecord 3 (fun _ _ => true) cancelsAfterPoll
      (fun cancelled =>
        (cancelled.procs 2).commands ApiPc.answers &&
          ((machine smallEnv).runChecked (fun _ _ => true) cancelled
            (calls 1 13)).any fun completed : Config World Proc =>
              decide (completed.shared.status = some .completed))
      (fun _ _ => trivial) (by decide +kernel)
  simp only [Bool.and_eq_true, decide_eq_true_eq, Option.any_eq_true] at ends
  obtain ⟨replied, completed, runEq, ended⟩ := ends
  obtain ⟨pc, returned, answers⟩ := Proc.exists_of_commands replied
  unfold ApiPc.answers at answers
  split at answers
  · next job =>
      exact ⟨cancelled, completed, history, ⟨job, returned⟩,
        Machine.exec_of_runChecked (fun _ => True) (fun _ _ => trivial)
          (fun _ _ _ => trivial) trivial runEq, ended⟩
  · cases answers

end ExportVault
