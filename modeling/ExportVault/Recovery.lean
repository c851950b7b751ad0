import ExportVault.Redelivery

/-!
# Recovery

From every state in which nobody executes an unfinished export, a sweep after
the stall timeout, a resume by the owner and a delivery of the queue entry
lead to a run that claims the job, unless a run died at `VERIFYING`: no sweep,
resume or claim accepts that status.
-/

namespace ExportVault

open Interleaving

def Action.recovers (world : World) : Action → Bool
  | .beginSweep => true
  | .request (.resume userId) =>
      world.job.any fun job => job.userId = userId
  | .deliver => true
  | .call .none => true
  | _ => false

/-- Time passes, processes that had not begun act in the recovery, and the
queue notices how the earlier ones ended. -/
def RecoveryStep (origin : Config World Proc) : Condition := fun _ event =>
  match event with
  | .env (.tick _) => True
  | .env (.setRecords _) => False
  | .act _ .settle => True
  | .act _ .stall => True
  | .act index action =>
      origin.procs index = .idle ∧ action.recovers origin.shared = true

def Recoverable (env : Env) (origin : Config World Proc) : Prop :=
  ∃ target index job,
    (machine env).Reaches (RecoveryStep origin) origin target ∧
      origin.procs index = .idle ∧
      target.procs index = .run (.setStartedAt job)

def EntryHeld (config : Config World Proc) : Prop :=
  ∀ entry holder, config.shared.entry = some entry →
    entry.state = .active holder → ∃ pc, config.procs holder = .run pc

/-- Every step keeps the active entry with its process. -/
theorem entryHeld_step {env : Env} {before after : Config World Proc}
    {event : Event Action Change}
    (stepEq : (machine env).step before event = some after)
    (held : EntryHeld before) : EntryHeld after := by
  cases event with
  | env change =>
      obtain ⟨shared, changeEq, rfl⟩ := Network.step_env_iff.mp stepEq
      obtain rfl := Option.some.inj changeEq
      intro entry holder entryEq active
      exact held entry holder
        ((change.apply_entry before.shared).symm.trans entryEq) active
  | act index action =>
      obtain ⟨shared, proc, actEq, rfl⟩ := Network.step_act_iff.mp stepEq
      intro entry holder entryEq active
      rcases actStep_entry (actStep_of_act actEq) entryEq active with
        ⟨entryBefore, goesOn⟩ | ⟨rfl, rfl⟩
      · obtain ⟨old, there⟩ := held entry holder entryBefore active
        by_cases same : holder = index
        · subst same
          simpa using goesOn old there
        · exact ⟨old, by simpa [Function.update_of_ne same] using there⟩
      · exact ⟨_, Function.update_self _ _ _⟩

theorem entryHeld_initial {env : Env} {config : Config World Proc}
    (initial : Initial env config) : EntryHeld config := by
  intro entry holder entryEq
  rw [initial.noEntry] at entryEq
  cases entryEq

def FinitelyBegun (config : Config World Proc) : Prop :=
  ∃ bound, IdleFrom bound config

theorem finitelyBegun_step {env : Env} {before after : Config World Proc}
    {event : Event Action Change}
    (stepEq : (machine env).step before event = some after)
    (begun : FinitelyBegun before) : FinitelyBegun after := by
  obtain ⟨bound, idle⟩ := begun
  cases event with
  | env change => exact ⟨bound, idleFrom_step rfl stepEq idle⟩
  | act index action =>
      refine ⟨max bound (index + 1), idleFrom_step ?_ stepEq fun other high =>
        idle other (le_trans (le_max_left _ _) high)⟩
      exact decide_eq_true (lt_of_lt_of_le (Nat.lt_succ_self index)
        (le_max_right _ _))

theorem finitelyBegun_initial {env : Env} {config : Config World Proc}
    (initial : Initial env config) : FinitelyBegun config :=
  ⟨0, fun index _ => initial.idle index⟩

section Stages

variable {env : Env} {origin config : Config World Proc}

/-- What a process that had not begun does is part of a recovery. -/
theorem recovery_solo {index : Nat} {actions : List Action}
    {world after : World} {procs : Nat → Proc} {proc : Proc}
    (idle : origin.procs index = .idle) (here : procs index = .idle)
    (soloEq : (network env).solo index world .idle actions =
      some (after, proc))
    (recovers : ∀ action ∈ actions,
      action.recovers origin.shared = true) :
    (machine env).Reaches (RecoveryStep origin) ⟨world, procs⟩
      ⟨after, Function.update procs index proc⟩ := by
  refine ⟨_, Network.exec_solo (fun _ action member => ?_) (here ▸ soloEq)⟩
  have allowed := recovers action member
  cases action with
  | settle => trivial
  | stall => trivial
  | _ => exact ⟨idle, allowed⟩

/-- The queue notices how one process ended. -/
theorem recovery_notice {holder : Nat} {action : Action} {pc : RunPc}
    {entry : QueueEntry} {proc : Proc}
    (here : config.procs holder = .run pc)
    (move : action = .settle ∨ action = .stall)
    (actEq : act env holder config.shared (.run pc) action =
      some (config.shared.setEntry (some entry), proc)) :
    (machine env).Reaches (RecoveryStep origin) config
        ⟨config.shared.setEntry (some entry),
          Function.update config.procs holder proc⟩ ∧
      ∀ index, config.procs index = .idle →
        Function.update config.procs holder proc index = .idle := by
  refine ⟨⟨[.act holder action], ?_, _,
    Network.step_act_iff.mpr ⟨_, _, here ▸ actEq, rfl⟩, rfl⟩, ?_⟩
  · rcases move with rfl | rfl <;> trivial
  · intro index idle
    have different : index ≠ holder := by
      rintro rfl
      rw [here] at idle
      cases idle
    rwa [Function.update_of_ne different]

/-- The queue notices how the holder of its entry ended. -/
theorem recovery_release (env : Env) (origin : Config World Proc)
    (free : NoRunExecuting config) (held : EntryHeld config) :
    ∃ entry procs,
      (machine env).Reaches (RecoveryStep origin) config
        ⟨config.shared.setEntry entry, procs⟩ ∧
      (∀ holder attempts stalls, entry ≠ some ⟨.active holder, attempts,
        stalls⟩) ∧
      ∀ index, config.procs index = .idle → procs index = .idle := by
  cases entryEq : config.shared.entry with
  | none =>
      refine ⟨none, config.procs, ?_, by simp, fun _ idle => idle⟩
      rw [← entryEq]
      exact .refl _
  | some entry =>
      by_cases active : ∃ holder, entry.state = .active holder
      · obtain ⟨holder, active⟩ := active
        have holds : config.shared.heldEntry holder = some entry := by
          simp [World.heldEntry, entryEq, Option.filter, active]
        obtain ⟨pc, here⟩ := held entry holder entryEq active
        have ended := free holder
        rw [here] at ended
        cases pc with
        | returned outcome =>
            have actEq : act env holder config.shared
                (.run (.returned outcome)) .settle =
                some (config.shared.setEntry
                  (some { entry with state := .completed }),
                  .run (.returned outcome)) := by
              simp [act, queueMove, holds]
            obtain ⟨reached, others⟩ :=
              recovery_notice here (.inl rfl) actEq
            exact ⟨_, _, reached, by simp, others⟩
        | threw error =>
            have actEq : act env holder config.shared (.run (.threw error))
                .settle = some (config.shared.setEntry
                  (some entry.afterThrow), .queueFailed error) := by
              simp [act, queueMove, holds]
            obtain ⟨reached, others⟩ :=
              recovery_notice here (.inl rfl) actEq
            refine ⟨_, _, reached, ?_, others⟩
            simp only [QueueEntry.afterThrow]
            split <;> simp
        | crashed =>
            have actEq : act env holder config.shared (.run .crashed) .stall =
                some (config.shared.setEntry (some entry.afterStall),
                  .run .crashed) := by
              simp [act, queueMove, holds]
            obtain ⟨reached, others⟩ :=
              recovery_notice here (.inr rfl) actEq
            refine ⟨_, _, reached, ?_, others⟩
            simp only [QueueEntry.afterStall]
            split <;> simp
        | _ => cases ended
      · refine ⟨some entry, config.procs, ?_, ?_, fun _ idle => idle⟩
        · rw [← entryEq]
          exact .refl _
        · rintro holder attempts stalls same
          exact active ⟨holder, by rw [Option.some.inj same]⟩

/-- Once the stall timeout has passed, a sweep interrupts a job that is still
`RUNNING`. -/
theorem recovery_sweep (env : Env) {index : Nat} {world : World}
    {procs : Nat → Proc} {job : ExportJob}
    (idle : origin.procs index = .idle) (here : procs index = .idle)
    (found : world.job = some job) (running : job.status = .running) :
    ∃ after swept,
      (machine env).Reaches (RecoveryStep origin) ⟨world, procs⟩
        ⟨after, Function.update procs index (.sweep .ended)⟩ ∧
      after.entry = world.entry ∧ after.job = some swept ∧
      swept.status = .interrupted ∧ swept.userId = job.userId := by
  let late := (job.updatedAt + env.stallTimeoutSeconds * 1000 -
    world.now + 1).toNat
  let waited := (Change.tick late).apply world
  have waits : (machine env).Reaches (RecoveryStep origin) ⟨world, procs⟩
      ⟨waited, procs⟩ :=
    ⟨[.env (.tick late)], trivial, _,
      Network.step_env_iff.mpr ⟨waited, rfl, rfl⟩, rfl⟩
  have expired : stalled (env.staleCutoff waited) job = true := by
    simp only [stalled, running, Env.staleCutoff, waited, Change.apply,
      decide_true, Bool.true_and, decide_eq_true_eq]
    omega
  have foundLate : waited.job = some job := found
  let marked := waited.updateJob fun row =>
    { row with
      status := .interrupted
      errorMessage := some (stalledMessage job) }
  let failure : ExportFailure :=
    { exportJobId := some env.exportJobId
      errorType := "WORKER_STALLED"
      errorMessage := slice (stalledMessage job) 8000 }
  have sweeps : (network env).solo index waited .idle
      [.beginSweep, .call .none, .call .none, .call .none] =
      some (marked.insertFailure failure, .sweep .ended) := by
    simp [Network.solo, network, act, sweepCall, sweepStep, foundLate,
      expired, marked, failure]
  exact ⟨marked.insertFailure failure,
    { job with
      status := .interrupted
      errorMessage := some (stalledMessage job)
      updatedAt := waited.now },
    waits.trans (recovery_solo idle here sweeps (by simp [Action.recovers])),
    rfl, by simp [marked, foundLate], rfl, rfl⟩

/-- `enqueueExportJob`, when it meets nobody else: an entry that is not
locked is replaced by a waiting one. -/
theorem solo_enqueue (env : Env) (world : World) (index : Nat)
    (caller : EnqueueCaller) :
    ∃ count entry,
      (network env).solo index world (.api (.getJob caller))
          (List.replicate count (.call .none)) =
        some (world.setEntry entry, .api (.afterEnqueue caller)) ∧
      ((∀ holder attempts stalls, world.entry ≠ some ⟨.active holder,
        attempts, stalls⟩) → entry = some {}) := by
  cases entryEq : world.entry with
  | none =>
      refine ⟨2, some {}, ?_, fun _ => rfl⟩
      simp [List.replicate, solo_api, ApiPc.ended, apiStep, entryEq]
  | some entry =>
      obtain ⟨state, attempts, stalls⟩ := entry
      cases state with
      | active holder =>
          have same : world.setEntry (some ⟨.active holder, attempts,
              stalls⟩) = world := by rw [← entryEq]; rfl
          refine ⟨2, some ⟨.active holder, attempts, stalls⟩, ?_,
            fun inactive => absurd rfl (inactive holder attempts stalls)⟩
          simp [List.replicate, solo_api, ApiPc.ended, apiStep, entryEq,
            same]
      | _ =>
          refine ⟨4, some {}, ?_, fun _ => rfl⟩
          simp [List.replicate, solo_api, ApiPc.ended, apiStep, entryEq,
            World.setEntry]

/-- What a resume by the owner does when it meets nobody else. -/
theorem solo_resume (env : Env) (index : Nat) {world : World}
    {job : ExportJob}
    (found : world.job = some job)
    (listed : job.status ∈ resumableForUser) :
    ∃ count entry row,
      (network env).solo index world .idle
          (.request (.resume job.userId) ::
            List.replicate count (.call .none)) =
        some ((world.updateJob resumeChange).setEntry entry,
          .api (.returned (.job row))) ∧
      ((∀ holder attempts stalls, world.entry ≠ some ⟨.active holder,
        attempts, stalls⟩) → entry = some {}) := by
  have notOver : job.status ≠ .completed ∧ job.status ≠ .cancelled := by
    constructor <;> intro ended <;> rw [ended] at listed <;>
      exact absurd listed (by decide)
  let row : ExportJob := { resumeChange job with updatedAt := world.now }
  have begun : (network env).solo index world .idle
      [.request (.resume job.userId)] =
      some (world, .api (.findForResume job.userId)) := rfl
  have written : (network env).solo index world
      (.api (.findForResume job.userId)) (List.replicate 3 (.call .none)) =
      some (world.updateJob resumeChange, .api (.getJob (.resume row))) := by
    simp [List.replicate, solo_api, ApiPc.ended, apiStep, getOwnedExportJob,
      found, afterFindForResume, notOver, listed, returnJob, row]
  obtain ⟨count, entry, enqueued, added⟩ :=
    solo_enqueue env (world.updateJob resumeChange) index (.resume row)
  refine ⟨3 + count, entry, row, ?_, added⟩
  rw [List.replicate_add, ← List.singleton_append, Network.solo_append,
    begun, Option.bind_some, Network.solo_append, written]
  exact enqueued

/-- A delivery of the entry a resume has added leads to a claim. -/
theorem solo_claim (env : Env) (index : Nat) {world : World}
    {job : ExportJob}
    (ready : world.entry = some {}) (found : world.job = some job)
    (resuming : job.status = .resuming)
    (wanted : job.cancelRequested = false) :
    ∃ after, (network env).solo index world .idle
      [.deliver, .call .none, .call .none] =
        some (after, .run (.setStartedAt job)) := by
  let delivered := world.setEntry (some { state := .active index })
  have begun : (network env).solo index world .idle [.deliver] =
      some (delivered, .run .findJob) := by
    simp [Network.solo, network, act, World.readyEntry, ready, delivered]
  have looked : (runStep env [] delivered .findJob).2 =
      .claim job (env.staleCutoff delivered) := by
    simp [runStep, afterFindJob, delivered, found, resuming, wanted]
  have claimed : (runStep env [] delivered
      (.claim job (env.staleCutoff delivered))).2 = .setStartedAt job := by
    have claims : claimable (env.staleCutoff delivered) job = true := by
      simp [claimable, resuming, resumableStatuses]
    simp [runStep, claimStep, delivered, found, claims]
  have unchanged : (runStep env [] delivered .findJob).1 = delivered := rfl
  refine ⟨(runStep env [] delivered
    (.claim job (env.staleCutoff delivered))).1, ?_⟩
  rw [← List.singleton_append, Network.solo_append, begun, Option.bind_some,
    solo_run rfl, unchanged, looked, solo_run rfl, claimed,
    Network.solo_nil]

end Stages

/-- While no run that dies at `VERIFYING` leaves it behind, an unfinished
export that nobody executes can be recovered. -/
theorem recoverable_of_verifyingSpared {env : Env}
    {source target : Config World Proc} {events : List (Event Action Change)}
    (initial : Initial env source)
    (history : (machine env).Exec VerifyingSpared source events target)
    (free : NoRunExecuting target) {job : ExportJob}
    (found : target.shared.job = some job)
    (notCompleted : job.status ≠ .completed)
    (notCancelled : job.status ≠ .cancelled) : Recoverable env target := by
  have statusEq : target.shared.status = some job.status := by
    rw [World.status, found, Option.map_some]
  have notVerifying : job.status ≠ .verifying := by
    intro verifying
    obtain ⟨index, pc, here, settling⟩ :=
      history.invariant verifyingOwned_step (verifyingOwned_initial initial)
        (verifying ▸ statusEq)
    have executing := free index
    rw [here, Proc.executing,
      live_of_claimed (settling_claimed settling)] at executing
    cases executing
  have held : EntryHeld target :=
    history.invariant (fun _ => entryHeld_step) (entryHeld_initial initial)
  obtain ⟨bound, idle⟩ : FinitelyBegun target :=
    history.invariant (fun _ => finitelyBegun_step)
      (finitelyBegun_initial initial)
  obtain ⟨entry, procs, released, inactive, stillIdle⟩ :=
    recovery_release env target free held
  -- the sweep, where the last worker left `RUNNING` behind
  obtain ⟨swept, sweptProcs, sweeps, sweptEntry, sweptIdle, row, rowFound,
      listed, owner⟩ : ∃ swept sweptProcs,
      (machine env).Reaches (RecoveryStep target) target
        ⟨swept, sweptProcs⟩ ∧
      swept.entry = entry ∧
      (∀ index, bound < index → sweptProcs index = .idle) ∧
      ∃ row, swept.job = some row ∧ row.status ∈ resumableForUser ∧
        row.userId = job.userId := by
    by_cases running : job.status = .running
    · have stillFound : (target.shared.setEntry entry).job = some job := found
      obtain ⟨swept, row, sweeps, entryEq, rowFound, interrupted, owner⟩ :=
        recovery_sweep env (idle bound le_rfl)
          (stillIdle bound (idle bound le_rfl)) stillFound running
      refine ⟨swept, _, released.trans sweeps, entryEq, ?_, row, rowFound,
        by rw [interrupted]; decide, owner⟩
      intro index above
      rw [Function.update_of_ne (by omega)]
      exact stillIdle index (idle index (by omega))
    · refine ⟨_, procs, released, rfl,
        fun index above => stillIdle index (idle index (by omega)), job,
        found, ?_, rfl⟩
      cases status : job.status with
      | running => exact absurd status running
      | verifying => exact absurd status notVerifying
      | completed => exact absurd status notCompleted
      | cancelled => exact absurd status notCancelled
      | _ => decide
  -- the resume
  obtain ⟨count, entryAfter, reply, resumes, added⟩ :=
    solo_resume env (bound + 1) rowFound listed
  obtain rfl := added (by rw [sweptEntry]; exact inactive)
  have resumed : (machine env).Reaches (RecoveryStep target) target _ :=
    sweeps.trans <| recovery_solo (idle (bound + 1) (by omega))
      (sweptIdle (bound + 1) (by omega)) resumes (by
        intro action member
        rcases List.mem_cons.mp member with rfl | later
        · simp [Action.recovers, found, owner]
        · rw [List.eq_of_mem_replicate later]
          rfl)
  -- the delivery
  let resumedRow : ExportJob :=
    { resumeChange row with updatedAt := swept.now }
  have resumedFound :
      ((swept.updateJob resumeChange).setEntry (some {})).job =
        some resumedRow := by simp [rowFound, resumedRow]
  obtain ⟨after, claims⟩ :=
    solo_claim env (bound + 2) rfl resumedFound rfl rfl
  have different : bound + 2 ≠ bound + 1 := by omega
  have claimed : (machine env).Reaches (RecoveryStep target) target _ :=
    resumed.trans <| recovery_solo (idle (bound + 2) (by omega))
      (by rw [Function.update_of_ne different]
          exact sweptIdle (bound + 2) (by omega)) claims
      (by simp [Action.recovers])
  exact ⟨_, bound + 2, resumedRow, claimed, idle (bound + 2) (by omega),
    Function.update_self _ _ _⟩

def diedRunning : List (Event Action Change) :=
  createSteps 2 ++ .act 1 .deliver :: calls 1 13 ++ [.act 1 .crash]

theorem recoverable_of_verifyingSpared_diedRunning :
    ∃ target,
      (machine smallEnv).Exec VerifyingSpared (smallStart twoRecords)
        diedRunning target ∧
      target.shared.status = some .running ∧ NoRunExecuting target ∧
      Recoverable smallEnv target := by
  obtain ⟨target, history, idle, ends⟩ :=
    exists_history VerifyingSpared twoRecords 2 verifyingSpared diedRunning
      (fun target =>
        decide (target.shared.status = some .running) &&
          (List.range 2).all fun index => !(target.procs index).executing)
      (fun _ passes => verifyingSpared_sound passes) (by decide +kernel)
  simp only [Bool.and_eq_true, decide_eq_true_eq] at ends
  obtain ⟨running, below⟩ := ends
  have free := noRunExecuting_of_idleFrom idle below
  obtain ⟨job, found, jobRunning⟩ := Option.map_eq_some_iff.mp running
  exact ⟨target, history, running, free,
    recoverable_of_verifyingSpared (initial_smallStart _) history free found
      (by rw [jobRunning]; decide) (by rw [jobRunning]; decide)⟩

/-- A process that cannot end `VERIFYING`: it has not looked at the job yet,
or is turned away when it does. -/
def Proc.stuck : Proc → Bool
  | .idle => true
  | .run .findJob => true
  | .run (.claim _ _) => true
  | .run pc => pc.ended
  | .api (.findForResume _) => true
  | .api pc => pc.ended
  | .sweep (.findStalled _) => true
  | .sweep .ended => true
  | .sweep _ => false
  | .queueFailed _ => true

/-- The job is `VERIFYING` and nobody will end that. -/
structure DeadEnd (config : Config World Proc) : Prop where
  job : ∃ job, config.shared.job = some job ∧ job.status = .verifying ∧
    job.cancelRequested = false
  stuck : ∀ index, (config.procs index).stuck = true

theorem stuck_run (env : Env) {world : World} {job : ExportJob} {pc : RunPc}
    (found : world.job = some job) (verifying : job.status = .verifying)
    (wanted : job.cancelRequested = false) (live : pc.ended = false)
    (stuck : (Proc.run pc).stuck = true) :
    (runStep env [] world pc).1 = world ∧
      (Proc.run (runStep env [] world pc).2).stuck = true := by
  cases pc with
  | findJob =>
      refine ⟨rfl, ?_⟩
      simp [runStep, afterFindJob, found, verifying, wanted, Proc.stuck]
  | claim read staleCutoff =>
      have refused : claimable staleCutoff job = false := by
        simp [claimable, verifying, resumableStatuses]
      simp [runStep, claimStep, found, refused, Proc.stuck, RunPc.ended]
  | returned | threw | crashed => cases live
  | _ => cases stuck

theorem stuck_api (env : Env) {world : World} {job : ExportJob} {pc : ApiPc}
    (found : world.job = some job) (verifying : job.status = .verifying)
    (live : pc.ended = false) (stuck : (Proc.api pc).stuck = true) :
    (apiStep env world pc).1 = world ∧
      (Proc.api (apiStep env world pc).2).stuck = true := by
  cases pc with
  | findForResume userId =>
      refine ⟨rfl, ?_⟩
      simp only [apiStep, getOwnedExportJob, found]
      split
      · rfl
      · simp [afterFindForResume, verifying, resumableForUser, Proc.stuck,
          ApiPc.ended]
  | returned | threw | crashed => cases live
  | _ => cases stuck

theorem stuck_sweep (env : Env) {world : World} {job : ExportJob}
    {pc : SweepPc} (found : world.job = some job)
    (verifying : job.status = .verifying)
    (stuck : (Proc.sweep pc).stuck = true) :
    (sweepStep env world pc).1 = world ∧
      (Proc.sweep (sweepStep env world pc).2).stuck = true := by
  cases pc with
  | findStalled cutoff =>
      simp [sweepStep, found, stalled, verifying, Proc.stuck]
  | ended => exact ⟨rfl, rfl⟩
  | _ => cases stuck

/-- No step of a recovery leads out of the dead end. -/
theorem deadEnd_step {env : Env} {origin before after : Config World Proc}
    {event : Event Action Change} (allowed : RecoveryStep origin before event)
    (stepEq : (machine env).step before event = some after)
    (deadEnd : DeadEnd before) : DeadEnd after := by
  obtain ⟨⟨job, found, verifying, wanted⟩, stuck⟩ := deadEnd
  cases event with
  | env change =>
      obtain ⟨shared, changeEq, rfl⟩ := Network.step_env_iff.mp stepEq
      obtain rfl := Option.some.inj changeEq
      exact ⟨⟨job, (change.apply_job before.shared).trans found, verifying,
        wanted⟩, stuck⟩
  | act index action =>
      obtain ⟨shared, proc, actEq, rfl⟩ := Network.step_act_iff.mp stepEq
      have step := actStep_of_act actEq
      have own := stuck index
      -- the job stays as it is, and so do the other processes
      have remains : shared.job = before.shared.job → proc.stuck = true →
          DeadEnd ⟨shared, Function.update before.procs index proc⟩ := by
        intro same stuckNow
        refine ⟨⟨job, same.trans found, verifying, wanted⟩, fun other => ?_⟩
        by_cases here : other = index
        · subst here
          simpa using stuckNow
        · simpa [Function.update_of_ne here] using stuck other
      generalize before.procs index = old at step own
      cases step with
      | start => exact remains rfl rfl
      | deliver => exact remains rfl rfl
      | request request =>
          cases request with
          | resume => exact remains rfl rfl
          | _ => exact absurd allowed.2 (by simp [Action.recovers])
      | beginSweep => exact remains rfl rfl
      | run fault live =>
          cases fault with
          | none =>
              obtain ⟨same, next⟩ :=
                stuck_run env found verifying wanted live own
              exact remains (congrArg World.job same) next
          | _ => exact absurd allowed.2 (by simp [Action.recovers])
      | runCrash => exact remains rfl rfl
      | settleReturned => exact remains rfl rfl
      | settleThrew => exact remains rfl rfl
      | stall => exact remains rfl own
      | api fault live =>
          cases fault with
          | none =>
              obtain ⟨same, next⟩ :=
                stuck_api env found verifying live own
              exact remains (congrArg World.job same) next
          | _ => exact absurd allowed.2 (by simp [Action.recovers])
      | apiCrash => exact remains rfl rfl
      | sweep fault =>
          cases fault with
          | none =>
              obtain ⟨same, next⟩ :=
                stuck_sweep env found verifying own
              exact remains (congrArg World.job same) next
          | _ => exact absurd allowed.2 (by simp [Action.recovers])
      | sweepCrash => exact remains rfl rfl
      | queueFailed fault same => exact remains same.job rfl
      | queueFailedCrash => exact remains rfl rfl

theorem not_recoverable_of_deadEnd {env : Env}
    {origin : Config World Proc} (deadEnd : DeadEnd origin) :
    ¬ Recoverable env origin := by
  rintro ⟨target, index, job, ⟨events, recovery⟩, _, claimed⟩
  have stuck := (recovery.invariant deadEnd_step deadEnd).stuck index
  rw [claimed] at stuck
  cases stuck

/-- The worker dies between its `VERIFYING` and the status that follows. -/
def diedVerifying : List (Event Action Change) :=
  createSteps 1 ++ .act 1 .deliver :: calls 1 12 ++ [.act 1 .crash]

/-- The export is left at `VERIFYING`, which no sweep, resume or claim
accepts. -/
theorem verifying_deadEnd :
    ∃ target,
      (machine smallEnv).Exec Anything (smallStart oneRecord) diedVerifying
        target ∧
      NoRunExecuting target ∧ target.shared.status = some .verifying ∧
      ¬ Recoverable smallEnv target := by
  obtain ⟨target, history, idle, ends⟩ :=
    exists_history Anything oneRecord 2 (fun _ _ => true) diedVerifying
      (fun target =>
        (target.shared.job.any fun job : ExportJob =>
          decide (job.status = .verifying) && !job.cancelRequested) &&
          (List.range 2).all fun index =>
            (target.procs index).stuck && !(target.procs index).executing)
      (fun _ _ => trivial) (by decide +kernel)
  simp only [Bool.and_eq_true, Option.any_eq_true, decide_eq_true_eq,
    Bool.not_eq_true', List.all_eq_true, List.mem_range] at ends
  obtain ⟨⟨job, found, verifying, wanted⟩, below⟩ := ends
  have stuck : ∀ index, (target.procs index).stuck = true := by
    intro index
    by_cases inside : index < 2
    · exact (below index inside).1
    · rw [idle index (not_lt.mp inside)]
      rfl
  have free : NoRunExecuting target := by
    refine noRunExecuting_of_idleFrom idle (List.all_eq_true.mpr ?_)
    intro index member
    simpa using (below index (List.mem_range.mp member)).2
  exact ⟨target, history, free,
    by rw [World.status, found, Option.map_some, verifying],
    not_recoverable_of_deadEnd ⟨⟨job, found, verifying, wanted⟩, stuck⟩⟩

end ExportVault
