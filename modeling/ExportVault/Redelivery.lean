import ExportVault.Log

/-!
# Redeliveries

A delivery that finds the job owned is consumed: the run returns `SKIPPED` and
the queue counts that as success.  The owner is known by the age of its
heartbeat only, so whether somebody then still works on the job depends on
timing: no run dies between its `VERIFYING` and the status that follows, and
when the last owner of a `RUNNING` job is gone, its heartbeat expires before
the queue delivers the job again (`RunningOwned`).
-/

namespace ExportVault

open Interleaving

/-- Past the `VERIFYING` write: unless it dies, the run writes another
status. -/
def RunPc.settling : RunPc → Bool
  | .readChunk _ _ _ _ => true
  | .uploadFinal _ _ => true
  | .headAssembled _ => true
  | .verifyHead _ => true
  | .verifyRead _ _ => true
  | .saveVerification _ _ => true
  | .writeFileKey _ _ => true
  | .writeCompleted _ => true
  | .failJob _ _ _ => true
  | _ => false

/-- The run ends here without a status of its own: its process crashes, or
the `FAILED` write of the `catch` block is refused. -/
def RunPc.dies : RunPc → Action → Bool
  | _, .crash => true
  | .failJob _ _ (.rethrows _), .call (.refused _) => true
  | _, _ => false

/-- Some run will end `VERIFYING`. -/
def VerifyingOwned (config : Config World Proc) : Prop :=
  config.shared.status = some .verifying →
    ∃ index pc, config.procs index = .run pc ∧ pc.settling = true

/-- No run dies past its `VERIFYING` write while the status is `VERIFYING`,
unless another run is past that write too. -/
def VerifyingSpared : Condition := fun config event =>
  ∀ index action pc, event = .act index action →
    config.procs index = .run pc → pc.settling = true →
    pc.dies action = true → config.shared.status = some .verifying →
    ∃ other otherPc, other ≠ index ∧ config.procs other = .run otherPc ∧
      otherPc.settling = true

variable {env : Env} {world : World}

theorem settling_assembleFrom (run : Progress) (batchCount number : Int)
    (assembled : Bytes) :
    (RunPc.assembleFrom run batchCount number assembled).settling = true := by
  rw [RunPc.assembleFrom]
  split <;> rfl

/-- A statement past the `VERIFYING` write leads to another one, or writes
the status that ends it. -/
theorem settling_step (env : Env) (kept : List String) (world : World)
    {pc : RunPc} (settling : pc.settling = true) :
    (runStep env kept world pc).2.settling = true ∨
      (runStep env kept world pc).1.status ≠ some .verifying := by
  cases pc with
  | readChunk run batchCount batchNumber assembled =>
      left
      simp only [runStep]
      split
      · rfl
      · exact settling_assembleFrom _ _ _ _
  | uploadFinal => exact .inl rfl
  | headAssembled =>
      left
      simp only [runStep]
      repeat' split
      all_goals rfl
  | verifyHead =>
      left
      simp only [runStep]
      split <;> rfl
  | verifyRead =>
      left
      simp only [runStep]
      repeat' split
      all_goals rfl
  | saveVerification =>
      left
      simp only [runStep]
      repeat' split
      all_goals rfl
  | writeFileKey => exact .inl rfl
  | writeCompleted | failJob =>
      exact .inr (world.status_updateJob_ne (fun _ => rfl) (by decide))
  | _ => cases settling

theorem settling_onError {pc : RunPc} (settling : pc.settling = true)
    (error : AppError) :
    (pc.onError error).settling = true ∨
      ∃ reason cause exit, pc = .failJob reason cause (.rethrows exit) := by
  cases pc with
  | failJob reason cause exit =>
      cases exit with
      | returns outcome => exact .inl rfl
      | rethrows exit => exact .inr ⟨reason, cause, exit, rfl⟩
  | readChunk | uploadFinal | headAssembled | verifyHead | verifyRead =>
      exact .inl rfl
  | saveVerification | writeFileKey | writeCompleted => exact .inl rfl
  | _ => cases settling

theorem dies_call {pc : RunPc} {fault : Fault}
    (dies : pc.dies (.call fault) = true) :
    pc.settling = true ∧
      ∀ env world, (runCall env world pc fault).1 = world := by
  cases pc with
  | failJob reason cause exit =>
      cases exit with
      | returns outcome => simp [RunPc.dies] at dies
      | rethrows error =>
          cases fault with
          | refused message => exact ⟨rfl, fun _ _ => rfl⟩
          | _ => simp [RunPc.dies] at dies
  | _ => simp [RunPc.dies] at dies

/-- After a call that leaves the status `VERIFYING` the run will end it, or
was not the one to do so. -/
theorem verifying_call {pc : RunPc} (fault : Fault)
    (survives : pc.dies (.call fault) = false)
    (verifying : (runCall env world pc fault).1.status = some .verifying) :
    (runCall env world pc fault).2.settling = true ∨
      world.status = some .verifying ∧ pc.settling = false := by
  by_cases settling : pc.settling = true
  · left
    cases fault with
    | none =>
        exact (settling_step env [] world settling).resolve_right
          (not_not.mpr verifying)
    | keeping kept =>
        exact (settling_step env kept world settling).resolve_right
          (not_not.mpr verifying)
    | refused message =>
        rcases settling_onError settling (callError message) with
          next | ⟨reason, cause, exit, rfl⟩
        · exact next
        · cases survives
    | lost message =>
        rcases settling_onError settling (callError message) with
          next | ⟨reason, cause, exit, rfl⟩
        · exact next
        · exact absurd verifying
            ((settling_step env [] world settling).resolve_left (by
              simp [runStep, RunPc.settling]))
  · simp only [Bool.not_eq_true] at settling
    by_cases writes : pc.sets = some .verifying
    · cases pc with
      | writeVerifying run batchCount =>
          left
          cases fault with
          | none => exact settling_assembleFrom _ _ _ _
          | keeping kept => exact settling_assembleFrom _ _ _ _
          | refused message => rfl
          | lost message => rfl
      | _ => cases writes
    · refine .inr ⟨?_, settling⟩
      cases fault with
      | none => exact (runStep_status env [] world pc).before writes verifying
      | keeping kept =>
          exact (runStep_status env kept world pc).before writes verifying
      | refused message => exact verifying
      | lost message =>
          exact (runStep_status env [] world pc).before writes verifying

theorem apiCall_verifying {pc : ApiPc} {fault : Fault}
    (verifying : (apiCall env world pc fault).1.status = some .verifying) :
    world.status = some .verifying := by
  cases fault with
  | none => exact apiStep_before (by decide) verifying
  | keeping kept => exact apiStep_before (by decide) verifying
  | refused message => exact verifying
  | lost message => exact apiStep_before (by decide) verifying

theorem sweepCall_verifying {pc : SweepPc} {fault : Fault}
    (verifying : (sweepCall env world pc fault).1.status = some .verifying) :
    world.status = some .verifying := by
  cases fault with
  | none => exact sweepStep_before (by decide) verifying
  | keeping kept => exact sweepStep_before (by decide) verifying
  | refused message => exact verifying
  | lost message => exact sweepStep_before (by decide) verifying

/-- `VERIFYING` always has a run that will end it. -/
theorem verifyingOwned_step {before after : Config World Proc}
    {event : Event Action Change} (spared : VerifyingSpared before event)
    (stepEq : (machine env).step before event = some after)
    (owned : VerifyingOwned before) : VerifyingOwned after := by
  cases event with
  | env change =>
      obtain ⟨shared, changeEq, rfl⟩ := Network.step_env_iff.mp stepEq
      obtain rfl := Option.some.inj changeEq
      intro verifying
      exact owned ((change.apply_status before.shared).symm.trans verifying)
  | act index action =>
      obtain ⟨shared, proc, actEq, rfl⟩ := Network.step_act_iff.mp stepEq
      intro verifying
      -- a run other than the acting one goes on as before
      have elsewhere : ∀ {other : Nat} {pc : RunPc}, other ≠ index →
          before.procs other = .run pc → pc.settling = true →
          ∃ other pc, Function.update before.procs index proc other =
            .run pc ∧ pc.settling = true := by
        intro other pc different there settling
        exact ⟨other, pc, by rwa [Function.update_of_ne different], settling⟩
      have here : ∀ {pc : RunPc}, proc = .run pc → pc.settling = true →
          ∃ other pc, Function.update before.procs index proc other =
            .run pc ∧ pc.settling = true := by
        intro pc procEq settling
        exact ⟨index, pc, by rw [Function.update_self, procEq], settling⟩
      have persists : before.shared.status = some .verifying →
          (∀ pc, before.procs index = .run pc → pc.settling = true →
            ∃ other pc, Function.update before.procs index proc other =
              .run pc ∧ pc.settling = true) →
          ∃ other pc, Function.update before.procs index proc other =
            .run pc ∧ pc.settling = true := by
        intro wasVerifying own
        obtain ⟨other, pc, there, settling⟩ := owned wasVerifying
        by_cases same : other = index
        · exact own pc (same ▸ there) settling
        · exact elsewhere same there settling
      have dying : ∀ pc, before.procs index = .run pc →
          pc.settling = true → pc.dies action = true →
          before.shared.status = some .verifying →
          ∃ other pc, Function.update before.procs index proc other =
            .run pc ∧ pc.settling = true := by
        intro pc there settling dies wasVerifying
        obtain ⟨other, otherPc, different, otherThere, otherSettling⟩ :=
          spared index action pc rfl there settling dies wasVerifying
        exact elsewhere different otherThere otherSettling
      have step := actStep_of_act actEq
      generalize mine : before.procs index = old at step persists dying
      cases step with
      | run fault live =>
          rename_i pc
          cases dies : pc.dies (.call fault) with
          | false =>
              rcases verifying_call fault dies verifying with
                settling | ⟨wasVerifying, free⟩
              · exact here rfl settling
              · refine persists wasVerifying fun other same settling => ?_
                cases same
                rw [free] at settling
                cases settling
          | true =>
              obtain ⟨settling, unchanged⟩ := dies_call dies
              rw [unchanged] at verifying
              exact dying _ rfl settling dies verifying
      | runCrash live =>
          refine persists verifying fun pc same settling => ?_
          exact dying pc same settling rfl verifying
      | stall held =>
          refine persists verifying fun pc same settling => ?_
          cases same
          exact here rfl settling
      | settleReturned held =>
          refine persists verifying fun pc same settling => ?_
          cases same
          cases settling
      | settleThrew held =>
          refine persists verifying fun pc same settling => ?_
          cases same
          cases settling
      | api fault live =>
          exact persists (apiCall_verifying verifying) fun pc same => by
            cases same
      | sweep fault =>
          exact persists (sweepCall_verifying verifying) fun pc same => by
            cases same
      | queueFailed fault same entry =>
          exact persists (same.status.symm.trans verifying) fun pc same => by
            cases same
      | _ => exact persists verifying fun pc same => by cases same

theorem verifyingOwned_initial {config : Config World Proc}
    (initial : Initial env config) : VerifyingOwned config := by
  intro verifying
  rw [World.status, initial.noJob] at verifying
  cases verifying

def RunPc.waits : RunPc → Bool
  | .findJob => true
  | .claim _ _ => true
  | _ => false

/-- The heartbeats the claim of the run will count as expired; a run that has
yet to look at the job takes the time of its look. -/
def RunPc.cutoff (env : Env) (world : World) : RunPc → Option Int
  | .findJob => some (env.staleCutoff world)
  | .claim _ staleCutoff => some staleCutoff
  | _ => none

/-- To a run that has yet to claim the job its heartbeat has expired. -/
def Proc.FindsExpired (env : Env) (world : World) (proc : Proc) : Prop :=
  ∀ pc cutoff row, proc = .run pc → pc.cutoff env world = some cutoff →
    world.job = some row → row.updatedAt < cutoff

def HeartbeatExpired (env : Env) (config : Config World Proc) : Prop :=
  ∀ index, (config.procs index).FindsExpired env config.shared

/-- The run has claimed the job and may end with this step, without a write
to the job: its process crashes, or the call is its last one or throws out of
it. -/
def Proc.stops : Proc → Action → Bool
  | .run pc, .crash => pc.claimed
  | .run (.setStartedAt _), .call (.refused _) => true
  | .run (.failJob _ _ (.rethrows _)), .call (.refused _) => true
  | .run (.recordFailure _ _), .call _ => true
  | .run (.listChunks _ _ _), .call _ => true
  | .run (.deletePage _ _ _ _), .call _ => true
  | _, _ => false

/-- The step renews the heartbeat of a `RUNNING` job for nobody: the answer
that lets the run go on is lost, or a cancel sets the flag. -/
def Proc.renews : Proc → Action → Bool
  | .run (.claim _ _), .call (.lost _) => true
  | .run (.setStartedAt _), .call (.lost _) => true
  | .api (.writeCancel _), .call (.refused _) => false
  | .api (.writeCancel job), .call _ => job.status = .running
  | _, _ => false

/-- Where no other run that has claimed the job is alive, and the job is
`RUNNING`: its last owner ends, and the queue delivers the job again, only
once the heartbeat has expired; and the heartbeat is not renewed under a run
that has yet to claim the job. -/
def Timely (env : Env) : Condition := fun config event =>
  ∀ index action, event = .act index action →
    (∀ other, other ≠ index → (config.procs other).owning = false) →
    (config.shared.status = some .running →
      ((config.procs index).stops action = true →
        HeartbeatExpired env config) ∧
      (action = .start ∨ action = .deliver →
        ∀ row, config.shared.job = some row →
          row.updatedAt < env.staleCutoff config.shared)) ∧
    ((config.procs index).renews action = true →
      ∀ other pc, other ≠ index → config.procs other = .run pc →
        pc.waits = false)

/-- A `RUNNING` job has an owner, or its heartbeat has expired for all who
have yet to claim it. -/
def RunningOwned (env : Env) (config : Config World Proc) : Prop :=
  config.shared.status = some .running →
    (∃ index, (config.procs index).owning = true) ∨
      HeartbeatExpired env config

theorem cutoff_of_not_waits {pc : RunPc} (goesOn : pc.waits = false) :
    pc.cutoff env world = none := by
  cases pc <;> first | rfl | cases goesOn

/-- Only its look leads a run to the claim. -/
theorem not_waits_step (kept : List String) {pc : RunPc}
    (looked : pc ≠ .findJob) (live : pc.ended = false) :
    (runStep env kept world pc).2.waits = false := by
  have looped : ∀ run : Progress, (RunPc.loopTop run).waits = false :=
    fun run => RunPc.loopTop_cases (motive := fun next => next.waits = false)
      run (fun _ => rfl) (fun _ _ => rfl) fun _ => rfl
  have paged : ∀ outcome token deleted,
      (RunPc.nextPage outcome token deleted).waits = false :=
    fun outcome token deleted => RunPc.nextPage_cases
      (motive := fun next => next.waits = false) outcome token deleted rfl
      fun _ => rfl
  cases pc with
  | findJob => exact absurd rfl looked
  | returned | threw | crashed => cases live
  | reconcile => exact looped _
  | deletePage => exact paged _ _ _
  | recordFailure error exit => cases exit <;> rfl
  | readProgress =>
      simp only [runStep]
      split
      · exact looped _
      · rfl
  | commitBatch =>
      simp only [runStep, commitStep]
      split
      · rfl
      · exact looped _
  | listChunks =>
      simp only [runStep]
      split
      · rfl
      · exact paged _ _ _
  | claim | loadResume | pollCancel | fetchBatch | confirmChunk | loadFinal
  | writeVerifying | readChunk | headAssembled | verifyHead | verifyRead
  | saveVerification =>
      simp only [runStep, claimStep, confirmStep, finalStep,
        RunPc.assembleFrom]
      repeat' split
      all_goals rfl
  | _ => rfl

theorem not_waits_onError (pc : RunPc) (error : AppError) :
    (pc.onError error).waits = false := by
  refine RunPc.onError_cases (motive := fun next => next.waits = false) pc
    error (fun next ended => ?_) fun _ => rfl
  cases next <;> first | rfl | cases ended

theorem not_waits_call {pc : RunPc} (fault : Fault)
    (looked : pc ≠ .findJob) (live : pc.ended = false) :
    (runCall env world pc fault).2.waits = false :=
  runCall_cases (motive := fun result => result.2.waits = false) fault
    (fun kept => not_waits_step kept looked live)
    (fun _ => not_waits_onError _ _) fun _ => not_waits_onError _ _

/-- An owner stays one, unless it ends or writes another status. -/
theorem claimed_call {pc : RunPc} {fault : Fault} (claimed : pc.claimed = true)
    (goesOn : Proc.stops (.run pc) (.call fault) = false)
    (answered : Proc.renews (.run pc) (.call fault) = false)
    (running : (runCall env world pc fault).1.status = some .running) :
    (runCall env world pc fault).2.claimed = true := by
  have looped : ∀ run : Progress, (RunPc.loopTop run).claimed = true :=
    fun run => RunPc.loopTop_cases
      (motive := fun next => next.claimed = true) run (fun _ => rfl)
      (fun _ _ => rfl) fun _ => rfl
  cases pc with
  | findJob | recordMissing | cancelBeforeStart | claim => cases claimed
  | returned | threw | crashed => cases claimed
  | listChunks | deletePage | recordFailure => simp [Proc.stops] at goesOn
  | setStartedAt =>
      cases fault with
      | refused => cases goesOn
      | lost => cases answered
      | _ => rfl
  | failJob reason error exit =>
      have written : ∀ kept,
          (runStep env kept world (.failJob reason error exit)).1.status ≠
            some .running := fun _ =>
        world.status_updateJob_ne (fun _ => rfl) (by decide)
      cases exit with
      | returns outcome => cases fault <;> rfl
      | rethrows cause =>
          cases fault with
          | refused => cases goesOn
          | lost => exact absurd running (written [])
          | _ => rfl
  | _ =>
      refine runCall_cases (motive := fun result => result.2.claimed = true)
        fault (fun kept => ?_) (fun _ => rfl) fun _ => rfl
      simp only [runStep, confirmStep, finalStep, commitStep,
        RunPc.assembleFrom]
      repeat' split
      all_goals first | rfl | exact looped _

variable {after : World} {index : Nat} {proc next : Proc} {action : Action}

theorem findsExpired_of_not_waits
    (goesOn : ∀ pc, proc = .run pc → pc.waits = false) :
    proc.FindsExpired env world := by
  intro pc cutoff row isRun takes
  rw [cutoff_of_not_waits (goesOn pc isRun)] at takes
  cases takes

/-- An expired heartbeat stays so as long as it is not renewed. -/
theorem Proc.FindsExpired.later (finds : proc.FindsExpired env world)
    (job : after.job = world.job) (order : world.now ≤ after.now) :
    proc.FindsExpired env after := by
  intro pc cutoff row isRun takes found
  have before : world.job = some row := job.symm.trans found
  cases pc with
  | findJob =>
      obtain rfl := Option.some.inj takes
      have sooner := finds .findJob _ row isRun rfl before
      simp only [Env.staleCutoff] at sooner ⊢
      omega
  | claim read staleCutoff => exact finds _ cutoff row isRun takes before
  | _ => cases takes

theorem HeartbeatExpired.later {procs : Nat → Proc}
    (expired : HeartbeatExpired env ⟨world, procs⟩)
    (job : after.job = world.job) (order : world.now ≤ after.now)
    (own : next.FindsExpired env after) :
    HeartbeatExpired env ⟨after, Function.update procs index next⟩ := by
  intro other
  by_cases same : other = index
  · subst same
    simpa only [Function.update_self] using own
  · simpa only [Function.update_of_ne same] using
      (expired other).later job order

/-- A statement of a command leaves the job alone, ends `RUNNING`, or renews
the heartbeat. -/
theorem apiCall_running {pc : ApiPc} {fault : Fault}
    (quiet : Proc.renews (.api pc) (.call fault) = false)
    (running : (apiCall env world pc fault).1.status = some .running) :
    (apiCall env world pc fault).1.job = world.job := by
  have step : fault.fails = false ∨ (∃ message, fault = .lost message) →
      (apiStep env world pc).1.status = some .running →
      (apiStep env world pc).1.job = world.job := by
    intro answered running
    cases pc with
    | writeQueued | writeResuming =>
        exact absurd running
          (world.status_updateJob_ne (fun _ => rfl) (by decide))
    | writeCancel job =>
        by_cases wasRunning : job.status = .running
        · rcases answered with succeeds | ⟨message, rfl⟩
          · cases fault with
            | refused => cases succeeds
            | lost => cases succeeds
            | _ => simp [Proc.renews, wasRunning] at quiet
          · simp [Proc.renews, wasRunning] at quiet
        · have set : ∀ row, (cancelChange world.now job row).status =
              .cancelled := fun row => by rw [cancelChange, if_neg wasRunning]
          exact absurd running (world.status_updateJob_ne set (by decide))
    | insertJob =>
        simp only [apiStep] at running ⊢
        split at running
        · rfl
        · cases Option.some.inj running
    | remove | add | saveVerification =>
        simp only [apiStep]
        split <;> rfl
    | _ => rfl
  cases fault with
  | none => exact step (.inl rfl) running
  | keeping => exact step (.inl rfl) running
  | refused => rfl
  | lost message => exact step (.inr ⟨message, rfl⟩) running

theorem sweepCall_running {pc : SweepPc} (fault : Fault)
    (running : (sweepCall env world pc fault).1.status = some .running) :
    (sweepCall env world pc fault).1.job = world.job := by
  have step : (sweepStep env world pc).1.status = some .running →
      (sweepStep env world pc).1.job = world.job := by
    intro running
    cases pc with
    | markInterrupted cutoff message =>
        simp only [sweepStep] at running ⊢
        split at running
        · exact absurd running
            (world.status_updateJob_ne (fun _ => rfl) (by decide))
        · next spared => rw [if_neg spared]
    | _ => rfl
  exact sweepCall_cases (motive := fun result =>
    result.1.status = some .running → result.1.job = world.job) fault step
    (fun _ => rfl) step running

/-- The last step of an owner leaves the job alone. -/
theorem stops_call {pc : RunPc} {fault : Fault}
    (stops : Proc.stops (.run pc) (.call fault) = true) :
    (runCall env world pc fault).1.job = world.job := by
  cases pc with
  | setStartedAt | failJob =>
      cases fault with
      | refused => rfl
      | _ => simp [Proc.stops] at stops
  | recordFailure | listChunks | deletePage =>
      exact runCall_cases (motive := fun result => result.1.job = world.job)
        fault (fun _ => rfl) (fun _ => rfl) fun _ => rfl
  | _ => simp [Proc.stops] at stops

/-- A run that has not claimed the job claims it, or leaves it alone while it
is `RUNNING`. -/
theorem unclaimed_call {pc : RunPc} {fault : Fault}
    (free : pc.claimed = false)
    (quiet : Proc.renews (.run pc) (.call fault) = false)
    (running : (runCall env world pc fault).1.status = some .running) :
    (runCall env world pc fault).2.claimed = true ∨
      (runCall env world pc fault).1.job = world.job := by
  cases pc with
  | findJob | recordMissing =>
      exact .inr (runCall_cases (motive := fun result =>
        result.1.job = world.job) fault (fun _ => rfl) (fun _ => rfl)
        fun _ => rfl)
  | cancelBeforeStart job =>
      have never : (runStep env [] world (.cancelBeforeStart job)).1.status ≠
          some .running :=
        world.status_updateJob_ne (fun _ => rfl) (by decide)
      cases fault with
      | refused => exact .inr rfl
      | _ => exact absurd running never
  | claim job staleCutoff =>
      have claims : (claimStep env world job staleCutoff).2.claimed = true ∨
          (claimStep env world job staleCutoff).1.job = world.job := by
        simp only [claimStep]
        split
        · exact .inl rfl
        · exact .inr rfl
      cases fault with
      | none => exact claims
      | keeping => exact claims
      | refused => exact .inr rfl
      | lost => cases quiet
  | returned | threw | crashed => cases fault <;> exact .inr rfl
  | _ => cases free

/-- A step after which the job is `RUNNING` makes its process an owner, or
leaves the job alone; if the process was an owner, it has ended. -/
theorem running_actStep
    (step : ActStep env index world proc action after next)
    (quiet : proc.renews action = false)
    (running : after.status = some .running) :
    next.owning = true ∨ after.job = world.job ∧ world.now ≤ after.now ∧
      (proc.owning = true → proc.stops action = true) := by
  cases step with
  | @run pc fault live =>
      have order : world.now ≤ (runCall env world pc fault).1.now :=
        le_of_eq (runCall_cases (motive := fun result =>
          result.1.now = world.now) fault
          (fun kept => runStep_now env kept _ pc) (fun _ => rfl)
          fun _ => runStep_now env [] _ pc).symm
      cases claimed : pc.claimed with
      | false =>
          refine (unclaimed_call claimed quiet running).imp_right fun job =>
            ⟨job, order, fun owns => ?_⟩
          exact absurd (claimed.symm.trans owns) (by decide)
      | true =>
          cases stops : Proc.stops (.run pc) (.call fault) with
          | false => exact .inl (claimed_call claimed stops quiet running)
          | true => exact .inr ⟨stops_call stops, order, fun _ => rfl⟩
  | @runCrash pc live => exact .inr ⟨rfl, le_rfl, id⟩
  | @stall pc entry held =>
      cases claimed : pc.claimed with
      | true => exact .inl claimed
      | false =>
          exact .inr ⟨rfl, le_rfl, fun owns =>
            absurd (claimed.symm.trans owns) (by decide)⟩
  | @api pc fault live =>
      refine .inr ⟨apiCall_running quiet running, ?_, fun owns => by
        cases owns⟩
      exact le_of_eq (apiCall_cases (motive := fun result =>
        result.1.now = world.now) fault (apiStep_now env _ pc)
        (fun _ => rfl) fun _ => apiStep_now env _ pc).symm
  | @sweep pc fault =>
      refine .inr ⟨sweepCall_running fault running, ?_, fun owns => by
        cases owns⟩
      exact le_of_eq (sweepCall_cases (motive := fun result =>
        result.1.now = world.now) fault (sweepStep_now env _ pc) rfl
        (sweepStep_now env _ pc)).symm
  | queueFailed fault same entry =>
      exact .inr ⟨same.job, le_of_eq same.now.symm, fun owns => by
        cases owns⟩
  | _ => exact .inr ⟨rfl, le_rfl, fun owns => by cases owns⟩

/-- What a process finds after its step. -/
theorem findsExpired_actStep
    (step : ActStep env index world proc action after next)
    (job : after.job = world.job) (order : world.now ≤ after.now)
    (finds : proc.FindsExpired env world)
    (begins : action = .start ∨ action = .deliver → ∀ row,
      world.job = some row → row.updatedAt < env.staleCutoff world) :
    next.FindsExpired env after := by
  have begun : action = .start ∨ action = .deliver →
      Proc.FindsExpired env world (.run .findJob) := by
    intro delivers pc cutoff row isRun takes found
    obtain rfl := Proc.run.inj isRun
    obtain rfl := Option.some.inj takes
    exact begins delivers row found
  cases step with
  | start => exact (begun (.inl rfl)).later job order
  | deliver => exact (begun (.inr rfl)).later job order
  | @run pc fault live =>
      by_cases looked : pc = .findJob
      · subst looked
        intro following cutoff row isRun takes found
        have looks : Proc.run (afterFindJob env world) = .run following →
            row.updatedAt < cutoff := by
          intro isNext
          obtain rfl := Proc.run.inj isNext
          cases here : world.job with
          | none => simp [afterFindJob, here, RunPc.cutoff] at takes
          | some read =>
              simp only [afterFindJob, here] at takes
              repeat' split at takes
              all_goals cases takes
              exact finds .findJob _ row rfl rfl (job.symm.trans found)
        cases fault with
        | none => exact looks isRun
        | keeping => exact looks isRun
        | refused => obtain rfl := Proc.run.inj isRun; cases takes
        | lost => obtain rfl := Proc.run.inj isRun; cases takes
      · refine findsExpired_of_not_waits fun following isRun => ?_
        rw [← Proc.run.inj isRun]
        exact not_waits_call fault looked live
  | stall => exact finds.later job order
  | runCrash | settleReturned =>
      refine findsExpired_of_not_waits fun following isRun => ?_
      obtain rfl := Proc.run.inj isRun
      rfl
  | _ =>
      exact findsExpired_of_not_waits fun following isRun => by cases isRun

/-- A process that renews the heartbeat for nobody does not wait to claim. -/
theorem not_waits_of_renews
    (step : ActStep env index world proc action after next)
    (renews : proc.renews action = true) :
    ∀ pc, next = .run pc → pc.waits = false := by
  intro following isRun
  cases step with
  | @run pc fault live =>
      obtain rfl := Proc.run.inj isRun
      cases pc with
      | claim | setStartedAt => exact not_waits_call fault (by simp) live
      | _ => simp [Proc.renews] at renews
  | start | deliver => simp [Proc.renews] at renews
  | runCrash | settleReturned | stall => simp [Proc.renews] at renews
  | _ => cases isRun

/-- Under timely deliveries a `RUNNING` job has an owner, or its heartbeat has
expired for all who have yet to claim it. -/
theorem runningOwned_step {before after : Config World Proc}
    {event : Event Action Change} (timely : Timely env before event)
    (stepEq : (machine env).step before event = some after)
    (owned : RunningOwned env before) : RunningOwned env after := by
  intro running
  cases event with
  | env change =>
      obtain ⟨shared, changeEq, rfl⟩ := Network.step_env_iff.mp stepEq
      obtain rfl := Option.some.inj changeEq
      have job := change.apply_job before.shared
      have order : before.shared.now ≤ (change.apply before.shared).now := by
        cases change with
        | tick => exact Int.le_add_of_nonneg_right (Int.natCast_nonneg _)
        | setRecords => exact le_rfl
      refine (owned ?_).imp_right fun expired index =>
        (expired index).later job order
      rwa [World.status, job] at running
  | act index action =>
      obtain ⟨shared, proc, actEq, rfl⟩ := Network.step_act_iff.mp stepEq
      have step := actStep_of_act actEq
      -- another owner is still there
      by_cases others : ∃ other, other ≠ index ∧
          (before.procs other).owning = true
      · obtain ⟨other, different, owns⟩ := others
        exact .inl ⟨other, by simpa [Function.update_of_ne different]⟩
      have alone : ∀ other, other ≠ index →
          (before.procs other).owning = false := fun other different =>
        Bool.eq_false_iff.mpr fun owns => others ⟨other, different, owns⟩
      obtain ⟨whileRunning, renewed⟩ := timely index action rfl alone
      cases renews : (before.procs index).renews action with
      | true =>
          refine .inr fun other => ?_
          by_cases same : other = index
          · subst same
            simp only [Function.update_self]
            exact findsExpired_of_not_waits (not_waits_of_renews step renews)
          · simp only [Function.update_of_ne same]
            exact findsExpired_of_not_waits fun pc there =>
              renewed renews other pc same there
      | false =>
          rcases running_actStep step renews running with
            owns | ⟨job, order, ended⟩
          · exact .inl ⟨index, by simpa only [Function.update_self]⟩
          have wasRunning : before.shared.status = some .running := by
            rwa [World.status, job] at running
          obtain ⟨whenStops, whenBegins⟩ := whileRunning wasRunning
          have expired : HeartbeatExpired env before := by
            rcases owned wasRunning with ⟨owner, owns⟩ | expired
            · by_cases same : owner = index
              · exact whenStops (ended (same ▸ owns))
              · rw [alone owner same] at owns
                cases owns
            · exact expired
          exact .inr (HeartbeatExpired.later expired job order
            (findsExpired_actStep step job order (expired index) whenBegins))

theorem runningOwned_initial {config : Config World Proc}
    (initial : Initial env config) : RunningOwned env config := by
  intro running
  rw [World.status, initial.noJob] at running
  cases running

/-- The condition under which a redelivery is never dropped. -/
def Redelivered (env : Env) : Condition := fun config event =>
  VerifyingSpared config event ∧ Timely env config event

/-- The run has just returned `SKIPPED`. -/
def RunPc.skips : RunPc → Bool
  | .returned outcome => outcome.skips
  | _ => false

theorem skips_nextPage {outcome : RunOutcome} (ran : outcome.skips = false)
    (token : Option String) (deleted : Nat) :
    (RunPc.nextPage outcome token deleted).skips = false := by
  exact RunPc.nextPage_cases (motive := fun next => next.skips = false)
    outcome token deleted ran fun _ => rfl

/-- The statements that can return `SKIPPED`. -/
def RunPc.looks : RunPc → Bool
  | .findJob => true
  | .recordMissing _ => true
  | .claim _ _ => true
  | _ => false

theorem skips_step (env : Env) (kept : List String) {pc : RunPc}
    (known : logRuns world pc) (live : pc.ended = false)
    (other : pc.looks = false) :
    (runStep env kept world pc).2.skips = false := by
  have looped : ∀ run : Progress, (RunPc.loopTop run).skips = false := by
    intro run
    exact RunPc.loopTop_cases (motive := fun next => next.skips = false)
      run (fun _ => rfl) (fun _ _ => rfl) fun _ => rfl
  cases pc with
  | findJob | recordMissing | claim => cases other
  | returned | threw | crashed => cases live
  | readProgress =>
      simp only [runStep]
      split
      · exact looped _
      · rfl
  | reconcile => exact looped _
  | commitBatch =>
      simp only [runStep, commitStep]
      split
      · rfl
      · exact looped _
  | listChunks =>
      simp only [runStep]
      split
      · rfl
      · exact skips_nextPage known _ _
  | deletePage => exact skips_nextPage known _ _
  | recordFailure error exit =>
      cases exit with
      | returns outcome => exact known
      | rethrows error => rfl
  | writeVerifying =>
      simp only [runStep, RunPc.assembleFrom]
      split <;> rfl
  | readChunk =>
      simp only [runStep, RunPc.assembleFrom]
      repeat' split
      all_goals rfl
  | fetchBatch | confirmChunk | loadFinal | loadResume | pollCancel =>
      simp only [runStep, confirmStep, finalStep]
      repeat' split
      all_goals rfl
  | headAssembled | verifyHead | verifyRead | saveVerification =>
      simp only [runStep]
      repeat' split
      all_goals rfl
  | _ => rfl

theorem skips_onError {pc : RunPc} (known : logRuns world pc)
    (other : pc.looks = false) (error : AppError) :
    (pc.onError error).skips = false := by
  cases pc with
  | findJob | recordMissing | claim => cases other
  | failJob _ _ exit => cases exit <;> rfl
  | recordFailure _ exit =>
      cases exit with
      | returns outcome => exact known
      | rethrows error => rfl
  | _ => rfl

/-- A run returns `SKIPPED` where it finds the job over or fails to claim
it, and then changes nothing. -/
theorem skips_call {pc : RunPc} {fault : Fault}
    (known : logRuns world pc) (live : pc.ended = false)
    (found : ∀ reason, pc ≠ .recordMissing reason)
    (skips : (runCall env world pc fault).2.skips = true) :
    (runCall env world pc fault).1 = world ∧
      (world.status = some .completed ∨ world.status = some .cancelled ∨
        ∃ job staleCutoff, pc = .claim job staleCutoff ∧
          world.job.any (claimable staleCutoff) = false) := by
  cases pc with
  | findJob =>
      have looked : (afterFindJob env world).skips = true →
          world.status = some .completed ∨
            world.status = some .cancelled := by
        intro skips
        rw [World.status]
        cases here : world.job with
        | none => simp [afterFindJob, here, RunPc.skips] at skips
        | some job =>
            simp only [afterFindJob, here] at skips
            split at skips
            · next completed => exact .inl (congrArg some completed)
            · split at skips
              · next cancelled => exact .inr (congrArg some cancelled)
              · split at skips <;> cases skips
      cases fault with
      | none => exact ⟨rfl, (looked skips).imp_right .inl⟩
      | keeping kept => exact ⟨rfl, (looked skips).imp_right .inl⟩
      | refused message => cases skips
      | lost message => cases skips
  | recordMissing reason => exact absurd rfl (found reason)
  | claim job staleCutoff =>
      have refused : (claimStep env world job staleCutoff).2.skips = true →
          (claimStep env world job staleCutoff).1 = world ∧
            world.job.any (claimable staleCutoff) = false := by
        intro skips
        simp only [claimStep] at skips ⊢
        split at skips
        · cases skips
        · next free =>
            exact ⟨by rw [if_neg free], by simpa using free⟩
      cases fault with
      | none =>
          obtain ⟨same, free⟩ := refused skips
          exact ⟨same, .inr (.inr ⟨job, staleCutoff, rfl, free⟩)⟩
      | keeping kept =>
          obtain ⟨same, free⟩ := refused skips
          exact ⟨same, .inr (.inr ⟨job, staleCutoff, rfl, free⟩)⟩
      | refused message => cases skips
      | lost message => cases skips
  | _ =>
      have never : (runCall env world _ fault).2.skips = false :=
        runCall_cases (motive := fun result => result.2.skips = false) fault
          (fun kept => skips_step env kept known live rfl)
          (fun error => skips_onError known rfl error)
          (fun error => skips_onError known rfl error)
      rw [never] at skips
      cases skips

theorem settling_claimed {pc : RunPc} (settling : pc.settling = true) :
    pc.claimed = true := by
  cases pc <;> first | rfl | cases settling

/-- When a run returns `SKIPPED` for a job it has found, the job is over or a
run that has claimed it is alive. -/
theorem skipped_over_or_owned {source middle target : Config World Proc}
    {events : List (Event Action Change)} (initial : Initial env source)
    (history : (machine env).Exec (Redelivered env) source events middle)
    {index : Nat} {fault : Fault} {pc : RunPc} {reason : String}
    (here : middle.procs index = .run pc)
    (found : ∀ missing, pc ≠ .recordMissing missing)
    (call : (machine env).step middle (.act index (.call fault)) =
      some target)
    (skipped : target.procs index = .run (.returned (.skipped reason))) :
    target.shared.status = some .completed ∨
      target.shared.status = some .cancelled ∨
      ∃ other, other ≠ index ∧ (target.procs other).owning = true := by
  have ending : VerifyingOwned middle :=
    history.invariant (fun allowed => verifyingOwned_step allowed.1)
      (verifyingOwned_initial initial)
  have owned : RunningOwned env middle :=
    history.invariant (fun allowed => runningOwned_step allowed.2)
      (runningOwned_initial initial)
  have logHolds := (logOutline env (Redelivered env)).preserved history
    (logOutline_initial initial)
  have known := logHolds.run here
  obtain ⟨shared, proc, actEq, rfl⟩ := Network.step_act_iff.mp call
  have step := actStep_of_act actEq
  rw [here] at step
  cases step with
  | run fault live =>
      simp only [Function.update_self] at skipped
      have skips : (runCall env middle.shared pc fault).2.skips = true := by
        rw [Proc.run.inj skipped]
        rfl
      obtain ⟨unchanged, cases⟩ := skips_call known live found skips
      simp only [unchanged]
      rcases cases with completed | cancelled | ⟨job, cutoff, rfl, free⟩
      · exact .inl completed
      · exact .inr (.inl cancelled)
      · have others : ∀ other, (middle.procs other).owning = true →
            ∃ other, other ≠ index ∧
              (Function.update middle.procs index
                (.run (runCall env middle.shared (.claim job cutoff)
                  fault).2) other).owning = true := by
          intro other owns
          have different : other ≠ index := by
            rintro rfl
            rw [here] at owns
            cases owns
          exact ⟨other, different, by
            rwa [Function.update_of_ne different]⟩
        obtain ⟨row, present, _⟩ := Option.map_eq_some_iff.mp known
        simp only [present, Option.any_some, claimable,
          Bool.or_eq_false_iff] at free
        obtain ⟨notResumable, notStale⟩ := free
        cases status : row.status with
        | completed =>
            left
            rw [World.status, present, Option.map_some, status]
        | cancelled =>
            right; left
            rw [World.status, present, Option.map_some, status]
        | running =>
            right; right
            have fresh : cutoff ≤ row.updatedAt := by
              simpa [status] using notStale
            rcases owned (by
                rw [World.status, present, Option.map_some, status]) with
              ⟨other, owns⟩ | expired
            · exact others other owns
            · have late := expired index _ cutoff row here rfl present
              omega
        | verifying =>
            right; right
            obtain ⟨other, otherPc, there, settling⟩ := ending (by
              rw [World.status, present, Option.map_some, status])
            refine others other ?_
            rw [there]
            exact settling_claimed settling
        | _ => simp [status, resumableStatuses] at notResumable

/-- `VerifyingSpared`, where no run dies past its `VERIFYING` write. -/
def verifyingSpared (config : Config World Proc) : Event Action Change → Bool
  | .act index action =>
      !(config.procs index).runs fun pc => pc.settling && pc.dies action
  | .env _ => true

theorem verifyingSpared_sound {config : Config World Proc}
    {event : Event Action Change}
    (passes : verifyingSpared config event = true) :
    VerifyingSpared config event := by
  rintro index action pc rfl here settling dies _
  simp [verifyingSpared, here, Proc.runs, settling, dies] at passes

/-- `Proc.FindsExpired`, computed. -/
def Proc.findsExpired (env : Env) (world : World) : Proc → Bool
  | .run pc => (pc.cutoff env world).all fun cutoff =>
      world.job.all fun row : ExportJob => row.updatedAt < cutoff
  | _ => true

theorem findsExpired_sound {proc : Proc}
    (passes : proc.findsExpired env world = true) :
    proc.FindsExpired env world := by
  rintro pc cutoff row rfl takes found
  simpa [Proc.findsExpired, takes, found] using passes

/-- `Timely`, computed for the first processes. -/
def timely (env : Env) (bound : Nat) (config : Config World Proc) :
    Event Action Change → Bool
  | .act index action =>
      ((List.range bound).any fun other =>
          decide (other ≠ index) && (config.procs other).owning) ||
        (decide (config.shared.status ≠ some .running) ||
            (!(config.procs index).stops action ||
                (List.range bound).all fun other =>
                  (config.procs other).findsExpired env config.shared) &&
              (!decide (action = .start ∨ action = .deliver) ||
                config.shared.job.all fun row : ExportJob =>
                  row.updatedAt < env.staleCutoff config.shared)) &&
          (!(config.procs index).renews action ||
            (List.range bound).all fun other =>
              decide (other = index) ||
                !(config.procs other).runs RunPc.waits)
  | .env _ => true

theorem timely_sound {bound : Nat} {config : Config World Proc}
    {event : Event Action Change} (idle : IdleFrom bound config)
    (passes : timely env bound config event = true) :
    Timely env config event := by
  rintro index action rfl alone
  have nobody : ¬ ((List.range bound).any fun other =>
      decide (other ≠ index) && (config.procs other).owning) = true := by
    simp only [List.any_eq_true, List.mem_range, Bool.and_eq_true,
      decide_eq_true_eq, not_exists, not_and]
    intro other _ different owns
    rw [alone other different] at owns
    cases owns
  rw [timely, Bool.or_eq_true] at passes
  have checked := passes.resolve_left nobody
  simp only [Bool.or_eq_true, Bool.and_eq_true, Bool.not_eq_true',
    decide_eq_true_eq, List.all_eq_true, List.mem_range,
    decide_eq_false_iff_not] at checked
  obtain ⟨whileRunning, renewed⟩ := checked
  refine ⟨fun running => ⟨fun stops other => ?_, fun begins row found => ?_⟩,
    fun renews other pc different there => ?_⟩
  · have allExpired := (whileRunning.resolve_left
      (not_not.mpr running)).1.resolve_left (by rw [stops]; decide)
    by_cases below : other < bound
    · exact findsExpired_sound (allExpired other below)
    · rw [idle other (not_lt.mp below)]
      rintro pc cutoff row isRun
      cases isRun
  · have late := (whileRunning.resolve_left
      (not_not.mpr running)).2.resolve_left (not_not.mpr begins)
    simpa [found] using late
  · have allGo := renewed.resolve_left (by rw [renews]; decide)
    by_cases below : other < bound
    · have goesOn := (allGo other below).resolve_left different
      simpa [there, Proc.runs] using goesOn
    · rw [idle other (not_lt.mp below)] at there
      cases there

/-- The first worker dies after its claim.  The job is delivered again once
the heartbeat has expired, and a third time while the second worker is at
work. -/
def deliveredThrice : List (Event Action Change) :=
  createSteps 1 ++ .act 1 .deliver :: calls 1 3 ++
    [.act 1 .crash, .act 1 .stall, .env (.tick 60000), .act 2 .deliver] ++
    calls 2 3 ++ .act 3 .start :: calls 3 1

/-- The run is about to claim a job that cannot be claimed. -/
def RunPc.comesSecond (world : World) : RunPc → Bool
  | .claim _ staleCutoff => !world.job.any (claimable staleCutoff)
  | _ => false

theorem skipped_over_or_owned_deliveredThrice :
    ∃ middle target : Config World Proc,
      (machine smallEnv).Exec (Redelivered smallEnv) (smallStart oneRecord)
        deliveredThrice middle ∧
      (machine smallEnv).step middle (.act 3 (.call .none)) = some target ∧
      (target.procs 3).executing = false ∧
      (target.shared.status = some .completed ∨
        target.shared.status = some .cancelled ∨
        ∃ other, other ≠ 3 ∧ (target.procs other).owning = true) := by
  obtain ⟨middle, history, _, claiming⟩ :=
    exists_history (Redelivered smallEnv) oneRecord 4
      (fun config event => verifyingSpared config event &&
        timely smallEnv 4 config event) deliveredThrice
      (fun middle => (middle.procs 3).runs (RunPc.comesSecond middle.shared))
      (fun idle passes => by
        simp only [Bool.and_eq_true] at passes
        exact ⟨verifyingSpared_sound passes.1, timely_sound idle passes.2⟩)
      (by decide +kernel)
  obtain ⟨pc, here, second⟩ := Proc.exists_of_runs claiming
  cases pc with
  | claim job staleCutoff =>
      rw [RunPc.comesSecond, Bool.not_eq_true'] at second
      let target : Config World Proc := ⟨middle.shared,
        Function.update middle.procs 3 (.run (.returned
          (.skipped (alreadyOwned smallEnv job))))⟩
      have call : (machine smallEnv).step middle (.act 3 (.call .none)) =
          some target := by
        refine Network.step_act_iff.mpr ⟨_, _, ?_, rfl⟩
        simp [network, act, here, RunPc.ended, runCall, runStep, claimStep,
          second]
      refine ⟨middle, target, history, call, ?_, ?_⟩
      · simp [target, Proc.executing, RunPc.ended]
      · exact skipped_over_or_owned (initial_smallStart _) history here
          (fun _ => by simp) call
          (show target.procs 3 = .run (.returned (.skipped
            (alreadyOwned smallEnv job))) by simp [target])
  | _ => cases second

/-- The worker dies right after its claim; the queue redelivers before the
heartbeat expires. -/
def droppedRedelivery : List (Event Action Change) :=
  createSteps 1 ++ .act 1 .deliver :: calls 1 2 ++
    [.act 1 .crash, .act 1 .stall, .act 2 .deliver] ++ calls 2 2 ++
    [.act 2 .settle]

/-- The redelivery is skipped, and so consumed, although nobody works on the
job. -/
theorem redelivery_dropped :
    ∃ target pc,
      (machine smallEnv).Exec Anything (smallStart oneRecord)
        droppedRedelivery target ∧
      target.procs 2 = .run pc ∧ pc.skips = true ∧
      target.shared.status = some .running ∧
      target.shared.entry.map QueueEntry.state = some .completed ∧
      NoRunExecuting target := by
  obtain ⟨target, history, idle, ends⟩ :=
    exists_history Anything oneRecord 3 (fun _ _ => true)
      droppedRedelivery
      (fun target =>
        (target.procs 2).runs RunPc.skips &&
          decide (target.shared.status = some .running) &&
          decide (target.shared.entry.map QueueEntry.state =
            some .completed) &&
          (List.range 3).all fun index =>
            !(target.procs index).executing)
      (fun _ _ => trivial) (by decide +kernel)
  simp only [Bool.and_eq_true, decide_eq_true_eq] at ends
  obtain ⟨⟨⟨skips, running⟩, consumed⟩, free⟩ := ends
  obtain ⟨pc, here, isSkip⟩ := Proc.exists_of_runs skips
  exact ⟨target, pc, history, here, isSkip, running, consumed,
    noRunExecuting_of_idleFrom idle free⟩

end ExportVault
