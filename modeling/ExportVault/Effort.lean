import ExportVault.Bounds

/-!
# Everything comes to rest

What the system does is bounded by what is asked of it.  A queue entry pays for
the deliveries it can still cause, a run for its calls, a command for its own
calls and for the entry it may add; every step of a process takes something
from this store, and only requests and sweeps fill it up (`steps_bounded`).
Deliveries come from the queue here, and what is over takes no further steps.
-/

namespace ExportVault

open Interleaving

/-- The steps of a run and of the queue on one delivery of an export of
`limit` rows. -/
def deliverySteps (limit : Nat) : Nat :=
  8 * limit + 21

/-- The deliveries an entry can still cause: one now, one for each attempt and
one for each stall it has left. -/
def QueueEntry.deliveriesLeft (entry : QueueEntry) : Nat :=
  queueAttempts + maxStalledCount - entry.attemptsMade - entry.stalledCounter

def QueueEntry.stepsLeft (limit : Nat) (entry : QueueEntry) : Nat :=
  match entry.state with
  | .waiting => deliverySteps limit * entry.deliveriesLeft
  | .delayed => deliverySteps limit * entry.deliveriesLeft
  | .active _ => deliverySteps limit * (entry.deliveriesLeft - 1) + 1
  | _ => 0

def World.stepsLeft (limit : Nat) (world : World) : Nat :=
  world.entry.elim 0 (QueueEntry.stepsLeft limit)

def entrySteps (limit : Nat) : Nat :=
  deliverySteps limit * (queueAttempts + maxStalledCount)

def ApiPc.stepsLeft (limit : Nat) : ApiPc → Nat
  | .captureSnapshot _ _ => entrySteps limit + 8
  | .countRecords _ _ _ => entrySteps limit + 7
  | .insertJob _ _ _ => entrySteps limit + 6
  | .findForResume _ => entrySteps limit + 8
  | .countCheckpoints => entrySteps limit + 7
  | .writeResuming => entrySteps limit + 6
  | .getJob _ => entrySteps limit + 5
  | .getState _ => entrySteps limit + 4
  | .remove _ => entrySteps limit + 3
  | .add _ => entrySteps limit + 2
  | .writeQueued => 1
  | .findForCancel _ => 2
  | .writeCancel _ => 1
  | .findForVerifyOwner _ => 5
  | .findForVerify => 4
  | .latestForVerify _ => 1
  | .verifyHead _ _ => 3
  | .verifyRead _ _ _ => 2
  | .saveVerification _ _ => 1
  | .findForDownload _ => 2
  | .latestForDownload _ => 1
  | .returned _ => 0
  | .threw _ => 0
  | .crashed => 0

def SweepPc.stepsLeft : SweepPc → Nat
  | .findStalled _ => 3
  | .markInterrupted _ _ => 2
  | .recordStalled _ => 1
  | .ended => 0

/-- The steps a run can still cause: its calls, and the `failed` handler. -/
def RunPc.stepsLeft (exportJobId : String) (limit : Nat) (pc : RunPc) : Nat :=
  match pc with
  | .returned _ => 0
  | .crashed => 0
  | pc => pc.callsLeft exportJobId limit + 1

def Proc.stepsLeft (exportJobId : String) (limit : Nat) : Proc → Nat
  | .idle => 0
  | .run pc => pc.stepsLeft exportJobId limit
  | .api pc => pc.stepsLeft limit
  | .sweep pc => pc.stepsLeft
  | .queueFailed _ => 1

@[simp]
theorem ApiPc.stepsLeft_threw (limit : Nat) (error : AppError) :
    (ApiPc.threw error).stepsLeft limit = 0 :=
  rfl

@[simp]
theorem ApiPc.stepsLeft_crashed (limit : Nat) :
    ApiPc.crashed.stepsLeft limit = 0 :=
  rfl

@[simp]
theorem SweepPc.stepsLeft_ended : SweepPc.ended.stepsLeft = 0 :=
  rfl

@[simp]
theorem RunPc.stepsLeft_returned (exportJobId : String) (limit : Nat)
    (outcome : RunOutcome) :
    (RunPc.returned outcome).stepsLeft exportJobId limit = 0 :=
  rfl

@[simp]
theorem RunPc.stepsLeft_crashed (exportJobId : String) (limit : Nat) :
    RunPc.crashed.stepsLeft exportJobId limit = 0 :=
  rfl

/-- Deliveries are those of the queue, and a sweep that is over takes no
step. -/
def Driven : Condition := fun config event =>
  match event with
  | .act _ .start => False
  | .act index _ => config.procs index ≠ .sweep .ended
  | .env _ => True

/-- A step of a process or of the queue, other than the beginning of a command
or a sweep. -/
def isStep : Event Action Change → Bool
  | .act _ (.request _) => false
  | .act _ .beginSweep => false
  | .act _ _ => true
  | .env _ => false

/-- What the beginning of a command or a sweep adds to the store. -/
def credit (limit : Nat) : Event Action Change → Nat
  | .act _ (.request _) => entrySteps limit + 8
  | .act _ .beginSweep => 3
  | _ => 0

def isRequest : Event Action Change → Bool
  | .act _ (.request _) => true
  | _ => false

def isSweep : Event Action Change → Bool
  | .act _ .beginSweep => true
  | _ => false

variable {env : Env} {world after : World} {limit : Nat}

def QueueEntry.Tries (entry : QueueEntry) : Prop :=
  entry.state ≠ .completed → entry.state ≠ .failed →
    entry.attemptsMade < queueAttempts ∧
      entry.stalledCounter ≤ maxStalledCount

def World.Tries (world : World) : Prop :=
  ∀ entry, world.entry = some entry → entry.Tries

theorem tries_afterThrow {entry : QueueEntry} (tries : entry.Tries)
    (active : ∃ holder, entry.state = .active holder) :
    entry.afterThrow.Tries := by
  obtain ⟨holder, isActive⟩ := active
  obtain ⟨_, stalls⟩ := tries (by simp [isActive]) (by simp [isActive])
  intro _ going
  refine ⟨?_, stalls⟩
  by_contra last
  exact going (if_neg last)

theorem tries_afterStall {entry : QueueEntry} (tries : entry.Tries)
    (active : ∃ holder, entry.state = .active holder) :
    entry.afterStall.Tries := by
  obtain ⟨holder, isActive⟩ := active
  obtain ⟨attempts, _⟩ := tries (by simp [isActive]) (by simp [isActive])
  intro _ going
  refine ⟨attempts, ?_⟩
  by_contra last
  exact going (if_pos (not_le.mp last))

theorem World.active_of_heldEntry {index : Nat} {entry : QueueEntry}
    (held : world.heldEntry index = some entry) :
    world.entry = some entry ∧ entry.state = .active index := by
  obtain ⟨present, active⟩ := Option.filter_eq_some_iff.mp held
  exact ⟨present, of_decide_eq_true active⟩

theorem stepsLeft_afterThrow {entry : QueueEntry} {index : Nat}
    (active : entry.state = .active index) :
    entry.afterThrow.stepsLeft limit + 1 ≤ entry.stepsLeft limit := by
  have before : entry.stepsLeft limit =
      deliverySteps limit * (entry.deliveriesLeft - 1) + 1 := by
    rw [QueueEntry.stepsLeft, active]
  have left : entry.afterThrow.deliveriesLeft = entry.deliveriesLeft - 1 := by
    simp only [QueueEntry.deliveriesLeft, QueueEntry.afterThrow]
    omega
  rw [before, QueueEntry.stepsLeft, left]
  by_cases more : entry.attemptsMade + 1 < queueAttempts
  · simp only [QueueEntry.afterThrow, if_pos more, le_refl]
  · simp only [QueueEntry.afterThrow, if_neg more, Nat.le_add_left]

theorem stepsLeft_afterStall {entry : QueueEntry} {index : Nat}
    (active : entry.state = .active index) :
    entry.afterStall.stepsLeft limit + 1 ≤ entry.stepsLeft limit := by
  have before : entry.stepsLeft limit =
      deliverySteps limit * (entry.deliveriesLeft - 1) + 1 := by
    rw [QueueEntry.stepsLeft, active]
  have left : entry.afterStall.deliveriesLeft = entry.deliveriesLeft - 1 := by
    simp only [QueueEntry.deliveriesLeft, QueueEntry.afterStall]
    omega
  rw [before, QueueEntry.stepsLeft, left]
  by_cases last : maxStalledCount < entry.stalledCounter + 1
  · simp only [QueueEntry.afterStall, if_pos last, Nat.le_add_left]
  · simp only [QueueEntry.afterStall, if_neg last, le_refl]

/-- A delivery is paid for by the entry. -/
theorem stepsLeft_deliver {entry : QueueEntry} {index : Nat}
    (tries : world.Tries) (ready : world.readyEntry = some entry) :
    (world.setEntry (some { entry with state := .active index })).stepsLeft
        limit + (8 * limit + 19) + 1 ≤ world.stepsLeft limit := by
  obtain ⟨present, waits⟩ := Option.filter_eq_some_iff.mp ready
  have state : entry.state = .waiting ∨ entry.state = .delayed := by
    simpa using waits
  have ongoing : entry.state ≠ .completed ∧ entry.state ≠ .failed := by
    rcases state with isWaiting | isDelayed
    · simp [isWaiting]
    · simp [isDelayed]
  obtain ⟨attempts, stalls⟩ := tries entry present ongoing.1 ongoing.2
  have some_left : 1 ≤ entry.deliveriesLeft := by
    rw [QueueEntry.deliveriesLeft]
    omega
  have before : world.stepsLeft limit =
      deliverySteps limit * entry.deliveriesLeft := by
    rw [World.stepsLeft, present]
    rcases state with isWaiting | isDelayed
    · simp [QueueEntry.stepsLeft, isWaiting]
    · simp [QueueEntry.stepsLeft, isDelayed]
  have less : entry.deliveriesLeft = entry.deliveriesLeft - 1 + 1 := by omega
  rw [before, less, Nat.mul_succ]
  simp only [World.stepsLeft, World.setEntry_entry, Option.elim_some,
    QueueEntry.stepsLeft, QueueEntry.deliveriesLeft, deliverySteps]
  omega

theorem RunPc.stepsLeft_le (exportJobId : String) (pc : RunPc) :
    pc.stepsLeft exportJobId limit ≤ pc.callsLeft exportJobId limit + 1 := by
  cases pc with
  | returned | crashed => exact Nat.zero_le _
  | _ => exact le_refl _

theorem RunPc.stepsLeft_of_live {exportJobId : String} {pc : RunPc}
    (live : pc.ended = false) :
    pc.stepsLeft exportJobId limit = pc.callsLeft exportJobId limit + 1 := by
  cases pc with
  | returned | crashed => cases live
  | _ => rfl

theorem stepsLeft_begin (request : Request) :
    request.begin.stepsLeft limit ≤ entrySteps limit + 8 := by
  cases request with
  | create userId rowLimit =>
      simp only [Request.begin]
      repeat' split
      all_goals simp [ApiPc.stepsLeft]
  | _ => simp [Request.begin, ApiPc.stepsLeft]

theorem ApiPc.stepsLeft_pos {pc : ApiPc} (live : pc.ended = false) :
    1 ≤ pc.stepsLeft limit := by
  cases pc with
  | returned | threw | crashed => cases live
  | _ => simp [ApiPc.stepsLeft]

theorem stepsLeft_afterEnqueue (caller : EnqueueCaller) :
    (ApiPc.afterEnqueue caller).stepsLeft limit ≤ 1 := by
  cases caller <;> simp [ApiPc.afterEnqueue, ApiPc.stepsLeft]

theorem World.stepsLeft_of_entry (same : after.entry = world.entry) :
    after.stepsLeft limit = world.stepsLeft limit := by
  rw [World.stepsLeft, World.stepsLeft, same]

/-- Only `add` puts something into the queue. -/
theorem stepsLeft_apiStep_world {pc : ApiPc}
    (adds : ∀ caller, pc ≠ .add caller) :
    (apiStep env world pc).1.stepsLeft limit ≤ world.stepsLeft limit := by
  rcases apiStep_entry env world pc with same | gone | added
  · exact le_of_eq (World.stepsLeft_of_entry same)
  · rw [World.stepsLeft, gone]
    exact Nat.zero_le _
  · cases pc with
    | add caller => exact absurd rfl (adds caller)
    | remove caller =>
        simp only [apiStep] at added ⊢
        split at added
        · exact le_refl _
        · cases added
    | insertJob | saveVerification =>
        simp only [apiStep]
        split <;> exact le_refl _
    | _ => exact le_refl _

/-- A command has fewer steps left after each of them. -/
theorem stepsLeft_apiStep_pc {pc : ApiPc} (live : pc.ended = false)
    (adds : ∀ caller, pc ≠ .add caller) :
    (apiStep env world pc).2.stepsLeft limit + 1 ≤ pc.stepsLeft limit := by
  have owned : ∀ (userId : String) (next : ExportJob → ApiPc) (bound : Nat),
      (∀ job, (next job).stepsLeft limit ≤ bound) →
      (getOwnedExportJob world userId next).stepsLeft limit ≤ bound :=
    fun userId next bound below =>
      getOwnedExportJob_cases (motive := fun pc => pc.stepsLeft limit ≤ bound)
        userId (Nat.zero_le _) fun job _ => below job
  have returned : ∀ (world : World) (next : ExportJob → ApiPc) (bound : Nat),
      (∀ job, (next job).stepsLeft limit ≤ bound) →
      (returnJob world next).stepsLeft limit ≤ bound :=
    fun world next bound below =>
      returnJob_cases (motive := fun pc => pc.stepsLeft limit ≤ bound)
        (fun _ => Nat.zero_le _) fun job _ => below job
  cases pc with
  | add caller => exact absurd rfl (adds caller)
  | writeQueued =>
      exact Nat.succ_le_succ (returned _ _ 0 fun _ => le_refl _)
  | writeCancel job =>
      exact Nat.succ_le_succ (returned _ _ 0 fun _ => le_refl _)
  | writeResuming =>
      exact Nat.succ_le_succ (returned _ _ _ fun _ => le_refl _)
  | findForResume userId =>
      refine Nat.succ_le_succ (owned _ _ _ fun job => ?_)
      rw [afterFindForResume]
      repeat' split
      all_goals simp [ApiPc.stepsLeft]
  | findForCancel userId =>
      refine Nat.succ_le_succ (owned _ _ _ fun job => ?_)
      rw [afterFindForCancel]
      repeat' split
      all_goals simp [ApiPc.stepsLeft]
  | findForDownload userId =>
      refine Nat.succ_le_succ (owned _ _ _ fun job => ?_)
      rw [afterFindForDownload]
      repeat' split
      all_goals simp [ApiPc.stepsLeft]
  | findForVerifyOwner userId =>
      exact Nat.succ_le_succ (owned _ _ _ fun _ => le_refl _)
  | getState caller =>
      simp only [apiStep]
      split
      · have next : (ApiPc.afterEnqueue caller).stepsLeft limit ≤ 1 :=
          stepsLeft_afterEnqueue caller
        exact Nat.succ_le_succ (next.trans (Nat.le_add_left _ _))
      · exact le_refl _
  | latestForDownload fileKey =>
      simp only [apiStep, afterLatestForDownload]
      repeat' split
      all_goals simp [ApiPc.stepsLeft]
  | returned | threw | crashed => cases live
  | _ =>
      simp only [apiStep]
      repeat' split
      all_goals simp [ApiPc.stepsLeft]

/-- A call of a command pays for the entry it adds. -/
theorem stepsLeft_apiStep {pc : ApiPc} (live : pc.ended = false) :
    (apiStep env world pc).1.stepsLeft limit +
        (apiStep env world pc).2.stepsLeft limit + 1 ≤
      world.stepsLeft limit + pc.stepsLeft limit := by
  by_cases adds : ∃ caller, pc = .add caller
  · obtain ⟨caller, rfl⟩ := adds
    have next : (ApiPc.afterEnqueue caller).stepsLeft limit ≤ 1 :=
      stepsLeft_afterEnqueue caller
    have own : (ApiPc.add caller).stepsLeft limit = entrySteps limit + 2 := rfl
    simp only [apiStep]
    cases present : world.entry with
    | none =>
        have fresh : (world.setEntry (some {})).stepsLeft limit =
            entrySteps limit := rfl
        simp only [fresh, own]
        omega
    | some entry =>
        simp only [own]
        omega
  · have other : ∀ caller, pc ≠ .add caller :=
      fun caller same => adds ⟨caller, same⟩
    have queue : (apiStep env world pc).1.stepsLeft limit ≤
        world.stepsLeft limit := stepsLeft_apiStep_world other
    have command : (apiStep env world pc).2.stepsLeft limit + 1 ≤
        pc.stepsLeft limit := stepsLeft_apiStep_pc live other
    omega

theorem stepsLeft_apiCall {pc : ApiPc} (fault : Fault)
    (live : pc.ended = false) :
    (apiCall env world pc fault).1.stepsLeft limit +
        (apiCall env world pc fault).2.stepsLeft limit + 1 ≤
      world.stepsLeft limit + pc.stepsLeft limit := by
  have answered : (apiStep env world pc).1.stepsLeft limit +
        (apiStep env world pc).2.stepsLeft limit + 1 ≤
      world.stepsLeft limit + pc.stepsLeft limit := stepsLeft_apiStep live
  have left : 1 ≤ pc.stepsLeft limit := ApiPc.stepsLeft_pos live
  refine apiCall_cases (motive := fun result =>
    result.1.stepsLeft limit + result.2.stepsLeft limit + 1 ≤
      world.stepsLeft limit + pc.stepsLeft limit) fault answered
    (fun error => ?_) fun error => ?_
  · simp only [ApiPc.stepsLeft_threw]
    omega
  · simp only [ApiPc.stepsLeft_threw]
    omega

theorem stepsLeft_sweepStep {pc : SweepPc} (live : pc ≠ .ended) :
    (sweepStep env world pc).2.stepsLeft + 1 ≤ pc.stepsLeft := by
  cases pc with
  | ended => exact absurd rfl live
  | _ =>
      simp only [sweepStep]
      repeat' split
      all_goals simp [SweepPc.stepsLeft]

theorem SweepPc.stepsLeft_pos {pc : SweepPc} (live : pc ≠ .ended) :
    1 ≤ pc.stepsLeft := by
  cases pc with
  | ended => exact absurd rfl live
  | _ => simp [SweepPc.stepsLeft]

theorem stepsLeft_sweepCall {pc : SweepPc} (fault : Fault)
    (live : pc ≠ .ended) :
    (sweepCall env world pc fault).2.stepsLeft + 1 ≤ pc.stepsLeft :=
  sweepCall_cases (motive := fun result =>
      result.2.stepsLeft + 1 ≤ pc.stepsLeft) fault
    (stepsLeft_sweepStep live) (SweepPc.stepsLeft_pos live)
    (SweepPc.stepsLeft_pos live)

/-! ## A step pays -/

theorem stepsLeft_runCall {pc : RunPc} (fault : Fault)
    (limited : ∀ terms, world.terms = some terms →
      terms.requestedRowLimit = limit)
    (log : LogInvariant world) (knows : logRuns world pc)
    (numbered : ChunksNumbered env world) (live : pc.ended = false) :
    (runCall env world pc fault).2.stepsLeft env.exportJobId limit + 1 ≤
      pc.stepsLeft env.exportJobId limit := by
  have lowers := callsLeft_runCall fault limited log knows numbered live
  have next : (runCall env world pc fault).2.stepsLeft env.exportJobId limit ≤
      (runCall env world pc fault).2.callsLeft env.exportJobId limit + 1 :=
    RunPc.stepsLeft_le _ _
  rw [RunPc.stepsLeft_of_live live]
  omega

theorem runCall_entry (pc : RunPc) (fault : Fault) :
    (runCall env world pc fault).1.entry = world.entry :=
  runCall_cases (motive := fun result => result.1.entry = world.entry) fault
    (fun kept => runStep_entry env kept world pc) (fun _ => rfl)
    fun _ => runStep_entry env [] world pc

theorem sweepCall_entry (pc : SweepPc) (fault : Fault) :
    (sweepCall env world pc fault).1.entry = world.entry :=
  sweepCall_cases (motive := fun result => result.1.entry = world.entry) fault
    (sweepStep_entry env world pc) rfl (sweepStep_entry env world pc)

theorem paid_act {config : Config World Proc} {index : Nat} {action : Action}
    {shared : World} {proc : Proc}
    (driven : Driven config (.act index action))
    (asks : Asks limit config)
    (logged : (logOutline env Anything).Holds config)
    (numbered : ChunksNumbered env config.shared)
    (tries : config.shared.Tries)
    (step : ActStep env index config.shared (config.procs index) action
      shared proc) :
    shared.stepsLeft limit + proc.stepsLeft env.exportJobId limit +
        (if isStep (.act index action) then 1 else 0) ≤
      config.shared.stepsLeft limit +
        (config.procs index).stepsLeft env.exportJobId limit +
        credit limit (.act index action) := by
  generalize here : config.procs index = current at step
  cases step with
  | start => exact driven.elim
  | @deliver entry ready =>
      have paid : (config.shared.setEntry
          (some { entry with state := .active index })).stepsLeft limit +
            (8 * limit + 19) + 1 ≤ config.shared.stepsLeft limit :=
        stepsLeft_deliver tries ready
      simp only [Proc.stepsLeft, RunPc.stepsLeft, RunPc.callsLeft, isStep,
        credit, if_true]
      omega
  | request request =>
      have begins : request.begin.stepsLeft limit ≤ entrySteps limit + 8 :=
        stepsLeft_begin request
      simp only [Proc.stepsLeft, isStep, credit, Bool.false_eq_true, if_false]
      omega
  | beginSweep => exact le_refl _
  | @run pc fault live =>
      have entry : (runCall env config.shared pc fault).1.stepsLeft limit =
          config.shared.stepsLeft limit :=
        World.stepsLeft_of_entry (runCall_entry pc fault)
      have calls := stepsLeft_runCall fault asks logged.1 (logged.run here)
        numbered live
      simp only [Proc.stepsLeft, isStep, credit, if_true, entry]
      omega
  | @runCrash pc live =>
      have left : pc.stepsLeft env.exportJobId limit =
          pc.callsLeft env.exportJobId limit + 1 :=
        RunPc.stepsLeft_of_live live
      simp only [Proc.stepsLeft, isStep, credit, if_true, left,
        RunPc.stepsLeft_crashed]
      omega
  | @settleReturned outcome entry held =>
      have active := (World.active_of_heldEntry held).2
      have before : config.shared.stepsLeft limit =
          deliverySteps limit * (entry.deliveriesLeft - 1) + 1 := by
        rw [World.stepsLeft, (World.active_of_heldEntry held).1,
          Option.elim_some, QueueEntry.stepsLeft, active]
      rw [before]
      simp [World.stepsLeft, QueueEntry.stepsLeft, Proc.stepsLeft, isStep,
        credit]
  | @settleThrew error entry held =>
      have paid : entry.afterThrow.stepsLeft limit + 1 ≤
          entry.stepsLeft limit :=
        stepsLeft_afterThrow (World.active_of_heldEntry held).2
      have before : config.shared.stepsLeft limit = entry.stepsLeft limit := by
        rw [World.stepsLeft, (World.active_of_heldEntry held).1,
          Option.elim_some]
      rw [before]
      simp only [World.stepsLeft, World.setEntry_entry, Option.elim_some,
        Proc.stepsLeft, RunPc.stepsLeft, RunPc.callsLeft, isStep, credit,
        if_true]
      omega
  | @stall pc entry held =>
      have paid : entry.afterStall.stepsLeft limit + 1 ≤
          entry.stepsLeft limit :=
        stepsLeft_afterStall (World.active_of_heldEntry held).2
      have before : config.shared.stepsLeft limit = entry.stepsLeft limit := by
        rw [World.stepsLeft, (World.active_of_heldEntry held).1,
          Option.elim_some]
      rw [before]
      simp only [World.stepsLeft, World.setEntry_entry, Option.elim_some,
        isStep, credit, if_true]
      omega
  | @api pc fault live =>
      have paid : (apiCall env config.shared pc fault).1.stepsLeft limit +
            (apiCall env config.shared pc fault).2.stepsLeft limit + 1 ≤
          config.shared.stepsLeft limit + pc.stepsLeft limit :=
        stepsLeft_apiCall fault live
      simp only [Proc.stepsLeft, isStep, credit, if_true]
      omega
  | @apiCrash pc live =>
      have left : 1 ≤ pc.stepsLeft limit := ApiPc.stepsLeft_pos live
      simp only [Proc.stepsLeft, isStep, credit, if_true,
        ApiPc.stepsLeft_crashed]
      omega
  | @sweep pc fault =>
      have entry : (sweepCall env config.shared pc fault).1.stepsLeft limit =
          config.shared.stepsLeft limit :=
        World.stepsLeft_of_entry (sweepCall_entry pc fault)
      have paid : (sweepCall env config.shared pc fault).2.stepsLeft + 1 ≤
          pc.stepsLeft :=
        stepsLeft_sweepCall fault fun same => driven (same ▸ here)
      simp only [Proc.stepsLeft, isStep, credit, if_true, entry]
      omega
  | @sweepCrash pc =>
      have left : 1 ≤ pc.stepsLeft := SweepPc.stepsLeft_pos fun same =>
        driven (same ▸ here)
      simp only [Proc.stepsLeft, isStep, credit, if_true,
        SweepPc.stepsLeft_ended]
      omega
  | @queueFailed error fault after same entry =>
      have unchanged : shared.stepsLeft limit = config.shared.stepsLeft limit :=
        World.stepsLeft_of_entry entry
      rw [unchanged]
      exact le_refl _
  | queueFailedCrash => exact le_refl _

theorem World.Tries.same (tries : world.Tries)
    (same : after.entry = world.entry) : after.Tries := by
  intro entry present
  exact tries entry (same.symm.trans present)

theorem World.Tries.put {entry : QueueEntry} (tries : entry.Tries) :
    (world.setEntry (some entry)).Tries := by
  intro other present
  obtain rfl := Option.some.inj present
  exact tries

theorem tries_act {index : Nat} {proc next : Proc} {action : Action}
    (tries : world.Tries)
    (step : ActStep env index world proc action after next) :
    after.Tries := by
  cases step with
  | start | request | beginSweep | runCrash | apiCrash | sweepCrash
  | queueFailedCrash => exact tries
  | @deliver entry ready =>
      obtain ⟨present, waits⟩ := Option.filter_eq_some_iff.mp ready
      refine .put fun _ _ => tries entry present ?_ ?_
      · rintro completed
        simp [completed] at waits
      · rintro failed
        simp [failed] at waits
  | run fault live => exact tries.same (runCall_entry _ fault)
  | settleReturned held => exact .put fun going => absurd rfl going
  | settleThrew held =>
      obtain ⟨present, active⟩ := World.active_of_heldEntry held
      exact .put (tries_afterThrow (tries _ present) ⟨_, active⟩)
  | stall held =>
      obtain ⟨present, active⟩ := World.active_of_heldEntry held
      exact .put (tries_afterStall (tries _ present) ⟨_, active⟩)
  | @api pc fault live =>
      have changed : (apiStep env world pc).1.Tries := by
        rcases apiStep_entry env world pc with same | gone | added
        · exact tries.same same
        · intro entry present
          rw [gone] at present
          cases present
        · intro entry present
          obtain rfl := Option.some.inj (added.symm.trans present)
          exact fun _ _ => by decide
      exact apiCall_cases (motive := fun result => result.1.Tries) fault
        changed (fun _ => tries) fun _ => changed
  | sweep fault => exact tries.same (sweepCall_entry _ fault)
  | queueFailed fault same entry => exact tries.same entry

theorem tries_step {config next : Config World Proc}
    {event : Event Action Change}
    (stepEq : (machine env).step config event = some next)
    (tries : config.shared.Tries) : next.shared.Tries := by
  cases event with
  | act index action =>
      obtain ⟨shared, proc, actEq, rfl⟩ := Network.step_act_iff.mp stepEq
      exact tries_act tries (actStep_of_act actEq)
  | env change =>
      obtain ⟨shared, envEq, rfl⟩ := Network.step_env_iff.mp stepEq
      obtain rfl := Option.some.inj envEq
      exact tries.same (change.apply_entry config.shared)

theorem tries_initial {config : Config World Proc}
    (initial : Initial env config) : config.shared.Tries := by
  intro entry present
  rw [initial.noEntry] at present
  cases present

/-- What the entry and the first processes can still do. -/
def store (exportJobId : String) (limit bound : Nat)
    (config : Config World Proc) : Nat :=
  config.shared.stepsLeft limit +
    Network.totalWeight (Proc.stepsLeft exportJobId limit) config.procs bound

theorem store_initial {config : Config World Proc}
    (initial : Initial env config) (bound : Nat) :
    store env.exportJobId limit bound config = 0 := by
  have nobody : Network.totalWeight (Proc.stepsLeft env.exportJobId limit)
      config.procs bound = 0 := by
    induction bound with
    | zero => rfl
    | succ bound inductionHypothesis =>
        rw [Network.totalWeight, inductionHypothesis, initial.idle]
        rfl
  rw [store, World.stepsLeft, initial.noEntry, nobody]
  rfl

def ActsWithin (bound : Nat) : Event Action Change → Prop
  | .act index _ => index < bound
  | .env _ => True

theorem exists_bound (events : List (Event Action Change)) :
    ∃ bound, ∀ event ∈ events, ActsWithin bound event := by
  induction events with
  | nil => exact ⟨0, fun _ none => absurd none List.not_mem_nil⟩
  | cons event rest inductionHypothesis =>
      obtain ⟨bound, within⟩ := inductionHypothesis
      have larger : ∀ {other : Nat}, bound ≤ other →
          ∀ later ∈ rest, ActsWithin other later := by
        intro other above later member
        have known := within later member
        cases later with
        | act index action => exact lt_of_lt_of_le known above
        | env change => trivial
      cases event with
      | act index action =>
          refine ⟨bound + index + 1, List.forall_mem_cons.mpr
            ⟨?_, larger (by omega)⟩⟩
          show index < bound + index + 1
          omega
      | env change =>
          exact ⟨bound, List.forall_mem_cons.mpr
            ⟨trivial, larger (le_refl _)⟩⟩

theorem paid_step {config next : Config World Proc}
    {event : Event Action Change} {bound : Nat}
    (driven : Driven config event) (within : ActsWithin bound event)
    (asks : Asks limit config)
    (logged : (logOutline env Anything).Holds config)
    (numbered : ChunksNumbered env config.shared)
    (tries : config.shared.Tries)
    (stepEq : (machine env).step config event = some next) :
    store env.exportJobId limit bound next +
        (if isStep event then 1 else 0) ≤
      store env.exportJobId limit bound config + credit limit event := by
  cases event with
  | act index action =>
      obtain ⟨shared, proc, actEq, rfl⟩ := Network.step_act_iff.mp stepEq
      have paid := paid_act driven asks logged numbered tries
        (actStep_of_act actEq)
      have total := Network.totalWeight_update
        (Proc.stepsLeft env.exportJobId limit) config.procs proc within
      simp only [store]
      omega
  | env change =>
      obtain ⟨shared, envEq, rfl⟩ := Network.step_env_iff.mp stepEq
      obtain rfl := Option.some.inj envEq
      have unchanged : (change.apply config.shared).stepsLeft limit =
          config.shared.stepsLeft limit :=
        World.stepsLeft_of_entry (change.apply_entry config.shared)
      simp only [store, unchanged, isStep, credit, Bool.false_eq_true, if_false]
      exact le_refl _

theorem credit_sum (limit : Nat) (events : List (Event Action Change)) :
    (events.map (credit limit)).sum =
      (entrySteps limit + 8) * events.countP isRequest +
        3 * events.countP isSweep := by
  induction events with
  | nil => rfl
  | cons event rest inductionHypothesis =>
      rw [List.map_cons, List.sum_cons, inductionHypothesis, List.countP_cons,
        List.countP_cons, Nat.mul_add, Nat.mul_add]
      cases event with
      | act index action =>
          cases action with
          | request | beginSweep =>
              simp only [credit, isRequest, isSweep, if_true,
                Bool.false_eq_true, if_false]
              omega
          | _ =>
              simp only [credit, isRequest, isSweep, Bool.false_eq_true,
                if_false]
              omega
      | env change =>
          simp only [credit, isRequest, isSweep, Bool.false_eq_true, if_false]
          omega

/-- The system comes to rest between requests: under every interleaving of
runs, commands and sweeps, with crashes, stalls and failed calls, all the steps
of all the processes and of the queue are no more than a number for each
command, which depends on the rows of the export only, and three for each
sweep. -/
theorem steps_bounded {source target : Config World Proc}
    {events : List (Event Action Change)} (initial : Initial env source)
    (history : (machine env).Exec Driven source events target)
    {job : ExportJob} (found : target.shared.job = some job) :
    events.countP isStep ≤
      (48 * job.requestedRowLimit.toNat + 134) * events.countP isRequest +
        3 * events.countP isSweep := by
  obtain ⟨bound, within⟩ := exists_bound events
  have anyhow : (machine env).Exec Anything source events target :=
    history.mono fun _ => trivial
  have positive := (rowCoherent_history initial anyhow _ found).counted.positive
  have asking := asks_exec history (asks_of_job found positive)
  have logged := asking.strengthen
    (fun _ stepEq => (logOutline env Anything).toProofOutline.step_preserved
      trivial stepEq) (logOutline_initial initial)
  have numbered := logged.strengthen
    (fun permission stepEq =>
      (numberedOutline env).toProofOutline.step_preserved permission.2 stepEq)
    (numberedOutline_initial initial)
  have tried := numbered.strengthen
    (fun _ stepEq tries => tries_step stepEq tries) (tries_initial initial)
  have paid : events.countP isStep +
        store env.exportJobId job.requestedRowLimit.toNat bound target ≤
      store env.exportJobId job.requestedRowLimit.toNat bound source +
        (events.map (credit job.requestedRowLimit.toNat)).sum :=
    tried.countP_le_credit fun permission stepEq => paid_step
      permission.1.1.1.1.1 (within _ permission.1.1.1.1.2)
      permission.1.1.1.2 permission.1.1.2 permission.1.2.1 permission.2 stepEq
  have empty : store env.exportJobId job.requestedRowLimit.toNat bound
      source = 0 := store_initial initial bound
  rw [empty, credit_sum] at paid
  have numeral : entrySteps job.requestedRowLimit.toNat + 8 =
      48 * job.requestedRowLimit.toNat + 134 := by
    simp only [entrySteps, deliverySteps, queueAttempts, maxStalledCount]
    omega
  rw [numeral] at paid
  omega

/-- `Driven`, computed. -/
def isDriven (config : Config World Proc) : Event Action Change → Bool
  | .act _ .start => false
  | .act index _ =>
      match config.procs index with
      | .sweep .ended => false
      | _ => true
  | .env _ => true

theorem isDriven_sound {config : Config World Proc}
    {event : Event Action Change} (passes : isDriven config event = true) :
    Driven config event := by
  cases event with
  | env change => trivial
  | act index action =>
      cases action with
      | start => cases passes
      | _ =>
          intro finished
          simp [isDriven, finished] at passes

theorem steps_bounded_crashedAndResumed :
    ∃ target job,
      (machine smallEnv).Exec Driven (smallStart twoRecords)
        crashedAndResumed target ∧
      target.shared.job = some job ∧
      crashedAndResumed.countP isStep ≤
        (48 * job.requestedRowLimit.toNat + 134) *
            crashedAndResumed.countP isRequest +
          3 * crashedAndResumed.countP isSweep := by
  obtain ⟨target, history, _, created⟩ :=
    exists_history Driven twoRecords 3 isDriven crashedAndResumed
      (fun target => target.shared.job.isSome)
      (fun _ passes => isDriven_sound passes) (by decide +kernel)
  obtain ⟨job, found⟩ := Option.isSome_iff_exists.mp created
  exact ⟨target, job, history, found,
    steps_bounded (initial_smallStart _) history found⟩

end ExportVault
