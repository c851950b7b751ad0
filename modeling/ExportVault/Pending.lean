import ExportVault.Frames

/-!
# Pending resumes

A resume writes `RESUMING` and then puts the export into the queue.  It skips
that when the entry is active, trusting whoever holds it to look at the job.
While the status is `RESUMING` somebody does: the entry is ready, or its holder
will still look at the job or write its status, or a command is about to
enqueue the export (`Heard`).  That is an invariant as long as no resume skips
an entry whose holder is past its last look, and no holder gives up without an
attempt left (`resume_not_lost`).
-/

namespace ExportVault

open Interleaving

/-- Another attempt follows when the processor throws. -/
def QueueEntry.retries (entry : QueueEntry) : Bool :=
  decide (entry.attemptsMade + 1 < queueAttempts)

def QueueEntry.ready (entry : QueueEntry) : Bool :=
  entry.state = .waiting || entry.state = .delayed

def QueueEntry.heldBy (entry : QueueEntry) (holder : Nat) : Bool :=
  decide (entry.state = .active holder)

def QueueEntry.finished (entry : QueueEntry) : Bool :=
  entry.state = .completed || entry.state = .failed

/-- The holder of the entry will still look at the job or write its status, or
the queue will run the entry again. -/
def RunPc.attends (entry : QueueEntry) : RunPc → Bool
  | .recordMissing _ => false
  | .listChunks _ _ _ => false
  | .deletePage _ _ _ _ => false
  | .recordFailure _ (.returns _) => false
  | .recordFailure _ (.rethrows _) => entry.retries
  | .returned _ => false
  | .threw _ => entry.retries
  | _ => true

/-- A failed call throws out of the run, past every `failJob`. -/
def RunPc.throwsOut : RunPc → Bool
  | .findJob => true
  | .cancelBeforeStart _ => true
  | .claim _ _ => true
  | .setStartedAt _ => true
  | .failJob _ _ (.rethrows _) => true
  | _ => false

/-- The command is on its way from its status write to the end of
`enqueueExportJob`. -/
def ApiPc.enqueues : ApiPc → Bool
  | .writeResuming => true
  | .getJob _ => true
  | .getState _ => true
  | .remove _ => true
  | .add _ => true
  | .writeQueued => true
  | _ => false

/-- The command will put the export into the queue, find it there, or
overwrite the status. -/
def ApiPc.enqueuing (entry : Option QueueEntry) : ApiPc → Bool
  | .getJob _ => true
  | .getState _ => true
  | .remove _ => entry.all fun entry => entry.ready || entry.finished
  | .add _ => entry.isNone
  | .writeQueued => true
  | _ => false

/-- Somebody takes care of the export. -/
inductive Heard (config : Config World Proc) : Prop where
  | queued {entry : QueueEntry} (found : config.shared.entry = some entry)
      (ready : entry.ready = true)
  | held {entry : QueueEntry} {holder : Nat} {pc : RunPc}
      (found : config.shared.entry = some entry)
      (held : entry.heldBy holder = true)
      (here : config.procs holder = .run pc) (attends : pc.attends entry = true)
  | enqueuing {index : Nat} {pc : ApiPc}
      (here : config.procs index = .api pc)
      (enqueuing : pc.enqueuing config.shared.entry = true)

def Pending (config : Config World Proc) : Prop :=
  config.shared.status = some .resuming → Heard config

/-- The queue entry is finished only after its processor returned or threw,
and the calls of a command that enqueues are answered. -/
structure OrderlyQueue (config : Config World Proc)
    (event : Event Action Change) : Prop where
  answered : ∀ index fault pc, event = .act index (.call fault) →
    config.procs index = .api pc → pc.enqueues = true → fault.fails = false
  uninterrupted : ∀ index pc, event = .act index .crash →
    config.procs index = .api pc → pc.enqueues = false
  requeued : ∀ index entry, event = .act index .stall →
    config.shared.entry = some entry →
      entry.stalledCounter + 1 ≤ maxStalledCount

/-- While a resume is pending: a resume skips the enqueue only when the holder
of the entry attends to the job, and a holder whose failed call throws out of the
run, without having written a status, has an attempt left. -/
structure Attended (config : Config World Proc)
    (event : Event Action Change) : Prop where
  skips : ∀ index fault updated entry holder,
    event = .act index (.call fault) →
    config.procs index = .api (.getState (.resume updated)) →
    config.shared.status = some .resuming →
    config.shared.entry = some entry → entry.heldBy holder = true →
    ∃ pc, config.procs holder = .run pc ∧ pc.attends entry = true
  throws : ∀ index fault pc entry,
    event = .act index (.call fault) → config.procs index = .run pc →
    fault.fails = true → pc.throwsOut = true →
    (Proc.run pc).writes config.shared (.call fault) = none →
    config.shared.status = some .resuming →
    config.shared.entry = some entry → entry.heldBy index = true →
    entry.retries = true

/-- A run or command is in progress. -/
def Proc.busy : Proc → Bool
  | .run pc => !pc.ended
  | .api pc => !pc.ended
  | _ => false

/-- No command is in progress, no run is executing, and the queue has nothing
left to do. -/
structure Quiescent (config : Config World Proc) : Prop where
  idle : ∀ index, (config.procs index).busy = false
  finished : ∀ entry, config.shared.entry = some entry →
    entry.finished = true

theorem QueueEntry.not_done_of_held {entry : QueueEntry} {holder : Nat}
    (held : entry.heldBy holder = true) :
    entry.ready = false ∧ entry.finished = false := by
  have active : entry.state = .active holder := of_decide_eq_true held
  simp [QueueEntry.ready, QueueEntry.finished, active]

theorem QueueEntry.not_finished_of_ready {entry : QueueEntry}
    (ready : entry.ready = true) : entry.finished = false := by
  cases state : entry.state with
  | waiting | delayed => simp [QueueEntry.finished, state]
  | active | completed | failed => simp [QueueEntry.ready, state] at ready

theorem QueueEntry.holder_eq {entry : QueueEntry} {first second : Nat}
    (firstHeld : entry.heldBy first = true)
    (secondHeld : entry.heldBy second = true) : first = second :=
  QueueState.active.inj
    ((of_decide_eq_true firstHeld).symm.trans (of_decide_eq_true secondHeld))

/-- Nobody takes care of a quiescent export. -/
theorem Quiescent.not_heard {config : Config World Proc}
    (quiescent : Quiescent config) : ¬ Heard config := by
  intro heard
  cases heard with
  | @queued entry found ready =>
      have finished := quiescent.finished entry found
      rw [QueueEntry.not_finished_of_ready ready] at finished
      cases finished
  | @held entry holder pc found held here attends =>
      have finished := quiescent.finished entry found
      rw [(QueueEntry.not_done_of_held held).2] at finished
      cases finished
  | @enqueuing index pc here enqueuing =>
      have idle := quiescent.idle index
      rw [here] at idle
      cases pc with
      | getJob | getState | remove | add | writeQueued => cases idle
      | _ => cases enqueuing

/-! ## One step -/

section Steps

variable {env : Env} {config : Config World Proc} {index : Nat}
variable {shared : World} {proc : Proc}

/-- A step that leaves the entry alone concerns the process that makes it. -/
theorem Heard.moved (heard : Heard config)
    (entry : shared.entry = config.shared.entry)
    (run : ∀ entry pc, config.shared.entry = some entry →
      entry.heldBy index = true → config.procs index = .run pc →
      pc.attends entry = true →
      Heard ⟨shared, Function.update config.procs index proc⟩)
    (command : ∀ pc, config.procs index = .api pc →
      pc.enqueuing config.shared.entry = true →
      Heard ⟨shared, Function.update config.procs index proc⟩) :
    Heard ⟨shared, Function.update config.procs index proc⟩ := by
  cases heard with
  | queued found ready => exact .queued (entry.trans found) ready
  | @held entryHeld holder pc found held here attends =>
      by_cases same : holder = index
      · subst same
        exact run entryHeld pc found held here attends
      · exact .held (entry.trans found) held
          ((Function.update_of_ne same _ _).trans here) attends
  | @enqueuing other pc here enqueuing =>
      by_cases same : other = index
      · subst same
        exact command pc here enqueuing
      · refine .enqueuing ((Function.update_of_ne same _ _).trans here) ?_
        rwa [entry]

/-- A command that is enqueuing while the entry is active is not concerned
with the entry yet. -/
theorem enqueuing_of_held {entry : QueueEntry} {holder : Nat} {pc : ApiPc}
    (held : entry.heldBy holder = true)
    (enqueuing : pc.enqueuing (some entry) = true)
    (after : Option QueueEntry) : pc.enqueuing after = true := by
  obtain ⟨notReady, unfinished⟩ := QueueEntry.not_done_of_held held
  cases pc with
  | getJob | getState | writeQueued => rfl
  | remove => simp [ApiPc.enqueuing, notReady, unfinished] at enqueuing
  | _ => cases enqueuing

/-- The queue takes its entry back from a run that is over: a pending resume
is heard by a command, or by the next attempt. -/
theorem Heard.released {entry released : QueueEntry} {pc : RunPc}
    (heard : Heard config) (found : config.shared.entry = some entry)
    (held : entry.heldBy index = true) (here : config.procs index = .run pc)
    (again : pc.attends entry = true → released.ready = true)
    (entryAfter : shared.entry = some released) :
    Heard ⟨shared, Function.update config.procs index proc⟩ := by
  cases heard with
  | @queued other otherFound ready =>
      obtain rfl := Option.some.inj (found.symm.trans otherFound)
      rw [(QueueEntry.not_done_of_held held).1] at ready
      cases ready
  | @held other holder otherPc otherFound otherHeld there attends =>
      obtain rfl := Option.some.inj (found.symm.trans otherFound)
      obtain rfl := QueueEntry.holder_eq held otherHeld
      obtain rfl := Proc.run.inj (here.symm.trans there)
      exact .queued entryAfter (again attends)
  | @enqueuing other pc there enqueuing =>
      have different : other ≠ index := by
        rintro rfl
        rw [here] at there
        cases there
      rw [found] at enqueuing
      exact .enqueuing ((Function.update_of_ne different _ _).trans there)
        (enqueuing_of_held held enqueuing _)

/-- A status that is written replaces a pending resume. -/
theorem not_resuming_of_set {world : World} {change : ExportJob → ExportJob}
    {status : ExportStatus} (set : ∀ job, (change job).status = status)
    (other : status ≠ .resuming) :
    (world.updateJob change).status ≠ some .resuming := by
  rw [world.status_updateJob_set set]
  cases world.status with
  | none => simp
  | some before => simpa using other

/-- A run that finds a pending resume goes on to a claim or a cancel. -/
theorem attends_findJob {world : World} (entry : QueueEntry)
    (resuming : world.status = some .resuming) :
    (afterFindJob env world).attends entry = true := by
  obtain ⟨job, found, status⟩ := Option.map_eq_some_iff.mp resuming
  simp only [afterFindJob, found, status, reduceCtorEq, if_false]
  split <;> rfl

/-- A claim is never refused while a resume is pending. -/
theorem claimStep_not_resuming (env : Env) (world : World) (job : ExportJob)
    (staleCutoff : Int) :
    (claimStep env world job staleCutoff).1.status ≠ some .resuming := by
  rw [claimStep]
  split
  · exact not_resuming_of_set (fun _ => rfl) (by decide)
  · next refused =>
      intro resuming
      obtain ⟨row, found, status⟩ := Option.map_eq_some_iff.mp resuming
      apply refused
      rw [found, Option.any_some, claimable, status]
      rfl

/-- A statement of the holder writes a status, or leaves it to a later one. -/
theorem attends_runStep (kept : List String) {world : World} {pc : RunPc}
    {entry : QueueEntry}
    (resuming : (runStep env kept world pc).1.status = some .resuming)
    (attends : pc.attends entry = true) (live : pc.ended = false) :
    (runStep env kept world pc).2.attends entry = true := by
  have looped : ∀ run : Progress,
      (RunPc.loopTop run).attends entry = true := by
    intro run
    exact RunPc.loopTop_cases (motive := fun pc => pc.attends entry = true)
      run (fun _ => rfl) (fun _ _ => rfl) fun _ => rfl
  have set : ∀ {change : ExportJob → ExportJob} {status : ExportStatus},
      (runStep env kept world pc).1 = world.updateJob change →
      (∀ job, (change job).status = status) → status ≠ .resuming →
      (runStep env kept world pc).2.attends entry = true := by
    intro change status written always other
    rw [written] at resuming
    exact absurd resuming (not_resuming_of_set always other)
  cases pc with
  | findJob => exact attends_findJob entry resuming
  | claim job staleCutoff =>
      exact absurd resuming (claimStep_not_resuming env world job staleCutoff)
  | cancelBeforeStart | writeCancelled | writeVerifying | writeCompleted
  | failJob => exact set rfl (fun _ => rfl) (by decide)
  | readProgress =>
      simp only [runStep]
      split
      · exact looped _
      · rfl
  | reconcile => exact looped _
  | commitBatch =>
      simp only [runStep, commitStep]
      split
      · rfl
      · exact looped _
  | recordFailure error exit =>
      cases exit with
      | returns outcome => cases attends
      | rethrows error => exact attends
  | recordMissing | listChunks | deletePage => cases attends
  | returned | threw | crashed => cases live
  | setStartedAt | putChunk | uploadFinal | writeFileKey => rfl
  | _ =>
      simp only [runStep, confirmStep, finalStep, RunPc.assembleFrom]
      repeat' split
      all_goals rfl

/-- A failed call leads to `failJob`, or out of the run. -/
theorem attends_onError {pc : RunPc} {entry : QueueEntry} (error : AppError)
    (attends : pc.attends entry = true) (live : pc.ended = false)
    (again : pc.throwsOut = true → entry.retries = true) :
    (pc.onError error).attends entry = true := by
  cases pc with
  | findJob | cancelBeforeStart | claim | setStartedAt => exact again rfl
  | failJob reason failure exit =>
      cases exit with
      | returns outcome => rfl
      | rethrows thrown => exact again rfl
  | recordFailure failure exit =>
      cases exit with
      | returns outcome => cases attends
      | rethrows thrown => exact attends
  | recordMissing | listChunks | deletePage => cases attends
  | returned | threw | crashed => cases live
  | _ => rfl

/-- A call of the holder that leaves a resume pending leaves somebody to
attend to it. -/
theorem attends_runCall {world : World} {pc : RunPc} {entry : QueueEntry}
    {fault : Fault}
    (resuming : (runCall env world pc fault).1.status = some .resuming)
    (attends : pc.attends entry = true) (live : pc.ended = false)
    (again : fault.fails = true → pc.throwsOut = true →
      (Proc.run pc).writes world (.call fault) = none →
      entry.retries = true) :
    (runCall env world pc fault).2.attends entry = true := by
  cases fault with
  | none => exact attends_runStep [] resuming attends live
  | keeping kept => exact attends_runStep kept resuming attends live
  | refused message =>
      exact attends_onError _ attends live fun throws => again rfl throws rfl
  | lost message =>
      refine attends_onError _ attends live fun throws =>
        again rfl throws ?_
      have set : ∀ {change : ExportJob → ExportJob} {status : ExportStatus},
          (runStep env [] world pc).1 = world.updateJob change →
          (∀ job, (change job).status = status) → status ≠ .resuming →
          (Proc.run pc).writes world (.call (.lost message)) = none := by
        intro change status written always other
        change (runStep env [] world pc).1.status = _ at resuming
        rw [written] at resuming
        exact absurd resuming (not_resuming_of_set always other)
      cases pc with
      | findJob | setStartedAt => rfl
      | cancelBeforeStart | failJob =>
          exact set rfl (fun _ => rfl) (by decide)
      | claim job staleCutoff =>
          exact absurd resuming
            (claimStep_not_resuming env world job staleCutoff)
      | _ => cases throws

/-- A command that does not enqueue leaves the entry alone and no resume
pending. -/
theorem apiStep_quiet (env : Env) (world : World) {pc : ApiPc}
    (quiet : pc.enqueues = false) :
    (apiStep env world pc).1.entry = world.entry ∧
      ((apiStep env world pc).1.status = some .resuming →
        world.status = some .resuming) := by
  cases pc with
  | insertJob userId rowLimit snapshotMaxId =>
      simp only [apiStep]
      split
      · exact ⟨rfl, id⟩
      · refine ⟨rfl, fun resuming => ?_⟩
        simp [World.status, newExportJob] at resuming
  | writeCancel job =>
      refine ⟨rfl, fun resuming => ?_⟩
      by_cases running : job.status = .running
      · rw [← resuming]
        symm
        apply world.status_updateJob_same
        intro row
        rw [cancelChange, if_pos running]
      · refine absurd resuming
          (@not_resuming_of_set world _ .cancelled ?_ (by decide))
        intro row
        rw [cancelChange, if_neg running]
  | saveVerification =>
      simp only [apiStep]
      split <;> exact ⟨rfl, id⟩
  | getJob | getState | remove | add | writeQueued | writeResuming =>
      cases quiet
  | _ => exact ⟨rfl, id⟩

theorem enqueues_of_enqueuing {entry : Option QueueEntry} {pc : ApiPc}
    (enqueuing : pc.enqueuing entry = true) : pc.enqueues = true := by
  cases pc with
  | getJob | getState | remove | add | writeQueued => rfl
  | _ => cases enqueuing

theorem heard_quietCall {fault : Fault} {pc : ApiPc}
    (here : config.procs index = .api pc) (quiet : pc.enqueues = false)
    (pending : Pending config)
    (resuming : (apiCall env config.shared pc fault).1.status =
      some .resuming) :
    Heard ⟨(apiCall env config.shared pc fault).1,
      Function.update config.procs index
        (.api (apiCall env config.shared pc fault).2)⟩ := by
  obtain ⟨entry, before⟩ := apiStep_quiet env config.shared quiet
  have unconcerned : ∀ {shared : World} {next : ApiPc},
      shared.entry = config.shared.entry → Heard config →
      Heard ⟨shared, Function.update config.procs index (.api next)⟩ := by
    intro shared next same heard
    apply heard.moved same
    · intro _ _ _ _ there
      rw [here] at there
      cases there
    · intro other there enqueuing
      obtain rfl := Proc.api.inj (here.symm.trans there)
      rw [enqueues_of_enqueuing enqueuing] at quiet
      cases quiet
  revert resuming
  apply apiCall_cases (motive := fun result =>
    result.1.status = some .resuming →
      Heard ⟨result.1, Function.update config.procs index (.api result.2)⟩)
    fault
  · exact fun resuming => unconcerned entry (pending (before resuming))
  · exact fun error resuming => unconcerned rfl (pending resuming)
  · exact fun error resuming => unconcerned entry (pending (before resuming))

/-- An entry that is not active is removed. -/
theorem removable_of_inactive {world : World} {caller : EnqueueCaller}
    (inactive : ∀ holder attemptsMade stalledCounter,
      world.entry = some ⟨.active holder, attemptsMade, stalledCounter⟩ →
        False) :
    (ApiPc.remove caller).enqueuing world.entry = true := by
  cases found : world.entry with
  | none => rfl
  | some entry =>
      rcases entry with ⟨state, attemptsMade, stalledCounter⟩
      cases state with
      | active holder => exact (inactive _ _ _ found).elim
      | _ => rfl

/-- A call of a command on its way through `enqueueExportJob`: it goes on, or
somebody else takes care of the export. -/
theorem heard_enqueueCall {fault : Fault} {pc : ApiPc}
    (here : config.procs index = .api pc) (enqueues : pc.enqueues = true)
    (attended : Attended config (.act index (.call fault)))
    (pending : Pending config)
    (resuming : (apiStep env config.shared pc).1.status = some .resuming) :
    Heard ⟨(apiStep env config.shared pc).1,
      Function.update config.procs index
        (.api (apiStep env config.shared pc).2)⟩ := by
  have goesOn : ∀ {shared : World} {next : ApiPc},
      next.enqueuing shared.entry = true →
      Heard ⟨shared, Function.update config.procs index (.api next)⟩ :=
    fun enqueuing => .enqueuing (Function.update_self _ _ _) enqueuing
  -- the command has nothing to say about the entry it meets
  have leaves : ∀ {next : ApiPc}, Heard config →
      pc.enqueuing config.shared.entry = false →
      Heard ⟨config.shared,
        Function.update config.procs index (.api next)⟩ := by
    intro next heard silent
    apply heard.moved rfl
    · intro _ _ _ _ there
      rw [here] at there
      cases there
    · intro other there enqueuing
      obtain rfl := Proc.api.inj (here.symm.trans there)
      rw [silent] at enqueuing
      cases enqueuing
  cases pc with
  | writeResuming =>
      simp only [apiStep, returnJob] at resuming ⊢
      split
      · next absent =>
          rw [World.status, absent] at resuming
          cases resuming
      · exact goesOn rfl
  | getJob caller =>
      simp only [apiStep]
      split
      · next absent => exact goesOn (by rw [ApiPc.enqueuing, absent]; rfl)
      · exact goesOn rfl
  | getState caller =>
      have before : config.shared.status = some .resuming := resuming
      simp only [apiStep]
      split
      · next holder attemptsMade stalledCounter found =>
          have held : QueueEntry.heldBy
              ⟨.active holder, attemptsMade, stalledCounter⟩ holder = true :=
            decide_eq_true rfl
          cases caller with
          | create => exact goesOn rfl
          | resume updated =>
              obtain ⟨pc, there, attends⟩ := attended.skips index fault
                updated _ holder rfl here before found held
              have different : holder ≠ index := by
                rintro rfl
                rw [here] at there
                cases there
              exact .held found held
                ((Function.update_of_ne different _ _).trans there) attends
      · next inactive => exact goesOn (removable_of_inactive inactive)
  | remove caller =>
      simp only [apiStep] at resuming ⊢
      split
      · next holder attemptsMade stalledCounter found =>
          simp only [found] at resuming
          refine leaves (pending resuming) ?_
          rw [found]
          rfl
      · exact goesOn rfl
  | add caller =>
      simp only [apiStep] at resuming ⊢
      cases found : config.shared.entry with
      | none => exact .queued rfl rfl
      | some entry =>
          simp only [found] at resuming
          refine leaves (pending resuming) ?_
          rw [found]
          rfl
  | writeQueued =>
      exact absurd resuming (not_resuming_of_set (fun _ => rfl) (by decide))
  | _ => cases enqueues

/-- A run writes no resume. -/
theorem resuming_of_runCall {world : World} {pc : RunPc} {fault : Fault}
    (resuming : (runCall env world pc fault).1.status = some .resuming) :
    world.status = some .resuming := by
  have before : ∀ kept, (runStep env kept world pc).1.status =
      some .resuming → world.status = some .resuming := by
    intro kept
    apply (runStep_status env kept world pc).before
    cases pc <;> simp [RunPc.sets]
  revert resuming
  apply runCall_cases (motive := fun result =>
    result.1.status = some .resuming → world.status = some .resuming) fault
  · exact before
  · exact fun _ => id
  · exact fun _ => before []

/-- The entry that a process holds. -/
theorem World.heldEntry_eq_some {world : World} {entry : QueueEntry}
    (held : world.heldEntry index = some entry) :
    world.entry = some entry ∧ entry.heldBy index = true :=
  Option.filter_eq_some_iff.mp held

/-- Every step of a process keeps a pending resume heard. -/
theorem pending_act {action : Action}
    (orderly : OrderlyQueue config (.act index action))
    (attended : Attended config (.act index action))
    (step : ActStep env index config.shared (config.procs index) action
      shared proc) (pending : Pending config) :
    Pending ⟨shared, Function.update config.procs index proc⟩ := by
  intro resuming
  change shared.status = some .resuming at resuming
  generalize here : config.procs index = before at step
  -- a process that is neither a run nor a command is not concerned
  have bystander : ∀ {shared : World} {next : Proc},
      shared.entry = config.shared.entry →
      config.shared.status = some .resuming →
      (∀ pc, before ≠ .run pc) → (∀ pc, before ≠ .api pc) →
      Heard ⟨shared, Function.update config.procs index next⟩ := by
    intro shared next entry resumes noRun noApi
    apply (pending resumes).moved entry
    · intro _ pc _ _ there
      exact absurd (here.symm.trans there) (noRun pc)
    · intro pc there
      exact absurd (here.symm.trans there) (noApi pc)
  cases step with
  | start | request | beginSweep =>
      exact bystander rfl resuming (by simp) (by simp)
  | deliver ready =>
      exact .held rfl (decide_eq_true rfl) (Function.update_self _ _ _) rfl
  | @run pc fault live =>
      have entry : (runCall env config.shared pc fault).1.entry =
          config.shared.entry := by
        apply runCall_cases (motive := fun result =>
          result.1.entry = config.shared.entry) fault
        · exact fun kept => runStep_entry _ _ _ _
        · exact fun _ => rfl
        · exact fun _ => runStep_entry _ _ _ _
      have before := resuming_of_runCall resuming
      apply (pending before).moved entry
      · intro held other found heldBy there attends
        obtain rfl := Proc.run.inj (here.symm.trans there)
        refine .held (entry.trans found) heldBy (Function.update_self _ _ _)
          (attends_runCall resuming attends live ?_)
        intro fails throws silent
        exact attended.throws index fault pc held rfl here fails throws silent
          before found heldBy
      · intro other there
        rw [here] at there
        cases there
  | @runCrash pc live =>
      apply (pending resuming).moved rfl
      · intro held other found heldBy _ _
        exact .held found heldBy (Function.update_self _ _ _) rfl
      · intro other there
        rw [here] at there
        cases there
  | settleReturned held =>
      obtain ⟨found, heldBy⟩ := World.heldEntry_eq_some held
      exact (pending resuming).released found heldBy here
        (fun attends => by cases attends) rfl
  | @settleThrew error entry held =>
      obtain ⟨found, heldBy⟩ := World.heldEntry_eq_some held
      refine (pending resuming).released found heldBy here ?_ rfl
      intro attends
      have again : entry.attemptsMade + 1 < queueAttempts :=
        of_decide_eq_true attends
      rw [QueueEntry.ready, QueueEntry.afterThrow, if_pos again]
      rfl
  | @stall pc entry held =>
      obtain ⟨found, heldBy⟩ := World.heldEntry_eq_some held
      refine (pending resuming).released found heldBy here ?_ rfl
      intro _
      have few := orderly.requeued index entry rfl found
      rw [QueueEntry.ready, QueueEntry.afterStall, if_neg (not_lt.mpr few)]
      rfl
  | @api pc fault live =>
      cases enqueues : pc.enqueues with
      | false => exact heard_quietCall here enqueues pending resuming
      | true =>
          have fine := orderly.answered index fault pc rfl here enqueues
          cases fault with
          | none | keeping =>
              exact heard_enqueueCall here enqueues attended pending resuming
          | refused | lost => cases fine
  | @apiCrash pc live =>
      have quiet := orderly.uninterrupted index pc rfl here
      apply (pending resuming).moved rfl
      · intro _ _ _ _ there
        rw [here] at there
        cases there
      · intro other there enqueuing
        obtain rfl := Proc.api.inj (here.symm.trans there)
        rw [enqueues_of_enqueuing enqueuing] at quiet
        cases quiet
  | @sweep pc fault =>
      have entry : (sweepCall env config.shared pc fault).1.entry =
          config.shared.entry := by
        apply sweepCall_cases (motive := fun result =>
          result.1.entry = config.shared.entry) fault
        · exact sweepStep_entry _ _ _
        · rfl
        · exact sweepStep_entry _ _ _
      have before : config.shared.status = some .resuming := by
        revert resuming
        apply sweepCall_cases (motive := fun result =>
          result.1.status = some .resuming →
            config.shared.status = some .resuming) fault
        · exact sweepStep_before (by decide)
        · exact id
        · exact sweepStep_before (by decide)
      exact bystander entry before (by simp) (by simp)
  | sweepCrash | queueFailedCrash =>
      exact bystander rfl resuming (by simp) (by simp)
  | queueFailed fault same entry =>
      exact bystander entry (same.status.symm.trans resuming) (by simp)
        (by simp)

theorem pending_step {config next : Config World Proc}
    {event : Event Action Change}
    (allowed : OrderlyQueue config event ∧ Attended config event)
    (stepEq : (machine env).step config event = some next)
    (pending : Pending config) : Pending next := by
  cases event with
  | act index action =>
      obtain ⟨shared, proc, actEq, rfl⟩ := Network.step_act_iff.mp stepEq
      exact pending_act allowed.1 allowed.2 (actStep_of_act actEq) pending
  | env change =>
      obtain ⟨shared, envEq, rfl⟩ := Network.step_env_iff.mp stepEq
      obtain rfl := Option.some.inj envEq
      intro resuming
      have entry := change.apply_entry config.shared
      cases pending ((change.apply_status config.shared).symm.trans
        resuming) with
      | queued found ready => exact .queued (entry.trans found) ready
      | held found heldBy here attends =>
          exact .held (entry.trans found) heldBy here attends
      | enqueuing here enqueuing =>
          exact .enqueuing here (by rwa [entry])

end Steps

/-- An accepted resume is not lost: no quiescent state that a history of this
kind reaches has status `RESUMING`. -/
theorem resume_not_lost {env : Env} {source target : Config World Proc}
    {events : List (Event Action Change)} (initial : Initial env source)
    (history : (machine env).Exec
      (fun config event => OrderlyQueue config event ∧
        Attended config event) source events target)
    (quiescent : Quiescent target) :
    target.shared.status ≠ some .resuming := by
  intro resuming
  have unborn : Pending source := by
    intro impossible
    rw [World.status, initial.noJob] at impossible
    cases impossible
  have pending : Pending target := history.invariant pending_step unborn
  exact quiescent.not_heard (pending resuming)

/-- `OrderlyQueue`, where no call fails at all. -/
def orderlyQueue (config : Config World Proc) : Event Action Change → Bool
  | .act _ (.call fault) => !fault.fails
  | .act index .crash => !(config.procs index).commands ApiPc.enqueues
  | .act _ .stall =>
      config.shared.entry.all fun entry =>
        decide (entry.stalledCounter + 1 ≤ maxStalledCount)
  | _ => true

theorem orderlyQueue_sound {config : Config World Proc}
    {event : Event Action Change} (passes : orderlyQueue config event = true) :
    OrderlyQueue config event where
  answered := by
    rintro index fault pc rfl _ _
    simpa [orderlyQueue] using passes
  uninterrupted := by
    rintro index pc rfl here
    simpa [orderlyQueue, here, Proc.commands] using passes
  requeued := by
    rintro index entry rfl found
    simpa [orderlyQueue, found] using passes

def ApiPc.asksState : ApiPc → Bool
  | .getState _ => true
  | _ => false

def attendedEntry (config : Config World Proc) (entry : QueueEntry) : Bool :=
  match entry.state with
  | .active holder => (config.procs holder).runs (RunPc.attends entry)
  | _ => true

/-- `Attended`, where no call fails at all. -/
def attended (config : Config World Proc) : Event Action Change → Bool
  | .act index (.call fault) =>
      !fault.fails && (!(config.procs index).commands ApiPc.asksState ||
        config.shared.entry.all (attendedEntry config))
  | _ => true

theorem attended_sound {config : Config World Proc}
    {event : Event Action Change} (passes : attended config event = true) :
    Attended config event where
  skips := by
    rintro index fault updated entry holder rfl here _ found held
    have active : entry.state = .active holder := of_decide_eq_true held
    have runs : (config.procs holder).runs (RunPc.attends entry) = true := by
      simp only [attended, here, Proc.commands, ApiPc.asksState, found,
        Option.all_some, attendedEntry, active, Bool.and_eq_true] at passes
      simpa using passes.2
    exact Proc.exists_of_runs runs
  throws := by
    rintro index fault pc entry rfl _ fails
    simp [attended, fails] at passes

theorem quiescent_of_idleFrom {bound : Nat} {config : Config World Proc}
    (idle : IdleFrom bound config)
    (below : (List.range bound).all (fun index =>
      !(config.procs index).busy) = true)
    (finished : config.shared.entry.all QueueEntry.finished = true) :
    Quiescent config where
  idle := by
    intro index
    by_cases inside : index < bound
    · simpa using List.all_eq_true.mp below index (List.mem_range.mpr inside)
    · rw [idle index (not_lt.mp inside)]
      rfl
  finished := by
    intro entry found
    rwa [found] at finished

/-- The worker dies and is swept; the resume finds the entry still active, and
the queue runs it again. -/
def resumedWhileActive : List (Event Action Change) :=
  createSteps 1 ++ .act 1 .deliver :: calls 1 5 ++
    [.act 1 .crash, .env (.tick 60000), .act 2 .beginSweep] ++ calls 2 3 ++
    .act 3 (.request (.resume "u")) :: calls 3 5 ++
    [.act 1 .stall, .act 4 .deliver] ++ calls 4 21 ++ [.act 4 .settle]

theorem resume_not_lost_resumedWhileActive :
    ∃ target,
      (machine smallEnv).Exec
        (fun config event => OrderlyQueue config event ∧
          Attended config event)
        (smallStart oneRecord) resumedWhileActive target ∧
      Quiescent target ∧ target.shared.status ≠ some .resuming := by
  obtain ⟨target, history, idle, ends⟩ :=
    exists_history
      (fun config event => OrderlyQueue config event ∧
        Attended config event) oneRecord 5
      (fun config event => orderlyQueue config event &&
        attended config event) resumedWhileActive
      (fun target =>
        ((List.range 5).all fun index => !(target.procs index).busy) &&
          target.shared.entry.all QueueEntry.finished)
      (fun _ passes => by
        simp only [Bool.and_eq_true] at passes
        exact ⟨orderlyQueue_sound passes.1, attended_sound passes.2⟩)
      (by decide +kernel)
  simp only [Bool.and_eq_true] at ends
  have quiescent := quiescent_of_idleFrom idle ends.1 ends.2
  exact ⟨target, history, quiescent,
    resume_not_lost (initial_smallStart _) history quiescent⟩

/-- The records are deleted under a run; it has marked the export `FAILED` and
still records the failure while the export is resumed. -/
def resumedTooEarly : List (Event Action Change) :=
  createSteps 1 ++ .act 1 .deliver :: calls 1 6 ++
    .env (.setRecords ⟨[], by decide, by decide⟩) :: calls 1 2 ++
    .act 2 (.request (.resume "u")) :: calls 2 5 ++ calls 1 1 ++
    [.act 1 .settle]

def ApiPc.answersJob : ApiPc → Bool
  | .returned (.job _) => true
  | _ => false

/-- The resume is answered with the job, but nothing will ever run it. -/
theorem resumedTooEarly_loses :
    ∃ target,
      (machine smallEnv).Exec OrderlyQueue (smallStart oneRecord)
        resumedTooEarly target ∧
      (target.procs 2).commands ApiPc.answersJob = true ∧
      Quiescent target ∧ target.shared.status = some .resuming := by
  obtain ⟨target, history, idle, ends⟩ :=
    exists_history OrderlyQueue oneRecord 3 orderlyQueue resumedTooEarly
      (fun target =>
        (target.procs 2).commands ApiPc.answersJob &&
          ((List.range 3).all fun index => !(target.procs index).busy) &&
          target.shared.entry.all QueueEntry.finished &&
          decide (target.shared.status = some .resuming))
      (fun _ passes => orderlyQueue_sound passes) (by decide +kernel)
  simp only [Bool.and_eq_true, decide_eq_true_eq] at ends
  obtain ⟨⟨⟨answered, free⟩, finished⟩, resuming⟩ := ends
  exact ⟨target, history, answered, quiescent_of_idleFrom idle free finished,
    resuming⟩

end ExportVault
