import ExportVault.Frames

/-!
# What a failed command leaves

A command writes its row first and then talks to the queue; nothing is taken
back when a later call fails.  Either it has changed nothing by then, or the
row is in a status that a resume accepts (`thrown_trace`); only a cancel whose
answer was lost can throw after it has cancelled.  Meanwhile the queue may
deliver the entry.
-/

namespace ExportVault

open Interleaving

def EntryKept (before after : Option QueueEntry) : Prop :=
  after = before ∨ ∃ entry holder, before = some entry ∧
    after = some { entry with state := .active holder }

def EntryReplaced (before after : Option QueueEntry) : Prop :=
  EntryKept before after ∨ after = none ∨ EntryKept (some {}) after

/-- Only the command with the given number takes statements; the queue may
deliver the entry to somebody else. -/
def CommandAlone (command : Nat) : Condition := fun _ event =>
  ∃ index action, event = .act index action ∧
    (index = command ∨ action = .deliver)

variable {env : Env} {before after world : World}

theorem EntryKept.refl (entry : Option QueueEntry) : EntryKept entry entry :=
  .inl rfl

/-- The entry is delivered. -/
theorem EntryKept.deliver {first : Option QueueEntry} {entry : QueueEntry}
    (holder : Nat) (kept : EntryKept first world.entry)
    (ready : world.readyEntry = some entry) :
    EntryKept first (some { entry with state := .active holder }) := by
  obtain ⟨present, waits⟩ := Option.filter_eq_some_iff.mp ready
  rcases kept with same | ⟨old, other, rfl, activated⟩
  · exact .inr ⟨entry, holder, same.symm.trans present, rfl⟩
  · obtain rfl := Option.some.inj (present.symm.trans activated)
    simp at waits

theorem EntryReplaced.deliver {first : Option QueueEntry}
    {entry : QueueEntry} (holder : Nat)
    (replaced : EntryReplaced first world.entry)
    (ready : world.readyEntry = some entry) :
    EntryReplaced first (some { entry with state := .active holder }) := by
  rcases replaced with kept | gone | new
  · exact .inl (kept.deliver holder ready)
  · rw [World.readyEntry, gone] at ready
    cases ready
  · exact .inr (.inr (new.deliver holder ready))

/-- Nothing has been changed. -/
structure Untouched (before after : World) : Prop where
  now : after.now = before.now
  records : after.records = before.records
  job : after.job = before.job
  entry : EntryKept before.entry after.entry

structure Written (row : ExportJob) (before after : World) : Prop where
  now : after.now = before.now
  job : after.job = some row
  entry : EntryKept before.entry after.entry

theorem Untouched.refl (world : World) : Untouched world world :=
  ⟨rfl, rfl, rfl, .refl _⟩

theorem Untouched.deliver {entry : QueueEntry} (holder : Nat)
    (untouched : Untouched before world)
    (ready : world.readyEntry = some entry) :
    Untouched before
      (world.setEntry (some { entry with state := .active holder })) :=
  ⟨untouched.now, untouched.records, untouched.job,
    untouched.entry.deliver holder ready⟩

theorem Written.deliver {row : ExportJob} {entry : QueueEntry}
    (holder : Nat) (written : Written row before world)
    (ready : world.readyEntry = some entry) :
    Written row before
      (world.setEntry (some { entry with state := .active holder })) :=
  ⟨written.now, written.job, written.entry.deliver holder ready⟩

/-- What a command has done by the time it is at a statement. -/
structure Trace (env : Env) (answerLost : Prop) where
  traced : World → ApiPc → Prop
  step : ∀ {world pc}, traced world pc → pc.ended = false →
    traced (apiStep env world pc).1 (apiStep env world pc).2
  refused : ∀ {world pc} error, traced world pc → pc.ended = false →
    traced world (.threw error)
  lost : ∀ {world pc} error, answerLost → traced world pc →
    pc.ended = false → traced (apiStep env world pc).1 (.threw error)
  crashes : ∀ {world pc}, traced world pc → traced world .crashed
  delivered : ∀ {world pc} {entry : QueueEntry} holder,
    world.readyEntry = some entry → traced world pc →
    traced (world.setEntry (some { entry with state := .active holder })) pc

def AnswerLost (command : Nat) (events : List (Event Action Change)) :
    Prop :=
  ∃ message, .act command (.call (.lost message)) ∈ events

theorem Trace.step_traced {answerLost : Prop} (trace : Trace env answerLost)
    {command : Nat} {source target : Config World Proc}
    {event : Event Action Change}
    (alone : CommandAlone command source event)
    (loses : ∀ message, event = .act command (.call (.lost message)) →
      answerLost)
    (stepEq : (machine env).step source event = some target)
    (holds : ∃ pc, source.procs command = .api pc ∧
      trace.traced source.shared pc) :
    ∃ pc, target.procs command = .api pc ∧
      trace.traced target.shared pc := by
  obtain ⟨index, action, rfl, mine⟩ := alone
  obtain ⟨pc, here, traced⟩ := holds
  obtain ⟨shared, proc, actEq, rfl⟩ := Network.step_act_iff.mp stepEq
  have step := actStep_of_act actEq
  by_cases same : index = command
  · subst same
    rw [here] at step
    cases step with
    | api fault live =>
        refine ⟨_, Function.update_self _ _ _, ?_⟩
        cases fault with
        | none => exact trace.step traced live
        | keeping kept => exact trace.step traced live
        | refused message => exact trace.refused _ traced live
        | lost message => exact trace.lost _ (loses message rfl) traced live
    | apiCrash live =>
        exact ⟨_, Function.update_self _ _ _, trace.crashes traced⟩
  · obtain rfl := mine.resolve_left same
    generalize source.procs index = other at step
    cases step with
    | deliver ready =>
        exact ⟨pc, (Function.update_of_ne (Ne.symm same) _ _).trans here,
          trace.delivered index ready traced⟩

/-- What a command has done when it is over. -/
theorem Trace.of_history {command : Nat} {request : Request}
    {source target : Config World Proc} {pc : ApiPc}
    {events : List (Event Action Change)}
    (trace : Trace env (AnswerLost command events))
    (begins : trace.traced source.shared request.begin)
    (idle : source.procs command = .idle)
    (history : (machine env).Exec (CommandAlone command) source
      (.act command (.request request) :: events) target)
    (here : target.procs command = .api pc) :
    trace.traced target.shared pc := by
  obtain ⟨_, middle, stepEq, rest⟩ := history
  obtain ⟨shared, proc, actEq, rfl⟩ := Network.step_act_iff.mp stepEq
  have step := actStep_of_act actEq
  rw [idle] at step
  cases step with
  | request request =>
      let arrived (config : Config World Proc) : Prop :=
        ∃ pc, config.procs command = .api pc ∧
          trace.traced config.shared pc
      have kept : arrived target := rest.events.invariant
        (fun permission stepEq => trace.step_traced permission.1
          (fun message same => ⟨message, same ▸ permission.2⟩) stepEq)
        ⟨_, Function.update_self _ _ _, begins⟩
      obtain ⟨last, there, traced⟩ := kept
      obtain rfl := Proc.api.inj (there.symm.trans here)
      exact traced

/-! ## Creating -/

section Creating

variable (env : Env) (userId : String) (rowLimit : Int)

def createdRow (before : World) : ExportJob :=
  newExportJob env before userId rowLimit
    (captureSnapshotMaxId before.records)

def CreateLeaves (before after : World) : Prop :=
  before.job = none ∧ EntryReplaced before.entry after.entry ∧
    (after.job = some (createdRow env userId rowLimit before) ∨
      after.job = some
        { createdRow env userId rowLimit before with status := .queued })

def CreateTrace (before after : World) : Prop :=
  Untouched before after ∨ CreateLeaves env userId rowLimit before after

def createTraced (before world : World) : ApiPc → Prop
  | .captureSnapshot user limit =>
      user = userId ∧ limit = rowLimit ∧ Untouched before world
  | .countRecords user limit boundary =>
      user = userId ∧ limit = rowLimit ∧
        boundary = captureSnapshotMaxId before.records ∧
        Untouched before world
  | .insertJob user limit boundary =>
      user = userId ∧ limit = rowLimit ∧
        boundary = captureSnapshotMaxId before.records ∧
        Untouched before world
  | .getJob .create =>
      before.job = none ∧
        Written (createdRow env userId rowLimit before) before world
  | .getState .create =>
      before.job = none ∧
        Written (createdRow env userId rowLimit before) before world
  | .remove .create =>
      before.job = none ∧
        Written (createdRow env userId rowLimit before) before world
  | .add .create =>
      before.job = none ∧ world.now = before.now ∧
        world.job = some (createdRow env userId rowLimit before) ∧
        world.entry = none
  | .writeQueued =>
      before.job = none ∧ world.now = before.now ∧
        world.job = some (createdRow env userId rowLimit before) ∧
        EntryReplaced before.entry world.entry
  | .returned _ => CreateTrace env userId rowLimit before world
  | .threw _ => CreateTrace env userId rowLimit before world
  | .crashed => CreateTrace env userId rowLimit before world
  | _ => False

end Creating

theorem createTrace_of_traced {userId : String} {rowLimit : Int} {pc : ApiPc}
    (traced : createTraced env userId rowLimit before world pc) :
    CreateTrace env userId rowLimit before world := by
  cases pc with
  | captureSnapshot user limit => exact .inl traced.2.2
  | countRecords user limit boundary => exact .inl traced.2.2.2
  | insertJob user limit boundary => exact .inl traced.2.2.2
  | getJob caller | getState caller | remove caller =>
      cases caller with
      | create => exact .inr ⟨traced.1, .inl traced.2.entry, .inl traced.2.job⟩
      | resume => cases traced
  | add caller =>
      cases caller with
      | create =>
          exact .inr ⟨traced.1, .inr (.inl traced.2.2.2), .inl traced.2.2.1⟩
      | resume => cases traced
  | writeQueued =>
      exact .inr ⟨traced.1, traced.2.2.2, .inl traced.2.2.1⟩
  | returned | threw | crashed => exact traced
  | _ => cases traced

theorem createTraced_step {userId : String} {rowLimit : Int} {pc : ApiPc}
    (traced : createTraced env userId rowLimit before world pc)
    (live : pc.ended = false) :
    createTraced env userId rowLimit before (apiStep env world pc).1
      (apiStep env world pc).2 := by
  cases pc with
  | captureSnapshot user limit =>
      obtain ⟨sameUser, sameLimit, untouched⟩ := traced
      exact ⟨sameUser, sameLimit, congrArg _ untouched.records, untouched⟩
  | countRecords user limit boundary =>
      simp only [apiStep]
      split
      · exact createTrace_of_traced traced
      · exact traced
  | insertJob user limit boundary =>
      obtain ⟨rfl, rfl, rfl, untouched⟩ := traced
      simp only [apiStep]
      split
      · exact .inl untouched
      · next absent =>
          have created : newExportJob env world user limit
              (captureSnapshotMaxId before.records) =
                createdRow env user limit before := by
            rw [createdRow, newExportJob, newExportJob, untouched.now]
          exact ⟨untouched.job.symm.trans absent, untouched.now,
            congrArg some created, untouched.entry⟩
  | getJob caller =>
      cases caller with
      | create =>
          simp only [apiStep]
          split
          · next absent =>
              exact ⟨traced.1, traced.2.now, traced.2.job, absent⟩
          · exact traced
      | resume => cases traced
  | getState caller =>
      cases caller with
      | create =>
          simp only [apiStep]
          split
          · exact ⟨traced.1, traced.2.now, traced.2.job, .inl traced.2.entry⟩
          · exact traced
      | resume => cases traced
  | remove caller =>
      cases caller with
      | create =>
          simp only [apiStep]
          split
          · exact createTrace_of_traced traced
          · exact ⟨traced.1, traced.2.now, traced.2.job, rfl⟩
      | resume => cases traced
  | add caller =>
      cases caller with
      | create =>
          obtain ⟨absent, now, job, gone⟩ := traced
          simp only [apiStep, gone]
          exact ⟨absent, now, job, .inr (.inr (.refl _))⟩
      | resume => cases traced
  | writeQueued =>
      obtain ⟨absent, now, job, entry⟩ := traced
      have queued : (world.updateJob fun row =>
          { row with status := .queued }).job = some
            { createdRow env userId rowLimit before with
              status := .queued } := by
        rw [World.updateJob_job, job, Option.map_some, now]
        rfl
      simp only [apiStep, returnJob, queued]
      exact .inr ⟨absent, entry, .inr queued⟩
  | returned | threw | crashed => cases live
  | _ => cases traced

theorem createTraced_delivered {userId : String} {rowLimit : Int}
    {pc : ApiPc} {entry : QueueEntry} (holder : Nat)
    (ready : world.readyEntry = some entry)
    (traced : createTraced env userId rowLimit before world pc) :
    createTraced env userId rowLimit before
      (world.setEntry (some { entry with state := .active holder })) pc := by
  have left : ∀ {pc : ApiPc},
      createTraced env userId rowLimit before world pc →
        CreateTrace env userId rowLimit before
          (world.setEntry (some { entry with state := .active holder })) := by
    intro pc traced
    rcases createTrace_of_traced traced with untouched | ⟨absent, kept, job⟩
    · exact .inl (untouched.deliver holder ready)
    · exact .inr ⟨absent, kept.deliver holder ready, job⟩
  cases pc with
  | captureSnapshot user limit =>
      exact ⟨traced.1, traced.2.1, traced.2.2.deliver holder ready⟩
  | countRecords user limit boundary | insertJob user limit boundary =>
      exact ⟨traced.1, traced.2.1, traced.2.2.1,
        traced.2.2.2.deliver holder ready⟩
  | getJob caller | getState caller | remove caller =>
      cases caller with
      | create => exact ⟨traced.1, traced.2.deliver holder ready⟩
      | resume => cases traced
  | add caller =>
      cases caller with
      | create =>
          rw [World.readyEntry, traced.2.2.2] at ready
          cases ready
      | resume => cases traced
  | writeQueued =>
      exact ⟨traced.1, traced.2.1, traced.2.2.1,
        traced.2.2.2.deliver holder ready⟩
  | returned | threw | crashed => exact left traced
  | _ => cases traced

def createTrace (env : Env) (userId : String) (rowLimit : Int)
    (answerLost : Prop) (before : World) : Trace env answerLost where
  traced := createTraced env userId rowLimit before
  step traced live := createTraced_step traced live
  refused _ traced _ := createTrace_of_traced traced
  lost _ _ traced live := createTrace_of_traced (createTraced_step traced live)
  crashes traced := createTrace_of_traced traced
  delivered holder ready traced :=
    createTraced_delivered holder ready traced

def resumedRow (before : World) (row : ExportJob) : ExportJob :=
  { resumeChange row with updatedAt := before.now }

/-- The job has been reopened, and possibly queued. -/
def ResumeLeaves (before after : World) : Prop :=
  EntryReplaced before.entry after.entry ∧
    ∃ row, before.job = some row ∧ row.status ∈ resumableForUser ∧
      after.job = some (resumedRow before row)

def ResumeTrace (before after : World) : Prop :=
  Untouched before after ∨ ResumeLeaves before after

def ResumableJob (world : World) : Prop :=
  ∃ row, world.job = some row ∧ row.status ∈ resumableForUser

def WrittenResume (before world : World) : Prop :=
  ∃ row, before.job = some row ∧ row.status ∈ resumableForUser ∧
    Written (resumedRow before row) before world

def resumeTraced (before world : World) : ApiPc → Prop
  | .findForResume _ => Untouched before world
  | .countCheckpoints => ResumableJob before ∧ Untouched before world
  | .writeResuming => ResumableJob before ∧ Untouched before world
  | .getJob (.resume _) => WrittenResume before world
  | .getState (.resume _) => WrittenResume before world
  | .remove (.resume _) => WrittenResume before world
  | .add (.resume _) =>
      world.entry = none ∧
        ∃ row, before.job = some row ∧ row.status ∈ resumableForUser ∧
          world.job = some (resumedRow before row)
  | .returned _ => ResumeTrace before world
  | .threw _ => ResumeTrace before world
  | .crashed => ResumeTrace before world
  | _ => False

theorem WrittenResume.trace (written : WrittenResume before world) :
    ResumeTrace before world := by
  obtain ⟨row, found, listed, written⟩ := written
  exact .inr ⟨.inl written.entry, row, found, listed, written.job⟩

theorem resumeTrace_of_traced {pc : ApiPc}
    (traced : resumeTraced before world pc) : ResumeTrace before world := by
  cases pc with
  | findForResume => exact .inl traced
  | countCheckpoints => exact .inl traced.2
  | writeResuming => exact .inl traced.2
  | getJob caller | getState caller | remove caller =>
      cases caller with
      | create => cases traced
      | resume => exact WrittenResume.trace traced
  | add caller =>
      cases caller with
      | create => cases traced
      | resume => exact .inr ⟨.inr (.inl traced.1), traced.2⟩
  | returned | threw | crashed => exact traced
  | _ => cases traced

/-- A resume goes on for a job that may be resumed. -/
theorem resumeTraced_find {userId : String}
    (untouched : Untouched before world) :
    resumeTraced before world
      (getOwnedExportJob world userId afterFindForResume) := by
  refine getOwnedExportJob_cases userId (.inl untouched) fun row found => ?_
  rw [afterFindForResume]
  repeat' split
  · exact .inl untouched
  · exact .inl untouched
  · exact .inl untouched
  · next listed =>
      exact ⟨⟨row, untouched.job.symm.trans found, by simpa using listed⟩,
        untouched⟩

theorem resumeTraced_step {pc : ApiPc}
    (traced : resumeTraced before world pc) (live : pc.ended = false) :
    resumeTraced before (apiStep env world pc).1
      (apiStep env world pc).2 := by
  cases pc with
  | findForResume userId => exact resumeTraced_find traced
  | countCheckpoints => exact traced
  | writeResuming =>
      obtain ⟨⟨row, found, listed⟩, untouched⟩ := traced
      have written : (world.updateJob resumeChange).job =
          some (resumedRow before row) := by
        rw [World.updateJob_job, untouched.job, found, Option.map_some,
          untouched.now]
        rfl
      simp only [apiStep, returnJob, written]
      exact ⟨row, found, listed, untouched.now, written, untouched.entry⟩
  | getJob caller =>
      cases caller with
      | create => cases traced
      | resume updated =>
          simp only [apiStep]
          split
          · next absent =>
              obtain ⟨row, found, listed, written⟩ := traced
              exact ⟨absent, row, found, listed, written.job⟩
          · exact traced
  | getState caller =>
      cases caller with
      | create => cases traced
      | resume updated =>
          simp only [apiStep]
          split
          · exact WrittenResume.trace traced
          · exact traced
  | remove caller =>
      cases caller with
      | create => cases traced
      | resume updated =>
          simp only [apiStep]
          split
          · exact WrittenResume.trace traced
          · obtain ⟨row, found, listed, written⟩ := traced
            exact ⟨rfl, row, found, listed, written.job⟩
  | add caller =>
      cases caller with
      | create => cases traced
      | resume updated =>
          obtain ⟨gone, resumed⟩ := traced
          simp only [apiStep, gone]
          exact .inr ⟨.inr (.inr (.refl _)), resumed⟩
  | returned | threw | crashed => cases live
  | _ => cases traced

theorem resumeTraced_delivered {pc : ApiPc} {entry : QueueEntry}
    (holder : Nat) (ready : world.readyEntry = some entry)
    (traced : resumeTraced before world pc) :
    resumeTraced before
      (world.setEntry (some { entry with state := .active holder })) pc := by
  have left : ∀ {pc : ApiPc}, resumeTraced before world pc →
      ResumeTrace before
        (world.setEntry (some { entry with state := .active holder })) := by
    intro pc traced
    rcases resumeTrace_of_traced traced with untouched | ⟨kept, resumed⟩
    · exact .inl (untouched.deliver holder ready)
    · exact .inr ⟨kept.deliver holder ready, resumed⟩
  cases pc with
  | findForResume => exact Untouched.deliver holder traced ready
  | countCheckpoints | writeResuming =>
      exact ⟨traced.1, traced.2.deliver holder ready⟩
  | getJob caller | getState caller | remove caller =>
      cases caller with
      | create => cases traced
      | resume updated =>
          obtain ⟨row, found, listed, written⟩ := traced
          exact ⟨row, found, listed, written.deliver holder ready⟩
  | add caller =>
      cases caller with
      | create => cases traced
      | resume updated =>
          rw [World.readyEntry, traced.1] at ready
          cases ready
  | returned | threw | crashed => exact left traced
  | _ => cases traced

def resumeTrace (env : Env) (answerLost : Prop) (before : World) :
    Trace env answerLost where
  traced := resumeTraced before
  step traced live := resumeTraced_step traced live
  refused _ traced _ := resumeTrace_of_traced traced
  lost _ _ traced live := resumeTrace_of_traced (resumeTraced_step traced live)
  crashes traced := resumeTrace_of_traced traced
  delivered holder ready traced :=
    resumeTraced_delivered holder ready traced

def CancelLeaves (before after : World) : Prop :=
  EntryKept before.entry after.entry ∧
    ∃ row, before.job = some row ∧ row.status ∈ cancellable ∧
      after.job = some
        { cancelChange before.now row row with updatedAt := before.now }

def cancelTraced (answerLost : Prop) (before world : World) : ApiPc → Prop
  | .findForCancel _ => Untouched before world
  | .writeCancel row =>
      Untouched before world ∧ before.job = some row ∧
        row.status ∈ cancellable
  | .returned _ => True
  | .threw _ =>
      Untouched before world ∨ answerLost ∧ CancelLeaves before world
  | .crashed => True
  | _ => False

theorem cancelTraced_step {answerLost : Prop} {pc : ApiPc}
    (traced : cancelTraced answerLost before world pc)
    (live : pc.ended = false) :
    cancelTraced answerLost before (apiStep env world pc).1
      (apiStep env world pc).2 := by
  cases pc with
  | findForCancel userId =>
      have untouched : Untouched before world := traced
      refine getOwnedExportJob_cases userId (.inl untouched) fun row found => ?_
      rw [afterFindForCancel]
      repeat' split
      · exact .inl untouched
      · trivial
      · exact .inl untouched
      · next listed =>
          exact ⟨untouched, untouched.job.symm.trans found,
            by simpa using listed⟩
  | writeCancel row =>
      obtain ⟨untouched, found, _⟩ := traced
      simp only [apiStep, returnJob, World.updateJob_job, untouched.job, found,
        Option.map_some]
      trivial
  | returned | threw | crashed => cases live
  | _ => cases traced

theorem cancelTraced_lost {answerLost : Prop} {pc : ApiPc}
    (error : AppError) (lost : answerLost)
    (traced : cancelTraced answerLost before world pc)
    (live : pc.ended = false) :
    cancelTraced answerLost before (apiStep env world pc).1
      (.threw error) := by
  cases pc with
  | findForCancel userId => exact .inl traced
  | writeCancel row =>
      obtain ⟨untouched, found, listed⟩ := traced
      refine .inr ⟨lost, untouched.entry, row, found, listed, ?_⟩
      simp only [apiStep, World.updateJob_job, untouched.job, found,
        Option.map_some, untouched.now]
  | returned | threw | crashed => cases live
  | _ => cases traced

def cancelTrace (env : Env) (answerLost : Prop) (before : World) :
    Trace env answerLost where
  traced := cancelTraced answerLost before
  step traced live := cancelTraced_step traced live
  refused error traced live := by
    rename_i world pc
    cases pc with
    | findForCancel => exact .inl traced
    | writeCancel => exact .inl traced.1
    | returned | threw | crashed => cases live
    | _ => cases traced
  lost error lost traced live := cancelTraced_lost error lost traced live
  crashes _ := trivial
  delivered holder ready traced := by
    rename_i world pc entry
    cases pc with
    | findForCancel => exact Untouched.deliver holder traced ready
    | writeCancel => exact ⟨traced.1.deliver holder ready, traced.2⟩
    | threw =>
        rcases traced with untouched | ⟨lost, kept, cancelled⟩
        · exact .inl (untouched.deliver holder ready)
        · exact .inr ⟨lost, kept.deliver holder ready, cancelled⟩
    | returned | crashed => trivial
    | _ => cases traced

def ApiPc.reads : ApiPc → Bool
  | .findForVerifyOwner _ => true
  | .findForVerify => true
  | .latestForVerify _ => true
  | .verifyHead _ _ => true
  | .verifyRead _ _ _ => true
  | .saveVerification _ _ => true
  | .findForDownload _ => true
  | .latestForDownload _ => true
  | pc => pc.ended

theorem reads_step {pc : ApiPc} (reads : pc.reads = true) :
    (apiStep env world pc).2.reads = true := by
  cases pc with
  | findForVerifyOwner userId =>
      exact getOwnedExportJob_cases (motive := fun next => next.reads = true)
        userId rfl fun _ _ => rfl
  | findForDownload userId =>
      refine getOwnedExportJob_cases (motive := fun next => next.reads = true)
        userId rfl fun job _ => ?_
      rw [afterFindForDownload]
      repeat' split
      all_goals rfl
  | latestForDownload =>
      simp only [apiStep, afterLatestForDownload]
      repeat' split
      all_goals rfl
  | findForVerify | verifyHead | verifyRead | saveVerification =>
      simp only [apiStep]
      repeat' split
      all_goals rfl
  | latestForVerify | returned | threw | crashed => rfl
  | _ => cases reads

theorem untouched_reads {pc : ApiPc} (reads : pc.reads = true)
    (untouched : Untouched before world) :
    Untouched before (apiStep env world pc).1 := by
  cases pc with
  | saveVerification =>
      simp only [apiStep]
      split
      · exact ⟨untouched.now, untouched.records, untouched.job,
          untouched.entry⟩
      · exact untouched
  | findForVerifyOwner | findForVerify | latestForVerify | verifyHead
  | verifyRead | findForDownload | latestForDownload =>
      exact untouched
  | returned | threw | crashed => exact untouched
  | _ => cases reads

def readTrace (env : Env) (answerLost : Prop) (before : World) :
    Trace env answerLost where
  traced world pc := pc.reads = true ∧ Untouched before world
  step traced _ := ⟨reads_step traced.1, untouched_reads traced.1 traced.2⟩
  refused _ traced _ := ⟨rfl, traced.2⟩
  lost _ _ traced _ := ⟨rfl, untouched_reads traced.1 traced.2⟩
  crashes traced := ⟨rfl, traced.2⟩
  delivered holder ready traced := ⟨traced.1, traced.2.deliver holder ready⟩

def Leaves (env : Env) (command : Nat) (events : List (Event Action Change))
    (before after : World) : Request → Prop
  | .create userId rowLimit => CreateLeaves env userId rowLimit before after
  | .resume _ => ResumeLeaves before after
  | .cancel _ => AnswerLost command events ∧ CancelLeaves before after
  | _ => False

/-- The job is in a status from which its user may resume it. -/
theorem Leaves.resumable {command : Nat} {events : List (Event Action Change)}
    {request : Request} (leaves : Leaves env command events before after
      request) (other : ∀ userId, request ≠ .cancel userId) :
    ResumableJob after := by
  cases request with
  | create userId rowLimit =>
      obtain ⟨_, _, pending | queued⟩ := leaves
      · exact ⟨_, pending,
          (by decide : ExportStatus.pending ∈ resumableForUser)⟩
      · exact ⟨_, queued,
          (by decide : ExportStatus.queued ∈ resumableForUser)⟩
  | resume userId =>
      obtain ⟨_, row, _, _, resuming⟩ := leaves
      exact ⟨_, resuming,
        (by decide : ExportStatus.resuming ∈ resumableForUser)⟩
  | cancel userId => exact absurd rfl (other userId)
  | _ => cases leaves

/-- When a command throws, job and queue entry are as before, or the command
had already written its row: then a creation or a resume leaves the job in a
status that a resume accepts, and a cancel has thrown because its answer was
lost. -/
theorem thrown_trace {source target : Config World Proc}
    {events : List (Event Action Change)} {command : Nat} {request : Request}
    {error : AppError} (idle : source.procs command = .idle)
    (history : (machine env).Exec (CommandAlone command) source
      (.act command (.request request) :: events) target)
    (threw : target.procs command = .api (.threw error)) :
    Untouched source.shared target.shared ∨
      Leaves env command events source.shared target.shared request ∧
        ((∀ userId, request ≠ .cancel userId) →
          ResumableJob target.shared) := by
  have left : Untouched source.shared target.shared ∨
      Leaves env command events source.shared target.shared request := by
    have start := Untouched.refl source.shared
    cases request with
    | create userId rowLimit =>
        let trace := createTrace env userId rowLimit
          (AnswerLost command events) source.shared
        have begins : trace.traced source.shared
            (Request.begin (.create userId rowLimit)) := by
          simp only [Request.begin]
          repeat' split
          · exact .inl start
          · exact .inl start
          · exact ⟨rfl, rfl, start⟩
        exact trace.of_history begins idle history threw
    | resume userId =>
        let trace := resumeTrace env (AnswerLost command events)
          source.shared
        have begins : trace.traced source.shared
            (Request.begin (.resume userId)) := start
        exact trace.of_history begins idle history threw
    | cancel userId =>
        let trace := cancelTrace env (AnswerLost command events)
          source.shared
        have begins : trace.traced source.shared
            (Request.begin (.cancel userId)) := start
        exact trace.of_history begins idle history threw
    | verify userId =>
        exact .inl ((readTrace env (AnswerLost command events)
          source.shared).of_history ⟨rfl, start⟩ idle history threw).2
    | download userId =>
        exact .inl ((readTrace env (AnswerLost command events)
          source.shared).of_history ⟨rfl, start⟩ idle history threw).2
  exact left.imp_right fun leaves => ⟨leaves, leaves.resumable⟩

def ApiPc.throws : ApiPc → Bool
  | .threw _ => true
  | _ => false

def creationRefused : List (Event Action Change) :=
  .act 1 (.request (.create "u" 1)) :: calls 1 4 ++
    [.act 1 (.call (.refused "Connection is closed."))]

def resumeRefused : List (Event Action Change) :=
  .act 1 (.request (.resume "u")) :: calls 1 5 ++
    [.act 1 (.call (.refused "Connection is closed."))]

def cancelUnanswered : List (Event Action Change) :=
  .act 1 (.request (.cancel "u")) :: calls 1 1 ++
    [.act 1 (.call (.lost "Connection terminated"))]

/-- `CommandAlone`, for a command that meets nobody. -/
def actsAlone (command : Nat) : Event Action Change → Bool
  | .act index _ => decide (index = command)
  | .env _ => false

theorem actsAlone_sound {command : Nat} {config : Config World Proc}
    {event : Event Action Change} (passes : actsAlone command event = true) :
    CommandAlone command config event := by
  cases event with
  | act index action =>
      exact ⟨index, action, rfl, .inl (of_decide_eq_true passes)⟩
  | env change => cases passes

theorem thrown_trace_creationRefused :
    ∃ target error,
      (machine smallEnv).Exec (CommandAlone 1) (smallStart oneRecord)
        creationRefused target ∧
      target.procs 1 = .api (.threw error) ∧
      (Untouched (smallStart oneRecord).shared target.shared ∨
        CreateLeaves smallEnv "u" 1 (smallStart oneRecord).shared
          target.shared) := by
  obtain ⟨target, history, _, throws⟩ :=
    exists_history (CommandAlone 1) oneRecord 2
      (fun _ event => actsAlone 1 event) creationRefused
      (fun target => (target.procs 1).commands ApiPc.throws)
      (fun _ passes => actsAlone_sound passes) (by decide +kernel)
  obtain ⟨pc, here, isThrow⟩ := Proc.exists_of_commands throws
  cases pc with
  | threw error =>
      refine ⟨target, error, history, here, ?_⟩
      have traced := thrown_trace rfl history here
      exact traced.imp_right And.left
  | _ => cases isThrow

/-- After the first events the command throws; the status of the job has
changed, the queue entry has not. -/
def ThrowsChanged (first command : List (Event Action Change)) : Prop :=
  ∃ source target,
    (machine smallEnv).Exec Anything (smallStart oneRecord) first source ∧
    (machine smallEnv).Exec (CommandAlone 1) source command target ∧
    (∃ error, target.procs 1 = .api (.threw error)) ∧
    target.shared.status ≠ source.shared.status ∧
    target.shared.entry = source.shared.entry

/-- `ThrowsChanged`, computed. -/
def throwsChanged (first command : List (Event Action Change)) : Bool :=
  ((machine smallEnv).runChecked (fun _ _ => true) (smallStart oneRecord)
    first).any fun source =>
      ((machine smallEnv).runChecked (fun _ event => actsAlone 1 event)
        source command).any fun target =>
          (target.procs 1).commands ApiPc.throws &&
            decide (target.shared.status ≠ source.shared.status) &&
            decide (target.shared.entry = source.shared.entry)

theorem throwsChanged_sound {first command : List (Event Action Change)}
    (passes : throwsChanged first command = true) :
    ThrowsChanged first command := by
  obtain ⟨source, firstEq, rest⟩ := (Option.any_eq_true _ _).mp passes
  obtain ⟨target, commandEq, ends⟩ := (Option.any_eq_true _ _).mp rest
  simp only [Bool.and_eq_true, decide_eq_true_eq] at ends
  obtain ⟨⟨throws, changed⟩, same⟩ := ends
  obtain ⟨pc, here, isThrow⟩ := Proc.exists_of_commands throws
  refine ⟨source, target, ?_, ?_, ?_, changed, same⟩
  · exact Machine.exec_of_runChecked (fun _ => True) (fun _ _ => trivial)
      (fun _ _ _ => trivial) trivial firstEq
  · exact Machine.exec_of_runChecked (fun _ => True)
      (fun _ passes => actsAlone_sound passes) (fun _ _ _ => trivial)
      trivial commandEq
  · cases pc with
    | threw error => exact ⟨error, here⟩
    | _ => cases isThrow

/-- Each of the three commands can throw after it has changed the job. -/
theorem failed_commands_leave_traces :
    ThrowsChanged [] creationRefused ∧
      ThrowsChanged (createSteps 1) resumeRefused ∧
      ThrowsChanged (createSteps 1) cancelUnanswered :=
  ⟨throwsChanged_sound (by decide +kernel),
    throwsChanged_sound (by decide +kernel),
    throwsChanged_sound (by decide +kernel)⟩

end ExportVault
