import ExportVault.Completion
import ExportVault.Recovery

/-!
# Accepted resumes

A resume is accepted in five statuses.  The run that follows it relies on the
records it counted when the export was created and on the chunk of every
checkpoint.  The chunks are deleted after a terminal status has been written;
when that status is then overwritten, the resume is accepted all the same and
the run fails on the first missing chunk.
-/

namespace ExportVault

open Interleaving

/-- Once the command that creates the export has counted the records up to its
boundary, they stay as they are. -/
def CountedRecords : Condition := fun config event =>
  match event with
  | .env (.setRecords table) =>
      ∀ index userId rowLimit snapshotMaxId,
        config.procs index = .api (.insertJob userId rowLimit snapshotMaxId) →
        table.upTo snapshotMaxId = config.shared.records.upTo snapshotMaxId
  | _ => True

/-- The records up to the boundary stay as they are, and the chunks are
spared. -/
def Resumable (env : Env) : Condition := fun config event =>
  StableRecords config event ∧ CountedRecords config event ∧
    ChunksSpared env config event

/-- The owner's resume returns, and a run that then executes the export ends
with it completed; nobody else acts and no call fails. -/
def ResumeCompletes (env : Env) (config : Config World Proc)
    (userId : String) (command worker : Nat) : Prop :=
  ∃ resumeCalls runCalls resumed completed row rows,
    (machine env).Exec Anything config
      (.act command (.request (.resume userId)) ::
        calls command resumeCalls) resumed ∧
    resumed.procs command = .api (.returned (.job row)) ∧
    (machine env).Exec Anything resumed
      (.act worker .start :: calls worker runCalls) completed ∧
    completed.procs worker = .run (.returned (.completed rows)) ∧
    completed.shared.status = some .completed

theorem countRecordsWithinSnapshot_eq (table : RecordTable) (bound : Int) :
    countRecordsWithinSnapshot table bound = ((table.upTo bound).length : Int) := by
  rw [countRecordsWithinSnapshot, List.countP_eq_length_filter]
  rfl

/-- Where enough records were counted, the selection is as long as was asked
for. -/
theorem length_selection {records : RecordTable} {terms : Terms}
    (positive : 0 < terms.requestedRowLimit)
    (counted : terms.requestedRowLimit ≤
      countRecordsWithinSnapshot records terms.snapshotMaxId) :
    ((selection records terms).length : Int) = terms.requestedRowLimit := by
  have all : Keyset.window RawRecordRow.id records.rows 0
      terms.snapshotMaxId = records.upTo terms.snapshotMaxId := by
    apply List.filter_congr
    intro row member
    have drawn := (records.drawn row member).1
    simp only [show (0 : Int) < row.id by omega, true_and]
  rw [countRecordsWithinSnapshot_eq] at counted
  rw [selection, Keyset.page, all, List.length_take]
  omega

def Counted (env : Env) (world : World) (terms : Terms) : Prop :=
  terms.requestedRowLimit ≤
      countRecordsWithinSnapshot world.records terms.snapshotMaxId ∧
    terms.batchSize = env.exportBatchSize

def countedCommands (world : World) : ApiPc → Prop
  | .insertJob _ rowLimit snapshotMaxId =>
      rowLimit ≤ countRecordsWithinSnapshot world.records snapshotMaxId
  | _ => True

variable {env : Env} {before after world : World}

theorem counted_same (terms : after.terms = before.terms)
    (records : after.records = before.records)
    (counted : ∀ terms, before.terms = some terms →
      Counted env before terms) :
    ∀ terms, after.terms = some terms → Counted env after terms := by
  intro known termsEq
  rw [terms] at termsEq
  rw [Counted, records]
  exact counted known termsEq

/-- Only the command that counts them goes on to insert a job. -/
theorem countedCommands_step (env : Env) (world : World) (pc : ApiPc) :
    countedCommands world (apiStep env world pc).2 := by
  rcases apiStep_creates env world pc with
    free | ⟨_, _, rfl, next⟩ | ⟨_, _, _, rfl, enough, next⟩
  · cases next : (apiStep env world pc).2 <;> rw [next] at free <;> trivial
  · rw [next]
    trivial
  · rw [next]
    exact enough

theorem countedCommands_stable {pc : ApiPc}
    (records : after.records = before.records)
    (assertion : countedCommands before pc) : countedCommands after pc := by
  cases pc with
  | insertJob => rwa [countedCommands, records]
  | _ => trivial

/-- Nobody owns the records. -/
theorem countedCommands_unowned {pc : ApiPc} (impossible : False)
    (_ : countedCommands before pc) : countedCommands after pc :=
  impossible.elim

theorem countedCommands_begin (world : World) (request : Request) :
    countedCommands world request.begin := by
  cases request with
  | create userId rowLimit =>
      simp only [Request.begin]
      repeat' split
      all_goals trivial
  | _ => trivial

/-- A command's own statement keeps its count. -/
theorem countedCommands_next (env : Env) (world : World) (pc : ApiPc) :
    countedCommands (apiStep env world pc).1 (apiStep env world pc).2 :=
  countedCommands_stable (apiStep_records env world pc)
    (countedCommands_step env world pc)

def countedOutline (env : Env) :
    SystemOutline env fun config event =>
      StableRecords config event ∧ CountedRecords config event where
  invariant world := ∀ terms, world.terms = some terms →
    Counted env world terms
  runs _ _ := True
  commands := countedCommands
  rely before after := after.records = before.records
  invariant_passive same :=
    counted_same same.terms same.records
  rely_passive same := same.records
  stable_runs _ _ := trivial
  stable_commands := countedCommands_stable
  owner_stable_commands := @countedCommands_unowned
  runs_findJob _ := trivial
  runs_ended _ _ _ := trivial
  runs_caught _ _ := trivial
  commands_begin := countedCommands_begin
  run_sound := by
    intro config index fault pc kept _ _ _ counted _
    have records := runStep_records env kept config.shared pc
    exact ⟨counted_same (runStep_terms env kept config.shared pc) records
      counted, trivial, .inl records⟩
  command_sound := by
    intro config index fault pc _ _ _ counted assertion
    have records := apiStep_records env config.shared pc
    refine ⟨?_, countedCommands_next env config.shared pc, records⟩
    by_cases other : pc.inserts = false ∨ config.shared.job ≠ none
    · exact counted_same (apiStep_terms env other) records counted
    · simp only [not_or, not_not, Bool.not_eq_false] at other
      obtain ⟨inserts, absent⟩ := other
      cases pc with
      | insertJob userId rowLimit snapshotMaxId =>
          intro terms termsEq
          simp only [apiStep, absent, World.terms, Option.map_some,
            Option.some.injEq] at termsEq
          rw [Counted, records, ← termsEq]
          exact ⟨assertion, rfl⟩
      | _ => cases inserts
  sweep_sound := by
    intro config index fault pc _ _ counted
    have records := sweepStep_records env config.shared pc
    exact ⟨counted_same (sweepStep_terms env config.shared pc) records
      counted, records⟩
  change_sound := by
    intro config change allowed counted
    have sameCount : ∀ {table : RecordTable} {bound : Int},
        table.upTo bound = config.shared.records.upTo bound →
        countRecordsWithinSnapshot table bound =
          countRecordsWithinSnapshot config.shared.records bound := by
      intro table bound same
      rw [countRecordsWithinSnapshot_eq, countRecordsWithinSnapshot_eq, same]
    cases change with
    | tick => exact ⟨counted, fun _ _ _ _ => trivial,
        fun _ _ _ assertion => assertion⟩
    | setRecords table =>
        refine ⟨?_, fun _ _ _ _ => trivial, ?_⟩
        · intro terms termsEq
          obtain ⟨job, found, rfl⟩ := Option.map_eq_some_iff.mp termsEq
          obtain ⟨enough, size⟩ := counted _ termsEq
          refine ⟨?_, size⟩
          exact le_of_le_of_eq enough (sameCount (allowed.1 job found)).symm
        · intro index pc here assertion
          cases pc with
          | insertJob userId rowLimit snapshotMaxId =>
              exact le_of_le_of_eq assertion
                (sameCount (allowed.2 index _ _ _ here)).symm
          | _ => trivial

theorem countedOutline_initial {config : Config World Proc}
    (initial : Initial env config) : (countedOutline env).Holds config := by
  apply SystemOutline.holds_of_idle _ initial.idle
  intro terms termsEq
  rw [World.terms, initial.noJob] at termsEq
  cases termsEq

/-- After a resume the run has everything it relies on. -/
theorem ready_of_resumed (room : 0 < env.exportBatchSize)
    (log : LogInvariant world) (exact : ExactInvariant env world)
    (counted : ∀ terms, world.terms = some terms → Counted env world terms)
    (stored : ∀ checkpoint ∈ world.checkpoints,
      world.Stores env checkpoint.batchNumber)
    (entry : Option QueueEntry) :
    Ready env ((world.updateJob resumeChange).setEntry entry) .findJob := by
  have terms : ((world.updateJob resumeChange).setEntry entry).terms =
      world.terms := world.terms_updateJob fun _ => rfl
  have notCompleted : ((world.updateJob resumeChange).setEntry
      entry).status ≠ some .completed := by
    have resuming : ((world.updateJob resumeChange).setEntry entry).status =
        world.status.map fun _ => .resuming :=
      world.status_updateJob_set fun _ => rfl
    rw [resuming]
    cases world.status <;> simp
  exact
    { log := log.same terms rfl
      known := trivial
      exact := exact.same terms rfl rfl rfl fun completed =>
        absurd completed notCompleted
      exactly := trivial
      enough := by
        intro known termsEq
        rw [terms] at termsEq
        obtain ⟨enough, size⟩ := counted known termsEq
        exact ⟨length_selection (log.wellFormed known termsEq).positive
          enough, by rwa [size]⟩
      stored := stored
      own := fun _ _ none => by cases none
      wanted := by
        rw [World.cancelFlagged, World.setEntry_job, World.updateJob_job,
          Option.any_map]
        cases world.job <;> rfl }

/-- While the records stay as they are and the chunks are spared, a resume
that is accepted can succeed: the chunk of every checkpoint is there, and a
run without further faults completes the export. -/
theorem resumed_completes {source target : Config World Proc}
    {events : List (Event Action Change)} (room : 0 < env.exportBatchSize)
    (parses : ParsesRfc4180 env.csvParse) (initial : Initial env source)
    (history : (machine env).Exec (Resumable env) source events target)
    {job : ExportJob} (found : target.shared.job = some job)
    (accepted : job.status ∈ resumableForUser) {command worker : Nat}
    (apart : worker ≠ command) (commandIdle : target.procs command = .idle)
    (workerIdle : target.procs worker = .idle) :
    (∀ checkpoint ∈ target.shared.checkpoints,
      target.shared.Stores env checkpoint.batchNumber) ∧
    ResumeCompletes env target job.userId command worker := by
  obtain ⟨log, exact⟩ := exact_preserved initial
    (history.mono fun allowed => allowed.1)
  have counted := (countedOutline env).preserved
    (history.mono fun allowed => ⟨allowed.1, allowed.2.1⟩)
    (countedOutline_initial initial)
  have unfinished : target.shared.ended = false := by
    rw [World.ended, World.status, found, Option.map_some, Option.any_some]
    revert accepted
    cases job.status <;> decide
  have spared := history.mono fun allowed => allowed.2.2
  have present : target.shared.ended = false → ChunksStored env target :=
    spared.invariant chunksStored_step fun _ => chunksStored_initial initial
  have stored := (present unfinished).checkpointed
  obtain ⟨resumeCalls, entry, row, resumes, _⟩ :=
    solo_resume env command found accepted
  have ready := ready_of_resumed room log.1 exact.1 counted.1
    stored entry
  have resumedJob : ((target.shared.updateJob resumeChange).setEntry
      entry).job = some { resumeChange job with
        updatedAt := target.shared.now } := by
    rw [World.setEntry_job, World.updateJob_job, found, Option.map_some]
  obtain ⟨after, rows, completes, completed⟩ :=
    ready.completes parses resumedJob
      (by simp [resumeChange, resumableStatuses])
  obtain ⟨runCalls, runs⟩ := solo_of_goesOn worker completes
  let resumed : Config World Proc :=
    ⟨(target.shared.updateJob resumeChange).setEntry entry,
      Function.update target.procs command (.api (.returned (.job row)))⟩
  refine ⟨stored, resumeCalls, runCalls, resumed,
    ⟨after, Function.update resumed.procs worker
      (.run (.returned (.completed rows)))⟩, row, rows, ?_,
    Function.update_self _ _ _, ?_, Function.update_self _ _ _, completed⟩
  · rw [← commandIdle] at resumes
    have execution : (machine env).Exec Anything target _ _ :=
      Network.exec_solo (fun _ _ _ => trivial) resumes
    rwa [List.map_cons, List.map_replicate] at execution
  · have idle : resumed.procs worker = .idle := by
      simpa [resumed, Function.update_of_ne apart] using workerIdle
    have starts : (network env).solo worker resumed.shared
        (resumed.procs worker)
        (.start :: List.replicate runCalls (.call .none)) =
        some (after, .run (.returned (.completed rows))) := by
      rw [idle]
      exact runs
    have execution : (machine env).Exec Anything resumed _ _ :=
      Network.exec_solo (fun _ _ _ => trivial) starts
    rwa [List.map_cons, List.map_replicate] at execution

/-- `Resumable`, where the records do not change at all. -/
def resumable (config : Config World Proc) (event : Event Action Change) :
    Bool :=
  (match event with
    | .env (.setRecords _) => false
    | _ => true) && chunksSpared config event

theorem resumable_sound {config : Config World Proc}
    {event : Event Action Change} (passes : resumable config event = true) :
    Resumable env config event := by
  simp only [resumable, Bool.and_eq_true] at passes
  obtain ⟨records, spared⟩ := passes
  refine ⟨?_, ?_, chunksSpared_sound spared⟩
  · cases event with
    | act => trivial
    | env change => cases change <;> trivial
  · cases event with
    | act => trivial
    | env change => cases change <;> trivial

/-- The run or command is over. -/
def Proc.ended : Proc → Bool
  | .run pc => pc.ended
  | .api pc => pc.ended
  | _ => false

theorem step_call_of_ended {config : Config World Proc} {index : Nat}
    (ended : (config.procs index).ended = true) (fault : Fault) :
    (machine env).step config (.act index (.call fault)) = none := by
  have stops : act env index config.shared (config.procs index)
      (.call fault) = none := by
    cases here : config.procs index with
    | run pc => exact if_pos (by rwa [here] at ended)
    | api pc => exact if_pos (by rwa [here] at ended)
    | _ =>
        rw [here] at ended
        cases ended
  exact congrArg (Option.map _) stops

/-- One event and then the calls of a process until it is over lead to one
state. -/
theorem calls_unique {source first second : Config World Proc}
    {event : Event Action Change} {index firstCount secondCount : Nat}
    (firstRun : (machine env).Exec Anything source
      (event :: calls index firstCount) first)
    (secondRun : (machine env).Exec Anything source
      (event :: calls index secondCount) second)
    (firstEnded : (first.procs index).ended = true)
    (secondEnded : (second.procs index).ended = true) : first = second := by
  obtain ⟨_, middle, stepEq, firstRest⟩ := firstRun
  obtain ⟨_, other, otherEq, secondRest⟩ := secondRun
  obtain rfl := Option.some.inj (stepEq.symm.trans otherEq)
  exact firstRest.unique_end secondRest (step_call_of_ended firstEnded .none)
    (step_call_of_ended secondEnded .none)

/-- The export has been completed; the answer to the request that deletes its
chunk is lost. -/
def deletionUnanswered : List (Event Action Change) :=
  createSteps 1 ++ .act 1 .deliver :: calls 1 20 ++
    [.act 1 (.call (.lost "socket hang up"))] ++ calls 1 2 ++
    [.act 1 .settle]

/-- The resume of the export is accepted, but its run cannot succeed. -/
theorem accepted_resume_fails :
    ∃ target job,
      (machine smallEnv).Exec
        (fun config event => StableRecords config event ∧
          AloneAtClaim config event)
        (smallStart oneRecord) deletionUnanswered target ∧
      NoRunExecuting target ∧ target.shared.job = some job ∧
      job.status ∈ resumableForUser ∧ target.procs 2 = .idle ∧
      target.procs 3 = .idle ∧
      ¬ ResumeCompletes smallEnv target job.userId 2 3 := by
  obtain ⟨target, history, idle, ends⟩ :=
    exists_history
      (fun config event => StableRecords config event ∧
        AloneAtClaim config event) oneRecord 2
      (fun config event => stableRecords config event &&
        aloneAtClaim 2 config event) deletionUnanswered
      (fun target =>
        target.shared.job.any (fun job : ExportJob =>
          decide (job.status = .failed) && decide (job.userId = "u")) &&
          ((List.range 2).all fun index =>
            !(target.procs index).executing) &&
          ((machine smallEnv).runChecked (fun _ _ => true) target
            (.act 2 (.request (.resume "u")) :: calls 2 7)).any
            fun resumed : Config World Proc =>
              (resumed.procs 2).ended &&
                ((machine smallEnv).runChecked (fun _ _ => true) resumed
                  (.act 3 .start :: calls 3 10)).any
                  fun failed : Config World Proc =>
                    (failed.procs 3).ended &&
                      decide (failed.shared.status = some .failed))
      (fun idle passes => by
        simp only [Bool.and_eq_true] at passes
        exact ⟨stableRecords_sound passes.1,
          aloneAtClaim_sound idle passes.2⟩)
      (by decide +kernel)
  simp only [Bool.and_eq_true, decide_eq_true_eq, Option.any_eq_true] at ends
  obtain ⟨⟨⟨job, found, failedBefore, owner⟩, free⟩, resumed, resumeEq,
    replied, failed, runEq, stopped, failedAfter⟩ := ends
  have anything : ∀ {source target : Config World Proc}
      {events : List (Event Action Change)},
      (machine smallEnv).runChecked (fun _ _ => true) source events =
        some target →
      (machine smallEnv).Exec Anything source events target :=
    Machine.exec_of_runChecked (fun _ => True) (fun _ _ => trivial)
      (fun _ _ _ => trivial) trivial
  refine ⟨target, job, history, noRunExecuting_of_idleFrom idle free, found,
    by rw [failedBefore]; decide, idle 2 (by decide), idle 3 (by decide), ?_⟩
  rintro ⟨resumeCalls, runCalls, other, completed, row, rows, resumes,
    returned, runs, ended, isCompleted⟩
  rw [owner] at resumes
  obtain rfl : resumed = other := calls_unique (anything resumeEq) resumes
    replied (by rw [returned]; rfl)
  obtain rfl : failed = completed := calls_unique (anything runEq) runs
    stopped (by rw [ended]; rfl)
  rw [failedAfter] at isCompleted
  cases isCompleted

end ExportVault
