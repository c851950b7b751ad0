import ExportVault.Log

/-!
# Terminal statuses

`deleteChunks` follows the write of `COMPLETED` or `CANCELLED` inside the same
`try` block, so a call of it that fails turns the job into `FAILED`.  A run
keeps its terminal status exactly when no call after the write fails.
-/

namespace ExportVault

open Interleaving

/-- The statement that writes a terminal status. -/
def RunPc.concludes : RunPc → Bool
  | .cancelBeforeStart _ => true
  | .writeCancelled _ => true
  | .writeCompleted _ => true
  | _ => false

/-- Past the terminal write, and nothing has failed. -/
def RunPc.tidies : RunPc → Bool
  | .listChunks _ _ _ => true
  | .deletePage _ _ _ _ => true
  | .returned _ => true
  | _ => false

def failsAt (index : Nat) : Event Action Change → Bool
  | .act other (.call fault) => decide (other = index) && fault.fails
  | _ => false

/-- The process does not crash, and a process that does not hold the queue
entry, as a retry does, leaves the job row alone. -/
def Undisturbed (env : Env) (index : Nat) : Condition := fun config event =>
  match event with
  | .act other action =>
      if other = index then action ≠ .crash
      else config.shared.heldEntry other = none → ∀ after,
        (machine env).step config (.act other action) = some after →
          after.shared.job = config.shared.job
  | .env _ => True

def RunPc.knocks (pc : RunPc) : Bool :=
  decide (pc = .findJob) || pc.ended

/-- The run is past its terminal write; whoever else holds the queue entry
has not got further than its first look at the job. -/
structure Tidying (index : Nat) (row : ExportJob)
    (config : Config World Proc) : Prop where
  job : config.shared.job = some row
  here : ∃ pc, config.procs index = .run pc ∧ pc.tidies = true
  others : ∀ other entry, other ≠ index →
    config.shared.entry = some entry → entry.state = .active other →
    ∃ pc, config.procs other = .run pc ∧ pc.knocks = true

variable {env : Env}

theorem heldEntry_eq_none {world : World} {holder : Nat}
    (notHeld : ¬ ∃ entry, world.entry = some entry ∧
      entry.state = .active holder) : world.heldEntry holder = none := by
  cases heldEq : world.heldEntry holder with
  | none => rfl
  | some entry =>
      obtain ⟨present, active⟩ := Option.filter_eq_some_iff.mp heldEq
      exact absurd ⟨entry, present, by simpa using active⟩ notHeld

theorem tidies_nextPage (outcome : RunOutcome) (token : Option String)
    (deleted : Nat) : (RunPc.nextPage outcome token deleted).tidies = true := by
  exact RunPc.nextPage_cases (motive := fun next => next.tidies = true)
    outcome token deleted rfl fun _ => rfl

/-- The terminal write leaves the job in its terminal status. -/
theorem concludes_step (env : Env) (kept : List String) {world : World}
    {pc : RunPc} (concludes : pc.concludes = true) {job : ExportJob}
    (found : world.job = some job) :
    (∃ row, (runStep env kept world pc).1.job = some row ∧
      (row.status = .completed ∨ row.status = .cancelled)) ∧
      (runStep env kept world pc).2.tidies = true := by
  cases pc with
  | cancelBeforeStart =>
      exact ⟨⟨_, by simp [runStep, found]; rfl, by simp⟩, rfl⟩
  | writeCancelled =>
      exact ⟨⟨_, by simp [runStep, found]; rfl, by simp⟩, rfl⟩
  | writeCompleted =>
      exact ⟨⟨_, by simp [runStep, found]; rfl, by simp⟩, rfl⟩
  | _ => cases concludes

/-- What follows the terminal write leaves the job alone. -/
theorem tidies_step (env : Env) (kept : List String) (world : World)
    {pc : RunPc} (tidies : pc.tidies = true) :
    (runStep env kept world pc).1.job = world.job ∧
      (runStep env kept world pc).2.tidies = true := by
  cases pc with
  | listChunks outcome token deleted =>
      refine ⟨rfl, ?_⟩
      simp only [runStep]
      split
      · rfl
      · exact tidies_nextPage _ _ _
  | deletePage outcome keys token deleted =>
      exact ⟨rfl, tidies_nextPage _ _ _⟩
  | returned => exact ⟨rfl, rfl⟩
  | _ => cases tidies

/-- A failing call past the terminal write leads to the `catch` block. -/
theorem tidies_fails (env : Env) (world : World) {pc : RunPc} {fault : Fault}
    (tidies : pc.tidies = true) (live : pc.ended = false)
    (fails : fault.fails = true) :
    (runCall env world pc fault).1.job = world.job ∧
      ∃ error, (runCall env world pc fault).2 = .caught error := by
  have caught : ∀ error, pc.onError error = .caught error := by
    intro error
    cases pc with
    | listChunks => rfl
    | deletePage => rfl
    | returned => cases live
    | _ => cases tidies
  cases fault with
  | refused message => exact ⟨rfl, _, caught _⟩
  | lost message => exact ⟨(tidies_step env [] world tidies).1, _, caught _⟩
  | _ => cases fails

/-- A run that looks at a job in a terminal status is turned away. -/
theorem knocks_call (env : Env) {world : World} {pc : RunPc}
    (fault : Fault) {row : ExportJob} (found : world.job = some row)
    (terminal : row.status = .completed ∨ row.status = .cancelled)
    (knocks : pc.knocks = true) (live : pc.ended = false) :
    (runCall env world pc fault).1.job = world.job ∧
      (runCall env world pc fault).2.knocks = true := by
  obtain rfl : pc = .findJob := by simpa [RunPc.knocks, live] using knocks
  have turnedAway : ∀ kept, (runStep env kept world .findJob).2.knocks =
      true := by
    intro kept
    rcases terminal with completed | cancelled
    · simp [runStep, afterFindJob, found, completed, RunPc.knocks,
        RunPc.ended]
    · simp [runStep, afterFindJob, found, cancelled, RunPc.knocks,
        RunPc.ended]
  cases fault with
  | none => exact ⟨rfl, turnedAway []⟩
  | keeping kept => exact ⟨rfl, turnedAway kept⟩
  | refused message => exact ⟨rfl, rfl⟩
  | lost message => exact ⟨rfl, rfl⟩

theorem knocks_step {index : Nat} {world after : World} {pc : RunPc}
    {next : Proc} {action : Action} {row : ExportJob}
    (found : world.job = some row)
    (terminal : row.status = .completed ∨ row.status = .cancelled)
    (knocks : pc.knocks = true)
    (step : ActStep env index world (.run pc) action after next) :
    after.job = world.job ∧ ∀ pc, next = .run pc → pc.knocks = true := by
  cases step with
  | run fault live =>
      obtain ⟨sameJob, nextKnocks⟩ :=
        knocks_call env fault found terminal knocks live
      refine ⟨sameJob, fun pc same => ?_⟩
      rwa [← Proc.run.inj same]
  | runCrash => exact ⟨rfl, fun pc same => by rw [← Proc.run.inj same]; rfl⟩
  | settleReturned =>
      exact ⟨rfl, fun pc same => by rw [← Proc.run.inj same]; rfl⟩
  | settleThrew => exact ⟨rfl, fun pc same => by cases same⟩
  | stall => exact ⟨rfl, fun pc same => by rwa [← Proc.run.inj same]⟩

/-- Without a failing call the run stays past its terminal write and the job
stays as the write left it. -/
theorem tidying_step {index : Nat} {row : ExportJob}
    {before after : Config World Proc} {event : Event Action Change}
    (terminal : row.status = .completed ∨ row.status = .cancelled)
    (allowed : Undisturbed env index before event)
    (succeeds : failsAt index event = false)
    (stepEq : (machine env).step before event = some after)
    (tidying : Tidying index row before) : Tidying index row after := by
  obtain ⟨jobEq, ⟨pc, here, tidies⟩, others⟩ := tidying
  cases event with
  | env change =>
      obtain ⟨shared, changeEq, rfl⟩ := Network.step_env_iff.mp stepEq
      obtain rfl := Option.some.inj changeEq
      exact ⟨(change.apply_job before.shared).trans jobEq, ⟨pc, here, tidies⟩,
        fun other entry different entryEq => others other entry different
          ((change.apply_entry before.shared).symm.trans entryEq)⟩
  | act actor action =>
      obtain ⟨shared, proc, actEq, rfl⟩ := Network.step_act_iff.mp stepEq
      have step := actStep_of_act actEq
      -- a process that holds the entry was delivered it after the write
      have othersAfter : (∀ entry, actor ≠ index →
            before.shared.entry = some entry →
            entry.state = .active actor → ∀ pc, proc = .run pc →
              pc.knocks = true) →
          ∀ other entry, other ≠ index → shared.entry = some entry →
            entry.state = .active other →
            ∃ pc, Function.update before.procs actor proc other = .run pc ∧
              pc.knocks = true := by
        intro goesOnKnocking other entry different entryEq active
        rcases actStep_entry step entryEq active with
          ⟨entryBefore, goesOn⟩ | ⟨rfl, rfl⟩
        · obtain ⟨old, there, knocks⟩ :=
            others other entry different entryBefore active
          by_cases same : other = actor
          · subst same
            obtain ⟨next, rfl⟩ := goesOn old there
            exact ⟨next, Function.update_self _ _ _,
              goesOnKnocking entry different entryBefore active next rfl⟩
          · exact ⟨old, by rwa [Function.update_of_ne same], knocks⟩
        · exact ⟨_, Function.update_self _ _ _, rfl⟩
      by_cases same : actor = index
      · subst same
        have othersKept := othersAfter fun _ different =>
          absurd rfl different
        simp only [Undisturbed, if_true] at allowed
        rw [here] at step
        cases step with
        | run fault live =>
            have answered : ∀ kept,
                (runStep env kept before.shared pc).1.job = some row ∧
                  ∃ next, Proc.run (runStep env kept before.shared pc).2 =
                    .run next ∧ next.tidies = true := by
              intro kept
              obtain ⟨sameJob, next⟩ :=
                tidies_step env kept before.shared tidies
              exact ⟨sameJob.trans jobEq, _, rfl, next⟩
            have tidied :
                (runCall env before.shared pc fault).1.job = some row ∧
                  ∃ next, Proc.run (runCall env before.shared pc fault).2 =
                    .run next ∧ next.tidies = true := by
              cases fault with
              | none => exact answered []
              | keeping kept => exact answered kept
              | refused => simp [failsAt, Fault.fails] at succeeds
              | lost => simp [failsAt, Fault.fails] at succeeds
            obtain ⟨jobNow, next, nextEq, nextTidies⟩ := tidied
            exact ⟨jobNow, ⟨next, by simp [nextEq], nextTidies⟩, othersKept⟩
        | runCrash => exact absurd rfl allowed
        | settleReturned held =>
            exact ⟨jobEq, ⟨_, Function.update_self _ _ _, tidies⟩, othersKept⟩
        | settleThrew => cases tidies
        | stall =>
            exact ⟨jobEq, ⟨pc, Function.update_self _ _ _, tidies⟩, othersKept⟩
      · simp only [Undisturbed, if_neg same] at allowed
        have sameJob : shared.job = before.shared.job ∧
            ∀ entry, actor ≠ index → before.shared.entry = some entry →
              entry.state = .active actor → ∀ pc, proc = .run pc →
                pc.knocks = true := by
          by_cases held : ∃ entry, before.shared.entry = some entry ∧
              entry.state = .active actor
          · obtain ⟨entry, entryEq, active⟩ := held
            obtain ⟨old, there, knocks⟩ :=
              others actor entry same entryEq active
            rw [there] at step
            obtain ⟨sameJob, nextKnocks⟩ :=
              knocks_step jobEq terminal knocks step
            exact ⟨sameJob, fun _ _ _ _ => nextKnocks⟩
          · exact ⟨allowed (heldEntry_eq_none held) _ stepEq,
              fun entry _ entryEq active =>
                absurd ⟨entry, entryEq, active⟩ held⟩
        exact ⟨sameJob.1.trans jobEq,
          ⟨pc, by simpa [Function.update_of_ne (Ne.symm same)] using here,
            tidies⟩, othersAfter sameJob.2⟩

/-- A run in its `catch` block that comes to its end without another failing
call leaves the job `FAILED` in some state. -/
theorem failed_of_caught {index : Nat} {row : ExportJob} {error : AppError}
    {config target : Config World Proc} {events : List (Event Action Change)}
    (here : config.procs index = .run (.caught error))
    (rest : (machine env).Exec (Undisturbed env index) config events target)
    (succeeds : ∀ event ∈ events, failsAt index event = false)
    (ended : (target.procs index).executing = false)
    (kept : ∀ state ∈ (machine env).states config events,
      state.shared.job = some row) : row.status = .failed := by
  induction events generalizing config with
  | nil =>
      obtain rfl := rest
      rw [here] at ended
      cases ended
  | cons event events inductionHypothesis =>
      obtain ⟨allowed, middle, stepEq, remaining⟩ := rest
      have visited : (machine env).states config (event :: events) =
          config :: (machine env).states middle events := by
        simp only [Machine.states, stepEq]
      have keptLater : ∀ state ∈ (machine env).states middle events,
          state.shared.job = some row := fun state member =>
        kept state (visited ▸ List.mem_cons_of_mem _ member)
      have later : middle.procs index = .run (.caught error) →
          row.status = .failed := fun still =>
        inductionHypothesis still remaining
          (fun event member => succeeds event (List.mem_cons_of_mem _ member))
          keptLater
      cases event with
      | env change =>
          obtain ⟨shared, _, rfl⟩ := Network.step_env_iff.mp stepEq
          exact later here
      | act other action =>
          obtain ⟨shared, proc, actEq, rfl⟩ := Network.step_act_iff.mp stepEq
          by_cases same : other = index
          · subst same
            simp only [Undisturbed, if_true] at allowed
            have step := actStep_of_act actEq
            rw [here, RunPc.caught] at step
            have jobNow := keptLater _ (Machine.source_mem_states _ _)
            have jobBefore : config.shared.job = some row :=
              kept config (Machine.source_mem_states _ _)
            cases step with
            | run fault live =>
                have calledWell := succeeds _ List.mem_cons_self
                cases fault with
                | none =>
                    simp only [runCall, runStep, World.updateJob_job,
                      jobBefore, Option.map_some, Option.some.injEq] at jobNow
                    rw [← jobNow]
                | keeping keys =>
                    simp only [runCall, runStep, World.updateJob_job,
                      jobBefore, Option.map_some, Option.some.injEq] at jobNow
                    rw [← jobNow]
                | refused => simp [failsAt, Fault.fails] at calledWell
                | lost => simp [failsAt, Fault.fails] at calledWell
            | runCrash => exact absurd rfl allowed
            | stall => exact later (Function.update_self _ _ _)
          · exact later (by
              simp only [Function.update_of_ne (Ne.symm same), here])

/-- If the job keeps the row of the terminal write, no call after the write
has failed. -/
theorem succeeds_of_kept {index : Nat} {row : ExportJob}
    (terminal : row.status = .completed ∨ row.status = .cancelled)
    {config target : Config World Proc}
    {events : List (Event Action Change)}
    (tidying : Tidying index row config)
    (rest : (machine env).Exec (Undisturbed env index) config events target)
    (single : events.countP (failsAt index) ≤ 1)
    (ended : (target.procs index).executing = false)
    (kept : ∀ state ∈ (machine env).states config events,
      state.shared.job = some row) :
    ∀ event ∈ events, failsAt index event = false := by
  induction events generalizing config with
  | nil => simp
  | cons event events inductionHypothesis =>
      obtain ⟨allowed, middle, stepEq, remaining⟩ := rest
      have visited : (machine env).states config (event :: events) =
          config :: (machine env).states middle events := by
        simp only [Machine.states, stepEq]
      have keptLater : ∀ state ∈ (machine env).states middle events,
          state.shared.job = some row := fun state member =>
        kept state (visited ▸ List.mem_cons_of_mem _ member)
      rw [List.countP_cons] at single
      cases fails : failsAt index event with
      | false =>
          have tidyingLater :=
            tidying_step terminal allowed fails stepEq tidying
          simp only [fails, Bool.false_eq_true, if_false] at single
          simpa [fails] using
            inductionHypothesis tidyingLater remaining single keptLater
      | true =>
          -- the failing call is the last one, so the `catch` block succeeds
          simp only [fails, if_true] at single
          have succeeds : ∀ event ∈ events, failsAt index event = false := by
            have none : events.countP (failsAt index) = 0 := by omega
            simpa [List.countP_eq_zero] using none
          obtain ⟨_, ⟨pc, here, tidies⟩, _⟩ := tidying
          cases event with
          | env => cases fails
          | act other action =>
              cases action with
              | call fault =>
                  simp only [failsAt, Bool.and_eq_true,
                    decide_eq_true_eq] at fails
                  obtain ⟨rfl, faultFails⟩ := fails
                  obtain ⟨shared, proc, actEq, rfl⟩ :=
                    Network.step_act_iff.mp stepEq
                  have step := actStep_of_act actEq
                  rw [here] at step
                  cases step with
                  | run fault live =>
                      obtain ⟨_, error, caught⟩ :=
                        tidies_fails env config.shared tidies live faultFails
                      have inCatch : Function.update config.procs other
                          (.run (runCall env config.shared pc fault).2)
                            other = .run (.caught error) := by
                        rw [Function.update_self, caught]
                      have failed := failed_of_caught inCatch remaining
                        succeeds ended keptLater
                      rw [failed] at terminal
                      exact absurd terminal (by decide)
              | _ => cases fails

/-- A run holds its queue entry and makes its write of `COMPLETED` or
`CANCELLED`, at most one of its calls after that fails, and it comes to its
end: the job keeps the row of that write, in every later state and through the
queue's retry, exactly when no call failed. -/
theorem terminalWrite_kept_iff {source writing written target : Config World Proc}
    {events after : List (Event Action Change)} (initial : Initial env source)
    (history : (machine env).Exec Anything source events writing)
    {index : Nat} {pc : RunPc} {fault : Fault}
    (here : writing.procs index = .run pc) (concludes : pc.concludes = true)
    (held : writing.shared.heldEntry index ≠ none)
    (answered : fault.fails = false)
    (write : (machine env).step writing (.act index (.call fault)) =
      some written)
    (rest : (machine env).Exec (Undisturbed env index) written after target)
    (single : after.countP (failsAt index) ≤ 1)
    (ended : (target.procs index).executing = false) :
    (∀ state ∈ (machine env).states written after,
        state.shared.job = written.shared.job) ↔
      ∀ event ∈ after, failsAt index event = false := by
  have known := ((logOutline env Anything).preserved history
    (logOutline_initial initial)).run here
  obtain ⟨job, found⟩ : ∃ job, writing.shared.job = some job := by
    have present : ∃ terms, writing.shared.terms = some terms := by
      cases pc with
      | cancelBeforeStart => exact ⟨_, known⟩
      | writeCancelled => exact ⟨_, known.job⟩
      | writeCompleted => exact ⟨_, known.job⟩
      | _ => cases concludes
    obtain ⟨terms, termsEq⟩ := present
    obtain ⟨job, found, _⟩ := Option.map_eq_some_iff.mp termsEq
    exact ⟨job, found⟩
  obtain ⟨row, rowEq, terminal, tidying⟩ : ∃ row,
      written.shared.job = some row ∧
        (row.status = .completed ∨ row.status = .cancelled) ∧
        Tidying index row written := by
    obtain ⟨shared, proc, actEq, rfl⟩ := Network.step_act_iff.mp write
    have step := actStep_of_act actEq
    obtain ⟨entry, entryEq⟩ := Option.ne_none_iff_exists'.mp held
    obtain ⟨present, active⟩ := Option.filter_eq_some_iff.mp entryEq
    have mine : entry.state = .active index := by simpa using active
    -- the entry is still the run's own
    have alone : ∀ other entry, other ≠ index → shared.entry = some entry →
        entry.state = .active other →
        ∃ pc, Function.update writing.procs index proc other = .run pc ∧
          pc.knocks = true := by
      intro other now different entryNow activeNow
      rcases actStep_entry step entryNow activeNow with
        ⟨before, _⟩ | ⟨rfl, _⟩
      · obtain rfl := Option.some.inj (present.symm.trans before)
        rw [mine] at activeNow
        exact absurd (QueueState.active.inj activeNow).symm different
      · exact absurd rfl different
    rw [here] at step
    cases step with
    | run fault live =>
        have wrote : ∀ kept, ∃ row,
            (runStep env kept writing.shared pc).1.job = some row ∧
              (row.status = .completed ∨ row.status = .cancelled) ∧
              ∃ next, Proc.run (runStep env kept writing.shared pc).2 =
                .run next ∧ next.tidies = true := by
          intro kept
          obtain ⟨⟨row, rowEq, terminal⟩, tidies⟩ :=
            concludes_step env kept concludes found
          exact ⟨row, rowEq, terminal, _, rfl, tidies⟩
        have wroteNow : ∃ row,
            (runCall env writing.shared pc fault).1.job = some row ∧
              (row.status = .completed ∨ row.status = .cancelled) ∧
              ∃ next, Proc.run (runCall env writing.shared pc fault).2 =
                .run next ∧ next.tidies = true := by
          cases fault with
          | none => exact wrote []
          | keeping kept => exact wrote kept
          | refused => cases answered
          | lost => cases answered
        obtain ⟨row, rowEq, terminal, next, nextEq, tidies⟩ := wroteNow
        exact ⟨row, rowEq, terminal, rowEq,
          ⟨next, by simp [nextEq], tidies⟩, alone⟩
  rw [rowEq]
  constructor
  · exact succeeds_of_kept terminal tidying rest single ended
  · intro succeeds state member
    exact (rest.events.invariant_of_mem_states member
      (fun permission stepEq => tidying_step terminal permission.1
        (succeeds _ permission.2) stepEq) tidying).job

/-- An event of one process that `Undisturbed` lets it take. -/
def calmly (index : Nat) (_ : Config World Proc) : Event Action Change → Bool
  | .act other (.call _) => decide (other = index)
  | .act other .settle => decide (other = index)
  | _ => false

theorem calmly_sound {index : Nat} {config : Config World Proc}
    {event : Event Action Change} (calm : calmly index config event = true) :
    Undisturbed env index config event := by
  cases event with
  | env => cases calm
  | act other action =>
      cases action with
      | call fault =>
          simp [Undisturbed, show other = index by simpa [calmly] using calm]
      | settle =>
          simp [Undisturbed, show other = index by simpa [calmly] using calm]
      | _ => cases calm

def cancelledMidRun : List (Event Action Change) :=
  createSteps 2 ++ .act 1 .deliver :: calls 1 10 ++
    .act 2 (.request (.cancel "u")) :: calls 2 2 ++ calls 1 1

/-- The run is about to write `CANCELLED` at a batch boundary. -/
def RunPc.heeds : RunPc → Bool
  | .writeCancelled _ => true
  | _ => false

def RunPc.lists : RunPc → Bool
  | .listChunks _ _ _ => true
  | _ => false

theorem terminalWrite_kept_iff_cancelledMidRun :
    ∃ writing written target : Config World Proc,
      (machine smallEnv).Exec Anything (smallStart twoRecords)
        cancelledMidRun writing ∧
      (machine smallEnv).Exec Anything writing (calls 1 1) written ∧
      (machine smallEnv).Exec Anything written
        (calls 1 2 ++ [.act 1 .settle]) target ∧
      written.shared.status = some .cancelled ∧
      (target.procs 1).executing = false ∧
      ∀ state ∈ (machine smallEnv).states written
          (calls 1 2 ++ [.act 1 .settle]),
        state.shared.job = written.shared.job := by
  obtain ⟨writing, history, _, ends⟩ :=
    exists_history Anything twoRecords 3 (fun _ _ => true) cancelledMidRun
      (fun writing =>
        (writing.procs 1).runs RunPc.heeds &&
          writing.shared.job.isSome &&
          (writing.shared.heldEntry 1).isSome &&
          ((machine smallEnv).runChecked (calmly 1) writing
            (.act 1 (.call .none) :: (calls 1 2 ++ [.act 1 .settle]))).any
            fun target : Config World Proc =>
              !(target.procs 1).executing)
      (fun _ _ => trivial) (by decide +kernel)
  simp only [Bool.and_eq_true, Option.isSome_iff_exists,
    Option.any_eq_true, Bool.not_eq_true'] at ends
  obtain ⟨⟨⟨heeding, job, found⟩, entry, held⟩, target, runEq, ended⟩ := ends
  obtain ⟨pc, here, heeds⟩ := Proc.exists_of_runs heeding
  cases pc with
  | writeCancelled run =>
      have calm : (machine smallEnv).Exec (Undisturbed smallEnv 1) writing
          (.act 1 (.call .none) :: (calls 1 2 ++ [.act 1 .settle])) target :=
        Machine.exec_of_runChecked (fun _ => True)
          (fun _ passes => calmly_sound passes) (fun _ _ _ => trivial)
          trivial runEq
      obtain ⟨_, written, write, rest⟩ := calm
      have cancelled : written.shared.status = some .cancelled := by
        obtain ⟨shared, proc, actEq, rfl⟩ := Network.step_act_iff.mp write
        have step := actStep_of_act actEq
        rw [here] at step
        cases step with
        | run fault live => simp [runCall, runStep, World.status, found]
      have kept := (terminalWrite_kept_iff (initial_smallStart _) history here
        rfl (by simp [held]) rfl write rest (by decide) ended).mpr (by decide)
      exact ⟨writing, written, target, history,
        ⟨trivial, written, write, rfl⟩, rest.mono fun _ => trivial, cancelled,
        ended, kept⟩
  | _ => cases heeds

/-- The list request of `deleteChunks` fails after the export has been
completed and verified. -/
def tidyFails : List (Event Action Change) :=
  [.act 1 (.call (.refused "503 Slow Down"))] ++ calls 1 2

/-- A `COMPLETED` export turns into a `FAILED` one. -/
theorem completed_turns_failed :
    ∃ written target : Config World Proc,
      (machine smallEnv).Exec Anything (smallStart oneRecord)
        (createSteps 1 ++ .act 1 .deliver :: calls 1 19) written ∧
      written.shared.status = some .completed ∧
      (machine smallEnv).Exec (Undisturbed smallEnv 1) written tidyFails
        target ∧
      (target.procs 1).executing = false ∧
      target.shared.status = some .failed := by
  obtain ⟨written, history, _, ends⟩ :=
    exists_history Anything oneRecord 2 (fun _ _ => true)
      (createSteps 1 ++ .act 1 .deliver :: calls 1 19)
      (fun written =>
        decide (written.shared.status = some .completed) &&
          (written.procs 1).runs RunPc.lists)
      (fun _ _ => trivial) (by decide +kernel)
  simp only [Bool.and_eq_true, decide_eq_true_eq] at ends
  obtain ⟨completed, listing⟩ := ends
  obtain ⟨pc, here, lists⟩ := Proc.exists_of_runs listing
  cases pc with
  | listChunks outcome token deleted =>
      let error := callError "503 Slow Down"
      let caught := runStep smallEnv [] written.shared
        (.failJob error.message error (.rethrows error))
      let recorded := runStep smallEnv [] caught.1
        (.recordFailure error (.rethrows error))
      have soloEq : (network smallEnv).solo 1 written.shared
          (written.procs 1)
          [.call (.refused "503 Slow Down"), .call .none, .call .none] =
          some (recorded.1, .run recorded.2) := by
        rw [here]
        rfl
      have failed : recorded.1.status =
          written.shared.status.map fun _ => .failed :=
        written.shared.status_updateJob_set fun _ => rfl
      refine ⟨written, _, history, completed,
        Network.exec_solo (fun _ action member => ?_) soloEq, ?_, ?_⟩
      · simp only [List.mem_cons, List.not_mem_nil, or_false] at member
        rcases member with rfl | rfl | rfl <;> simp [Undisturbed]
      · simp only [Function.update_self]
        rfl
      · rw [failed, completed, Option.map_some]
  | _ => cases lists

end ExportVault
