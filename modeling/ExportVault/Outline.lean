import ExportVault.System

/-!
# Proof outlines for the system

The rely-guarantee rule at the types of the program.  An outline gives an
assertion for the runs and one for the commands; what a crash, a failed call,
the queue and the sweeper can do to them is dealt with here once, so that an
outline has to look at the statements only.
-/

namespace ExportVault

open Interleaving

/-- A failed call ends the run or leads to the `catch` block. -/
theorem RunPc.onError_cases {motive : RunPc → Prop} (pc : RunPc)
    (error : AppError) (ended : ∀ next, next.ended = true → motive next)
    (caught : ∀ error, motive (.caught error)) :
    motive (pc.onError error) := by
  cases pc with
  | failJob _ _ exit =>
      cases exit with
      | returns outcome => exact caught _
      | rethrows error => exact ended _ rfl
  | recordFailure _ exit =>
      cases exit with
      | returns outcome => exact ended _ rfl
      | rethrows error => exact ended _ rfl
  | findJob => exact ended _ rfl
  | recordMissing _ => exact ended _ rfl
  | cancelBeforeStart _ => exact ended _ rfl
  | claim _ _ => exact ended _ rfl
  | setStartedAt _ => exact ended _ rfl
  | _ => exact caught _

/-- In an outline without an owner there is nothing to claim. -/
theorem RunPc.claimed_of_unowned (pc : RunPc) (impossible : false = true) :
    pc.claimed = true := by
  cases impossible

/-- An invariant of the world with an assertion for each run and each
command. -/
structure SystemOutline (env : Env) (permitted : Condition) where
  invariant : World → Prop
  runs : World → RunPc → Prop
  commands : World → ApiPc → Prop := fun _ _ => True
  owner : RunPc → Bool := fun _ => false
  rely : World → World → Prop
  ownerRely : World → World → Prop := fun _ _ => False
  invariant_passive : ∀ {before after}, before.SameExport after →
    invariant before → invariant after
  rely_passive : ∀ {before after}, before.SameExport after →
    rely before after
  stable_runs : ∀ {before after pc}, rely before after →
    runs before pc → runs after pc
  stable_commands : ∀ {before after pc}, rely before after →
    commands before pc → commands after pc := by intros; trivial
  owner_stable_runs : ∀ {before after pc}, ownerRely before after →
    owner pc = false → runs before pc → runs after pc := by
      intro _ _ _ impossible; cases impossible
  owner_stable_commands : ∀ {before after pc}, ownerRely before after →
    commands before pc → commands after pc := by intros; trivial
  runs_findJob : ∀ world, runs world .findJob
  runs_ended : ∀ world pc, pc.ended = true → runs world pc
  runs_caught : ∀ world error, runs world (.caught error)
  commands_begin : ∀ world request,
    commands world (Request.begin request) := by intros; trivial
  commands_threw : ∀ world error, commands world (.threw error) := by
    intros; trivial
  commands_crashed : ∀ world, commands world .crashed := by intros; trivial
  owner_claimed : ∀ pc, owner pc = true → pc.claimed = true := by
    exact RunPc.claimed_of_unowned
  exclusive : ∀ {config index fault pc},
    permitted config (.act index (.call fault)) →
    config.procs index = .run pc → pc.ended = false →
    owner (runCall env config.shared pc fault).2 = true → owner pc = false →
    ∀ other otherPc, other ≠ index → config.procs other = .run otherPc →
      owner otherPc = false := by
      intro _ _ _ _ _ _ _ impossible; cases impossible
  run_sound : ∀ {config index fault pc kept},
    permitted config (.act index (.call fault)) →
    config.procs index = .run pc → pc.ended = false →
    invariant config.shared → runs config.shared pc →
    invariant (runStep env kept config.shared pc).1 ∧
      runs (runStep env kept config.shared pc).1
        (runStep env kept config.shared pc).2 ∧
      (rely config.shared (runStep env kept config.shared pc).1 ∨
        owner pc = true ∧
          ownerRely config.shared (runStep env kept config.shared pc).1)
  command_sound : ∀ {config index fault pc},
    permitted config (.act index (.call fault)) →
    config.procs index = .api pc → pc.ended = false →
    invariant config.shared → commands config.shared pc →
    invariant (apiStep env config.shared pc).1 ∧
      commands (apiStep env config.shared pc).1
        (apiStep env config.shared pc).2 ∧
      rely config.shared (apiStep env config.shared pc).1
  sweep_sound : ∀ {config index fault pc},
    permitted config (.act index (.call fault)) →
    config.procs index = .sweep pc →
    invariant config.shared →
    invariant (sweepStep env config.shared pc).1 ∧
      rely config.shared (sweepStep env config.shared pc).1
  change_sound : ∀ {config change},
    permitted config (.env change) →
    invariant config.shared →
    invariant (change.apply config.shared) ∧
      (∀ index pc, config.procs index = .run pc →
        runs config.shared pc → runs (change.apply config.shared) pc) ∧
      (∀ index pc, config.procs index = .api pc →
        commands config.shared pc →
          commands (change.apply config.shared) pc)

namespace SystemOutline

variable {env : Env} {permitted : Condition}

def assertion (outline : SystemOutline env permitted) (world : World) :
    Proc → Prop
  | .run pc => outline.runs world pc
  | .api pc => outline.commands world pc
  | _ => True

def owning (outline : SystemOutline env permitted) : Proc → Prop
  | .run pc => outline.owner pc = true
  | _ => False

theorem rely_refl (outline : SystemOutline env permitted) (world : World) :
    outline.rely world world :=
  outline.rely_passive (.refl world)

theorem runs_onError (outline : SystemOutline env permitted) (world : World)
    (pc : RunPc) (error : AppError) :
    outline.runs world (pc.onError error) :=
  RunPc.onError_cases pc error (outline.runs_ended world)
    (outline.runs_caught world)

theorem not_owning_of_ended (outline : SystemOutline env permitted)
    {pc : RunPc} (ended : pc.ended = true) : ¬ outline.owning (.run pc) := by
  intro owns
  have claimed := outline.owner_claimed pc owns
  cases pc <;> simp_all [RunPc.claimed, RunPc.ended]

theorem runCall_sound (outline : SystemOutline env permitted)
    {config : Config World Proc} {index : Nat} {fault : Fault} {pc : RunPc}
    (allowed : permitted config (.act index (.call fault)))
    (here : config.procs index = .run pc) (live : pc.ended = false)
    (holds : outline.invariant config.shared)
    (assertion : outline.runs config.shared pc) :
    outline.invariant (runCall env config.shared pc fault).1 ∧
      outline.runs (runCall env config.shared pc fault).1
        (runCall env config.shared pc fault).2 ∧
      (outline.rely config.shared (runCall env config.shared pc fault).1 ∨
        outline.owner pc = true ∧ outline.ownerRely config.shared
          (runCall env config.shared pc fault).1) := by
  apply runCall_cases (motive := fun result =>
    outline.invariant result.1 ∧ outline.runs result.1 result.2 ∧
      (outline.rely config.shared result.1 ∨
        outline.owner pc = true ∧
          outline.ownerRely config.shared result.1)) fault
  · intro kept
    exact outline.run_sound allowed here live holds assertion
  · intro error
    exact ⟨holds, outline.runs_onError _ _ _, .inl (outline.rely_refl _)⟩
  · intro error
    exact
      ⟨(outline.run_sound allowed here live holds assertion).1,
        outline.runs_onError _ _ _,
        (outline.run_sound allowed here live holds assertion).2.2⟩

theorem apiCall_sound (outline : SystemOutline env permitted)
    {config : Config World Proc} {index : Nat} {fault : Fault} {pc : ApiPc}
    (allowed : permitted config (.act index (.call fault)))
    (here : config.procs index = .api pc) (live : pc.ended = false)
    (holds : outline.invariant config.shared)
    (assertion : outline.commands config.shared pc) :
    outline.invariant (apiCall env config.shared pc fault).1 ∧
      outline.commands (apiCall env config.shared pc fault).1
        (apiCall env config.shared pc fault).2 ∧
      outline.rely config.shared
        (apiCall env config.shared pc fault).1 := by
  obtain ⟨holdsAfter, assertionAfter, changed⟩ :=
    outline.command_sound allowed here live holds assertion
  apply apiCall_cases (motive := fun result =>
    outline.invariant result.1 ∧ outline.commands result.1 result.2 ∧
      outline.rely config.shared result.1) fault
  · exact ⟨holdsAfter, assertionAfter, changed⟩
  · intro error
    exact ⟨holds, outline.commands_threw _ _, outline.rely_refl _⟩
  · intro error
    exact ⟨holdsAfter, outline.commands_threw _ _, changed⟩

theorem sweepCall_sound (outline : SystemOutline env permitted)
    {config : Config World Proc} {index : Nat} {fault : Fault} {pc : SweepPc}
    (allowed : permitted config (.act index (.call fault)))
    (here : config.procs index = .sweep pc)
    (holds : outline.invariant config.shared) :
    outline.invariant (sweepCall env config.shared pc fault).1 ∧
      outline.rely config.shared
        (sweepCall env config.shared pc fault).1 := by
  have sound := outline.sweep_sound allowed here holds
  apply sweepCall_cases (motive := fun result =>
    outline.invariant result.1 ∧
      outline.rely config.shared result.1) fault
  · exact sound
  · exact ⟨holds, outline.rely_refl _⟩
  · exact sound

/-- A step of a process other than a call changes nothing the outline looks
at, or begins or ends a process. -/
theorem act_sound (outline : SystemOutline env permitted)
    {config : Config World Proc} {index : Nat} {action : Action}
    {shared : World} {proc : Proc}
    (allowed : permitted config (.act index action))
    (step : ActStep env index config.shared (config.procs index) action
      shared proc)
    (holds : outline.invariant config.shared)
    (assertions : ∀ other,
      outline.assertion config.shared (config.procs other)) :
    outline.invariant shared ∧ outline.assertion shared proc ∧
      (outline.rely config.shared shared ∨
        outline.owning (config.procs index) ∧
          outline.ownerRely config.shared shared) := by
  have own := assertions index
  generalize here : config.procs index = before at step own
  have entryOnly : ∀ {entry : Option QueueEntry} {next : Proc},
      outline.assertion config.shared next →
      outline.invariant (config.shared.setEntry entry) ∧
        outline.assertion (config.shared.setEntry entry) next ∧
        (outline.rely config.shared (config.shared.setEntry entry) ∨
          outline.owning before ∧ outline.ownerRely config.shared
            (config.shared.setEntry entry)) := by
    intro entry next assertion
    have same := config.shared.sameExport_setEntry entry
    refine ⟨outline.invariant_passive same holds, ?_,
      .inl (outline.rely_passive same)⟩
    cases next with
    | run pc => exact outline.stable_runs (outline.rely_passive same) assertion
    | api pc =>
        exact outline.stable_commands (outline.rely_passive same) assertion
    | _ => trivial
  have unchanged : outline.rely config.shared config.shared ∨
      outline.owning before ∧
        outline.ownerRely config.shared config.shared :=
    .inl (outline.rely_refl _)
  cases step with
  | start => exact ⟨holds, outline.runs_findJob _, unchanged⟩
  | deliver ready => exact entryOnly (outline.runs_findJob _)
  | request request => exact ⟨holds, outline.commands_begin _ _, unchanged⟩
  | beginSweep => exact ⟨holds, trivial, unchanged⟩
  | run fault live => exact outline.runCall_sound allowed here live holds own
  | runCrash live => exact ⟨holds, outline.runs_ended _ _ rfl, unchanged⟩
  | settleReturned held => exact entryOnly own
  | settleThrew held => exact entryOnly trivial
  | stall held => exact entryOnly own
  | api fault live =>
      obtain ⟨holdsAfter, assertion, changed⟩ :=
        outline.apiCall_sound allowed here live holds own
      exact ⟨holdsAfter, assertion, .inl changed⟩
  | apiCrash live => exact ⟨holds, outline.commands_crashed _, unchanged⟩
  | sweep fault =>
      obtain ⟨holdsAfter, changed⟩ :=
        outline.sweepCall_sound allowed here holds
      exact ⟨holdsAfter, trivial, .inl changed⟩
  | sweepCrash => exact ⟨holds, trivial, unchanged⟩
  | queueFailed fault same entry =>
      exact ⟨outline.invariant_passive same holds, trivial,
        .inl (outline.rely_passive same)⟩
  | queueFailedCrash => exact ⟨holds, trivial, unchanged⟩

/-- Only a call makes a run the owner. -/
theorem exclusive_act (outline : SystemOutline env permitted)
    {config : Config World Proc} {index : Nat} {action : Action}
    {shared : World} {proc : Proc}
    (allowed : permitted config (.act index action))
    (step : ActStep env index config.shared (config.procs index) action
      shared proc)
    (owns : outline.owning proc)
    (ownedNot : ¬ outline.owning (config.procs index)) :
    ∀ other, other ≠ index → ¬ outline.owning (config.procs other) := by
  generalize here : config.procs index = before at step ownedNot
  have notFirst : ¬ outline.owning (.run .findJob) := by
    intro owned
    exact absurd (outline.owner_claimed _ owned) (by decide)
  cases step with
  | run fault live =>
      intro other different ownedThere
      generalize there : config.procs other = otherProc at ownedThere
      cases otherProc with
      | run otherPc =>
          have free := outline.exclusive allowed here live owns
            (by simpa [owning] using ownedNot) other otherPc different there
          exact absurd ownedThere (by simp [owning, free])
      | _ => exact ownedThere
  | start => exact absurd owns notFirst
  | deliver ready => exact absurd owns notFirst
  | runCrash live => exact absurd owns (outline.not_owning_of_ended rfl)
  | settleReturned held => exact absurd owns ownedNot
  | stall held => exact absurd owns ownedNot
  | _ => exact absurd owns (by simp [owning])

def toProofOutline (outline : SystemOutline env permitted) :
    ProofOutline (network env) permitted where
  invariant := outline.invariant
  assertion := outline.assertion
  owner := outline.owning
  rely := outline.rely
  ownerRely := outline.ownerRely
  exclusive allowed stepEq :=
    outline.exclusive_act allowed (actStep_of_act stepEq)
  act_sound allowed stepEq :=
    outline.act_sound allowed (actStep_of_act stepEq)
  env_sound := by
    intro config change shared allowed changeEq holds assertions
    obtain rfl := Option.some.inj changeEq
    obtain ⟨holdsAfter, runsAfter, commandsAfter⟩ :=
      outline.change_sound allowed holds
    refine ⟨holdsAfter, fun other => ?_⟩
    have own := assertions other
    generalize here : config.procs other = proc at own
    cases proc with
    | run pc => exact runsAfter other pc here own
    | api pc => exact commandsAfter other pc here own
    | _ => trivial
  stable := by
    intro before after proc changed assertion
    cases proc with
    | run pc => exact outline.stable_runs changed assertion
    | api pc => exact outline.stable_commands changed assertion
    | _ => trivial
  owner_stable := by
    intro before after proc changed ownedNot assertion
    cases proc with
    | run pc =>
        exact outline.owner_stable_runs changed
          (by simpa [owning] using ownedNot) assertion
    | api pc => exact outline.owner_stable_commands changed assertion
    | _ => trivial

def Holds (outline : SystemOutline env permitted)
    (config : Config World Proc) : Prop :=
  outline.toProofOutline.Holds config

/-- Initially no process has begun. -/
theorem holds_of_idle (outline : SystemOutline env permitted)
    {config : Config World Proc}
    (idle : ∀ index, config.procs index = .idle)
    (holds : outline.invariant config.shared) : outline.Holds config := by
  refine ⟨holds, fun index => ?_, fun first _ owned => ?_⟩
  · rw [idle index]
    trivial
  · rw [idle first] at owned
    exact absurd owned id

theorem Holds.run {outline : SystemOutline env permitted}
    {config : Config World Proc} (holds : outline.Holds config)
    {index : Nat} {pc : RunPc} (here : config.procs index = .run pc) :
    outline.runs config.shared pc := by
  have assertion := holds.2.1 index
  rwa [here] at assertion

theorem Holds.command {outline : SystemOutline env permitted}
    {config : Config World Proc} (holds : outline.Holds config)
    {index : Nat} {pc : ApiPc} (here : config.procs index = .api pc) :
    outline.commands config.shared pc := by
  have assertion := holds.2.1 index
  rwa [here] at assertion

/-- What an outline establishes may be assumed at every step of a history. -/
theorem strengthen (outline : SystemOutline env permitted)
    {source target : Config World Proc}
    {events : List (Event Action Change)}
    (execution : (machine env).Exec permitted source events target)
    (initial : outline.Holds source) :
    (machine env).Exec
      (fun config event => permitted config event ∧ outline.Holds config)
      source events target :=
  execution.strengthen outline.toProofOutline.step_preserved initial

theorem preserved (outline : SystemOutline env permitted)
    {source target : Config World Proc}
    {events : List (Event Action Change)}
    (execution : (machine env).Exec permitted source events target)
    (initial : outline.Holds source) : outline.Holds target :=
  outline.toProofOutline.preserved execution initial

end SystemOutline

end ExportVault
