import ExportVault.Guards
import ExportVault.Outline

/-!
# One writer at a time

`claimJob` is an atomic conditional update of the status, and everybody writes
the status.  At most one run owns the job as long as no command reopens it
over a run that owns it, and nobody claims a `FAILED` job whose run is still
recording the failure (`owner_unique`).
-/

namespace ExportVault

open Interleaving

/-- While a run owns the job and it is `RUNNING`, the heartbeat has not
expired. -/
def Heartbeats (env : Env) : Condition := fun config _ =>
  ∀ index job, (config.procs index).owning = true →
    config.shared.job = some job → job.status = .running →
    env.staleCutoff config.shared < job.updatedAt

def ExportStatus.reopens : ExportStatus → Bool
  | .queued => true
  | .resuming => true
  | _ => false

/-- A command writes `QUEUED` or `RESUMING` only when no run owns the job. -/
def ReopensFree : Condition := fun config event =>
  ∀ index action pc status, event = .act index action →
    config.procs index = .api pc →
    (config.procs index).writes config.shared action = some status →
    status.reopens = true →
    ∀ other, (config.procs other).owning = false

def RunPc.failing : RunPc → Bool
  | .failJob _ _ _ => true
  | .recordFailure _ _ => true
  | _ => false

/-- A `FAILED` job is claimed only after the run that failed has recorded its
failure. -/
def FailureRecorded : Condition := fun config event =>
  ∀ index fault job staleCutoff, event = .act index (.call fault) →
    config.procs index = .run (.claim job staleCutoff) →
    config.shared.status = some .failed →
    ∀ other pc, config.procs other = .run pc → pc.failing = false

/-- The conditions under which there is at most one owner. -/
def Exclusively (env : Env) : Condition := fun config event =>
  Heartbeats env config event ∧ ReopensFree config event ∧
    FailureRecorded config event

def Proc.cutoff : Proc → Option Int
  | .run (.claim _ staleCutoff) => some staleCutoff
  | .sweep (.findStalled cutoff) => some cutoff
  | .sweep (.markInterrupted cutoff _) => some cutoff
  | _ => none

/-- The cutoffs that processes have computed lie before the present one. -/
def CutoffsPast (env : Env) (config : Config World Proc) : Prop :=
  ∀ index cutoff, (config.procs index).cutoff = some cutoff →
    cutoff ≤ env.staleCutoff config.shared

variable {env : Env} {world after : World}

theorem cutoff_onError (pc : RunPc) (error : AppError) :
    (Proc.run (pc.onError error)).cutoff = none := by
  apply RunPc.onError_cases (motive := fun next =>
    (Proc.run next).cutoff = none)
  · intro next ended
    cases next <;> first | rfl | cases ended
  · exact fun _ => rfl

theorem cutoff_afterFindJob {cutoff : Int}
    (computed : (Proc.run (afterFindJob env world)).cutoff = some cutoff) :
    cutoff = env.staleCutoff world := by
  simp only [afterFindJob] at computed
  repeat' split at computed
  all_goals first | exact (Option.some.inj computed).symm | cases computed

/-- A run computes its cutoff with its first statement. -/
theorem cutoff_runStep {kept : List String} {pc : RunPc} {cutoff : Int}
    (live : pc.ended = false)
    (computed : (Proc.run (runStep env kept world pc).2).cutoff =
      some cutoff) : cutoff = env.staleCutoff world := by
  have looped : ∀ run : Progress,
      (Proc.run (.loopTop run)).cutoff = none := by
    intro run
    exact RunPc.loopTop_cases (motive := fun next =>
      (Proc.run next).cutoff = none) run (fun _ => rfl) (fun _ _ => rfl)
      fun _ => rfl
  have paged : ∀ (outcome : RunOutcome) (token : Option String)
      (deleted : Nat),
      (Proc.run (.nextPage outcome token deleted)).cutoff = none := by
    intro outcome token deleted
    exact RunPc.nextPage_cases (motive := fun next =>
      (Proc.run next).cutoff = none) outcome token deleted rfl fun _ => rfl
  have assembled : ∀ (run : Progress) (batchCount number : Int)
      (body : Bytes),
      (Proc.run (.assembleFrom run batchCount number body)).cutoff =
        none := by
    intro run batchCount number body
    rw [RunPc.assembleFrom]
    split <;> rfl
  have never : (Proc.run (runStep env kept world pc).2).cutoff = none →
      cutoff = env.staleCutoff world := by
    intro none
    rw [none] at computed
    cases computed
  cases pc with
  | findJob => exact cutoff_afterFindJob computed
  | returned | threw | crashed => cases live
  | reconcile => exact never (looped _)
  | deletePage => exact never (paged _ _ _)
  | writeVerifying => exact never (assembled _ _ _ _)
  | readProgress | commitBatch =>
      apply never
      simp only [runStep, commitStep]
      split
      · first | exact looped _ | rfl
      · first | exact looped _ | rfl
  | readChunk =>
      apply never
      simp only [runStep]
      split
      · rfl
      · exact assembled _ _ _ _
  | listChunks =>
      apply never
      simp only [runStep]
      split
      · rfl
      · exact paged _ _ _
  | recordFailure error exit => cases exit <;> exact never rfl
  | _ =>
      apply never
      simp only [runStep, claimStep, confirmStep, finalStep]
      repeat' split
      all_goals rfl

/-- A process keeps its cutoff, forgets it, or computes the present one. -/
theorem actStep_cutoff {index : Nat} {proc next : Proc} {action : Action}
    {cutoff : Int} (step : ActStep env index world proc action after next)
    (computed : next.cutoff = some cutoff) :
    proc.cutoff = some cutoff ∨ cutoff = env.staleCutoff world := by
  cases step with
  | beginSweep => exact .inr (Option.some.inj computed).symm
  | @run pc fault live =>
      right
      have thrown : ∀ error, (Proc.run (pc.onError error)).cutoff ≠
          some cutoff := by
        intro error
        rw [cutoff_onError]
        simp
      cases fault with
      | none => exact cutoff_runStep live computed
      | keeping kept => exact cutoff_runStep live computed
      | refused message => exact absurd computed (thrown _)
      | lost message => exact absurd computed (thrown _)
  | @sweep pc fault =>
      left
      have kept : (Proc.sweep (sweepStep env world pc).2).cutoff =
          some cutoff → (Proc.sweep pc).cutoff = some cutoff := by
        intro computed
        cases pc with
        | findStalled cutoff =>
            simp only [sweepStep] at computed
            repeat' split at computed
            all_goals first | exact computed | cases computed
        | markInterrupted cutoff message =>
            simp only [sweepStep] at computed
            split at computed <;> cases computed
        | _ => cases computed
      cases fault with
      | none => exact kept computed
      | keeping keys => exact kept computed
      | refused message => cases computed
      | lost message => cases computed
  | settleReturned held => exact .inl computed
  | stall held => exact .inl computed
  | _ => cases computed

theorem cutoffsPast_step {before after : Config World Proc}
    {event : Event Action Change}
    (stepEq : (machine env).step before event = some after)
    (past : CutoffsPast env before) : CutoffsPast env after := by
  cases event with
  | env change =>
      obtain ⟨shared, changeEq, rfl⟩ := Network.step_env_iff.mp stepEq
      obtain rfl := Option.some.inj changeEq
      intro index cutoff computed
      have later : env.staleCutoff before.shared ≤
          env.staleCutoff (change.apply before.shared) := by
        cases change with
        | tick milliseconds =>
            simp only [Env.staleCutoff, Change.apply]
            omega
        | setRecords table => exact le_refl _
      exact le_trans (past index cutoff computed) later
  | act index action =>
      obtain ⟨shared, proc, actEq, rfl⟩ := Network.step_act_iff.mp stepEq
      have step := actStep_of_act actEq
      have same : env.staleCutoff shared = env.staleCutoff before.shared := by
        rw [Env.staleCutoff, actStep_now step, Env.staleCutoff]
      intro other cutoff computed
      rw [same]
      by_cases mine : other = index
      · subst mine
        simp only [Function.update_self] at computed
        rcases actStep_cutoff step computed with kept | present
        · exact past other cutoff kept
        · exact le_of_eq present
      · simp only [Function.update_of_ne mine] at computed
        exact past other cutoff computed

/-! ## The owner -/

def RunPc.holdsUnder (pc : RunPc) : ExportStatus → Bool
  | .running => true
  | .verifying => true
  | .completed => true
  | .cancelled => true
  | .failed => pc.failing
  | _ => false

/-- At most one run owns the job, and the job has a status its owner leaves
it in. -/
structure Exclusive (config : Config World Proc) : Prop where
  unique : ∀ first second, (config.procs first).owning = true →
    (config.procs second).owning = true → first = second
  status : ∀ index pc, config.procs index = .run pc → pc.claimed = true →
    ∃ status, config.shared.status = some status ∧
      pc.holdsUnder status = true

/-- A run that reports its failure goes on to do so, or is over. -/
theorem failing_call {pc : RunPc} (fault : Fault)
    (failing : pc.failing = true)
    (owns : (runCall env world pc fault).2.claimed = true) :
    (runCall env world pc fault).2.failing = true := by
  cases pc with
  | failJob reason error exit =>
      cases fault with
      | none => rfl
      | keeping kept => rfl
      | refused message => cases exit <;> first | rfl | cases owns
      | lost message => cases exit <;> first | rfl | cases owns
  | recordFailure error exit =>
      cases fault <;> cases exit <;> cases owns
  | _ => cases failing

/-- The owner leaves the job in a status of its own. -/
theorem holdsUnder_call {pc : RunPc} {status : ExportStatus} (fault : Fault)
    (own : pc.claimed = true) (current : world.status = some status)
    (held : pc.holdsUnder status = true)
    (owns : (runCall env world pc fault).2.claimed = true) :
    ∃ status, (runCall env world pc fault).1.status = some status ∧
      (runCall env world pc fault).2.holdsUnder status = true := by
  have still : (runCall env world pc fault).2.holdsUnder status = true := by
    cases status with
    | failed => exact failing_call fault held owns
    | running | verifying | completed | cancelled => rfl
    | _ => cases held
  have wrote : SetsStatus pc.sets world (runCall env world pc fault).1 :=
    runCall_cases (motive := fun result =>
      SetsStatus pc.sets world result.1) fault
      (fun kept => runStep_status env kept world pc) (fun _ => .inl rfl)
      fun _ => runStep_status env [] world pc
  rcases wrote with same | ⟨written, sets, mapped⟩
  · exact ⟨status, same.trans current, still⟩
  · refine ⟨written, by rw [mapped, current, Option.map_some], ?_⟩
    cases pc with
    | writeCancelled | writeVerifying | writeCompleted =>
        obtain rfl := Option.some.inj sets
        rfl
    | failJob reason error exit =>
        obtain rfl := Option.some.inj sets
        exact failing_call fault rfl owns
    | cancelBeforeStart | claim => cases own
    | _ => cases sets

/-- A job that a live run owns cannot be claimed. -/
theorem not_claimable {config : Config World Proc} {owner : Nat} {pc : RunPc}
    {index : Nat} {fault : Fault} {job : ExportJob} {staleCutoff : Int}
    (allowed : Exclusively env config (.act index (.call fault)))
    (past : CutoffsPast env config)
    (here : config.procs index = .run (.claim job staleCutoff))
    (there : config.procs owner = .run pc) (owns : pc.claimed = true)
    {status : ExportStatus} (current : config.shared.status = some status)
    (held : pc.holdsUnder status = true) :
    config.shared.job.any (claimable staleCutoff) = false := by
  obtain ⟨row, found, rfl⟩ := Option.map_eq_some_iff.mp current
  rw [found, Option.any_some, claimable, Bool.or_eq_false_iff]
  cases statusEq : row.status with
  | running =>
      have heartbeat := allowed.1 owner row (by rw [there]; exact owns) found
        statusEq
      have cutoff := past index staleCutoff (by rw [here]; rfl)
      refine ⟨rfl, ?_⟩
      simp only [decide_true, Bool.true_and, decide_eq_false_iff_not, not_lt]
      omega
  | failed =>
      have recorded := allowed.2.2 index fault job staleCutoff rfl here
        (by rw [World.status, found, Option.map_some, statusEq]) owner pc
        there
      rw [statusEq] at held
      exact absurd (held.symm.trans recorded) (by simp)
  | verifying | completed | cancelled => exact ⟨rfl, rfl⟩
  | _ =>
      rw [statusEq] at held
      cases held

/-- Only a successful claim makes a run the owner. -/
theorem owning_step {index : Nat} {proc next : Proc} {action : Action}
    (step : ActStep env index world proc action after next)
    (owns : next.owning = true) :
    proc.owning = true ∨
      ∃ fault job staleCutoff, action = .call fault ∧
        proc = .run (.claim job staleCutoff) ∧
        world.job.any (claimable staleCutoff) = true ∧
        after.status = some .running := by
  cases step with
  | @run pc fault live =>
      cases owned : pc.claimed with
      | true => exact .inl owned
      | false =>
          right
          obtain ⟨job, staleCutoff, rfl⟩ :=
            claims_of_claimed fault live owns owned
          refine ⟨fault, job, staleCutoff, rfl, rfl, ?_⟩
          have claims : (claimStep env world job staleCutoff).2.claimed =
              true →
              world.job.any (claimable staleCutoff) = true ∧
                (claimStep env world job staleCutoff).1.status =
                  some .running := by
            intro claimed
            simp only [claimStep] at claimed ⊢
            split
            · next free =>
                refine ⟨free, ?_⟩
                obtain ⟨row, found, _⟩ := (Option.any_eq_true _ _).mp free
                simp [World.status, found]
            · next taken =>
                rw [if_neg taken] at claimed
                cases claimed
          cases fault with
          | none => exact claims owns
          | keeping kept => exact claims owns
          | refused message => cases owns
          | lost message => cases owns
  | settleReturned held => cases owns
  | stall held => exact .inl owns
  | _ => cases owns

/-- Whatever a process writes while another one owns the job leaves it in a
status of the owner. -/
theorem foreign_write {config : Config World Proc} {index owner : Nat}
    {action : Action} {pc : RunPc} {status written : ExportStatus}
    (allowed : Exclusively env config (.act index action))
    (past : CutoffsPast env config) (exclusive : Exclusive config)
    (different : owner ≠ index) (there : config.procs owner = .run pc)
    (owns : pc.claimed = true)
    (current : config.shared.status = some status)
    (held : pc.holdsUnder status = true)
    (writes : (config.procs index).writes config.shared action =
      some written) : pc.holdsUnder written = true := by
  have ownsToo : (config.procs owner).owning = true := by
    rw [there]
    exact owns
  have reopens := allowed.2.1 index action
  generalize here : config.procs index = proc at writes reopens
  cases proc with
  | run mine =>
      have free : mine.claimed = false := by
        rw [← Bool.not_eq_true]
        intro claimed
        exact different (exclusive.unique _ _ ownsToo
          (by rw [here]; exact claimed))
      cases mine with
      | cancelBeforeStart job =>
          cases action with
          | call fault => cases fault <;> cases writes <;> rfl
          | _ => cases writes
      | claim job staleCutoff =>
          cases action with
          | call fault =>
              have taken := not_claimable allowed past here there owns
                current held
              cases fault <;> simp [Proc.writes, RunPc.writes, taken]
                at writes
          | _ => cases writes
      | findJob | recordMissing | returned | threw | crashed =>
          cases action with
          | call fault => cases fault <;> cases writes
          | _ => cases writes
      | _ => cases free
  | api mine =>
      have reopensNot : written.reopens = false := by
        rw [← Bool.not_eq_true]
        intro reopened
        have free := reopens mine written rfl rfl writes reopened owner
        rw [ownsToo] at free
        cases free
      have sets : mine.sets = some written := by
        cases action with
        | call fault => cases fault <;> first | exact writes | cases writes
        | _ => cases writes
      cases mine with
      | writeQueued | writeResuming =>
          obtain rfl := Option.some.inj sets
          cases reopensNot
      | writeCancel job =>
          simp only [ApiPc.sets] at sets
          split at sets
          · cases sets
          · obtain rfl := Option.some.inj sets
            rfl
      | _ => cases sets
  | sweep mine =>
      cases mine with
      | markInterrupted cutoff message =>
          have fresh : config.shared.job.any (stalled cutoff) = false := by
            obtain ⟨row, found, rfl⟩ := Option.map_eq_some_iff.mp current
            rw [found, Option.any_some, stalled]
            by_cases running : row.status = .running
            · have heartbeat := allowed.1 owner row ownsToo found running
              have cutoffPast := past index cutoff (by rw [here]; rfl)
              rw [Bool.and_eq_false_iff]
              right
              simp only [decide_eq_false_iff_not, not_lt]
              omega
            · simp [running]
          cases action with
          | call fault =>
              cases fault <;> simp [Proc.writes, SweepPc.writes, fresh]
                at writes
          | _ => cases writes
      | _ =>
          cases action with
          | call fault => cases fault <;> cases writes
          | _ => cases writes
  | _ =>
      cases action with
      | call fault => cases fault <;> cases writes
      | _ => cases writes

theorem exclusive_act {config : Config World Proc} {index : Nat}
    {action : Action} {shared : World} {proc : Proc}
    (allowed : Exclusively env config (.act index action))
    (past : CutoffsPast env config) (exclusive : Exclusive config)
    (step : ActStep env index config.shared (config.procs index) action
      shared proc) :
    Exclusive ⟨shared, Function.update config.procs index proc⟩ := by
  -- a claim succeeds only when nobody else owns the job
  have alone : proc.owning = true → ∀ other, other ≠ index →
      (config.procs other).owning = false := by
    intro owns other different
    rw [← Bool.not_eq_true]
    intro ownsToo
    rcases owning_step step owns with
      before | ⟨fault, job, staleCutoff, rfl, here, free, _⟩
    · exact different (exclusive.unique _ _ ownsToo before)
    · generalize there : config.procs other = otherProc at ownsToo
      cases otherProc with
      | run pc =>
          obtain ⟨status, current, held⟩ := exclusive.status other pc there
            ownsToo
          have taken := not_claimable allowed past here there ownsToo
            current held
          rw [taken] at free
          cases free
      | _ => cases ownsToo
  constructor
  · intro first second ownsFirst ownsSecond
    by_cases firstHere : first = index
    · by_cases secondHere : second = index
      · rw [firstHere, secondHere]
      · subst firstHere
        simp only [Function.update_self, Function.update_of_ne secondHere]
          at ownsFirst ownsSecond
        rw [alone ownsFirst second secondHere] at ownsSecond
        cases ownsSecond
    · simp only [Function.update_of_ne firstHere] at ownsFirst
      by_cases secondHere : second = index
      · subst secondHere
        simp only [Function.update_self] at ownsSecond
        rw [alone ownsSecond first firstHere] at ownsFirst
        cases ownsFirst
      · simp only [Function.update_of_ne secondHere] at ownsSecond
        exact exclusive.unique _ _ ownsFirst ownsSecond
  · intro other pc there owns
    by_cases here : other = index
    · subst here
      simp only [Function.update_self] at there
      generalize mine : config.procs other = old at step
      subst there
      cases step with
      | @run pc fault live =>
          cases owned : pc.claimed with
          | true =>
              obtain ⟨status, current, held⟩ :=
                exclusive.status other pc mine owned
              exact holdsUnder_call fault owned current held owns
          | false =>
              rcases owning_step
                  (@ActStep.run env other config.shared pc fault live) owns with
                before | ⟨_, _, _, _, _, _, running⟩
              · rw [Proc.owning, owned] at before
                cases before
              · exact ⟨_, running, rfl⟩
      | settleReturned held => cases owns
      | stall held => exact exclusive.status other pc mine owns
      | _ => cases owns
    · simp only [Function.update_of_ne here] at there
      obtain ⟨status, current, held⟩ := exclusive.status other pc there owns
      have present : config.shared.job ≠ none := by
        intro absent
        rw [World.status, absent] at current
        cases current
      rcases actStep_writes present step with same | ⟨written, writes, mapped⟩
      · exact ⟨status, same.trans current, held⟩
      · refine ⟨written, by rw [mapped, current, Option.map_some], ?_⟩
        exact foreign_write allowed past exclusive here there owns current
          held writes

theorem exclusive_step {before after : Config World Proc}
    {event : Event Action Change} (allowed : Exclusively env before event)
    (stepEq : (machine env).step before event = some after)
    (holds : CutoffsPast env before ∧ Exclusive before) :
    CutoffsPast env after ∧ Exclusive after := by
  obtain ⟨past, exclusive⟩ := holds
  refine ⟨cutoffsPast_step stepEq past, ?_⟩
  cases event with
  | env change =>
      obtain ⟨shared, changeEq, rfl⟩ := Network.step_env_iff.mp stepEq
      obtain rfl := Option.some.inj changeEq
      refine ⟨exclusive.unique, fun index pc here owns => ?_⟩
      rw [change.apply_status]
      exact exclusive.status index pc here owns
  | act index action =>
      obtain ⟨shared, proc, actEq, rfl⟩ := Network.step_act_iff.mp stepEq
      exact exclusive_act allowed past exclusive (actStep_of_act actEq)

/-- At no time do two live runs own the job. -/
theorem owner_unique {source target : Config World Proc}
    {events : List (Event Action Change)} (initial : Initial env source)
    (history : (machine env).Exec (Exclusively env) source events target)
    {first second : Nat} (ownsFirst : (target.procs first).owning = true)
    (ownsSecond : (target.procs second).owning = true) : first = second := by
  have start : CutoffsPast env source ∧ Exclusive source := by
    refine ⟨fun index cutoff computed => ?_, fun first _ owns => ?_,
      fun index pc here => ?_⟩
    · rw [initial.idle index] at computed
      cases computed
    · rw [initial.idle first] at owns
      cases owns
    · rw [initial.idle index] at here
      cases here
  exact (history.invariant exclusive_step start).2.unique _ _ ownsFirst
    ownsSecond

/-- `Heartbeats`, computed for the first processes. -/
def heartbeats (env : Env) (bound : Nat) (config : Config World Proc) :
    Bool :=
  (List.range bound).all fun index =>
    !(config.procs index).owning ||
      config.shared.job.all fun job : ExportJob =>
        decide (job.status = .running →
          env.staleCutoff config.shared < job.updatedAt)

theorem heartbeats_sound {bound : Nat} {config : Config World Proc}
    {event : Event Action Change} (idle : IdleFrom bound config)
    (passes : heartbeats env bound config = true) :
    Heartbeats env config event := by
  intro index job owns found running
  have below : index < bound := by
    by_contra outside
    rw [idle index (not_lt.mp outside)] at owns
    cases owns
  have fresh := List.all_eq_true.mp passes index (List.mem_range.mpr below)
  simp only [owns, found, Bool.not_true, Bool.false_or, Option.all_some,
    decide_eq_true_eq] at fresh
  exact fresh running

def RunPc.claiming : RunPc → Bool
  | .claim _ _ => true
  | _ => false

/-- `Exclusively`, computed for the first processes. -/
def exclusively (env : Env) (bound : Nat) (config : Config World Proc)
    (event : Event Action Change) : Bool :=
  heartbeats env bound config &&
    match event with
    | .act index action =>
        (((config.procs index).writes config.shared action).all fun status =>
          !status.reopens || (List.range bound).all fun other =>
            !(config.procs other).owning) &&
          (!(config.procs index).runs RunPc.claiming ||
            decide (config.shared.status ≠ some .failed))
    | .env _ => true

theorem exclusively_sound {bound : Nat} {config : Config World Proc}
    {event : Event Action Change} (idle : IdleFrom bound config)
    (passes : exclusively env bound config event = true) :
    Exclusively env config event := by
  simp only [exclusively, Bool.and_eq_true] at passes
  obtain ⟨fresh, rest⟩ := passes
  refine ⟨heartbeats_sound idle fresh, ?_, ?_⟩
  · rintro index action pc status rfl here writes reopens other
    simp only [writes, Option.all_some, reopens, Bool.not_true,
      Bool.false_or, Bool.and_eq_true, List.all_eq_true, List.mem_range,
      Bool.not_eq_true'] at rest
    by_cases below : other < bound
    · exact rest.1 other below
    · rw [idle other (not_lt.mp below)]
      rfl
  · rintro index fault job staleCutoff rfl here failed
    simp [here, Proc.runs, RunPc.claiming, failed] at rest

/-- The export is delivered a second time while the first worker is at
work. -/
def deliveredTwice : List (Event Action Change) :=
  createSteps 1 ++ .act 1 .deliver :: calls 1 3 ++
    [.env (.tick 40000)] ++ calls 1 7 ++
    [.env (.tick 40000), .act 2 .start] ++ calls 2 2

theorem owner_unique_deliveredTwice :
    ∃ target,
      (machine smallEnv).Exec (Exclusively smallEnv) (smallStart oneRecord)
        deliveredTwice target ∧
      (target.procs 1).owning = true ∧
      ∀ other, (target.procs other).owning = true → other = 1 := by
  obtain ⟨target, history, _, owns⟩ :=
    exists_history (Exclusively smallEnv) oneRecord 3
      (exclusively smallEnv 3) deliveredTwice
      (fun target => (target.procs 1).owning)
      (fun idle passes => exclusively_sound idle passes)
      (by decide +kernel)
  exact ⟨target, history, owns, fun other ownsToo =>
    owner_unique (initial_smallStart _) history ownsToo owns⟩

/-- `createExportJob` writes `QUEUED` over the `RUNNING` of the first worker;
then another delivery arrives. -/
def queuedOverRunning : List (Event Action Change) :=
  earlyDelivery 2 ++ calls 0 1 ++ .act 2 .start :: calls 2 2

/-- Two live runs own the job, although no heartbeat has ever expired. -/
theorem queuedOverRunning_owners :
    ∃ target,
      (machine smallEnv).Exec (Heartbeats smallEnv) (smallStart oneRecord)
        queuedOverRunning target ∧
      (target.procs 1).owning = true ∧ (target.procs 2).owning = true := by
  obtain ⟨target, history, _, ends⟩ :=
    exists_history (Heartbeats smallEnv) oneRecord 3
      (fun config _ => heartbeats smallEnv 3 config) queuedOverRunning
      (fun target => (target.procs 1).owning && (target.procs 2).owning)
      (fun idle passes => heartbeats_sound idle passes) (by decide +kernel)
  simp only [Bool.and_eq_true] at ends
  exact ⟨target, history, ends⟩

end ExportVault
