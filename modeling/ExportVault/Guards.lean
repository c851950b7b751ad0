import ExportVault.Frames

/-!
# The status guards of the commands

A command reads the job, decides, and later updates it by id alone.  Its
status write replaces a status its rule permits when nobody else writes
another one in between; `createExportJob` has enqueued the job by then.
-/

namespace ExportVault

open Interleaving

/-- The statuses that the status write a command is about to make may
replace. -/
def ApiPc.rule : ApiPc → Option (List ExportStatus)
  | .getJob .create => some [.pending]
  | .getState .create => some [.pending]
  | .remove .create => some [.pending]
  | .add .create => some [.pending]
  | .writeQueued => some [.pending]
  | .countCheckpoints => some resumableForUser
  | .writeResuming => some resumableForUser
  | .writeCancel job =>
      if job.status = .running then none
      else some (cancellable.filter fun status => status ≠ .running)
  | _ => none

def RuleHolds (world : World) (pc : ApiPc) : Prop :=
  ∀ rule, pc.rule = some rule →
    ∃ status ∈ rule, world.status = some status

/-- While a command is between its look at the job and its status write,
nobody else writes a status that its rule does not permit. -/
def RulesKept : Condition := fun config event =>
  ∀ index action status, event = .act index action →
    (config.procs index).writes config.shared action = some status →
    ∀ other pc rule, other ≠ index → config.procs other = .api pc →
      pc.rule = some rule → status ∈ rule

/-- No rule permits a status that only a worker writes. -/
theorem rule_excludes {pc : ApiPc} {rule : List ExportStatus}
    {status : ExportStatus} (ruleEq : pc.rule = some rule)
    (permitted : status ∈ rule) :
    status ≠ .running ∧ status ≠ .verifying ∧ status ≠ .completed := by
  have fixed : ∀ rule ∈ [[.pending], resumableForUser,
      cancellable.filter fun status => status ≠ .running],
      ∀ status ∈ rule, status ≠ ExportStatus.running ∧
        status ≠ .verifying ∧ status ≠ .completed := by decide
  refine fixed rule ?_ status permitted
  cases pc with
  | getJob caller | getState caller | remove caller | add caller =>
      cases caller with
      | create =>
          obtain rfl := Option.some.inj ruleEq
          simp
      | resume => cases ruleEq
  | writeQueued | countCheckpoints | writeResuming =>
      obtain rfl := Option.some.inj ruleEq
      simp
  | writeCancel job =>
      simp only [ApiPc.rule] at ruleEq
      split at ruleEq
      · cases ruleEq
      · obtain rfl := Option.some.inj ruleEq
        simp
  | _ => cases ruleEq

variable {env : Env} {before after world : World}

theorem ruleHolds_of_none {pc : ApiPc} (none : pc.rule = none) :
    RuleHolds world pc := by
  intro rule ruleEq
  rw [none] at ruleEq
  cases ruleEq

theorem RuleHolds.same {pc : ApiPc} (holds : RuleHolds before pc)
    (status : after.status = before.status) : RuleHolds after pc := by
  intro rule ruleEq
  rw [status]
  exact holds rule ruleEq

theorem ruleHolds_afterEnqueue {caller : EnqueueCaller} {pc : ApiPc}
    (holds : RuleHolds world pc)
    (same : pc.rule = (ApiPc.getJob caller).rule) :
    RuleHolds world (.afterEnqueue caller) := by
  cases caller with
  | create => exact fun rule ruleEq => holds rule (same.trans ruleEq)
  | resume => exact ruleHolds_of_none rfl

theorem ruleHolds_getOwned {userId : String} {next : ExportJob → ApiPc}
    (follows : ∀ job, world.job = some job → RuleHolds world (next job)) :
    RuleHolds world (getOwnedExportJob world userId next) := by
  exact getOwnedExportJob_cases (motive := RuleHolds world) userId
    (ruleHolds_of_none rfl) follows

theorem ruleHolds_returnJob {next : ExportJob → ApiPc}
    (follows : ∀ job, (next job).rule = none) :
    RuleHolds world (returnJob world next) := by
  exact returnJob_cases (motive := RuleHolds world)
    (fun _ => ruleHolds_of_none rfl) fun job _ =>
      ruleHolds_of_none (follows job)

/-- What a resume reads decides whether it goes on. -/
theorem ruleHolds_afterFindForResume {job : ExportJob}
    (found : world.job = some job) :
    RuleHolds world (afterFindForResume job) := by
  rw [afterFindForResume]
  split
  · exact ruleHolds_of_none rfl
  · split
    · exact ruleHolds_of_none rfl
    · split
      · exact ruleHolds_of_none rfl
      · next listed =>
          intro rule ruleEq
          obtain rfl := Option.some.inj ruleEq
          exact ⟨job.status, by simpa using listed,
            by rw [World.status, found, Option.map_some]⟩

/-- What a cancel reads decides whether it goes on. -/
theorem ruleHolds_afterFindForCancel {job : ExportJob}
    (found : world.job = some job) :
    RuleHolds world (afterFindForCancel job) := by
  rw [afterFindForCancel]
  split
  · exact ruleHolds_of_none rfl
  · split
    · exact ruleHolds_of_none rfl
    · split
      · exact ruleHolds_of_none rfl
      · next listed =>
          intro rule ruleEq
          simp only [ApiPc.rule] at ruleEq
          split at ruleEq
          · cases ruleEq
          · next notRunning =>
              obtain rfl := Option.some.inj ruleEq
              refine ⟨job.status, ?_,
                by rw [World.status, found, Option.map_some]⟩
              simpa [notRunning] using listed

/-- A command that goes on relies on what it has read. -/
theorem ruleHolds_step {pc : ApiPc} (holds : RuleHolds world pc) :
    RuleHolds (apiStep env world pc).1 (apiStep env world pc).2 := by
  cases pc with
  | countRecords =>
      simp only [apiStep]
      split <;> exact ruleHolds_of_none rfl
  | insertJob =>
      simp only [apiStep]
      split
      · exact ruleHolds_of_none rfl
      · intro rule ruleEq
        obtain rfl := Option.some.inj ruleEq
        exact ⟨.pending, List.mem_singleton.mpr rfl, rfl⟩
  | getJob caller =>
      simp only [apiStep]
      split <;> cases caller <;> exact holds
  | getState caller =>
      simp only [apiStep]
      split
      · exact ruleHolds_afterEnqueue holds (by cases caller <;> rfl)
      · cases caller <;> exact holds
  | remove caller =>
      simp only [apiStep]
      split
      · exact ruleHolds_of_none rfl
      · cases caller <;> exact holds
  | add caller =>
      have same : (apiStep env world (.add caller)).1.status =
          world.status := by
        simp only [apiStep]
        split <;> rfl
      exact (ruleHolds_afterEnqueue holds (by cases caller <;> rfl)).same same
  | writeQueued => exact ruleHolds_returnJob fun _ => rfl
  | findForResume =>
      exact ruleHolds_getOwned fun job => ruleHolds_afterFindForResume
  | countCheckpoints => exact holds
  | writeResuming => exact ruleHolds_returnJob fun _ => rfl
  | findForCancel =>
      exact ruleHolds_getOwned fun job => ruleHolds_afterFindForCancel
  | writeCancel => exact ruleHolds_returnJob fun _ => rfl
  | findForVerifyOwner =>
      exact ruleHolds_getOwned fun _ _ => ruleHolds_of_none rfl
  | findForVerify =>
      simp only [apiStep]
      repeat' split
      all_goals exact ruleHolds_of_none rfl
  | verifyHead =>
      simp only [apiStep]
      split <;> exact ruleHolds_of_none rfl
  | verifyRead =>
      simp only [apiStep]
      repeat' split
      all_goals exact ruleHolds_of_none rfl
  | saveVerification =>
      simp only [apiStep]
      split <;> exact ruleHolds_of_none rfl
  | findForDownload =>
      refine ruleHolds_getOwned fun job _ => ruleHolds_of_none ?_
      simp only [afterFindForDownload]
      repeat' split
      all_goals rfl
  | latestForDownload =>
      apply ruleHolds_of_none
      simp only [apiStep, afterLatestForDownload]
      repeat' split
      all_goals rfl
  | _ => exact ruleHolds_of_none rfl

/-- Every command finds a status its rule permits. -/
def AllRulesHold (config : Config World Proc) : Prop :=
  ∀ index pc, config.procs index = .api pc → RuleHolds config.shared pc

/-- A step that writes permitted statuses only. -/
theorem RuleHolds.step {pc : ApiPc} {sets : Option ExportStatus}
    (holds : RuleHolds before pc) (changed : SetsStatus sets before after)
    (kept : ∀ status rule, sets = some status → pc.rule = some rule →
      status ∈ rule) : RuleHolds after pc := by
  intro rule ruleEq
  obtain ⟨old, permitted, statusEq⟩ := holds rule ruleEq
  rcases changed with same | ⟨written, setsEq, mapped⟩
  · exact ⟨old, permitted, same.trans statusEq⟩
  · refine ⟨written, kept written rule setsEq ruleEq, ?_⟩
    rw [mapped, statusEq, Option.map_some]

/-- A command with a rule works on a job that exists. -/
theorem RuleHolds.present {pc : ApiPc} {rule : List ExportStatus}
    (holds : RuleHolds world pc) (ruleEq : pc.rule = some rule) :
    world.job ≠ none := by
  obtain ⟨status, _, statusEq⟩ := holds rule ruleEq
  intro absent
  rw [World.status, absent] at statusEq
  cases statusEq

theorem allRulesHold_step {before after : Config World Proc}
    {event : Event Action Change} (kept : RulesKept before event)
    (stepEq : (machine env).step before event = some after)
    (holds : AllRulesHold before) : AllRulesHold after := by
  cases event with
  | env change =>
      obtain ⟨shared, changeEq, rfl⟩ := Network.step_env_iff.mp stepEq
      obtain rfl := Option.some.inj changeEq
      intro index pc here
      exact (holds index pc here).same (change.apply_status before.shared)
  | act index action =>
      obtain ⟨shared, proc, actEq, rfl⟩ := Network.step_act_iff.mp stepEq
      have step := actStep_of_act actEq
      intro other pc there
      by_cases same : other = index
      · subst same
        simp only [Function.update_self] at there
        generalize mine : before.procs other = old at step
        subst there
        cases step with
        | request request =>
            apply ruleHolds_of_none
            cases request with
            | create userId rowLimit =>
                simp only [Request.begin]
                repeat' split
                all_goals rfl
            | _ => rfl
        | @api old fault live =>
            apply apiCall_cases
              (motive := fun result => RuleHolds result.1 result.2) fault
            · exact ruleHolds_step (holds other old mine)
            · exact fun _ => ruleHolds_of_none rfl
            · exact fun _ => ruleHolds_of_none rfl
        | apiCrash live => exact ruleHolds_of_none rfl
      · simp only [Function.update_of_ne same] at there
        intro rule ruleEq
        have present := (holds other pc there).present ruleEq
        exact (holds other pc there).step (actStep_writes present step)
          (fun status rule writes ruleEq =>
            kept index action status rfl writes other pc rule same there
              ruleEq) rule ruleEq

/-- When a command writes a status, it replaces one its rule permits, and so
none that a worker has written since the command looked at the job. -/
theorem apiWrite_permitted {source middle : Config World Proc}
    {events : List (Event Action Change)} (initial : Initial env source)
    (history : (machine env).Exec RulesKept source events middle)
    {index : Nat} {pc : ApiPc} {fault : Fault} {written : ExportStatus}
    (here : middle.procs index = .api pc)
    (writes : (middle.procs index).writes middle.shared (.call fault) =
      some written) :
    ∃ rule replaced, pc.rule = some rule ∧ replaced ∈ rule ∧
      middle.shared.status = some replaced ∧
      replaced ≠ .running ∧ replaced ≠ .verifying ∧
      replaced ≠ .completed := by
  have holds : AllRulesHold middle := by
    refine history.invariant allRulesHold_step fun index pc here => ?_
    rw [initial.idle index] at here
    cases here
  have sets : pc.sets = some written := by
    rw [here] at writes
    cases fault with
    | refused => cases writes
    | _ => exact writes
  obtain ⟨rule, ruleEq⟩ : ∃ rule, pc.rule = some rule := by
    cases pc with
    | writeQueued | writeResuming => exact ⟨_, rfl⟩
    | writeCancel job =>
        simp only [ApiPc.sets] at sets
        split at sets
        · cases sets
        · next notRunning => exact ⟨_, if_neg notRunning⟩
    | _ => cases sets
  obtain ⟨replaced, permitted, statusEq⟩ := holds index pc here rule ruleEq
  exact ⟨rule, replaced, ruleEq, permitted, statusEq,
    rule_excludes ruleEq permitted⟩

/-- `RulesKept`, computed for the first processes. -/
def rulesKept (bound : Nat) (config : Config World Proc) :
    Event Action Change → Bool
  | .act index action =>
      ((config.procs index).writes config.shared action).all fun status =>
        (List.range bound).all fun other =>
          decide (other = index) ||
            match config.procs other with
            | .api pc => pc.rule.all fun rule => rule.contains status
            | _ => true
  | .env _ => true

theorem rulesKept_sound {bound : Nat} {config : Config World Proc}
    {event : Event Action Change} (idle : IdleFrom bound config)
    (passes : rulesKept bound config event = true) :
    RulesKept config event := by
  rintro index action status rfl writes other pc rule different there ruleEq
  have below : other < bound := by
    by_contra outside
    rw [idle other (not_lt.mp outside)] at there
    cases there
  simp only [rulesKept, writes, Option.all_some, List.all_eq_true,
    List.mem_range, Bool.or_eq_true, decide_eq_true_eq] at passes
  have permitted := (passes other below).resolve_left different
  simpa [there, ruleEq] using permitted

/-- A worker receives the export before `createExportJob` has returned. -/
def earlyDelivery (seen : Nat) : List (Event Action Change) :=
  .act 0 (.request (.create "u" 1)) :: calls 0 5 ++
    .act 1 .deliver :: calls 1 seen

theorem apiWrite_permitted_earlyDelivery :
    ∃ middle : Config World Proc,
      (machine smallEnv).Exec RulesKept (smallStart oneRecord)
        (earlyDelivery 1) middle ∧
      middle.procs 0 = .api .writeQueued ∧
      ∃ rule replaced, ApiPc.writeQueued.rule = some rule ∧
        replaced ∈ rule ∧ middle.shared.status = some replaced ∧
        replaced ≠ .running ∧ replaced ≠ .verifying ∧
        replaced ≠ .completed := by
  obtain ⟨middle, history, _, ends⟩ :=
    exists_history RulesKept oneRecord 2 (rulesKept 2) (earlyDelivery 1)
      (fun middle => (middle.procs 0).commands (decide <| · = .writeQueued))
      (fun idle passes => rulesKept_sound idle passes) (by decide +kernel)
  obtain ⟨pc, here, isWrite⟩ := Proc.exists_of_commands ends
  obtain rfl := of_decide_eq_true isWrite
  have writes : (middle.procs 0).writes middle.shared (.call .none) =
      some .queued := by
    rw [here]
    rfl
  exact ⟨middle, history, here,
    apiWrite_permitted (initial_smallStart _) history here writes⟩

/-- The worker has claimed the job when `createExportJob` writes `QUEUED`
over its `RUNNING`. -/
theorem queued_replaces_running :
    ∃ middle target : Config World Proc,
      (machine smallEnv).Exec Anything (smallStart oneRecord)
        (earlyDelivery 2) middle ∧
      middle.procs 0 = .api .writeQueued ∧
      middle.shared.status = some .running ∧
      (machine smallEnv).Exec Anything middle (calls 0 1) target ∧
      target.shared.status = some .queued := by
  obtain ⟨middle, history, _, ends⟩ :=
    exists_history Anything oneRecord 2 (fun _ _ => true) (earlyDelivery 2)
      (fun middle =>
        (middle.procs 0).commands (decide <| · = .writeQueued) &&
          decide (middle.shared.status = some .running))
      (fun _ _ => trivial) (by decide +kernel)
  simp only [Bool.and_eq_true, decide_eq_true_eq] at ends
  obtain ⟨waiting, running⟩ := ends
  obtain ⟨pc, here, isWrite⟩ := Proc.exists_of_commands waiting
  obtain rfl := of_decide_eq_true isWrite
  let next := apiStep smallEnv middle.shared .writeQueued
  refine ⟨middle, ⟨next.1, Function.update middle.procs 0 (.api next.2)⟩,
    history, here, running, ⟨trivial, _, ?_, rfl⟩, ?_⟩
  · refine Network.step_act_iff.mpr ⟨next.1, .api next.2, ?_, rfl⟩
    simp only [network, act, here]
    rfl
  · have written : next.1.status =
        middle.shared.status.map fun _ => .queued :=
      middle.shared.status_updateJob_set fun _ => rfl
    rw [written, running, Option.map_some]

end ExportVault
