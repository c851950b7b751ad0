import ExportVault.Coherence
import ExportVault.Gate
import ExportVault.Ledger

/-!
# The trail of an export

What the system records about an export stays recorded, whoever works on it:
the checkpoints, the failures and the verifications only grow, and every row
among them is sound (`trail_kept`).
-/

namespace ExportVault

open Interleaving

/-- The counters of the verifier agree with one another. -/
structure Consistent (snapshotMaxId : Int) (state : VerifyState) : Prop where
  counted : state.seenIds.length + state.duplicates = state.actualRows
  beyond : state.outOfSnapshot ≤ state.actualRows
  within : state.outOfSnapshot = 0 →
    ∀ maxId ∈ state.maxId, maxId ≤ snapshotMaxId

variable {snapshotMaxId expectedRows : Int} {state : VerifyState}
variable {env : Env} {before after world : World}

theorem consistent_countId {id : Int}
    (counted : state.seenIds.length + state.duplicates = state.actualRows)
    (beyond : state.outOfSnapshot < state.actualRows)
    (within : state.outOfSnapshot = 0 →
      ∀ maxId ∈ state.maxId, maxId ≤ snapshotMaxId) :
    Consistent snapshotMaxId (state.countId snapshotMaxId id) := by
  by_cases outside : snapshotMaxId < id
  · refine ⟨counted, ?_, ?_⟩
    · simp only [VerifyState.countId, if_pos outside]
      omega
    · simp [VerifyState.countId, if_pos outside]
  · refine ⟨counted, ?_, ?_⟩
    · simp only [VerifyState.countId, if_neg outside]
      omega
    · simp only [VerifyState.countId, if_neg outside]
      intro none maxId member
      have known := within none
      cases found : state.maxId with
      | none =>
          rw [found] at member
          obtain rfl := Option.some.inj member
          exact not_lt.mp outside
      | some old =>
          simp only [found] at member
          split at member
          · obtain rfl := Option.some.inj member
            exact not_lt.mp outside
          · obtain rfl := Option.some.inj member
            exact known _ found

theorem consistent_verifyRow {row : List String}
    (started : state.rowIndex ≠ 0)
    (consistent : Consistent snapshotMaxId state) :
    Consistent snapshotMaxId (verifyRow snapshotMaxId state row) := by
  obtain ⟨counted, beyond, within⟩ := consistent
  by_cases fields : row.length = csvColumns.length
  · rw [verifyRow_of_started started fields]
    have seen : (state.seeRow row).seenIds.length +
          (state.seeRow row).duplicates = (state.seeRow row).actualRows ∧
        (state.seeRow row).actualRows = state.actualRows + 1 ∧
        (state.seeRow row).outOfSnapshot = state.outOfSnapshot ∧
        (state.seeRow row).maxId = state.maxId := by
      simp only [VerifyState.seeRow]
      split
      · exact ⟨by simp only; omega, rfl, rfl, rfl⟩
      · exact ⟨by simp only [List.length_cons]; omega, rfl, rfl, rfl⟩
    obtain ⟨seenCounted, rows, outside, extreme⟩ := seen
    cases bigInt (idText row) with
    | none =>
        refine ⟨seenCounted, ?_, ?_⟩
        · simp only [outside, rows]
          omega
        · simp only [outside, extreme]
          exact within
    | some id =>
        refine consistent_countId seenCounted (by omega) ?_
        rw [outside, extreme]
        exact within
  · rw [verifyRow, if_neg started]
    simp only [fields, ne_eq, not_false_eq_true, if_true]
    exact ⟨counted, beyond, within⟩

theorem consistent_foldl {rows : List (List String)}
    (started : state.rowIndex ≠ 0)
    (consistent : Consistent snapshotMaxId state) :
    Consistent snapshotMaxId (rows.foldl (verifyRow snapshotMaxId) state) := by
  induction rows generalizing state with
  | nil => exact consistent
  | cons row rest inductionHypothesis =>
      exact inductionHypothesis started_verifyRow
        (consistent_verifyRow started consistent)

/-- The counters agree after any file. -/
theorem consistent_verifyRecords (snapshotMaxId : Int)
    (records : List (List String)) :
    Consistent snapshotMaxId (verifyRecords snapshotMaxId records) := by
  have empty : ∀ state : VerifyState, state.seenIds = [] →
      state.duplicates = 0 → state.actualRows = 0 →
      state.outOfSnapshot = 0 → state.maxId = none →
      Consistent snapshotMaxId state := by
    intro state noIds noDuplicates noRows noneOutside noMax
    exact ⟨by rw [noIds, noDuplicates, noRows]; rfl, by omega,
      by simp [noMax]⟩
  cases records with
  | nil => exact empty _ rfl rfl rfl rfl rfl
  | cons header rows =>
      rw [verifyRecords, List.foldl_cons]
      exact consistent_foldl started_verifyRow (empty _ rfl rfl rfl rfl rfl)

structure ExportVerification.Reports (terms : Terms)
    (row : ExportVerification) : Prop where
  expected : row.expectedRows = terms.requestedRowLimit
  counted : row.uniqueRows + row.duplicates = row.actualRows
  nonneg : 0 ≤ row.uniqueRows ∧ 0 ≤ row.duplicates ∧ 0 ≤ row.outOfSnapshot
  beyond : row.outOfSnapshot ≤ row.actualRows
  within : row.outOfSnapshot = 0 →
    ∀ maxId ∈ row.maxId, maxId ≤ terms.snapshotMaxId
  order : ∀ minId ∈ row.minId, ∃ maxId ∈ row.maxId, minId ≤ maxId
  stored : ∀ id, row.minId = some id ∨ row.maxId = some id → isBigInt id
  verdict : row.passed = true ↔ row.failureReason = none
  passed : row.passed = true →
    row.headerValid = true ∧ row.actualRows = row.expectedRows ∧
      row.duplicates = 0 ∧ row.outOfSnapshot = 0 ∧ 0 < row.fileBytes

def VerificationResult.Of (terms : Terms) (result : VerificationResult) :
    Prop :=
  ∃ fileBytes sha256 records,
    result = verificationResult terms.requestedRowLimit terms.snapshotMaxId
      fileBytes sha256 (verifyRecords terms.snapshotMaxId records)

theorem verifyBody_of {job : ExportJob} {fileBytes : Int} {body : Bytes}
    {result : VerificationResult}
    (verified : verifyBody env job.requestedRowLimit job.snapshotMaxId
      fileBytes body = .ok result) : result.Of job.terms := by
  rw [verifyBody] at verified
  split at verified
  · cases verified
  · next records _ =>
      exact ⟨fileBytes, env.sha256 body, records,
        (Except.ok.inj verified).symm⟩

/-- A verdict that is stored is a sound row. -/
theorem reports_toRow {terms : Terms} {result : VerificationResult}
    (judged : result.Of terms) (storable : result.storable = true) :
    result.toRow.Reports terms := by
  obtain ⟨fileBytes, sha256, records, rfl⟩ := judged
  have fit := storable_iff.mp storable
  have verdict : (verificationResult terms.requestedRowLimit
      terms.snapshotMaxId fileBytes sha256
      (verifyRecords terms.snapshotMaxId records)).passed = true ↔ _ :=
    passed_iff
  have extremes := extremes_verifyRecords terms.snapshotMaxId records
  obtain ⟨counted, beyond, within⟩ :=
    consistent_verifyRecords terms.snapshotMaxId records
  generalize verifyRecords terms.snapshotMaxId records = state
    at verdict extremes counted beyond within
  refine
    { expected := rfl
      counted := ?_
      nonneg := ⟨Int.natCast_nonneg _, Int.natCast_nonneg _,
        Int.natCast_nonneg _⟩
      beyond := ?_
      within := ?_
      order := ?_
      stored := ?_
      verdict := ?_
      passed := ?_ }
  · change (state.seenIds.length : Int) + state.duplicates = state.actualRows
    omega
  · change (state.outOfSnapshot : Int) ≤ state.actualRows
    omega
  · intro none maxId member
    exact within (Int.natCast_eq_zero.mp none) maxId member
  · intro minId member
    exact extremes.maximal minId (extremes.minRead minId member)
  · rintro id (low | high)
    · exact fit id (extremes.minRead id low)
    · exact fit id (extremes.maxRead id high)
  · simp only [VerificationResult.toRow, verificationResult]
    split <;> simp_all
  · intro passed
    obtain ⟨header, rows, _, clean, size⟩ := verdict.mp passed
    exact ⟨header, rows, congrArg Int.ofNat clean.duplicates,
      congrArg Int.ofNat clean.outOfSnapshot, size⟩

def failureTypes : List String :=
  ["EXPORT_RUN_FAILED", "WORKER_STALLED", "QUEUE_JOB_FAILED"]

/-- A failure row names the export it belongs to, unless it reports that the
export does not exist, and its message is cut off. -/
structure ExportFailure.Recorded (env : Env) (row : ExportFailure) : Prop where
  names : row.exportJobId = some env.exportJobId ∧
      row.errorType ∈ failureTypes ∨
    row.exportJobId = none ∧ row.errorType = "EXPORT_JOB_MISSING"
  short : units row.errorMessage.toList ≤ 8000

/-- A row for this export. -/
theorem recorded_of_type {errorType : String} (message : String)
    (known : errorType ∈ failureTypes) :
    ExportFailure.Recorded env
      { exportJobId := some env.exportJobId
        errorType := errorType
        errorMessage := slice message 8000 } :=
  ⟨.inl ⟨rfl, known⟩, units_slice message 8000⟩

/-- The failures of the first world, followed by sound ones. -/
def RecordsMore (env : Env) (before after : World) : Prop :=
  ∃ more, after.failures = before.failures ++ more ∧
    ∀ row ∈ more, ExportFailure.Recorded env row

theorem recordsMore_same (same : after.failures = before.failures) :
    RecordsMore env before after :=
  ⟨[], by rw [same, List.append_nil], nofun⟩

theorem recordsMore_insert {row : ExportFailure}
    (recorded : ExportFailure.Recorded env row) :
    RecordsMore env world (world.insertFailure row) :=
  ⟨[row], rfl, by simpa using recorded⟩

theorem recordsMore_runStep (kept : List String) (pc : RunPc) :
    RecordsMore env world (runStep env kept world pc).1 := by
  cases pc with
  | recordMissing reason =>
      exact recordsMore_insert ⟨.inr ⟨rfl, rfl⟩, units_slice reason 8000⟩
  | recordFailure error exit =>
      exact recordsMore_insert
        (recorded_of_type error.message (by simp [failureTypes]))
  | claim =>
      simp only [runStep, claimStep]
      split <;> exact recordsMore_same rfl
  | setStartedAt | saveVerification =>
      simp only [runStep]
      split <;> exact recordsMore_same rfl
  | commitBatch =>
      simp only [runStep, commitStep, World.commitBatch]
      split
      · exact recordsMore_same rfl
      · next after committed =>
          split at committed
          · cases committed
          · obtain rfl := Option.some.inj committed
            exact recordsMore_same rfl
  | _ => exact recordsMore_same rfl

theorem recordsMore_sweepStep (pc : SweepPc) :
    RecordsMore env world (sweepStep env world pc).1 := by
  cases pc with
  | recordStalled message =>
      exact recordsMore_insert
        (recorded_of_type message (by simp [failureTypes]))
  | markInterrupted =>
      simp only [sweepStep]
      split <;> exact recordsMore_same rfl
  | _ => exact recordsMore_same rfl

/-- Whatever a process does, it only adds sound failures. -/
theorem recordsMore_act {index : Nat} {proc next : Proc} {action : Action}
    (actEq : act env index world proc action = some (after, next)) :
    RecordsMore env world after := by
  have step := actStep_of_act actEq
  cases step with
  | @run pc fault live =>
      exact runCall_cases (motive := fun result =>
        RecordsMore env world result.1) fault
        (fun kept => recordsMore_runStep kept pc)
        (fun _ => recordsMore_same rfl) fun _ => recordsMore_runStep [] pc
  | @api pc fault live =>
      have unchanged : RecordsMore env world (apiStep env world pc).1 :=
        recordsMore_same (apiStep_failures env world pc)
      exact apiCall_cases (motive := fun result =>
        RecordsMore env world result.1) fault unchanged
        (fun _ => recordsMore_same rfl) fun _ => unchanged
  | @sweep pc fault =>
      exact sweepCall_cases (motive := fun result =>
        RecordsMore env world result.1) fault (recordsMore_sweepStep pc)
        (recordsMore_same rfl) (recordsMore_sweepStep pc)
  | @queueFailed error fault _ sameExport entry =>
      simp only [act, Option.some.injEq, Prod.mk.injEq] at actEq
      obtain ⟨rfl, _⟩ := actEq
      split
      · exact recordsMore_same rfl
      · exact recordsMore_insert
          (recorded_of_type error.message (by simp [failureTypes]))
  | _ => exact recordsMore_same rfl

structure World.Extends (env : Env) (before after : World) : Prop where
  now : before.now ≤ after.now
  terms : ∀ terms, before.terms = some terms → after.terms = some terms
  started : KeepsStart before after
  checkpoints : before.checkpoints <+: after.checkpoints
  verifications : before.verifications <+: after.verifications
  failures : RecordsMore env before after

theorem World.Extends.trans {later : World} (first : before.Extends env after)
    (second : after.Extends env later) : before.Extends env later := by
  obtain ⟨more, moreEq, recorded⟩ := first.failures
  obtain ⟨rest, restEq, restRecorded⟩ := second.failures
  refine
    { now := le_trans first.now second.now
      terms := fun terms known => second.terms terms (first.terms terms known)
      started := fun time known =>
        second.started time (first.started time known)
      checkpoints := first.checkpoints.trans second.checkpoints
      verifications := first.verifications.trans second.verifications
      failures := ⟨more ++ rest, ?_, ?_⟩ }
  · rw [restEq, moreEq, List.append_assoc]
  · intro row member
    rcases List.mem_append.mp member with early | late
    · exact recorded row early
    · exact restRecorded row late

structure KeepsRows (before after : World) : Prop where
  now : before.now ≤ after.now
  terms : ∀ terms, before.terms = some terms → after.terms = some terms
  started : KeepsStart before after
  checkpoints : before.checkpoints <+: after.checkpoints
  verifications : before.verifications <+: after.verifications

theorem keepsRows_same (same : before.SameExport after) :
    KeepsRows before after where
  now := le_of_eq same.now.symm
  terms terms known := same.terms.trans known
  started time known := by
    rw [World.startedAt, same.job]
    exact known
  checkpoints := same.checkpoints ▸ List.prefix_refl _
  verifications := same.verifications ▸ List.prefix_refl _

theorem checkpoints_runStep (kept : List String) (pc : RunPc) :
    world.checkpoints <+: (runStep env kept world pc).1.checkpoints := by
  cases commits : pc.commits with
  | false =>
      exact runStep_checkpoints env kept world commits ▸ List.prefix_refl _
  | true =>
      cases pc with
      | commitBatch run rows batchLastId =>
          simp only [runStep, commitStep, World.commitBatch]
          split
          · exact List.prefix_refl _
          · next after committed =>
              split at committed
              · cases committed
              · obtain rfl := Option.some.inj committed
                exact List.prefix_append _ _
      | _ => cases commits

theorem verifications_runStep (kept : List String) (pc : RunPc) :
    world.verifications <+: (runStep env kept world pc).1.verifications := by
  cases verifies : pc.verifies with
  | false =>
      exact runStep_verifications env kept world verifies ▸ List.prefix_refl _
  | true =>
      cases pc with
      | saveVerification run result =>
          simp only [runStep]
          split
          · exact List.prefix_append _ _
          · exact List.prefix_refl _
      | _ => cases verifies

theorem keepsRows_runStep (kept : List String) (pc : RunPc) :
    KeepsRows world (runStep env kept world pc).1 where
  now := le_of_eq (runStep_now env kept world pc).symm
  terms _ known := (runStep_terms env kept world pc).trans known
  started := keepsStart_runStep kept pc
  checkpoints := checkpoints_runStep kept pc
  verifications := verifications_runStep kept pc

theorem verifications_apiStep (pc : ApiPc) :
    world.verifications <+: (apiStep env world pc).1.verifications := by
  cases verifies : pc.verifies with
  | false =>
      exact apiStep_verifications env world verifies ▸ List.prefix_refl _
  | true =>
      cases pc with
      | saveVerification job result =>
          simp only [apiStep]
          split
          · exact List.prefix_append _ _
          · exact List.prefix_refl _
      | _ => cases verifies

theorem keepsRows_apiStep (pc : ApiPc) :
    KeepsRows world (apiStep env world pc).1 where
  now := le_of_eq (apiStep_now env world pc).symm
  terms _ known := by
    by_cases other : pc.inserts = false ∨ world.job ≠ none
    · exact (apiStep_terms env other).trans known
    · simp only [not_or, not_not] at other
      rw [World.terms, other.2] at known
      cases known
  started := apiStep_startedAt env
  checkpoints := apiStep_checkpoints env world pc ▸ List.prefix_refl _
  verifications := verifications_apiStep pc

theorem keepsRows_sweepStep (pc : SweepPc) :
    KeepsRows world (sweepStep env world pc).1 where
  now := le_of_eq (sweepStep_now env world pc).symm
  terms _ known := (sweepStep_terms env world pc).trans known
  started _ known := (sweepStep_startedAt env pc).trans known
  checkpoints := sweepStep_checkpoints env world pc ▸ List.prefix_refl _
  verifications := sweepStep_verifications env world pc ▸ List.prefix_refl _

theorem keepsRows_act {index : Nat} {proc next : Proc} {action : Action}
    (step : ActStep env index world proc action after next) :
    KeepsRows world after := by
  have unchanged : KeepsRows world world := keepsRows_same (.refl world)
  cases step with
  | @run pc fault live =>
      exact runCall_cases (motive := fun result => KeepsRows world result.1)
        fault (fun kept => keepsRows_runStep kept pc) (fun _ => unchanged)
        fun _ => keepsRows_runStep [] pc
  | @api pc fault live =>
      exact apiCall_cases (motive := fun result => KeepsRows world result.1)
        fault (keepsRows_apiStep pc) (fun _ => unchanged)
        fun _ => keepsRows_apiStep pc
  | @sweep pc fault =>
      exact sweepCall_cases (motive := fun result => KeepsRows world result.1)
        fault (keepsRows_sweepStep pc) unchanged (keepsRows_sweepStep pc)
  | deliver => exact keepsRows_same (world.sameExport_setEntry _)
  | settleReturned => exact keepsRows_same (world.sameExport_setEntry _)
  | settleThrew => exact keepsRows_same (world.sameExport_setEntry _)
  | stall => exact keepsRows_same (world.sameExport_setEntry _)
  | queueFailed fault same entry => exact keepsRows_same same
  | _ => exact unchanged

/-- A step of the system loses nothing. -/
theorem extends_step {source target : Config World Proc}
    {event : Event Action Change}
    (stepEq : (machine env).step source event = some target) :
    source.shared.Extends env target.shared := by
  cases event with
  | act index action =>
      obtain ⟨shared, proc, actEq, rfl⟩ := Network.step_act_iff.mp stepEq
      have keeps := keepsRows_act (actStep_of_act actEq)
      exact ⟨keeps.now, keeps.terms, keeps.started, keeps.checkpoints,
        keeps.verifications, recordsMore_act actEq⟩
  | env change =>
      obtain ⟨shared, envEq, rfl⟩ := Network.step_env_iff.mp stepEq
      obtain rfl := Option.some.inj envEq
      refine
        { now := ?_
          terms := fun terms known =>
            (change.apply_terms source.shared).trans known
          started := fun time known => ?_
          checkpoints := by cases change <;> exact List.prefix_refl _
          verifications := by cases change <;> exact List.prefix_refl _
          failures := recordsMore_same (by cases change <;> rfl) }
      · cases change with
        | tick milliseconds =>
            exact le_add_of_nonneg_right (Int.natCast_nonneg _)
        | setRecords => exact le_refl _
      · rw [World.startedAt, change.apply_job]
        exact known

def judgingRuns : RunPc → Prop
  | .saveVerification run result => result.Of run.job.terms
  | _ => True

def judgingCommands (world : World) : ApiPc → Prop
  | .verifyHead job _ => KnowsJob world job
  | .verifyRead job _ _ => KnowsJob world job
  | .saveVerification job result =>
      KnowsJob world job ∧ result.Of job.terms
  | _ => True

/-- Every verification row is sound. -/
def World.Judged (world : World) : Prop :=
  ∀ row ∈ world.verifications,
    ∃ terms, world.terms = some terms ∧ row.Reports terms

theorem World.Judged.keep (judged : before.Judged)
    (terms : ∀ terms, before.terms = some terms → after.terms = some terms)
    (same : after.verifications = before.verifications) : after.Judged := by
  intro row member
  rw [same] at member
  obtain ⟨known, knownEq, reports⟩ := judged row member
  exact ⟨known, terms known knownEq, reports⟩

theorem judged_save {job : ExportJob} {result : VerificationResult}
    (judged : world.Judged) (knows : KnowsJob world job)
    (verdict : result.Of job.terms) (storable : result.storable = true) :
    (world.insertVerification result.toRow).Judged := by
  intro row member
  rcases List.mem_append.mp member with before | new
  · exact judged row before
  · obtain rfl := List.mem_singleton.mp new
    exact ⟨job.terms, knows, reports_toRow verdict storable⟩

theorem judgingRuns_step (kept : List String) {pc : RunPc} :
    judgingRuns (runStep env kept world pc).2 := by
  have begins : ∀ run, judgingRuns (.loopTop run) := by
    intro run
    exact RunPc.loopTop_cases (motive := judgingRuns) run (fun _ => trivial)
      (fun _ _ => trivial) fun _ => trivial
  have pages : ∀ outcome token deleted,
      judgingRuns (.nextPage outcome token deleted) := by
    intro outcome token deleted
    exact RunPc.nextPage_cases (motive := judgingRuns) outcome token deleted
      trivial fun _ => trivial
  have assembles : ∀ run batchCount batchNumber assembled,
      judgingRuns (.assembleFrom run batchCount batchNumber assembled) := by
    intro run batchCount batchNumber assembled
    rw [RunPc.assembleFrom]
    split <;> trivial
  cases pc with
  | verifyRead run fileBytes =>
      simp only [runStep]
      split
      · trivial
      · split
        · trivial
        · next verified => exact verifyBody_of verified
  | findJob =>
      simp only [runStep, afterFindJob]
      repeat' split
      all_goals trivial
  | claim =>
      simp only [runStep, claimStep]
      split <;> trivial
  | loadResume =>
      simp only [runStep]
      split <;> trivial
  | readProgress =>
      simp only [runStep]
      split
      · exact begins _
      · trivial
  | reconcile => exact begins _
  | pollCancel =>
      simp only [runStep]
      split <;> trivial
  | fetchBatch =>
      simp only [runStep]
      repeat' split
      all_goals trivial
  | confirmChunk =>
      simp only [runStep, confirmStep]
      repeat' split
      all_goals trivial
  | commitBatch =>
      simp only [runStep, commitStep]
      split
      · trivial
      · exact begins _
  | loadFinal =>
      simp only [runStep, finalStep]
      repeat' split
      all_goals trivial
  | writeVerifying => exact assembles _ _ _ _
  | readChunk =>
      simp only [runStep]
      split
      · trivial
      · exact assembles _ _ _ _
  | headAssembled =>
      simp only [runStep]
      repeat' split
      all_goals trivial
  | verifyHead =>
      simp only [runStep]
      split <;> trivial
  | saveVerification =>
      simp only [runStep]
      repeat' split
      all_goals trivial
  | listChunks =>
      simp only [runStep]
      split
      · trivial
      · exact pages _ _ _
  | deletePage => exact pages _ _ _
  | recordFailure error exit => cases exit <;> trivial
  | _ => trivial

theorem judgingCommands_step {pc : ApiPc}
    (judging : judgingCommands world pc) :
    judgingCommands world (apiStep env world pc).2 := by
  have answered : ∀ {after : World} {next : ExportJob → ApiPc},
      (∀ job, judgingCommands world (next job)) →
        judgingCommands world (returnJob after next) := by
    intro after next follows
    exact returnJob_cases (fun _ => trivial) fun job _ => follows job
  cases pc with
  | insertJob | getJob | remove | saveVerification | countRecords =>
      simp only [apiStep]
      split <;> trivial
  | getState caller =>
      simp only [apiStep]
      split
      · cases caller <;> trivial
      · trivial
  | add caller => cases caller <;> trivial
  | writeQueued | writeResuming | writeCancel =>
      exact answered fun _ => trivial
  | findForResume userId =>
      refine getOwnedExportJob_cases userId trivial fun job _ => ?_
      rw [afterFindForResume]
      repeat' split
      all_goals trivial
  | findForCancel userId =>
      refine getOwnedExportJob_cases userId trivial fun job _ => ?_
      rw [afterFindForCancel]
      repeat' split
      all_goals trivial
  | findForVerifyOwner userId =>
      exact getOwnedExportJob_cases userId trivial fun _ _ => trivial
  | findForVerify =>
      simp only [apiStep]
      split
      · trivial
      · next job found =>
          have knows : KnowsJob world job := by
            rw [KnowsJob, World.terms, found, Option.map_some]
          split
          · trivial
          · split
            · trivial
            · exact knows
  | verifyHead job fileKey =>
      simp only [apiStep]
      split
      · trivial
      · exact judging
  | verifyRead job fileKey fileBytes =>
      simp only [apiStep]
      split
      · trivial
      · split
        · trivial
        · next verified => exact ⟨judging, verifyBody_of verified⟩
  | findForDownload userId =>
      refine getOwnedExportJob_cases userId trivial fun job _ => ?_
      rw [afterFindForDownload]
      repeat' split
      all_goals trivial
  | latestForDownload =>
      simp only [apiStep, afterLatestForDownload]
      repeat' split
      all_goals trivial
  | _ => trivial

theorem judgingCommands_stable {pc : ApiPc}
    (terms : ∀ terms, before.terms = some terms → after.terms = some terms)
    (judging : judgingCommands before pc) : judgingCommands after pc := by
  cases pc with
  | verifyHead | verifyRead => exact terms _ judging
  | saveVerification => exact ⟨terms _ judging.1, judging.2⟩
  | _ => trivial

def judgedOutline (env : Env) :
    SystemOutline env fun config _ =>
      (logOutline env Anything).Holds config where
  invariant := World.Judged
  runs _ := judgingRuns
  commands := judgingCommands
  rely before after :=
    ∀ terms, before.terms = some terms → after.terms = some terms
  invariant_passive same judged :=
    judged.keep (keepsRows_same same).terms same.verifications
  rely_passive same := (keepsRows_same same).terms
  stable_runs _ judging := judging
  stable_commands := judgingCommands_stable
  runs_findJob _ := trivial
  runs_ended world pc ended := by
    cases pc <;> trivial
  runs_caught _ _ := trivial
  exclusive _ _ _ _ _ _ _ _ _ := rfl
  commands_begin world request := by
    cases request with
    | create userId rowLimit =>
        simp only [Request.begin]
        repeat' split
        all_goals trivial
    | _ => trivial
  run_sound := by
    intro config index fault pc kept allowed here _ judged judging
    have keeps : KeepsRows config.shared
        (runStep env kept config.shared pc).1 := keepsRows_runStep kept pc
    refine ⟨?_, judgingRuns_step kept, .inl keeps.terms⟩
    cases verifies : pc.verifies with
    | false =>
        exact judged.keep keeps.terms
          (runStep_verifications env kept config.shared verifies)
    | true =>
        cases pc with
        | saveVerification run result =>
            have finished : Finished config.shared run := allowed.run here
            simp only [runStep]
            split
            · next storable =>
                exact judged_save judged finished.job judging storable
            · exact judged
        | _ => cases verifies
  command_sound := by
    intro config index fault pc _ _ _ judged judging
    have keeps : KeepsRows config.shared (apiStep env config.shared pc).1 :=
      keepsRows_apiStep pc
    refine ⟨?_, judgingCommands_stable keeps.terms
      (judgingCommands_step judging), keeps.terms⟩
    cases verifies : pc.verifies with
    | false =>
        exact judged.keep keeps.terms
          (apiStep_verifications env config.shared verifies)
    | true =>
        cases pc with
        | saveVerification job result =>
            simp only [apiStep]
            split
            · next storable =>
                exact judged_save judged judging.1 judging.2 storable
            · exact judged
        | _ => cases verifies
  sweep_sound := by
    intro config index fault pc _ _ judged
    have keeps : KeepsRows config.shared (sweepStep env config.shared pc).1 :=
      keepsRows_sweepStep pc
    exact ⟨judged.keep keeps.terms (sweepStep_verifications ..), keeps.terms⟩
  change_sound := by
    intro config change _ judged
    have terms : ∀ terms, config.shared.terms = some terms →
        (change.apply config.shared).terms = some terms :=
      fun terms known => (change.apply_terms config.shared).trans known
    exact ⟨judged.keep terms (by cases change <;> rfl),
      fun _ _ _ judging => judging,
      fun _ _ _ judging => judgingCommands_stable terms judging⟩

/-! ## The trail -/

/-- Every failure row is sound. -/
def World.Recorded (env : Env) (world : World) : Prop :=
  ∀ row ∈ world.failures, ExportFailure.Recorded env row

theorem recorded_step {source target : Config World Proc}
    {event : Event Action Change}
    (stepEq : (machine env).step source event = some target)
    (recorded : source.shared.Recorded env) : target.shared.Recorded env := by
  obtain ⟨more, moreEq, moreRecorded⟩ := (extends_step stepEq).failures
  intro row member
  rw [moreEq] at member
  rcases List.mem_append.mp member with old | new
  · exact recorded row old
  · exact moreRecorded row new

structure World.TrailSound (env : Env) (world : World) : Prop where
  judged : world.Judged
  recorded : world.Recorded env

/-- Under every interleaving of runs, commands and sweeps with crashes and
failed calls, and whatever happens to the records: between any two states of a
history nothing is lost of the terms, the start, the checkpoints, the
verifications and the failures of the export, and in each of them the rows
that were recorded are sound. -/
theorem trail_kept {source target : Config World Proc}
    {events : List (Event Action Change)} (initial : Initial env source)
    (empty : source.shared.verifications = [] ∧ source.shared.failures = [])
    (history : (machine env).Exec Anything source events target) :
    ((machine env).states source events).Pairwise (fun earlier later =>
        earlier.shared.Extends env later.shared) ∧
      ∀ config ∈ (machine env).states source events,
        config.shared.TrailSound env := by
  have informed := ((logOutline env Anything).strengthen history
    (logOutline_initial initial)).mono fun permission => permission.2
  have judgedInitially : (judgedOutline env).Holds source := by
    apply SystemOutline.holds_of_idle _ initial.idle
    intro row member
    rw [empty.1] at member
    exact absurd member List.not_mem_nil
  refine ⟨history.pairwise_states (fun first second => first.trans second)
    fun _ stepEq => extends_step stepEq, fun config member => ⟨?_, ?_⟩⟩
  · exact (informed.invariant_of_mem_states member
      (judgedOutline env).toProofOutline.step_preserved judgedInitially).1
  · have recordedInitially : source.shared.Recorded env := by
      rw [World.Recorded, empty.2]
      exact nofun
    exact history.invariant_of_mem_states member
      (fun _ stepEq recorded => recorded_step stepEq recorded)
      recordedInitially

theorem trail_kept_crashedAndResumed :
    ∃ target, (machine smallEnv).Exec Anything (smallStart twoRecords)
        crashedAndResumed target ∧
      ((machine smallEnv).states (smallStart twoRecords)
        crashedAndResumed).Pairwise (fun earlier later =>
          earlier.shared.Extends smallEnv later.shared) ∧
      target.shared.TrailSound smallEnv := by
  obtain ⟨target, _, history, _⟩ := crashedAndResumed_ends
  have anyhow : (machine smallEnv).Exec Anything (smallStart twoRecords)
      crashedAndResumed target := history.mono fun _ => trivial
  obtain ⟨grows, sound⟩ :=
    trail_kept (initial_smallStart _) ⟨rfl, rfl⟩ anyhow
  exact ⟨target, anyhow, grows, sound target
    (Machine.target_mem_states anyhow)⟩

end ExportVault
