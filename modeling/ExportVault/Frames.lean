import ExportVault.System

/-!
# What each statement leaves alone

Frame lemmas for the statements of runs, commands and sweeps: which of them
write the terms of the job, its status, the checkpoint log and the store.
-/

namespace ExportVault

open Interleaving

/-- The head of the batch loop goes on with a turn, a failure or the check of
the log. -/
theorem RunPc.loopTop_cases {motive : RunPc → Prop} (run : Progress)
    (more : run.exportedRowCount < run.job.requestedRowLimit →
      motive (.pollCancel run))
    (other : run.job.requestedRowLimit < run.exportedRowCount →
      ∀ reason, motive (.failWith run.exportedRowCount reason))
    (all : run.exportedRowCount = run.job.requestedRowLimit →
      motive (.loadFinal run)) : motive (.loopTop run) := by
  rw [RunPc.loopTop]
  split
  · next less => exact more less
  · next notLess =>
      split
      · next different =>
          exact other (lt_of_le_of_ne (not_lt.mp notLess)
            (Ne.symm different)) _
      · next same => exact all (not_not.mp same)

/-- A deletion is over, or goes on with the next page. -/
theorem RunPc.nextPage_cases {motive : RunPc → Prop} (outcome : RunOutcome)
    (token : Option String) (deleted : Nat)
    (done : motive (.returned outcome))
    (more : ∀ last, motive (.listChunks outcome (some last) deleted)) :
    motive (.nextPage outcome token deleted) := by
  cases token with
  | none => exact done
  | some last =>
      rw [RunPc.nextPage]
      split
      · exact done
      · exact more last

/-- A command goes on with the job only for its owner. -/
theorem getOwnedExportJob_cases {motive : ApiPc → Prop} {world : World}
    (userId : String) {next : ExportJob → ApiPc}
    (denied : motive (.threw exportNotFound))
    (owned : ∀ job, world.job = some job → motive (next job)) :
    motive (getOwnedExportJob world userId next) := by
  rw [getOwnedExportJob]
  split
  · exact denied
  · next job found =>
      split
      · exact denied
      · exact owned job found

/-- A command goes on with the row it has updated. -/
theorem returnJob_cases {motive : ApiPc → Prop} {world : World}
    {next : ExportJob → ApiPc} (missing : ∀ error, motive (.threw error))
    (found : ∀ job, world.job = some job → motive (next job)) :
    motive (returnJob world next) := by
  rw [returnJob]
  split
  · exact missing _
  · next job present => exact found job present

/-- The columns of a job that never change. -/
structure Terms where
  userId : String
  snapshotMaxId : Int
  requestedRowLimit : Int
  batchSize : Int
  deriving DecidableEq, Repr

def ExportJob.terms (job : ExportJob) : Terms where
  userId := job.userId
  snapshotMaxId := job.snapshotMaxId
  requestedRowLimit := job.requestedRowLimit
  batchSize := job.batchSize

def World.terms (world : World) : Option Terms :=
  world.job.map ExportJob.terms

/-- An update that leaves the terms alone. -/
theorem World.terms_updateJob (world : World)
    {change : ExportJob → ExportJob}
    (kept : ∀ job, (change job).terms = job.terms) :
    (world.updateJob change).terms = world.terms := by
  simp only [World.terms, World.updateJob_job, Option.map_map]
  congr 1
  funext job
  exact kept job

/-- No statement of a run changes the terms of the job. -/
theorem runStep_terms (env : Env) (kept : List String) (world : World)
    (pc : RunPc) : (runStep env kept world pc).1.terms = world.terms := by
  cases pc with
  | cancelBeforeStart => exact world.terms_updateJob fun _ => rfl
  | claim =>
      simp only [runStep, claimStep]
      split
      · exact world.terms_updateJob fun _ => rfl
      · rfl
  | setStartedAt =>
      simp only [runStep]
      split
      · exact world.terms_updateJob fun _ => rfl
      · rfl
  | reconcile => exact world.terms_updateJob fun _ => rfl
  | writeCancelled => exact world.terms_updateJob fun _ => rfl
  | commitBatch run rows batchLastId =>
      simp only [runStep, commitStep, World.commitBatch]
      split
      · rfl
      · next after committed =>
          split at committed
          · cases committed
          · obtain rfl := Option.some.inj committed
            simp only [World.terms, Option.map_map]
            rfl
  | writeVerifying => exact world.terms_updateJob fun _ => rfl
  | saveVerification =>
      simp only [runStep]
      split <;> rfl
  | writeFileKey => exact world.terms_updateJob fun _ => rfl
  | writeCompleted => exact world.terms_updateJob fun _ => rfl
  | failJob => exact world.terms_updateJob fun _ => rfl
  | _ => rfl

def RunPc.commits : RunPc → Bool
  | .commitBatch _ _ _ => true
  | _ => false

/-- Only the commit of a batch changes the log. -/
theorem runStep_checkpoints (env : Env) (kept : List String) (world : World)
    {pc : RunPc} (other : pc.commits = false) :
    (runStep env kept world pc).1.checkpoints = world.checkpoints := by
  cases pc with
  | commitBatch => cases other
  | claim =>
      simp only [runStep, claimStep]
      split <;> rfl
  | setStartedAt =>
      simp only [runStep]
      split <;> rfl
  | saveVerification =>
      simp only [runStep]
      split <;> rfl
  | _ => rfl

theorem apiStep_checkpoints (env : Env) (world : World) (pc : ApiPc) :
    (apiStep env world pc).1.checkpoints = world.checkpoints := by
  cases pc with
  | insertJob | remove | add | saveVerification =>
      simp only [apiStep]
      split <;> rfl
  | _ => rfl

/-- The statement that creates the job. -/
def ApiPc.inserts : ApiPc → Bool
  | .insertJob _ _ _ => true
  | _ => false

/-- A command changes the terms only when it creates the job. -/
theorem apiStep_terms (env : Env) {world : World} {pc : ApiPc}
    (other : pc.inserts = false ∨ world.job ≠ none) :
    (apiStep env world pc).1.terms = world.terms := by
  cases pc with
  | insertJob =>
      simp only [apiStep]
      split
      · rfl
      · next absent =>
          rcases other with impossible | present
          · cases impossible
          · exact absurd absent present
  | remove | add | saveVerification =>
      simp only [apiStep]
      split <;> rfl
  | writeQueued => exact world.terms_updateJob fun _ => rfl
  | writeResuming => exact world.terms_updateJob fun _ => rfl
  | writeCancel job =>
      apply world.terms_updateJob
      intro row
      simp only [cancelChange]
      split <;> rfl
  | _ => rfl

theorem sweepStep_terms (env : Env) (world : World) (pc : SweepPc) :
    (sweepStep env world pc).1.terms = world.terms := by
  cases pc with
  | markInterrupted =>
      simp only [sweepStep]
      split
      · exact world.terms_updateJob fun _ => rfl
      · rfl
  | _ => rfl

theorem sweepStep_checkpoints (env : Env) (world : World) (pc : SweepPc) :
    (sweepStep env world pc).1.checkpoints = world.checkpoints := by
  cases pc with
  | markInterrupted =>
      simp only [sweepStep]
      split <;> rfl
  | _ => rfl

theorem Change.apply_terms (world : World) (change : Change) :
    (change.apply world).terms = world.terms := by
  cases change <;> rfl

theorem Change.apply_checkpoints (world : World) (change : Change) :
    (change.apply world).checkpoints = world.checkpoints := by
  cases change <;> rfl

def RunPc.stores : RunPc → Bool
  | .putChunk _ _ _ => true
  | .uploadFinal _ _ => true
  | .deletePage _ _ _ _ => true
  | _ => false

theorem runStep_store (env : Env) (kept : List String) (world : World)
    {pc : RunPc} (other : pc.stores = false) :
    (runStep env kept world pc).1.store = world.store := by
  cases pc with
  | putChunk | uploadFinal | deletePage => cases other
  | claim =>
      simp only [runStep, claimStep]
      split <;> rfl
  | setStartedAt =>
      simp only [runStep]
      split <;> rfl
  | commitBatch =>
      simp only [runStep, commitStep, World.commitBatch]
      split
      · rfl
      · next after committed =>
          split at committed
          · cases committed
          · obtain rfl := Option.some.inj committed
            rfl
  | saveVerification =>
      simp only [runStep]
      split <;> rfl
  | _ => rfl

theorem apiStep_store (env : Env) (world : World) (pc : ApiPc) :
    (apiStep env world pc).1.store = world.store := by
  cases pc with
  | insertJob | remove | add | saveVerification =>
      simp only [apiStep]
      split <;> rfl
  | _ => rfl

theorem sweepStep_store (env : Env) (world : World) (pc : SweepPc) :
    (sweepStep env world pc).1.store = world.store := by
  cases pc with
  | markInterrupted =>
      simp only [sweepStep]
      split <;> rfl
  | _ => rfl

theorem Change.apply_store (world : World) (change : Change) :
    (change.apply world).store = world.store := by
  cases change <;> rfl

theorem runStep_entry (env : Env) (kept : List String) (world : World)
    (pc : RunPc) : (runStep env kept world pc).1.entry = world.entry := by
  cases pc with
  | claim =>
      simp only [runStep, claimStep]
      split <;> rfl
  | setStartedAt =>
      simp only [runStep]
      split <;> rfl
  | commitBatch =>
      simp only [runStep, commitStep, World.commitBatch]
      split
      · rfl
      · next after committed =>
          split at committed
          · cases committed
          · obtain rfl := Option.some.inj committed
            rfl
  | saveVerification =>
      simp only [runStep]
      split <;> rfl
  | _ => rfl

theorem sweepStep_entry (env : Env) (world : World) (pc : SweepPc) :
    (sweepStep env world pc).1.entry = world.entry := by
  cases pc with
  | markInterrupted =>
      simp only [sweepStep]
      split <;> rfl
  | _ => rfl

theorem Change.apply_entry (world : World) (change : Change) :
    (change.apply world).entry = world.entry := by
  cases change <;> rfl

/-- A command leaves the entry, removes it or adds a waiting one. -/
theorem apiStep_entry (env : Env) (world : World) (pc : ApiPc) :
    (apiStep env world pc).1.entry = world.entry ∨
      (apiStep env world pc).1.entry = none ∨
      (apiStep env world pc).1.entry = some {} := by
  cases pc with
  | insertJob | saveVerification =>
      simp only [apiStep]
      split <;> exact .inl rfl
  | remove =>
      simp only [apiStep]
      split
      · exact .inl rfl
      · exact .inr (.inl rfl)
  | add =>
      simp only [apiStep]
      split
      · exact .inr (.inr rfl)
      · exact .inl rfl
  | _ => exact .inl rfl

/-- A step leaves an active entry with its holder, or it is the delivery to
the holder. -/
theorem actStep_entry {env : Env} {index : Nat} {world after : World}
    {proc next : Proc} {action : Action} {entry : QueueEntry} {holder : Nat}
    (step : ActStep env index world proc action after next)
    (entryEq : after.entry = some entry)
    (active : entry.state = .active holder) :
    (world.entry = some entry ∧
        ∀ pc, proc = .run pc → ∃ pc, next = .run pc) ∨
      (holder = index ∧ next = .run .findJob) := by
  have released : ∀ {released : QueueEntry}, after.entry = some released →
      (∀ holder, released.state ≠ .active holder) → False := by
    intro released releasedEq inactive
    obtain rfl := Option.some.inj (entryEq.symm.trans releasedEq)
    exact inactive holder active
  cases step with
  | deliver ready =>
      obtain rfl := Option.some.inj entryEq
      cases active
      exact .inr ⟨rfl, rfl⟩
  | run fault live =>
      refine .inl ⟨?_, fun _ _ => ⟨_, rfl⟩⟩
      rw [← entryEq]
      symm
      apply runCall_cases (motive := fun result =>
        result.1.entry = world.entry) fault
      · exact fun kept => runStep_entry _ _ _ _
      · exact fun _ => rfl
      · exact fun _ => runStep_entry _ _ _ _
  | @api pc fault live =>
      have changed : (apiCall env world pc fault).1.entry = world.entry ∨
          (apiCall env world pc fault).1.entry = none ∨
          (apiCall env world pc fault).1.entry = some {} := by
        apply apiCall_cases (motive := fun result =>
          result.1.entry = world.entry ∨ result.1.entry = none ∨
            result.1.entry = some {}) fault
        · exact apiStep_entry _ _ _
        · exact fun _ => .inl rfl
        · exact fun _ => apiStep_entry _ _ _
      rcases changed with same | gone | added
      · exact .inl ⟨same.symm.trans entryEq, fun _ same => by cases same⟩
      · rw [gone] at entryEq
        cases entryEq
      · exact (released added fun _ => by simp).elim
  | sweep fault =>
      refine .inl ⟨?_, fun _ same => by cases same⟩
      rw [← entryEq]
      symm
      apply sweepCall_cases (motive := fun result =>
        result.1.entry = world.entry) fault
      · exact sweepStep_entry _ _ _
      · rfl
      · exact sweepStep_entry _ _ _
  | settleReturned => exact (released rfl fun _ => by simp).elim
  | settleThrew =>
      refine (released rfl fun _ => ?_).elim
      simp only [QueueEntry.afterThrow]
      split <;> simp
  | stall =>
      refine (released rfl fun _ => ?_).elim
      simp only [QueueEntry.afterStall]
      split <;> simp
  | queueFailed fault same entrySame =>
      exact .inl ⟨entrySame.symm.trans entryEq, fun _ same => by cases same⟩
  | runCrash => exact .inl ⟨entryEq, fun _ _ => ⟨_, rfl⟩⟩
  | _ => exact .inl ⟨entryEq, fun _ same => by cases same⟩

theorem runStep_records (env : Env) (kept : List String) (world : World)
    (pc : RunPc) : (runStep env kept world pc).1.records = world.records := by
  cases pc with
  | claim =>
      simp only [runStep, claimStep]
      split <;> rfl
  | setStartedAt =>
      simp only [runStep]
      split <;> rfl
  | commitBatch =>
      simp only [runStep, commitStep, World.commitBatch]
      split
      · rfl
      · next after committed =>
          split at committed
          · cases committed
          · obtain rfl := Option.some.inj committed
            rfl
  | saveVerification =>
      simp only [runStep]
      split <;> rfl
  | _ => rfl

theorem apiStep_records (env : Env) (world : World) (pc : ApiPc) :
    (apiStep env world pc).1.records = world.records := by
  cases pc with
  | insertJob | remove | add | saveVerification =>
      simp only [apiStep]
      split <;> rfl
  | _ => rfl

theorem sweepStep_records (env : Env) (world : World) (pc : SweepPc) :
    (sweepStep env world pc).1.records = world.records := by
  cases pc with
  | markInterrupted =>
      simp only [sweepStep]
      split <;> rfl
  | _ => rfl

def RunPc.verifies : RunPc → Bool
  | .saveVerification _ _ => true
  | _ => false

theorem runStep_verifications (env : Env) (kept : List String)
    (world : World) {pc : RunPc} (other : pc.verifies = false) :
    (runStep env kept world pc).1.verifications = world.verifications := by
  cases pc with
  | saveVerification => cases other
  | claim =>
      simp only [runStep, claimStep]
      split <;> rfl
  | setStartedAt =>
      simp only [runStep]
      split <;> rfl
  | commitBatch =>
      simp only [runStep, commitStep, World.commitBatch]
      split
      · rfl
      · next after committed =>
          split at committed
          · cases committed
          · obtain rfl := Option.some.inj committed
            rfl
  | _ => rfl

def ApiPc.verifies : ApiPc → Bool
  | .saveVerification _ _ => true
  | _ => false

theorem apiStep_verifications (env : Env) (world : World) {pc : ApiPc}
    (other : pc.verifies = false) :
    (apiStep env world pc).1.verifications = world.verifications := by
  cases pc with
  | saveVerification => cases other
  | insertJob | remove | add =>
      simp only [apiStep]
      split <;> rfl
  | _ => rfl

theorem sweepStep_verifications (env : Env) (world : World) (pc : SweepPc) :
    (sweepStep env world pc).1.verifications = world.verifications := by
  cases pc with
  | markInterrupted =>
      simp only [sweepStep]
      split <;> rfl
  | _ => rfl

def World.fileKey (world : World) : Option String :=
  world.job.bind ExportJob.fileKey

theorem World.fileKey_updateJob (world : World)
    {change : ExportJob → ExportJob}
    (kept : ∀ job, (change job).fileKey = job.fileKey) :
    (world.updateJob change).fileKey = world.fileKey := by
  rw [World.fileKey, World.updateJob_job, Option.bind_map]
  exact congrArg (Option.bind world.job) (funext kept)

/-- A statement of a run leaves the file key of the job, or names the final
object. -/
theorem runStep_fileKey (env : Env) (kept : List String) (world : World)
    (pc : RunPc) :
    (runStep env kept world pc).1.fileKey = world.fileKey ∨
      (runStep env kept world pc).1.fileKey =
        world.job.map fun _ => finalKey env.exportJobId := by
  cases pc with
  | cancelBeforeStart => exact .inl (world.fileKey_updateJob fun _ => rfl)
  | claim =>
      simp only [runStep, claimStep]
      split
      · exact .inl (world.fileKey_updateJob fun _ => rfl)
      · exact .inl rfl
  | setStartedAt =>
      simp only [runStep]
      split
      · exact .inl (world.fileKey_updateJob fun _ => rfl)
      · exact .inl rfl
  | reconcile => exact .inl (world.fileKey_updateJob fun _ => rfl)
  | writeCancelled => exact .inl (world.fileKey_updateJob fun _ => rfl)
  | commitBatch run rows batchLastId =>
      left
      simp only [runStep, commitStep, World.commitBatch]
      split
      · rfl
      · next after committed =>
          split at committed
          · cases committed
          · obtain rfl := Option.some.inj committed
            rw [World.fileKey, Option.bind_map]
            rfl
  | writeVerifying => exact .inl (world.fileKey_updateJob fun _ => rfl)
  | saveVerification =>
      simp only [runStep]
      split <;> exact .inl rfl
  | writeFileKey | writeCompleted =>
      right
      simp only [runStep, World.fileKey, World.updateJob_job,
        Option.bind_map]
      cases world.job <;> rfl
  | failJob => exact .inl (world.fileKey_updateJob fun _ => rfl)
  | _ => exact .inl rfl

theorem apiStep_fileKey (env : Env) {world : World} {pc : ApiPc}
    (other : pc.inserts = false ∨ world.job ≠ none) :
    (apiStep env world pc).1.fileKey = world.fileKey := by
  cases pc with
  | insertJob =>
      simp only [apiStep]
      split
      · rfl
      · next absent =>
          rcases other with impossible | present
          · cases impossible
          · exact absurd absent present
  | remove | add | saveVerification =>
      simp only [apiStep]
      split <;> rfl
  | writeQueued => exact world.fileKey_updateJob fun _ => rfl
  | writeResuming => exact world.fileKey_updateJob fun _ => rfl
  | writeCancel job =>
      apply world.fileKey_updateJob
      intro row
      simp only [cancelChange]
      split <;> rfl
  | _ => rfl

theorem sweepStep_fileKey (env : Env) (world : World) (pc : SweepPc) :
    (sweepStep env world pc).1.fileKey = world.fileKey := by
  cases pc with
  | markInterrupted =>
      simp only [sweepStep]
      split
      · exact world.fileKey_updateJob fun _ => rfl
      · rfl
  | _ => rfl

theorem runStep_now (env : Env) (kept : List String) (world : World)
    (pc : RunPc) : (runStep env kept world pc).1.now = world.now := by
  cases pc with
  | claim =>
      simp only [runStep, claimStep]
      split <;> rfl
  | setStartedAt =>
      simp only [runStep]
      split <;> rfl
  | commitBatch =>
      simp only [runStep, commitStep, World.commitBatch]
      split
      · rfl
      · next after committed =>
          split at committed
          · cases committed
          · obtain rfl := Option.some.inj committed
            rfl
  | saveVerification =>
      simp only [runStep]
      split <;> rfl
  | _ => rfl

theorem apiStep_failures (env : Env) (world : World) (pc : ApiPc) :
    (apiStep env world pc).1.failures = world.failures := by
  cases pc with
  | insertJob | remove | add | saveVerification =>
      simp only [apiStep]
      split <;> rfl
  | _ => rfl

theorem apiStep_now (env : Env) (world : World) (pc : ApiPc) :
    (apiStep env world pc).1.now = world.now := by
  cases pc with
  | insertJob | remove | add | saveVerification =>
      simp only [apiStep]
      split <;> rfl
  | _ => rfl

theorem sweepStep_now (env : Env) (world : World) (pc : SweepPc) :
    (sweepStep env world pc).1.now = world.now := by
  cases pc with
  | markInterrupted =>
      simp only [sweepStep]
      split <;> rfl
  | _ => rfl

/-- No process turns the clock. -/
theorem actStep_now {env : Env} {index : Nat} {world after : World}
    {proc next : Proc} {action : Action}
    (step : ActStep env index world proc action after next) :
    after.now = world.now := by
  cases step with
  | run fault live =>
      exact runCall_cases (motive := fun result =>
        result.1.now = world.now) fault (fun _ => runStep_now _ _ _ _)
        (fun _ => rfl) fun _ => runStep_now _ _ _ _
  | api fault live =>
      exact apiCall_cases (motive := fun result =>
        result.1.now = world.now) fault (apiStep_now _ _ _)
        (fun _ => rfl) fun _ => apiStep_now _ _ _
  | sweep fault =>
      exact sweepCall_cases (motive := fun result =>
        result.1.now = world.now) fault (sweepStep_now _ _ _) rfl
        (sweepStep_now _ _ _)
  | queueFailed fault same entry => exact same.now
  | _ => rfl

/-! ## The status of the job -/

def RunPc.sets : RunPc → Option ExportStatus
  | .cancelBeforeStart _ => some .cancelled
  | .claim _ _ => some .running
  | .writeCancelled _ => some .cancelled
  | .writeVerifying _ _ => some .verifying
  | .writeCompleted _ => some .completed
  | .failJob _ _ _ => some .failed
  | _ => none

/-- The status a statement of a command writes over another one. -/
def ApiPc.sets : ApiPc → Option ExportStatus
  | .writeQueued => some .queued
  | .writeResuming => some .resuming
  | .writeCancel job =>
      if job.status = .running then none else some .cancelled
  | _ => none

def SweepPc.sets : SweepPc → Option ExportStatus
  | .markInterrupted _ _ => some .interrupted
  | _ => none

def SetsStatus (sets : Option ExportStatus) (before after : World) : Prop :=
  after.status = before.status ∨
    ∃ status, sets = some status ∧
      after.status = before.status.map fun _ => status

theorem World.status_updateJob_same (world : World)
    {change : ExportJob → ExportJob}
    (kept : ∀ job, (change job).status = job.status) :
    (world.updateJob change).status = world.status := by
  simp only [World.status, World.updateJob_job, Option.map_map]
  congr 1
  funext job
  exact kept job

theorem World.status_updateJob_set (world : World)
    {change : ExportJob → ExportJob} {status : ExportStatus}
    (set : ∀ job, (change job).status = status) :
    (world.updateJob change).status = world.status.map fun _ => status := by
  simp only [World.status, World.updateJob_job, Option.map_map]
  congr 1
  funext job
  exact set job

/-- After a write of a status the job has no other. -/
theorem World.status_updateJob_ne (world : World)
    {change : ExportJob → ExportJob} {status other : ExportStatus}
    (set : ∀ job, (change job).status = status) (different : status ≠ other) :
    (world.updateJob change).status ≠ some other := by
  rw [world.status_updateJob_set set]
  cases world.status with
  | none => simp
  | some old => simpa using different

theorem runStep_status (env : Env) (kept : List String) (world : World)
    (pc : RunPc) :
    SetsStatus pc.sets world (runStep env kept world pc).1 := by
  have set : ∀ {change : ExportJob → ExportJob} {status : ExportStatus},
      pc.sets = some status → (∀ job, (change job).status = status) →
        SetsStatus pc.sets world (world.updateJob change) :=
    fun sets always => .inr ⟨_, sets, world.status_updateJob_set always⟩
  cases pc with
  | cancelBeforeStart => exact set rfl fun _ => rfl
  | claim =>
      simp only [runStep, claimStep]
      split
      · exact set rfl fun _ => rfl
      · exact .inl rfl
  | setStartedAt =>
      simp only [runStep]
      split
      · exact .inl (world.status_updateJob_same fun _ => rfl)
      · exact .inl rfl
  | reconcile => exact .inl (world.status_updateJob_same fun _ => rfl)
  | writeCancelled => exact set rfl fun _ => rfl
  | commitBatch =>
      simp only [runStep, commitStep, World.commitBatch]
      split
      · exact .inl rfl
      · next after committed =>
          split at committed
          · cases committed
          · obtain rfl := Option.some.inj committed
            left
            simp only [World.status, Option.map_map]
            rfl
  | writeVerifying => exact set rfl fun _ => rfl
  | saveVerification =>
      simp only [runStep]
      split <;> exact .inl rfl
  | writeFileKey => exact .inl (world.status_updateJob_same fun _ => rfl)
  | writeCompleted => exact set rfl fun _ => rfl
  | failJob => exact set rfl fun _ => rfl
  | _ => exact .inl rfl

theorem apiStep_status (env : Env) {world : World} {pc : ApiPc}
    (other : pc.inserts = false ∨ world.job ≠ none) :
    SetsStatus pc.sets world (apiStep env world pc).1 := by
  have set : ∀ {change : ExportJob → ExportJob} {status : ExportStatus},
      pc.sets = some status → (∀ job, (change job).status = status) →
        SetsStatus pc.sets world (world.updateJob change) :=
    fun sets always => .inr ⟨_, sets, world.status_updateJob_set always⟩
  cases pc with
  | insertJob =>
      simp only [apiStep]
      split
      · exact .inl rfl
      · next absent =>
          rcases other with impossible | present
          · cases impossible
          · exact absurd absent present
  | remove | add | saveVerification =>
      simp only [apiStep]
      split <;> exact .inl rfl
  | writeQueued => exact set rfl fun _ => rfl
  | writeResuming => exact set rfl fun _ => rfl
  | writeCancel job =>
      by_cases running : job.status = .running
      · left
        apply world.status_updateJob_same
        intro row
        rw [cancelChange, if_pos running]
      · apply set
        · rw [ApiPc.sets, if_neg running]
        · intro row
          rw [cancelChange, if_neg running]
  | _ => exact .inl rfl

theorem sweepStep_status (env : Env) (world : World) (pc : SweepPc) :
    SetsStatus pc.sets world (sweepStep env world pc).1 := by
  cases pc with
  | markInterrupted =>
      simp only [sweepStep]
      split
      · exact .inr ⟨_, rfl, world.status_updateJob_set fun _ => rfl⟩
      · exact .inl rfl
  | _ => exact .inl rfl

theorem Change.apply_job (world : World) (change : Change) :
    (change.apply world).job = world.job := by
  cases change <;> rfl

theorem Change.apply_status (world : World) (change : Change) :
    (change.apply world).status = world.status :=
  congrArg (Option.map ExportJob.status) (change.apply_job world)

theorem World.SameExport.status {before after : World}
    (same : before.SameExport after) : after.status = before.status :=
  congrArg (Option.map ExportJob.status) same.job

/-- A statement that does not write a status leaves it, once it holds, to
have been there before. -/
theorem SetsStatus.before {sets : Option ExportStatus} {before after : World}
    {status : ExportStatus} (change : SetsStatus sets before after)
    (other : sets ≠ some status) (now : after.status = some status) :
    before.status = some status := by
  rcases change with same | ⟨written, setsEq, mapped⟩
  · exact same.symm.trans now
  · rw [mapped, Option.map_eq_some_iff] at now
    obtain ⟨_, _, rfl⟩ := now
    exact absurd setsEq other

def commandStatuses : List ExportStatus :=
  [.pending, .queued, .resuming, .cancelled]

/-- A status that no command writes was there before a command's statement. -/
theorem apiStep_before {env : Env} {world : World} {pc : ApiPc}
    {status : ExportStatus} (foreign : status ∉ commandStatuses)
    (now : (apiStep env world pc).1.status = some status) :
    world.status = some status := by
  by_cases other : pc.inserts = false ∨ world.job ≠ none
  · refine (apiStep_status env other).before ?_ now
    rintro sets
    apply foreign
    cases pc with
    | writeQueued => cases sets; decide
    | writeResuming => cases sets; decide
    | writeCancel job =>
        simp only [ApiPc.sets] at sets
        split at sets
        · cases sets
        · cases sets
          decide
    | _ => cases sets
  · simp only [not_or, not_not, Bool.not_eq_false] at other
    obtain ⟨inserts, absent⟩ := other
    cases pc with
    | insertJob =>
        simp only [apiStep, absent, World.status, Option.map_some,
          newExportJob, Option.some.injEq] at now
        rw [← now] at foreign
        exact absurd foreign (by decide)
    | _ => cases inserts

/-- A status other than `INTERRUPTED` was there before a sweep's statement. -/
theorem sweepStep_before {env : Env} {world : World} {pc : SweepPc}
    {status : ExportStatus} (different : status ≠ .interrupted)
    (now : (sweepStep env world pc).1.status = some status) :
    world.status = some status := by
  refine (sweepStep_status env world pc).before ?_ now
  intro sets
  cases pc with
  | markInterrupted => exact different (Option.some.inj sets).symm
  | _ => cases sets

def RunPc.writes (world : World) : RunPc → Option ExportStatus
  | .claim _ staleCutoff =>
      if world.job.any (claimable staleCutoff) then some .running else none
  | pc => pc.sets

/-- The status the next statement of a sweep writes: the update is
guarded. -/
def SweepPc.writes (world : World) : SweepPc → Option ExportStatus
  | .markInterrupted cutoff _ =>
      if world.job.any (stalled cutoff) then some .interrupted else none
  | _ => none

def Proc.writes (world : World) : Proc → Action → Option ExportStatus
  | _, .call (.refused _) => none
  | .run pc, .call _ => pc.writes world
  | .api pc, .call _ => pc.sets
  | .sweep pc, .call _ => pc.writes world
  | _, _ => none

theorem runStep_writes (env : Env) (kept : List String) (world : World)
    (pc : RunPc) :
    SetsStatus (pc.writes world) world (runStep env kept world pc).1 := by
  cases pc with
  | claim job staleCutoff =>
      simp only [RunPc.writes, runStep, claimStep]
      split
      · exact .inr ⟨_, rfl, world.status_updateJob_set fun _ => rfl⟩
      · exact .inl rfl
  | _ => exact runStep_status env kept world _

theorem sweepStep_writes (env : Env) (world : World) (pc : SweepPc) :
    SetsStatus (pc.writes world) world (sweepStep env world pc).1 := by
  cases pc with
  | markInterrupted cutoff message =>
      simp only [SweepPc.writes, sweepStep]
      split
      · exact .inr ⟨_, rfl, world.status_updateJob_set fun _ => rfl⟩
      · exact .inl rfl
  | _ => exact .inl rfl

/-- A step changes the status of an existing job only by writing one. -/
theorem actStep_writes {env : Env} {index : Nat} {world after : World}
    {proc next : Proc} {action : Action} (present : world.job ≠ none)
    (step : ActStep env index world proc action after next) :
    SetsStatus (proc.writes world action) world after := by
  cases step with
  | run fault live =>
      cases fault with
      | none => exact runStep_writes env [] world _
      | keeping kept => exact runStep_writes env kept world _
      | refused message => exact .inl rfl
      | lost message => exact runStep_writes env [] world _
  | api fault live =>
      cases fault with
      | none => exact apiStep_status env (.inr present)
      | keeping kept => exact apiStep_status env (.inr present)
      | refused message => exact .inl rfl
      | lost message => exact apiStep_status env (.inr present)
  | sweep fault =>
      cases fault with
      | none => exact sweepStep_writes env world _
      | keeping kept => exact sweepStep_writes env world _
      | refused message => exact .inl rfl
      | lost message => exact sweepStep_writes env world _
  | queueFailed fault same entry => exact .inl same.status
  | _ => exact .inl rfl

def ApiPc.creates : ApiPc → Bool
  | .captureSnapshot _ _ => true
  | .countRecords _ _ _ => true
  | .insertJob _ _ _ => true
  | _ => false

/-- A command creates the job only after it has captured the boundary and
counted enough records up to it. -/
theorem apiStep_creates (env : Env) (world : World) (pc : ApiPc) :
    (apiStep env world pc).2.creates = false ∨
      (∃ userId rowLimit, pc = .captureSnapshot userId rowLimit ∧
        (apiStep env world pc).2 = .countRecords userId rowLimit
          (captureSnapshotMaxId world.records)) ∨
      ∃ userId rowLimit snapshotMaxId,
        pc = .countRecords userId rowLimit snapshotMaxId ∧
        rowLimit ≤ countRecordsWithinSnapshot world.records snapshotMaxId ∧
        (apiStep env world pc).2 =
          .insertJob userId rowLimit snapshotMaxId := by
  have owned : ∀ {userId : String} {next : ExportJob → ApiPc},
      (∀ job, (next job).creates = false) →
        (getOwnedExportJob world userId next).creates = false := by
    intro userId next follows
    exact getOwnedExportJob_cases (motive := fun next =>
      next.creates = false) userId rfl fun job _ => follows job
  have enqueued : ∀ caller, (ApiPc.afterEnqueue caller).creates = false := by
    intro caller
    cases caller <;> rfl
  have answered : ∀ {after : World} {next : ExportJob → ApiPc},
      (∀ job, (next job).creates = false) →
        (returnJob after next).creates = false := by
    intro after next follows
    exact returnJob_cases (motive := fun next => next.creates = false)
      (fun _ => rfl) fun job _ => follows job
  cases pc with
  | captureSnapshot userId rowLimit =>
      exact .inr (.inl ⟨userId, rowLimit, rfl, rfl⟩)
  | countRecords userId rowLimit snapshotMaxId =>
      simp only [apiStep]
      split
      · exact .inl rfl
      · next enough =>
          exact .inr (.inr ⟨userId, rowLimit, snapshotMaxId, rfl,
            not_lt.mp enough, rfl⟩)
  | insertJob | getJob | remove | verifyHead | saveVerification =>
      left
      simp only [apiStep]
      split <;> rfl
  | getState =>
      left
      simp only [apiStep]
      split
      · exact enqueued _
      · rfl
  | add => exact .inl (enqueued _)
  | writeQueued => exact .inl (answered fun _ => rfl)
  | findForResume =>
      refine .inl (owned fun job => ?_)
      simp only [afterFindForResume]
      repeat' split
      all_goals rfl
  | writeResuming => exact .inl (answered fun _ => rfl)
  | findForCancel =>
      refine .inl (owned fun job => ?_)
      simp only [afterFindForCancel]
      repeat' split
      all_goals rfl
  | writeCancel => exact .inl (answered fun _ => rfl)
  | findForVerifyOwner => exact .inl (owned fun _ => rfl)
  | findForVerify | verifyRead =>
      left
      simp only [apiStep]
      repeat' split
      all_goals rfl
  | findForDownload =>
      refine .inl (owned fun job => ?_)
      simp only [afterFindForDownload]
      repeat' split
      all_goals rfl
  | latestForDownload =>
      left
      simp only [apiStep, afterLatestForDownload]
      repeat' split
      all_goals rfl
  | _ => exact .inl rfl

/-- A run comes to own the job by its claim only. -/
theorem claims_of_claimed {env : Env} {world : World} {pc : RunPc}
    (fault : Fault) (live : pc.ended = false)
    (owns : (runCall env world pc fault).2.claimed = true)
    (ownedNot : pc.claimed = false) :
    ∃ job staleCutoff, pc = .claim job staleCutoff := by
  cases pc with
  | claim job staleCutoff => exact ⟨job, staleCutoff, rfl⟩
  | findJob =>
      have notOwned : (afterFindJob env world).claimed = false := by
        simp only [afterFindJob]
        repeat' split
        all_goals rfl
      cases fault with
      | none => exact absurd (notOwned.symm.trans owns) (by simp)
      | keeping kept => exact absurd (notOwned.symm.trans owns) (by simp)
      | refused message => cases owns
      | lost message => cases owns
  | recordMissing => cases fault <;> cases owns
  | cancelBeforeStart => cases fault <;> cases owns
  | returned | threw | crashed => cases live
  | _ => cases ownedNot

end ExportVault
