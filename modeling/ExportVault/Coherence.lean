import ExportVault.Log

/-!
# The row of an export

What a reader of `export_jobs` may rely on, whoever wrote the row last: its
dates lie in the past, its progress stays within the request, and its status
tells which of the other columns are filled (`rowCoherent_history`).
-/

namespace ExportVault

open Interleaving

structure ExportJob.Dated (job : ExportJob) (now : Int) : Prop where
  updated : job.updatedAt ≤ now
  started : ∀ time ∈ job.startedAt, time ≤ job.updatedAt
  completed : ∀ time ∈ job.completedAt, time ≤ job.updatedAt
  failed : ∀ time ∈ job.failedAt, time ≤ job.updatedAt

/-- The progress stays within what was requested. -/
structure ExportJob.Counted (job : ExportJob) : Prop where
  positive : 0 < job.requestedRowLimit
  capped : job.requestedRowLimit ≤ maxRowLimit
  nonneg : 0 ≤ job.exportedRowCount
  within : job.exportedRowCount ≤ job.requestedRowLimit
  cursor : ∀ lastId ∈ job.lastExportedId,
    0 < lastId ∧ lastId ≤ job.snapshotMaxId

/-- The path the API serves the file of an export under. -/
def downloadPath (exportJobId : String) : String :=
  "/api/exports/" ++ exportJobId ++ "/download"

structure ExportJob.Filed (env : Env) (job : ExportJob) : Prop where
  key : ∀ fileKey ∈ job.fileKey, fileKey = finalKey env.exportJobId
  url : ∀ fileUrl ∈ job.fileUrl,
    fileUrl = downloadPath env.exportJobId ∧ job.fileKey ≠ none

structure ExportJob.Complete (env : Env) (job : ExportJob) : Prop where
  key : job.fileKey = some (finalKey env.exportJobId)
  url : job.fileUrl = some (downloadPath env.exportJobId)
  noError : job.errorMessage = none
  noFailure : job.failedAt = none
  lasted : ∃ started ∈ job.startedAt, ∃ completed ∈ job.completedAt,
    started ≤ completed

/-- What the status says about the other columns. -/
def ExportJob.Tells (env : Env) (job : ExportJob) : Prop :=
  match job.status with
  | .pending | .running | .resuming =>
      job.errorMessage = none ∧ job.failedAt = none
  | .queued => True
  | .interrupted => job.errorMessage ≠ none
  | .verifying => job.startedAt ≠ none
  | .completed => job.Complete env
  | .failed => job.errorMessage ≠ none ∧ job.failedAt ≠ none
  | .cancelled => job.completedAt ≠ none

structure ExportJob.Coherent (env : Env) (now : Int) (job : ExportJob) :
    Prop where
  dated : job.Dated now
  counted : job.Counted
  filed : job.Filed env
  tells : job.Tells env

variable {env : Env} {now : Int} {job row : ExportJob}
variable {before after world : World}

/-! ## Writes -/

theorem ExportJob.Dated.later (dated : job.Dated now) {later : Int}
    (order : now ≤ later) : job.Dated later :=
  { dated with updated := le_trans dated.updated order }

/-- A write keeps a date, removes it or sets it to the time of the write. -/
theorem ExportJob.Dated.write (dated : job.Dated now)
    (updated : row.updatedAt = now)
    (started : row.startedAt = job.startedAt ∨ row.startedAt = some now)
    (completed : row.completedAt = job.completedAt ∨
      row.completedAt = some now)
    (failed : row.failedAt = job.failedAt ∨ row.failedAt = none ∨
      row.failedAt = some now) : row.Dated now := by
  have old : ∀ {time : Int}, time ≤ job.updatedAt → time ≤ row.updatedAt := by
    intro time order
    rw [updated]
    exact le_trans order dated.updated
  have present : ∀ time ∈ some now, time ≤ row.updatedAt := by
    rintro time ⟨⟩
    exact le_of_eq updated.symm
  refine ⟨le_of_eq updated, ?_, ?_, ?_⟩
  · rcases started with same | set
    · rw [same]
      exact fun time member => old (dated.started time member)
    · rwa [set]
  · rcases completed with same | set
    · rw [same]
      exact fun time member => old (dated.completed time member)
    · rwa [set]
  · rcases failed with same | cleared | set
    · rw [same]
      exact fun time member => old (dated.failed time member)
    · rw [cleared]
      intro time member
      cases member
    · rwa [set]

theorem ExportJob.Counted.same (counted : job.Counted)
    (terms : row.terms = job.terms)
    (count : row.exportedRowCount = job.exportedRowCount)
    (lastId : row.lastExportedId = job.lastExportedId) : row.Counted := by
  simp only [ExportJob.terms, Terms.mk.injEq] at terms
  obtain ⟨_, boundary, limit, _⟩ := terms
  exact
    { positive := limit ▸ counted.positive
      capped := limit ▸ counted.capped
      nonneg := count ▸ counted.nonneg
      within := by rw [count, limit]; exact counted.within
      cursor := by rw [lastId, boundary]; exact counted.cursor }

/-- A write that counts the rows of a log. -/
theorem ExportJob.Counted.count {done : List ExportCheckpoint}
    (counted : job.Counted) (terms : row.terms = job.terms)
    (log : WellFormedLog job.terms done)
    (count : row.exportedRowCount = rowsOf done)
    (lastId : row.lastExportedId = none ∨
      row.lastExportedId = some (cursorOf done) ∧ done ≠ []) :
    row.Counted := by
  simp only [ExportJob.terms, Terms.mk.injEq] at terms
  obtain ⟨_, boundary, limit, _⟩ := terms
  refine
    { positive := limit ▸ counted.positive
      capped := limit ▸ counted.capped
      nonneg := ?_
      within := ?_
      cursor := ?_ }
  · have rows := rowsOf_nonneg job.terms log.rows
    omega
  · rw [count, limit]
    exact log.total
  · rcases lastId with cleared | ⟨set, nonempty⟩
    · rw [cleared]
      intro lastId member
      cases member
    · rw [set, boundary]
      rintro lastId ⟨⟩
      obtain ⟨checkpoint, member, cursorEq⟩ :=
        Keyset.exists_mem_cursor ExportCheckpoint.lastRecordId 0 nonempty
      refine ⟨?_, log.cursorOf_le nonempty⟩
      rw [cursorOf, cursorEq]
      exact log.rising.above checkpoint member

def World.RowCoherent (env : Env) (world : World) : Prop :=
  ∀ job, world.job = some job → job.Coherent env world.now

theorem World.RowCoherent.same (coherent : before.RowCoherent env)
    (job : after.job = before.job) (now : before.now ≤ after.now) :
    after.RowCoherent env := by
  intro row found
  have known := coherent row (job.symm.trans found)
  exact { known with dated := known.dated.later now }

theorem World.RowCoherent.update (coherent : world.RowCoherent env)
    {change : ExportJob → ExportJob}
    (written : ∀ job, world.job = some job → job.Coherent env world.now →
      ({ change job with updatedAt := world.now } : ExportJob).Coherent env
        world.now) :
    (world.updateJob change).RowCoherent env := by
  intro row found
  obtain ⟨job, present, rfl⟩ := Option.map_eq_some_iff.mp found
  exact written job present (coherent job present)

def World.startedAt (world : World) : Option Int :=
  world.job.bind ExportJob.startedAt

theorem World.startedAt_updateJob (world : World)
    {change : ExportJob → ExportJob}
    (kept : ∀ job, (change job).startedAt = job.startedAt) :
    (world.updateJob change).startedAt = world.startedAt := by
  simp only [World.startedAt, World.updateJob_job, Option.bind_map]
  congr 1
  funext job
  exact kept job

/-- Once set, the time stays. -/
def KeepsStart (before after : World) : Prop :=
  ∀ time, before.startedAt = some time → after.startedAt = some time

/-- A write that leaves the status alone, and what it tells. -/
theorem ExportJob.Tells.same (tells : job.Tells env)
    (status : row.status = job.status)
    (error : row.errorMessage = job.errorMessage)
    (failed : row.failedAt = job.failedAt)
    (started : row.startedAt = job.startedAt ∨ job.startedAt = none)
    (completed : row.completedAt = job.completedAt)
    (key : row.fileKey = job.fileKey ∨
      row.fileKey = some (finalKey env.exportJobId))
    (url : row.fileUrl = job.fileUrl) : row.Tells env := by
  simp only [ExportJob.Tells, status] at tells ⊢
  cases found : job.status with
  | verifying =>
      simp only [found] at tells ⊢
      rcases started with same | absent
      · rwa [same]
      · exact absurd absent tells
  | completed =>
      simp only [found] at tells ⊢
      obtain ⟨first, begun, last, ended, order⟩ := tells.lasted
      refine
        { key := ?_
          url := url.trans tells.url
          noError := error.trans tells.noError
          noFailure := failed.trans tells.noFailure
          lasted := ⟨first, ?_, last, ?_, order⟩ }
      · rcases key with same | set
        · exact same.trans tells.key
        · exact set
      · rcases started with same | absent
        · rwa [same]
        · rw [absent] at begun
          cases begun
      · rwa [completed]
  | queued => simp only
  | _ =>
      simp only [found, error, failed, completed] at tells ⊢
      exact tells

/-- A write of the status that fills the columns it tells about. -/
theorem ExportJob.Coherent.write (coherent : job.Coherent env now)
    (terms : row.terms = job.terms)
    (count : row.exportedRowCount = job.exportedRowCount)
    (lastId : row.lastExportedId = job.lastExportedId)
    (dated : row.Dated now) (filed : row.Filed env) (tells : row.Tells env) :
    row.Coherent env now :=
  ⟨dated, coherent.counted.same terms count lastId, filed, tells⟩

/-- The run has set `startedAt` and may still write the row. -/
def RunPc.begun : RunPc → Bool
  | .loadResume _ => true
  | .readProgress _ _ => true
  | .reconcile _ _ => true
  | .pollCancel _ => true
  | .writeCancelled _ => true
  | .fetchBatch _ => true
  | .putChunk _ _ _ => true
  | .confirmChunk _ _ _ => true
  | .commitBatch _ _ _ => true
  | .loadFinal _ => true
  | .writeVerifying _ _ => true
  | .readChunk _ _ _ _ => true
  | .uploadFinal _ _ => true
  | .headAssembled _ => true
  | .verifyHead _ => true
  | .verifyRead _ _ => true
  | .saveVerification _ _ => true
  | .writeFileKey _ _ => true
  | .writeCompleted _ => true
  | _ => false

theorem begun_of_ended {pc : RunPc} (ended : pc.ended = true) :
    pc.begun = false := by
  cases pc <;> first | rfl | cases ended

/-- The statement that sets `startedAt`. -/
def RunPc.starts : RunPc → Bool
  | .setStartedAt _ => true
  | _ => false

/-- A run gets past the start of the job through the statement that sets it
only. -/
theorem begun_step (kept : List String) {pc : RunPc}
    (begun : (runStep env kept world pc).2.begun = true) :
    pc.begun = true ∨ pc.starts = true := by
  cases pc with
  | setStartedAt => exact .inr rfl
  | findJob =>
      simp only [runStep, afterFindJob] at begun
      repeat' split at begun
      all_goals cases begun
  | claim =>
      simp only [runStep, claimStep] at begun
      split at begun
      · cases begun
      · cases begun
  | listChunks outcome token deleted =>
      simp only [runStep] at begun
      split at begun
      · cases begun
      · exact RunPc.nextPage_cases
          (motive := fun next => next.begun = true → _) outcome _ _
          (fun impossible => Bool.noConfusion impossible)
          (fun _ impossible => Bool.noConfusion impossible) begun
  | deletePage outcome keys token deleted =>
      exact RunPc.nextPage_cases
        (motive := fun next => next.begun = true → _) outcome _ _
        (fun impossible => Bool.noConfusion impossible)
        (fun _ impossible => Bool.noConfusion impossible) begun
  | recordFailure error exit => cases exit <;> cases begun
  | recordMissing => cases begun
  | cancelBeforeStart => cases begun
  | failJob => cases begun
  | returned => cases begun
  | threw => cases begun
  | crashed => cases begun
  | _ => exact .inl rfl

theorem runStep_startedAt (kept : List String) {pc : RunPc}
    (other : pc.starts = false) :
    (runStep env kept world pc).1.startedAt = world.startedAt := by
  cases pc with
  | setStartedAt => cases other
  | claim =>
      simp only [runStep, claimStep]
      split
      · exact world.startedAt_updateJob fun _ => rfl
      · rfl
  | commitBatch run rows batchLastId =>
      simp only [runStep, commitStep, World.commitBatch]
      split
      · rfl
      · next after committed =>
          split at committed
          · cases committed
          · obtain rfl := Option.some.inj committed
            simp only [World.startedAt, Option.bind_map]
            rfl
  | saveVerification =>
      simp only [runStep]
      split <;> rfl
  | cancelBeforeStart => exact world.startedAt_updateJob fun _ => rfl
  | reconcile => exact world.startedAt_updateJob fun _ => rfl
  | writeCancelled => exact world.startedAt_updateJob fun _ => rfl
  | writeVerifying => exact world.startedAt_updateJob fun _ => rfl
  | writeFileKey => exact world.startedAt_updateJob fun _ => rfl
  | writeCompleted => exact world.startedAt_updateJob fun _ => rfl
  | failJob => exact world.startedAt_updateJob fun _ => rfl
  | _ => rfl

/-- The statement that sets `startedAt` keeps the first time. -/
theorem runStep_starts (kept : List String) {pc : RunPc}
    (starts : pc.starts = true) :
    KeepsStart world (runStep env kept world pc).1 ∧
      (world.job ≠ none → (runStep env kept world pc).1.startedAt ≠ none) := by
  cases pc with
  | setStartedAt job =>
      cases found : world.job with
      | none =>
          simp [runStep, found, KeepsStart, World.startedAt]
      | some row =>
          cases begun : row.startedAt with
          | none =>
              simp [runStep, found, begun, KeepsStart, World.startedAt]
          | some time =>
              simp [runStep, found, begun, KeepsStart, World.startedAt]
  | _ => cases starts

theorem keepsStart_runStep (kept : List String) (pc : RunPc) :
    KeepsStart world (runStep env kept world pc).1 := by
  cases starts : pc.starts with
  | false =>
      intro time known
      rw [runStep_startedAt kept starts]
      exact known
  | true => exact (runStep_starts kept starts).1

/-- A row that names the file of the export, and serves it when it did. -/
theorem ExportJob.Filed.setKey (filed : job.Filed env)
    (key : row.fileKey = some (finalKey env.exportJobId))
    (url : row.fileUrl = job.fileUrl) : row.Filed env where
  key := by
    rw [key]
    rintro fileKey ⟨⟩
    rfl
  url := by
    rw [key, url]
    exact fun fileUrl member => ⟨(filed.url fileUrl member).1, by simp⟩

theorem ExportJob.Filed.same (filed : job.Filed env)
    (key : row.fileKey = job.fileKey) (url : row.fileUrl = job.fileUrl) :
    row.Filed env where
  key := by rw [key]; exact filed.key
  url := by rw [key, url]; exact filed.url

/-- A write of the progress: the rows of a log that the world's log extends,
and the cursor. -/
theorem ExportJob.Coherent.count {done : List ExportCheckpoint}
    (coherent : job.Coherent env now) (log : WellFormedLog job.terms done)
    {lastExportedId : Option Int}
    (lastId : lastExportedId = none ∨
      lastExportedId = some (cursorOf done) ∧ done ≠ []) :
    ({ job with
        lastExportedId := lastExportedId
        exportedRowCount := rowsOf done
        updatedAt := now } : ExportJob).Coherent env now where
  dated := coherent.dated.write rfl (.inl rfl) (.inl rfl) (.inl rfl)
  counted := coherent.counted.count rfl log rfl lastId
  filed := coherent.filed.same rfl rfl
  tells := coherent.tells.same rfl rfl rfl (.inl rfl) rfl (.inl rfl) rfl

theorem coherent_commit {run : Progress} {rows : List ExportableRow}
    {batchLastId : Int} (log : LogInvariant world)
    (batch : HasBatch world run rows batchLastId)
    (coherent : world.RowCoherent env) :
    (commitStep world run rows batchLastId).1.RowCoherent env := by
  apply commitBatch_cases batch.toOnTrack log fun result =>
    result.1.RowCoherent env
  · intro error
    exact coherent
  · rintro after position rfl row found
    obtain ⟨job, present, rfl⟩ := Option.map_eq_some_iff.mp found
    have terms : job.terms = run.job.terms := by
      have known := batch.job
      rw [KnowsJob, World.terms, present] at known
      exact Option.some.inj known
    have longer := (batch.toOnTrack.log log).concat batch position
    rw [← terms] at longer
    have counted := (coherent job present).count longer
      (.inr ⟨rfl, List.append_ne_nil_of_right_ne_nil _ (by simp)⟩)
    simpa [cursorOf_concat, position.2.2] using counted

/-- The job a run works on is the row of the world. -/
theorem KnowsJob.terms_eq (knows : KnowsJob world row)
    (present : world.job = some job) : job.terms = row.terms := by
  rw [KnowsJob, World.terms, present] at knows
  exact Option.some.inj knows

theorem coherent_reconcile {resume : ResumeState} (log : LogInvariant world)
    (track : OnTrack world (.start row resume))
    (coherent : world.RowCoherent env) :
    (world.updateJob fun job =>
        { job with
          lastExportedId :=
            if resume.lastExportedId = 0 then none
            else some resume.lastExportedId
          exportedRowCount := resume.rowsWritten }).RowCoherent env := by
  obtain ⟨done, reached, _, cursor, count⟩ := track.reached
  refine coherent.update fun job present known => ?_
  have wellFormed := (track.log log).upTo reached
  rw [show (Progress.start row resume).job.terms = job.terms from
    (track.job.terms_eq present).symm] at wellFormed
  have cursorEq : resume.lastExportedId = cursorOf done := cursor
  have countEq : resume.rowsWritten = rowsOf done := count
  simp only [cursorEq, countEq]
  refine known.count wellFormed ?_
  split
  · exact .inl rfl
  · next moved =>
      refine .inr ⟨rfl, ?_⟩
      rintro rfl
      exact moved rfl

/-- The final write of a run that was started. -/
theorem ExportJob.Coherent.complete (coherent : job.Coherent env now)
    (begun : job.startedAt ≠ none) :
    ({ job with
        status := .completed
        fileKey := some (finalKey env.exportJobId)
        fileUrl := some (downloadPath env.exportJobId)
        completedAt := some now
        errorMessage := none
        failedAt := none
        updatedAt := now } : ExportJob).Coherent env now := by
  obtain ⟨started, startedEq⟩ := Option.ne_none_iff_exists'.mp begun
  refine coherent.write rfl rfl rfl
    (coherent.dated.write rfl (.inl rfl) (.inr rfl) (.inr (.inl rfl)))
    { key := ?_, url := ?_ } ?_
  · rintro fileKey ⟨⟩
    rfl
  · rintro fileUrl ⟨⟩
    exact ⟨rfl, by simp⟩
  · exact
      { key := rfl
        url := rfl
        noError := rfl
        noFailure := rfl
        lasted := ⟨started, startedEq, now, rfl,
          le_trans (coherent.dated.started started startedEq)
            coherent.dated.updated⟩ }

/-- A write of a status that keeps the progress, the file and the start. -/
theorem ExportJob.Coherent.move (coherent : job.Coherent env now)
    {status : ExportStatus} {completedAt failedAt : Option Int}
    {errorMessage : Option String} {cancelRequested : Bool}
    (completed : completedAt = job.completedAt ∨ completedAt = some now)
    (failed : failedAt = job.failedAt ∨ failedAt = none ∨
      failedAt = some now)
    (tells : ({ job with
        status := status
        completedAt := completedAt
        failedAt := failedAt
        errorMessage := errorMessage
        cancelRequested := cancelRequested
        updatedAt := now } : ExportJob).Tells env) :
    ({ job with
        status := status
        completedAt := completedAt
        failedAt := failedAt
        errorMessage := errorMessage
        cancelRequested := cancelRequested
        updatedAt := now } : ExportJob).Coherent env now :=
  coherent.write rfl rfl rfl (coherent.dated.write rfl (.inl rfl) completed
    failed) (coherent.filed.same rfl rfl) tells

/-- A statement of a run keeps the row coherent. -/
theorem coherent_runStep (kept : List String) {pc : RunPc}
    (log : LogInvariant world) (knows : logRuns world pc)
    (begun : pc.begun = true → world.startedAt ≠ none)
    (coherent : world.RowCoherent env) :
    (runStep env kept world pc).1.RowCoherent env := by
  have started : pc.begun = true → ∀ {job}, world.job = some job →
      job.startedAt ≠ none := by
    intro late job present absent
    exact begun late
      (by rw [World.startedAt, present, Option.bind_some, absent])
  cases pc with
  | cancelBeforeStart =>
      exact coherent.update fun job _ known =>
        known.move (.inr rfl) (.inl rfl) (Option.some_ne_none _)
  | writeCancelled =>
      exact coherent.update fun job _ known =>
        known.move (.inr rfl) (.inl rfl) (Option.some_ne_none _)
  | claim job staleCutoff =>
      simp only [runStep, claimStep]
      split
      · exact coherent.update fun job _ known =>
          known.move (.inl rfl) (.inr (.inl rfl)) ⟨rfl, rfl⟩
      · exact coherent
  | setStartedAt job =>
      simp only [runStep]
      split
      · next unset =>
          refine coherent.update fun row present known => ?_
          have absent : row.startedAt = none := by
            rw [present, Option.any_some] at unset
            simpa using unset
          exact known.write rfl rfl rfl
            (known.dated.write rfl (.inr rfl) (.inl rfl) (.inl rfl))
            (known.filed.same rfl rfl)
            (known.tells.same rfl rfl rfl (.inr absent) rfl (.inl rfl) rfl)
      · exact coherent
  | reconcile job resume => exact coherent_reconcile log knows coherent
  | commitBatch run rows batchLastId => exact coherent_commit log knows coherent
  | writeVerifying run batchCount =>
      refine coherent.update fun job present known => ?_
      have began : job.startedAt ≠ none := started rfl present
      exact known.move (.inl rfl) (.inl rfl) began
  | saveVerification run result =>
      simp only [runStep]
      split <;> exact coherent
  | writeFileKey run reason =>
      exact coherent.update fun job _ known =>
        known.write rfl rfl rfl
          (known.dated.write rfl (.inl rfl) (.inl rfl) (.inl rfl))
          (known.filed.setKey rfl rfl)
          (known.tells.same rfl rfl rfl (.inl rfl) rfl (.inr rfl) rfl)
  | writeCompleted run =>
      exact coherent.update fun job present known =>
        known.complete (started rfl present)
  | failJob reason error exit =>
      exact coherent.update fun job _ known =>
        known.move (.inl rfl) (.inr (.inr rfl)) ⟨by simp, by simp⟩
  | _ => exact coherent

def cappedCommands : ApiPc → Prop
  | .captureSnapshot _ rowLimit => rowLimit ≤ maxRowLimit
  | .countRecords _ rowLimit _ => rowLimit ≤ maxRowLimit
  | .insertJob _ rowLimit _ => rowLimit ≤ maxRowLimit
  | _ => True

theorem cappedCommands_begin (request : Request) :
    cappedCommands request.begin := by
  cases request with
  | create userId rowLimit =>
      simp only [Request.begin]
      split
      · trivial
      · split
        · trivial
        · next capped => exact not_lt.mp capped
  | _ => trivial

theorem cappedCommands_step {pc : ApiPc} (capped : cappedCommands pc) :
    cappedCommands (apiStep env world pc).2 := by
  rcases apiStep_creates env world pc with
    free | ⟨_, _, rfl, next⟩ | ⟨_, _, _, rfl, _, next⟩
  · cases next : (apiStep env world pc).2 <;> rw [next] at free <;> trivial
  · rw [next]
    exact capped
  · rw [next]
    exact capped

/-- A new row is coherent. -/
theorem coherent_newExportJob {userId : String} {rowLimit snapshotMaxId : Int}
    (positive : 0 < rowLimit) (capped : rowLimit ≤ maxRowLimit) :
    (newExportJob env world userId rowLimit snapshotMaxId).Coherent env
      world.now where
  dated := ⟨le_refl _, nofun, nofun, nofun⟩
  counted := ⟨positive, capped, le_refl _, le_of_lt positive, nofun⟩
  filed := ⟨nofun, nofun⟩
  tells := ⟨rfl, rfl⟩

/-- A statement of a command keeps the row coherent. -/
theorem coherent_apiStep {pc : ApiPc} (positive : logCommands pc)
    (capped : cappedCommands pc) (coherent : world.RowCoherent env) :
    (apiStep env world pc).1.RowCoherent env := by
  cases pc with
  | insertJob userId rowLimit snapshotMaxId =>
      simp only [apiStep]
      split
      · exact coherent
      · rintro job ⟨⟩
        exact coherent_newExportJob positive capped
  | writeQueued =>
      exact coherent.update fun job _ known =>
        known.move (.inl rfl) (.inl rfl) trivial
  | writeResuming =>
      exact coherent.update fun job _ known =>
        known.move (.inl rfl) (.inr (.inl rfl)) ⟨rfl, rfl⟩
  | writeCancel job =>
      refine coherent.update fun row _ known => ?_
      simp only [cancelChange]
      split
      · exact known.move (.inl rfl) (.inl rfl)
          (known.tells.same rfl rfl rfl (.inl rfl) rfl (.inl rfl) rfl)
      · exact known.move (.inr rfl) (.inl rfl) (Option.some_ne_none _)
  | remove | add | saveVerification =>
      simp only [apiStep]
      split <;> exact coherent
  | _ => exact coherent

theorem apiStep_startedAt (env : Env) {pc : ApiPc} :
    KeepsStart world (apiStep env world pc).1 := by
  have kept : ∀ {after : World}, after.startedAt = world.startedAt →
      KeepsStart world after :=
    fun same time known => same.trans known
  cases pc with
  | insertJob userId rowLimit snapshotMaxId =>
      simp only [apiStep]
      split
      · exact kept rfl
      · next absent =>
          intro time known
          rw [World.startedAt, absent] at known
          cases known
  | writeQueued => exact kept (world.startedAt_updateJob fun _ => rfl)
  | writeResuming => exact kept (world.startedAt_updateJob fun _ => rfl)
  | writeCancel job =>
      refine kept (world.startedAt_updateJob fun row => ?_)
      simp only [cancelChange]
      split <;> rfl
  | remove | add | saveVerification =>
      simp only [apiStep]
      split <;> exact kept rfl
  | _ => exact kept rfl

/-- A statement of a sweep keeps the row coherent. -/
theorem coherent_sweepStep {pc : SweepPc} (coherent : world.RowCoherent env) :
    (sweepStep env world pc).1.RowCoherent env := by
  cases pc with
  | markInterrupted cutoff message =>
      simp only [sweepStep]
      split
      · exact coherent.update fun job _ known =>
          known.move (.inl rfl) (.inl rfl) (Option.some_ne_none _)
      · exact coherent
  | _ => exact coherent

theorem sweepStep_startedAt (env : Env) (pc : SweepPc) :
    (sweepStep env world pc).1.startedAt = world.startedAt := by
  cases pc with
  | markInterrupted =>
      simp only [sweepStep]
      split
      · exact world.startedAt_updateJob fun _ => rfl
      · rfl
  | _ => rfl

/-- The log is in order, and the job was started before a run past that
statement. -/
def coherenceOutline (env : Env) :
    SystemOutline env fun config _ =>
      (logOutline env Anything).Holds config where
  invariant world := world.RowCoherent env
  runs world pc := pc.begun = true → world.startedAt ≠ none
  commands _ pc := cappedCommands pc
  rely := KeepsStart
  invariant_passive same coherent :=
    coherent.same same.job (le_of_eq same.now.symm)
  rely_passive same time known := by
    rw [World.startedAt, same.job]
    exact known
  stable_runs keeps started late := by
    obtain ⟨time, known⟩ := Option.ne_none_iff_exists'.mp (started late)
    rw [keeps time known]
    nofun
  stable_commands _ capped := capped
  runs_findJob _ := nofun
  runs_ended world pc ended late := by
    rw [begun_of_ended ended] at late
    cases late
  runs_caught _ _ := nofun
  commands_begin _ := cappedCommands_begin
  run_sound := by
    intro config index fault pc kept allowed here _ coherent started
    have keeps : KeepsStart config.shared
        (runStep env kept config.shared pc).1 := keepsStart_runStep kept pc
    refine ⟨coherent_runStep kept allowed.1 (allowed.run here) started
      coherent, fun late => ?_, .inl keeps⟩
    rcases begun_step kept late with before | starts
    · obtain ⟨time, known⟩ := Option.ne_none_iff_exists'.mp (started before)
      rw [keeps time known]
      nofun
    · refine (runStep_starts kept starts).2 fun absent => ?_
      cases pc with
      | setStartedAt job =>
          have knows : KnowsJob config.shared job := allowed.run here
          rw [KnowsJob, World.terms, absent] at knows
          cases knows
      | _ => cases starts
  command_sound := by
    intro config index fault pc allowed here _ coherent capped
    exact ⟨coherent_apiStep (allowed.command here) capped coherent,
      cappedCommands_step capped, apiStep_startedAt env⟩
  sweep_sound := by
    intro config index fault pc _ _ coherent
    refine ⟨coherent_sweepStep coherent, fun time known => ?_⟩
    rw [sweepStep_startedAt]
    exact known
  change_sound := by
    intro config change _ coherent
    have job := change.apply_job config.shared
    have started : (change.apply config.shared).startedAt =
        config.shared.startedAt := by rw [World.startedAt, job]; rfl
    refine ⟨coherent.same job ?_, fun _ pc _ begun late => ?_,
      fun _ _ _ capped => capped⟩
    · cases change with
      | tick milliseconds =>
          exact le_add_of_nonneg_right (Int.natCast_nonneg _)
      | setRecords => exact le_refl _
    · rw [started]
      exact begun late

theorem coherenceOutline_initial {config : Config World Proc}
    (initial : Initial env config) : (coherenceOutline env).Holds config := by
  apply SystemOutline.holds_of_idle _ initial.idle
  intro job found
  rw [initial.noJob] at found
  cases found

/-- Under every interleaving of runs, commands and sweeps with crashes and
failed calls, and whatever happens to the records: the row of the export is
coherent. -/
theorem rowCoherent_history {source target : Config World Proc}
    {events : List (Event Action Change)} (initial : Initial env source)
    (history : (machine env).Exec Anything source events target) :
    target.shared.RowCoherent env := by
  have informed := ((logOutline env Anything).strengthen history
    (logOutline_initial initial)).mono fun permission => permission.2
  exact ((coherenceOutline env).preserved informed
    (coherenceOutline_initial initial)).1

end ExportVault
