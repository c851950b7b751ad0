import ExportVault.Frames
import ExportVault.Outline

/-!
# The checkpoint log of a running system

Whatever runs overlap, fail or die, and however the records change, the log
stays well formed, and every run knows the job it works on and is at a
position the log has reached (`logOutline`).  The later outlines build on it.
-/

namespace ExportVault

open Interleaving

structure WellFormedLog (terms : Terms)
    (checkpoints : List ExportCheckpoint) : Prop where
  positive : 0 < terms.requestedRowLimit
  numbered : Numbered 1 checkpoints
  rising : Rising 0 checkpoints
  rows : ∀ checkpoint ∈ checkpoints,
    1 ≤ checkpoint.rowsWritten ∧ checkpoint.rowsWritten ≤ terms.batchSize
  within : ∀ checkpoint ∈ checkpoints,
    checkpoint.lastRecordId ≤ terms.snapshotMaxId
  total : rowsOf checkpoints ≤ terms.requestedRowLimit

theorem rowsOf_nonneg (terms : Terms) {checkpoints : List ExportCheckpoint}
    (rows : ∀ checkpoint ∈ checkpoints,
      1 ≤ checkpoint.rowsWritten ∧ checkpoint.rowsWritten ≤ terms.batchSize) :
    checkpoints.length ≤ rowsOf checkpoints := by
  induction checkpoints with
  | nil => simp
  | cons checkpoint rest inductionHypothesis =>
      have first := (rows checkpoint List.mem_cons_self).1
      have others := inductionHypothesis fun other member =>
        rows other (List.mem_cons_of_mem _ member)
      simp only [List.length_cons, rowsOf_cons, Nat.cast_add, Nat.cast_one]
      omega

/-- Every prefix of a log is one. -/
theorem WellFormedLog.upTo {terms : Terms}
    {done checkpoints : List ExportCheckpoint}
    (log : WellFormedLog terms checkpoints) (reached : done <+: checkpoints) :
    WellFormedLog terms done := by
  obtain ⟨rest, rfl⟩ := reached
  have restRows := rowsOf_nonneg terms fun checkpoint member =>
    log.rows checkpoint (List.mem_append_right done member)
  have total := log.total
  rw [rowsOf_append] at total
  exact
    { positive := log.positive
      numbered := (numbered_append.mp log.numbered).1
      rising := (rising_append.mp log.rising).1
      rows := fun checkpoint member =>
        log.rows checkpoint (List.mem_append_left rest member)
      within := fun checkpoint member =>
        log.within checkpoint (List.mem_append_left rest member)
      total := by omega }

/-- A prefix that accounts for every requested row is the whole log. -/
theorem WellFormedLog.eq_of_complete {terms : Terms}
    {done checkpoints : List ExportCheckpoint}
    (log : WellFormedLog terms checkpoints) (reached : done <+: checkpoints)
    (complete : rowsOf done = terms.requestedRowLimit) :
    done = checkpoints := by
  obtain ⟨rest, rfl⟩ := reached
  have restRows := rowsOf_nonneg terms fun checkpoint member =>
    log.rows checkpoint (List.mem_append_right done member)
  have total := log.total
  rw [rowsOf_append] at total
  have empty : rest = [] := List.length_eq_zero_iff.mp (by omega)
  rw [empty, List.append_nil]

theorem WellFormedLog.cursorOf_le {terms : Terms}
    {checkpoints : List ExportCheckpoint}
    (log : WellFormedLog terms checkpoints) (nonempty : checkpoints ≠ []) :
    cursorOf checkpoints ≤ terms.snapshotMaxId := by
  obtain ⟨checkpoint, member, cursorEq⟩ :=
    Keyset.exists_mem_cursor ExportCheckpoint.lastRecordId 0 nonempty
  rw [cursorOf, cursorEq]
  exact log.within checkpoint member

/-- The log has a checkpoint for every number up to its length. -/
theorem WellFormedLog.any_number {terms : Terms}
    {done checkpoints : List ExportCheckpoint}
    (log : WellFormedLog terms checkpoints) (reached : done <+: checkpoints)
    (more : done ≠ checkpoints) :
    checkpoints.any (fun other => other.batchNumber = done.length + 1) =
      true := by
  obtain ⟨rest, rfl⟩ := reached
  cases rest with
  | nil => exact absurd (List.append_nil done).symm more
  | cons next rest =>
      have number := (numbered_append.mp log.numbered).2.1
      rw [List.any_eq_true]
      refine ⟨next, by simp, decide_eq_true ?_⟩
      rw [number]
      ring

/-- A batch number beyond the log is free. -/
theorem WellFormedLog.not_any_number {terms : Terms}
    {checkpoints : List ExportCheckpoint}
    (log : WellFormedLog terms checkpoints) :
    checkpoints.any
      (fun other => other.batchNumber = checkpoints.length + 1) = false := by
  rw [List.any_eq_false]
  intro other member
  have bounds := numbered_batchNumber_mem log.numbered member
  simp only [decide_eq_true_eq]
  omega

def KnowsJob (world : World) (job : ExportJob) : Prop :=
  world.terms = some job.terms

/-- The run's variables are those of a log the world's log extends. -/
def Progress.At (run : Progress) (done : List ExportCheckpoint) : Prop :=
  run.batchNumber = done.length + 1 ∧
    run.lastExportedId = cursorOf done ∧
    run.exportedRowCount = rowsOf done

structure OnTrack (world : World) (run : Progress) : Prop where
  job : KnowsJob world run.job
  reached : ∃ done, done <+: world.checkpoints ∧ run.At done

/-- Inside the batch loop. -/
structure Unfinished (world : World) (run : Progress) : Prop
    extends OnTrack world run where
  less : run.exportedRowCount < run.job.requestedRowLimit

/-- Past the batch loop. -/
structure Finished (world : World) (run : Progress) : Prop
    extends OnTrack world run where
  all : run.exportedRowCount = run.job.requestedRowLimit

/-- The rows come from the keyset query at the position of the run. -/
structure Fetched (run : Progress) (raw : List RawRecordRow)
    (batchLastId : Int) : Prop where
  nonempty : raw ≠ []
  ascending : Keyset.Ascending RawRecordRow.id raw
  beyond : ∀ row ∈ raw, run.lastExportedId < row.id
  within : ∀ row ∈ raw, row.id ≤ run.job.snapshotMaxId
  bigint : ∀ row ∈ raw, isBigInt row.id
  few : (raw.length : Int) ≤ run.limit
  last : Keyset.cursor RawRecordRow.id run.lastExportedId raw = batchLastId

structure HasBatch (world : World) (run : Progress)
    (rows : List ExportableRow) (batchLastId : Int) : Prop
    extends Unfinished world run where
  fetched : ∃ raw, rows = raw.map normaliseRecord ∧
    Fetched run raw batchLastId

def RunOutcome.skips : RunOutcome → Bool
  | .skipped _ => true
  | _ => false

def FailExit.skips : FailExit → Bool
  | .returns outcome => outcome.skips
  | .rethrows _ => false

def logRuns (world : World) : RunPc → Prop
  | .cancelBeforeStart job => KnowsJob world job
  | .claim job _ => KnowsJob world job
  | .setStartedAt job => KnowsJob world job
  | .loadResume job => KnowsJob world job
  | .readProgress job resume => OnTrack world (.start job resume)
  | .reconcile job resume => OnTrack world (.start job resume)
  | .pollCancel run => Unfinished world run
  | .writeCancelled run => Unfinished world run
  | .fetchBatch run => Unfinished world run
  | .putChunk run rows batchLastId => HasBatch world run rows batchLastId
  | .confirmChunk run rows batchLastId => HasBatch world run rows batchLastId
  | .commitBatch run rows batchLastId => HasBatch world run rows batchLastId
  | .loadFinal run => Finished world run
  | .writeVerifying run batchCount =>
      Finished world run ∧ run.batchNumber = batchCount + 1
  | .readChunk run batchCount _ _ =>
      Finished world run ∧ run.batchNumber = batchCount + 1
  | .uploadFinal run _ => Finished world run
  | .headAssembled run => Finished world run
  | .verifyHead run => Finished world run
  | .verifyRead run _ => Finished world run
  | .saveVerification run _ => Finished world run
  | .writeFileKey run _ => Finished world run
  | .writeCompleted run => Finished world run
  | .listChunks outcome _ _ => outcome.skips = false
  | .deletePage outcome _ _ _ => outcome.skips = false
  | .failJob _ _ exit => exit.skips = false
  | .recordFailure _ exit => exit.skips = false
  | _ => True

/-- A command that creates the job has checked the row limit. -/
def logCommands : ApiPc → Prop
  | .captureSnapshot _ rowLimit => 0 < rowLimit
  | .countRecords _ rowLimit _ => 0 < rowLimit
  | .insertJob _ rowLimit _ => 0 < rowLimit
  | _ => True

structure LogInvariant (world : World) : Prop where
  empty : world.terms = none → world.checkpoints = []
  wellFormed : ∀ terms, world.terms = some terms →
    WellFormedLog terms world.checkpoints

structure LogGrows (before after : World) : Prop where
  terms : ∀ terms, before.terms = some terms → after.terms = some terms
  log : before.checkpoints <+: after.checkpoints

theorem LogGrows.refl (world : World) : LogGrows world world :=
  ⟨fun _ known => known, List.prefix_refl _⟩

theorem World.SameExport.terms {before after : World}
    (same : before.SameExport after) : after.terms = before.terms :=
  congrArg (Option.map ExportJob.terms) same.job

/-- A step that changes neither the terms nor the log. -/
theorem LogInvariant.same {before after : World} (log : LogInvariant before)
    (terms : after.terms = before.terms)
    (checkpoints : after.checkpoints = before.checkpoints) :
    LogInvariant after where
  empty := by rw [terms, checkpoints]; exact log.empty
  wellFormed := by rw [terms, checkpoints]; exact log.wellFormed

theorem LogGrows.same {before after : World}
    (terms : after.terms = before.terms)
    (checkpoints : after.checkpoints = before.checkpoints) :
    LogGrows before after :=
  ⟨fun _ known => terms.trans known, checkpoints ▸ List.prefix_refl _⟩

variable {before after world : World} {run : Progress}

theorem KnowsJob.stable {job : ExportJob} (knows : KnowsJob before job)
    (grows : LogGrows before after) : KnowsJob after job :=
  grows.terms _ knows

theorem OnTrack.stable (track : OnTrack before run)
    (grows : LogGrows before after) : OnTrack after run := by
  obtain ⟨knows, done, reached, position⟩ := track
  exact ⟨knows.stable grows, done, reached.trans grows.log, position⟩

theorem Unfinished.stable (unfinished : Unfinished before run)
    (grows : LogGrows before after) : Unfinished after run :=
  ⟨unfinished.toOnTrack.stable grows, unfinished.less⟩

theorem Finished.stable (finished : Finished before run)
    (grows : LogGrows before after) : Finished after run :=
  ⟨finished.toOnTrack.stable grows, finished.all⟩

theorem HasBatch.stable {rows : List ExportableRow} {batchLastId : Int}
    (batch : HasBatch before run rows batchLastId)
    (grows : LogGrows before after) :
    HasBatch after run rows batchLastId :=
  ⟨batch.toUnfinished.stable grows, batch.fetched⟩

theorem logRuns_stable {pc : RunPc} (grows : LogGrows before after)
    (assertion : logRuns before pc) : logRuns after pc := by
  cases pc with
  | cancelBeforeStart => exact KnowsJob.stable assertion grows
  | claim => exact KnowsJob.stable assertion grows
  | setStartedAt => exact KnowsJob.stable assertion grows
  | loadResume => exact KnowsJob.stable assertion grows
  | readProgress => exact OnTrack.stable assertion grows
  | reconcile => exact OnTrack.stable assertion grows
  | pollCancel => exact Unfinished.stable assertion grows
  | writeCancelled => exact Unfinished.stable assertion grows
  | fetchBatch => exact Unfinished.stable assertion grows
  | putChunk => exact HasBatch.stable assertion grows
  | confirmChunk => exact HasBatch.stable assertion grows
  | commitBatch => exact HasBatch.stable assertion grows
  | loadFinal => exact Finished.stable assertion grows
  | writeVerifying =>
      exact ⟨Finished.stable assertion.1 grows, assertion.2⟩
  | readChunk => exact ⟨Finished.stable assertion.1 grows, assertion.2⟩
  | uploadFinal => exact Finished.stable assertion grows
  | headAssembled => exact Finished.stable assertion grows
  | verifyHead => exact Finished.stable assertion grows
  | verifyRead => exact Finished.stable assertion grows
  | saveVerification => exact Finished.stable assertion grows
  | writeFileKey => exact Finished.stable assertion grows
  | writeCompleted => exact Finished.stable assertion grows
  | listChunks => exact assertion
  | deletePage => exact assertion
  | failJob => exact assertion
  | recordFailure => exact assertion
  | _ => trivial

/-- The log of a run's job. -/
theorem OnTrack.log (track : OnTrack world run) (log : LogInvariant world) :
    WellFormedLog run.job.terms world.checkpoints :=
  log.wellFormed _ track.job

/-- A run past its loop has seen the whole log. -/
theorem Finished.at_log (finished : Finished world run)
    (log : LogInvariant world) : run.At world.checkpoints := by
  obtain ⟨done, reached, position⟩ := finished.reached
  have complete : rowsOf done = run.job.requestedRowLimit :=
    position.2.2.symm.trans finished.all
  rwa [(finished.log log).eq_of_complete reached complete] at position

theorem logRuns_loopTop (track : OnTrack world run) :
    logRuns world (.loopTop run) := by
  exact RunPc.loopTop_cases (motive := logRuns world) run
    (fun less => ⟨track, less⟩) (fun _ _ => rfl) fun all => ⟨track, all⟩

theorem logRuns_nextPage {outcome : RunOutcome} (ran : outcome.skips = false)
    (token : Option String) (deleted : Nat) :
    logRuns world (.nextPage outcome token deleted) := by
  exact RunPc.nextPage_cases (motive := logRuns world) outcome token deleted
    trivial fun _ => ran

/-- Loading a well-formed log puts the run at its end. -/
theorem onTrack_start {job : ExportJob} (knows : KnowsJob world job) :
    OnTrack world (.start job (resumeStateOf world.checkpoints)) :=
  ⟨knows, world.checkpoints, List.prefix_refl _, rfl, rfl, rfl⟩

theorem LogInvariant.load (log : LogInvariant world) {terms : Terms}
    (known : world.terms = some terms) (exportJobId : String) :
    loadResumeState exportJobId world.checkpoints =
      .ok (resumeStateOf world.checkpoints) :=
  loadResumeState_of_wellFormed exportJobId
    (log.wellFormed _ known).numbered (log.wellFormed _ known).rising

/-- What the keyset query returns. -/
theorem fetched_page {rows : List RawRecordRow} {batchLastId : Int}
    (select : selectRecordBatch world.records run.lastExportedId
      run.job.snapshotMaxId run.limit = rows)
    (nonempty : rows ≠ [])
    (last : Keyset.cursor RawRecordRow.id run.lastExportedId rows =
      batchLastId) :
    Fetched run rows batchLastId := by
  subst select
  have few : (Keyset.page RawRecordRow.id world.records.rows
      run.lastExportedId run.job.snapshotMaxId run.limit.toNat).length ≤
        run.limit.toNat := Keyset.length_page_le
  have some_row := List.length_pos_iff.mpr nonempty
  simp only [selectRecordBatch] at nonempty last some_row ⊢
  exact
    { nonempty := nonempty
      ascending := Keyset.page_ascending world.records.ascending
      beyond := fun row member => (Keyset.mem_of_mem_page member).2.1
      within := fun row member => (Keyset.mem_of_mem_page member).2.2
      bigint := fun row member =>
        isBigInt_of_isBigSerial
          (world.records.drawn row (Keyset.mem_of_mem_page member).1)
      few := by omega
      last := last }

/-- The statement that fetches a batch either finds none or goes on with
it. -/
theorem fetchBatch_cases (env : Env) (kept : List String)
    (motive : RunPc → Prop)
    (exhausted : selectRecordBatch world.records run.lastExportedId
        run.job.snapshotMaxId run.limit = [] →
      motive (.failWith run.exportedRowCount (datasetExhausted run)))
    (batch : ∀ raw batchLastId,
      selectRecordBatch world.records run.lastExportedId
        run.job.snapshotMaxId run.limit = raw →
      Fetched run raw batchLastId →
      motive (.putChunk run (raw.map normaliseRecord) batchLastId)) :
    motive (runStep env kept world (.fetchBatch run)).2 := by
  simp only [runStep, fetchRecordBatch]
  rcases List.eq_nil_or_concat (selectRecordBatch world.records
    run.lastExportedId run.job.snapshotMaxId run.limit) with
    empty | ⟨initial, last, concat⟩
  · rw [empty]
    exact exhausted empty
  · rw [List.concat_eq_append] at concat
    rw [concat]
    simp only [List.map_append, List.map_cons, List.map_nil,
      List.getLast?_concat, normaliseRecord_id, bigInt_toString]
    have next := batch (initial ++ [last]) last.id concat
      (fetched_page concat (by simp) (Keyset.cursor_concat last))
    simpa using next

/-- The commit of a run at the end of the log succeeds. -/
theorem commitStep_of_at {rows : List ExportableRow} {batchLastId : Int}
    (log : WellFormedLog run.job.terms world.checkpoints)
    (position : run.At world.checkpoints) :
    commitStep world run rows batchLastId =
      ({ world with
          checkpoints := world.checkpoints ++
            [{ batchNumber := run.batchNumber
               lastRecordId := batchLastId
               rowsWritten := rows.length }]
          job := world.job.map fun job =>
            { job with
              lastExportedId := some batchLastId
              exportedRowCount := run.exportedRowCount + rows.length
              updatedAt := world.now } },
        .loopTop (run.advance rows batchLastId)) := by
  have free := log.not_any_number
  rw [← position.1] at free
  rw [commitStep, World.commitBatch]
  simp only [free, Bool.false_eq_true, if_false]

/-- The commit of a run succeeds exactly when its batch is the next one. -/
theorem commitBatch_cases {rows : List ExportableRow} {batchLastId : Int}
    (track : OnTrack world run) (log : LogInvariant world)
    (motive : World × RunPc → Prop)
    (taken : ∀ error, motive (world, .caught error))
    (next : ∀ after, run.At world.checkpoints →
      after = { world with
        checkpoints := world.checkpoints ++
          [{ batchNumber := run.batchNumber
             lastRecordId := batchLastId
             rowsWritten := rows.length }]
        job := world.job.map fun job =>
          { job with
            lastExportedId := some batchLastId
            exportedRowCount := run.exportedRowCount + rows.length
            updatedAt := world.now } } →
      motive (after, .loopTop (run.advance rows batchLastId))) :
    motive (commitStep world run rows batchLastId) := by
  obtain ⟨done, reached, position⟩ := track.reached
  have wellFormed := track.log log
  by_cases whole : done = world.checkpoints
  · subst whole
    rw [commitStep_of_at wellFormed position]
    exact next _ position rfl
  · have occupied := wellFormed.any_number reached whole
    rw [← position.1] at occupied
    rw [commitStep, World.commitBatch]
    simp only [occupied, if_true]
    exact taken _

/-- A batch fits behind the log. -/
theorem WellFormedLog.concat {rows : List ExportableRow} {batchLastId : Int}
    (batch : HasBatch world run rows batchLastId)
    (log : WellFormedLog run.job.terms world.checkpoints)
    (position : run.At world.checkpoints) :
    WellFormedLog run.job.terms
      (world.checkpoints ++
        [{ batchNumber := run.batchNumber
           lastRecordId := batchLastId
           rowsWritten := rows.length }]) := by
  obtain ⟨raw, rfl, fetched⟩ := batch.fetched
  obtain ⟨number, cursor, count⟩ := position
  obtain ⟨lastRow, lastMember, lastEq⟩ :=
    Keyset.exists_mem_cursor RawRecordRow.id run.lastExportedId
      fetched.nonempty
  rw [fetched.last] at lastEq
  have some_row := List.length_pos_iff.mpr fetched.nonempty
  have few := fetched.few
  have beyond := fetched.beyond lastRow lastMember
  have within := fetched.within lastRow lastMember
  simp only [Progress.limit] at few
  have total := log.total
  simp only [ExportJob.terms] at total log ⊢
  exact
    { positive := log.positive
      numbered := numbered_append.mpr ⟨log.numbered, by
        rw [number]; ring, trivial⟩
      rising := rising_append.mpr ⟨log.rising, by
        change cursorOf world.checkpoints < batchLastId
        omega, trivial⟩
      rows := by
        intro checkpoint member
        rcases List.mem_append.mp member with old | new
        · exact log.rows checkpoint old
        · rw [List.mem_singleton.mp new]
          simp only [List.length_map]
          omega
      within := by
        intro checkpoint member
        rcases List.mem_append.mp member with old | new
        · exact log.within checkpoint old
        · rw [List.mem_singleton.mp new]
          simp only
          omega
      total := by
        simp only [rowsOf_append, rowsOf_cons, rowsOf_nil, List.length_map]
        omega }

/-- The position after the batch has been committed. -/
theorem Progress.At.advance {rows : List ExportableRow} {batchLastId : Int}
    {done : List ExportCheckpoint} (position : run.At done) :
    (run.advance rows batchLastId).At
      (done ++
        [{ batchNumber := run.batchNumber
           lastRecordId := batchLastId
           rowsWritten := rows.length }]) := by
  obtain ⟨number, _, count⟩ := position
  refine ⟨?_, ?_, ?_⟩
  · simp [Progress.advance, number]
  · rw [cursorOf_concat]
    rfl
  · simp [Progress.advance, count]

/-- What a run knows before the call that follows, in the world before the
call. -/
theorem logRuns_step (env : Env) (kept : List String) {pc : RunPc}
    (other : pc.commits = false) (log : LogInvariant world)
    (assertion : logRuns world pc) :
    logRuns world (runStep env kept world pc).2 := by
  cases pc with
  | findJob =>
      simp only [runStep, afterFindJob]
      split
      · trivial
      · next job found =>
          have knows : KnowsJob world job := by
            rw [KnowsJob, World.terms, found, Option.map_some]
          split
          · trivial
          · split
            · trivial
            · split <;> exact knows
  | claim job staleCutoff =>
      simp only [runStep, claimStep]
      split
      · exact assertion
      · trivial
  | setStartedAt job => exact assertion
  | loadResume job =>
      simp only [runStep, log.load assertion]
      exact onTrack_start assertion
  | readProgress job resume =>
      simp only [runStep]
      split
      · exact logRuns_loopTop assertion
      · exact assertion
  | reconcile job resume => exact logRuns_loopTop assertion
  | pollCancel run =>
      simp only [runStep]
      split <;> exact assertion
  | fetchBatch run =>
      apply fetchBatch_cases env kept (logRuns world)
      · intro _
        trivial
      · intro raw batchLastId _ fetched
        exact ⟨assertion, raw, rfl, fetched⟩
  | putChunk run rows batchLastId => exact assertion
  | confirmChunk run rows batchLastId =>
      simp only [runStep, confirmStep]
      split
      · trivial
      · split
        · trivial
        · exact assertion
  | commitBatch => cases other
  | loadFinal run =>
      have finished : Finished world run := assertion
      simp only [runStep, finalStep, log.load finished.job]
      split
      · trivial
      · exact ⟨finished, (finished.at_log log).1⟩
  | writeVerifying run batchCount =>
      simp only [runStep, RunPc.assembleFrom]
      split
      · exact assertion
      · exact assertion.1
  | readChunk run batchCount batchNumber assembled =>
      simp only [runStep]
      split
      · trivial
      · simp only [RunPc.assembleFrom]
        split
        · exact assertion
        · exact assertion.1
  | uploadFinal run assembled => exact assertion
  | headAssembled run =>
      simp only [runStep]
      split
      · trivial
      · split
        · trivial
        · exact assertion
  | verifyHead run =>
      simp only [runStep]
      split
      · trivial
      · exact assertion
  | verifyRead run fileBytes =>
      simp only [runStep]
      split
      · trivial
      · split
        · trivial
        · exact assertion
  | saveVerification run result =>
      simp only [runStep]
      split
      · split <;> exact assertion
      · trivial
  | listChunks outcome token deleted =>
      simp only [runStep]
      split
      · exact assertion
      · exact logRuns_nextPage assertion _ _
  | deletePage outcome keys token deleted =>
      exact logRuns_nextPage assertion _ _
  | failJob => exact assertion
  | recordFailure error exit => cases exit <;> trivial
  | _ => trivial

/-- The commit of a batch keeps the log well formed. -/
theorem log_commit {rows : List ExportableRow} {batchLastId : Int}
    (log : LogInvariant world)
    (batch : HasBatch world run rows batchLastId) :
    LogInvariant (commitStep world run rows batchLastId).1 ∧
      logRuns (commitStep world run rows batchLastId).1
        (commitStep world run rows batchLastId).2 ∧
      LogGrows world (commitStep world run rows batchLastId).1 := by
  apply commitBatch_cases batch.toOnTrack log fun result =>
    LogInvariant result.1 ∧ logRuns result.1 result.2 ∧
      LogGrows world result.1
  · intro error
    exact ⟨log, rfl, .refl world⟩
  · intro after position afterEq
    have sameTerms : after.terms = world.terms := by
      rw [afterEq]
      simp only [World.terms, Option.map_map]
      rfl
    have known : after.terms = some run.job.terms :=
      sameTerms.trans batch.job
    have longer : after.checkpoints = world.checkpoints ++
        [{ batchNumber := run.batchNumber
           lastRecordId := batchLastId
           rowsWritten := rows.length }] := by rw [afterEq]
    refine ⟨⟨?_, ?_⟩, ?_, ?_, ?_⟩
    · intro unknown
      exact absurd (known.symm.trans unknown) (by simp)
    · intro terms termsEq
      obtain rfl := Option.some.inj (known.symm.trans termsEq)
      rw [longer]
      exact (batch.toOnTrack.log log).concat batch position
    · apply logRuns_loopTop
      exact ⟨known, after.checkpoints, List.prefix_refl _,
        longer ▸ position.advance⟩
    · intro terms termsEq
      exact sameTerms.trans termsEq
    · rw [longer]
      exact List.prefix_append _ _

/-- A statement of a run keeps the log well formed and knows its place. -/
theorem log_runStep (env : Env) (kept : List String) {pc : RunPc}
    (log : LogInvariant world) (assertion : logRuns world pc) :
    LogInvariant (runStep env kept world pc).1 ∧
      logRuns (runStep env kept world pc).1 (runStep env kept world pc).2 ∧
      LogGrows world (runStep env kept world pc).1 := by
  by_cases commits : pc.commits = false
  · have terms := runStep_terms env kept world pc
    have checkpoints := runStep_checkpoints env kept world commits
    have grows := LogGrows.same terms checkpoints
    exact ⟨log.same terms checkpoints,
      logRuns_stable grows (logRuns_step env kept commits log assertion),
      grows⟩
  · cases pc with
    | commitBatch run rows batchLastId => exact log_commit log assertion
    | _ => exact absurd rfl commits

/-- The command that creates the job starts an empty log. -/
theorem log_insertJob (env : Env) {userId : String}
    {rowLimit snapshotMaxId : Int} (log : LogInvariant world)
    (positive : 0 < rowLimit) (absent : world.job = none) :
    LogInvariant
      (apiStep env world (.insertJob userId rowLimit snapshotMaxId)).1 := by
  have empty : world.checkpoints = [] :=
    log.empty (by rw [World.terms, absent, Option.map_none])
  simp only [apiStep, absent]
  refine ⟨fun unknown => empty, fun terms termsEq => ?_⟩
  simp only [World.terms, Option.map_some, Option.some.injEq] at termsEq
  simp only [empty, ← termsEq]
  exact
    { positive := positive
      numbered := trivial
      rising := trivial
      rows := fun _ member => absurd member List.not_mem_nil
      within := fun _ member => absurd member List.not_mem_nil
      total := le_of_lt positive }

/-- What a command has checked, it has checked when it goes on. -/
theorem logCommands_step (env : Env) {pc : ApiPc}
    (assertion : logCommands pc) :
    logCommands (apiStep env world pc).2 := by
  rcases apiStep_creates env world pc with
    free | ⟨_, _, rfl, next⟩ | ⟨_, _, _, rfl, _, next⟩
  · cases next : (apiStep env world pc).2 <;> rw [next] at free <;> trivial
  · rw [next]
    exact assertion
  · rw [next]
    exact assertion

/-- The log stays well formed under every interleaving, crash and fault. -/
def logOutline (env : Env) (permitted : Condition) :
    SystemOutline env permitted where
  invariant := LogInvariant
  runs := logRuns
  commands _ := logCommands
  rely := LogGrows
  invariant_passive same log := log.same same.terms same.checkpoints
  rely_passive same := .same same.terms same.checkpoints
  stable_runs := logRuns_stable
  stable_commands _ assertion := assertion
  runs_findJob _ := trivial
  runs_ended world pc ended := by
    cases pc <;> trivial
  runs_caught _ _ := rfl
  commands_begin world request := by
    cases request with
    | create userId rowLimit =>
        simp only [Request.begin]
        split
        · trivial
        · next positive =>
            split
            · trivial
            · exact not_le.mp positive
    | _ => trivial
  run_sound := by
    intro config index fault pc kept _ _ _ log assertion
    obtain ⟨logAfter, runsAfter, grows⟩ :=
      log_runStep env kept log assertion
    exact ⟨logAfter, runsAfter, .inl grows⟩
  command_sound := by
    intro config index fault pc _ _ _ log assertion
    have checkpoints := apiStep_checkpoints env config.shared pc
    have next : logCommands (apiStep env config.shared pc).2 :=
      logCommands_step env assertion
    by_cases other : pc.inserts = false ∨ config.shared.job ≠ none
    · have terms := apiStep_terms env other
      exact ⟨log.same terms checkpoints, next, .same terms checkpoints⟩
    · simp only [not_or, not_not, Bool.not_eq_false] at other
      obtain ⟨inserts, absent⟩ := other
      have unknown : config.shared.terms = none := by
        rw [World.terms, absent, Option.map_none]
      have grows : LogGrows config.shared (apiStep env config.shared pc).1 :=
        ⟨fun terms termsEq => absurd (unknown.symm.trans termsEq) (by simp),
          checkpoints ▸ List.prefix_refl _⟩
      cases pc with
      | insertJob => exact ⟨log_insertJob env log assertion absent, next, grows⟩
      | _ => cases inserts
  sweep_sound := by
    intro config index fault pc _ _ log
    have terms := sweepStep_terms env config.shared pc
    have checkpoints := sweepStep_checkpoints env config.shared pc
    exact ⟨log.same terms checkpoints, .same terms checkpoints⟩
  change_sound := by
    intro config change _ log
    have terms := change.apply_terms config.shared
    have checkpoints := change.apply_checkpoints config.shared
    exact ⟨log.same terms checkpoints,
      fun _ _ _ assertion =>
        logRuns_stable (.same terms checkpoints) assertion,
      fun _ _ _ assertion => assertion⟩

theorem logOutline_initial {env : Env} {permitted : Condition}
    {config : Config World Proc} (initial : Initial env config) :
    (logOutline env permitted).Holds config := by
  apply SystemOutline.holds_of_idle _ initial.idle
  refine ⟨fun _ => initial.noCheckpoints, fun terms termsEq => ?_⟩
  rw [World.terms, initial.noJob] at termsEq
  cases termsEq

theorem Rising.above {floor : Int} {checkpoints : List ExportCheckpoint}
    (rising : Rising floor checkpoints) :
    ∀ checkpoint ∈ checkpoints, floor < checkpoint.lastRecordId := by
  induction checkpoints generalizing floor with
  | nil => exact fun _ member => absurd member List.not_mem_nil
  | cons head rest inductionHypothesis =>
      obtain ⟨above, restRising⟩ := rising
      intro checkpoint member
      rcases List.mem_cons.mp member with rfl | later
      · exact above
      · exact lt_trans above (inductionHypothesis restRising _ later)

/-- Under every interleaving of any number of runs with crashes, faults,
commands, sweeps and changes of the records: the batch numbers of the log are
`1, …, N`, each batch has between one row and `batchSize` rows, the cursors
are positive, rise strictly and stay within the boundary, and the rows do not
exceed the request.  So the log is always loaded. -/
theorem checkpointLog_wellFormed {env : Env} {source target : Config World Proc}
    {events : List (Event Action Change)} (initial : Initial env source)
    (history : (machine env).Exec Anything source events target)
    {job : ExportJob} (found : target.shared.job = some job) :
    Numbered 1 target.shared.checkpoints ∧
      Rising 0 target.shared.checkpoints ∧
      (∀ checkpoint ∈ target.shared.checkpoints,
        1 ≤ checkpoint.rowsWritten ∧ checkpoint.rowsWritten ≤ job.batchSize ∧
          0 < checkpoint.lastRecordId ∧
          checkpoint.lastRecordId ≤ job.snapshotMaxId) ∧
      rowsOf target.shared.checkpoints ≤ job.requestedRowLimit ∧
      loadResumeState env.exportJobId target.shared.checkpoints =
        .ok (resumeStateOf target.shared.checkpoints) := by
  obtain ⟨invariant, _⟩ :=
    (logOutline env Anything).preserved history (logOutline_initial initial)
  have log := invariant.wellFormed job.terms
    (by rw [World.terms, found, Option.map_some])
  refine ⟨log.numbered, log.rising, fun checkpoint member => ?_, log.total,
    loadResumeState_of_wellFormed _ log.numbered log.rising⟩
  obtain ⟨nonempty, few⟩ := log.rows checkpoint member
  exact ⟨nonempty, few, log.rising.above checkpoint member,
    log.within checkpoint member⟩

theorem checkpointLog_wellFormed_crashedAndResumed :
    ∃ target, (machine smallEnv).Exec Anything (smallStart twoRecords)
        crashedAndResumed target ∧
      Numbered 1 target.shared.checkpoints ∧
      Rising 0 target.shared.checkpoints ∧
      rowsOf target.shared.checkpoints ≤ 2 := by
  obtain ⟨target, job, history, found, _, _, limit, _⟩ :=
    crashedAndResumed_ends
  have anyhow : (machine smallEnv).Exec Anything (smallStart twoRecords)
      crashedAndResumed target := history.mono fun _ => trivial
  obtain ⟨numbered, rising, _, total, _⟩ :=
    checkpointLog_wellFormed (initial_smallStart _) anyhow found
  exact ⟨target, anyhow, numbered, rising, limit ▸ total⟩

end ExportVault
