import ExportVault.Resume

/-!
# Enough records to the end

`createExportJob` counts the records up to its boundary.  While none of them
is deleted, every position of the log has enough of them beyond its cursor for
the rows that are still missing (`Sufficient`), so no run gives up for want of
rows; and each turn of the batch loop exports at least one row
(`export_suffices`).
-/

namespace ExportVault

open Interleaving

/-- No record that a created export counts on is deleted: up to the boundary
of the job, and up to the boundary of a command that has counted the records
and is about to insert the job, all ids stay.  Records may be inserted and
changed. -/
def KeepsRecords : Condition := fun config event =>
  ∀ table boundary, event = .env (.setRecords table) →
    ((∃ job, config.shared.job = some job ∧ job.snapshotMaxId = boundary) ∨
      ∃ index userId rowLimit,
        config.procs index = .api (.insertJob userId rowLimit boundary)) →
    ∀ row ∈ config.shared.records.rows, row.id ≤ boundary →
      ∃ other ∈ table.rows, other.id = row.id

def RecordTable.remaining (table : RecordTable) (cursor boundary : Int) :
    Nat :=
  (Keyset.window RawRecordRow.id table.rows cursor boundary).length

/-- Beyond the cursor there are enough records for the rows that are missing
when `count` of them have been exported. -/
def Sufficient (table : RecordTable) (terms : Terms) (cursor count : Int) :
    Prop :=
  terms.requestedRowLimit ≤
    count + table.remaining cursor terms.snapshotMaxId

theorem Sufficient.kept {table changed : RecordTable} {terms : Terms}
    {cursor count : Int}
    (kept : ∀ row ∈ table.rows, row.id ≤ terms.snapshotMaxId →
      ∃ other ∈ changed.rows, other.id = row.id)
    (enough : Sufficient table terms cursor count) :
    Sufficient changed terms cursor count := by
  have more : table.remaining cursor terms.snapshotMaxId ≤
      changed.remaining cursor terms.snapshotMaxId :=
    Keyset.length_window_le table.ascending kept
  rw [Sufficient] at enough ⊢
  omega

/-- The window beyond zero holds the records that `createExportJob` counts. -/
theorem remaining_zero (table : RecordTable) (boundary : Int) :
    (table.remaining 0 boundary : Int) =
      countRecordsWithinSnapshot table boundary := by
  rw [countRecordsWithinSnapshot_eq, RecordTable.remaining]
  congr 2
  apply List.filter_congr
  intro row member
  have drawn := (table.drawn row member).1
  simp only [show (0 : Int) < row.id by omega, true_and]

/-- A batch leaves enough records for the rows that are missing after it. -/
theorem Sufficient.beyond_batch {table : RecordTable} {run : Progress}
    (enough : Sufficient table run.job.terms run.lastExportedId
      run.exportedRowCount) {raw : List RawRecordRow} {batchLastId : Int}
    (select : selectRecordBatch table run.lastExportedId
      run.job.snapshotMaxId run.limit = raw)
    (last : Keyset.cursor RawRecordRow.id run.lastExportedId raw =
      batchLastId) :
    Sufficient table run.job.terms batchLastId
      (run.exportedRowCount + raw.length) := by
  have split :
      table.remaining batchLastId run.job.snapshotMaxId + raw.length =
        table.remaining run.lastExportedId run.job.snapshotMaxId := by
    rw [← last, ← select]
    exact Keyset.length_window_beyond_page table.ascending run.limit.toNat
  simp only [Sufficient, ExportJob.terms] at enough ⊢
  omega

/-- Where rows are missing and there are enough records, a batch is not
empty. -/
theorem Sufficient.batch_nonempty {table : RecordTable} {run : Progress}
    (enough : Sufficient table run.job.terms run.lastExportedId
      run.exportedRowCount) (room : 0 < run.job.batchSize)
    (less : run.exportedRowCount < run.job.requestedRowLimit) :
    selectRecordBatch table run.lastExportedId run.job.snapshotMaxId
      run.limit ≠ [] := by
  intro empty
  have count := congrArg List.length empty
  simp only [selectRecordBatch, Keyset.page, List.length_take,
    List.length_nil, Progress.limit] at count
  simp only [Sufficient, RecordTable.remaining, ExportJob.terms] at enough
  omega

/-- The message of a batch loop that has ended with another number of
rows. -/
def exportedOther (run : Progress) : String :=
  "Exported " ++ toString run.exportedRowCount ++ " rows but " ++
    toString run.job.requestedRowLimit ++ " were requested"

def loggedOther (run : Progress) (rowsWritten : Int) : String :=
  "Checkpoint log accounts for " ++ toString rowsWritten ++
    " rows, expected " ++ toString run.job.requestedRowLimit

/-- The run has taken one of the three branches that give up for want of
rows. -/
inductive GivesUp : RunPc → Prop
  | datasetExhausted (run : Progress) :
      GivesUp (.failWith run.exportedRowCount (datasetExhausted run))
  | exportedOther (run : Progress) :
      GivesUp (.failWith run.exportedRowCount (exportedOther run))
  | loggedOther (run : Progress) (rowsWritten : Int) :
      GivesUp (.failWith run.exportedRowCount (loggedOther run rowsWritten))

def verificationFailed (reason : String) : Prop :=
  ∃ rest, reason = "Verification failed: " ++ rest

theorem head?_append_of {start : String} {char : Char} (rest : String)
    (starts : start.toList.head? = some char) :
    (start ++ rest).toList.head? = some char := by
  rw [String.toList_append, List.head?_append, starts]
  rfl

/-- Its message is not that of a failed verification. -/
theorem GivesUp.message {pc : RunPc} (givesUp : GivesUp pc) :
    ∃ exportedRows reason, pc = .failWith exportedRows reason ∧
      reason.toList.head? ≠ some 'V' := by
  have other : ∀ {reason : String} (char : Char),
      reason.toList.head? = some char → char ≠ 'V' →
        reason.toList.head? ≠ some 'V' := by
    intro reason char starts different
    rw [starts]
    simpa using different
  cases givesUp with
  | datasetExhausted run =>
      have first : "Dataset exhausted at ".toList.head? = some 'D' := by
        decide
      refine ⟨run.exportedRowCount, _, rfl, other 'D' ?_ (by decide)⟩
      unfold ExportVault.datasetExhausted
      iterate 8 apply head?_append_of
      exact first
  | exportedOther run =>
      have first : "Exported ".toList.head? = some 'E' := by decide
      refine ⟨run.exportedRowCount, _, rfl, other 'E' ?_ (by decide)⟩
      unfold ExportVault.exportedOther
      iterate 4 apply head?_append_of
      exact first
  | loggedOther run rowsWritten =>
      have first : "Checkpoint log accounts for ".toList.head? = some 'C' := by
        decide
      refine ⟨run.exportedRowCount, _, rfl, other 'C' ?_ (by decide)⟩
      unfold ExportVault.loggedOther
      iterate 3 apply head?_append_of
      exact first

/-- What a run knows about the records: beyond the batch it carries there are
enough of them. -/
def sufficientRuns (table : RecordTable) : RunPc → Prop
  | .putChunk run rows batchLastId =>
      Sufficient table run.job.terms batchLastId
        (run.exportedRowCount + rows.length)
  | .confirmChunk run rows batchLastId =>
      Sufficient table run.job.terms batchLastId
        (run.exportedRowCount + rows.length)
  | .commitBatch run rows batchLastId =>
      Sufficient table run.job.terms batchLastId
        (run.exportedRowCount + rows.length)
  | .writeFileKey _ reason => verificationFailed reason
  | .failJob reason _ (.returns _) => verificationFailed reason
  | _ => True

/-- A run that knows this has not given up. -/
theorem not_givesUp {table : RecordTable} {pc : RunPc}
    (sufficient : sufficientRuns table pc) : ¬ GivesUp pc := by
  intro givesUp
  obtain ⟨exportedRows, reason, rfl, other⟩ := givesUp.message
  obtain ⟨rest, rfl⟩ := sufficient
  have first : "Verification failed: ".toList.head? = some 'V' := by decide
  exact other (head?_append_of rest first)

def SufficientLog (env : Env) (world : World) : Prop :=
  ∀ terms, world.terms = some terms →
    terms.batchSize = env.exportBatchSize ∧
      ∀ done, done <+: world.checkpoints →
        Sufficient world.records terms (cursorOf done) (rowsOf done)

section Steps

variable {env : Env} {before after world : World} {run : Progress}

theorem SufficientLog.same (sufficient : SufficientLog env before)
    (terms : after.terms = before.terms)
    (records : after.records = before.records)
    (checkpoints : after.checkpoints = before.checkpoints) :
    SufficientLog env after := by
  rw [SufficientLog, terms, records, checkpoints]
  exact sufficient

/-- A run on the log has enough records before it. -/
theorem SufficientLog.at_run (sufficient : SufficientLog env world)
    (track : OnTrack world run) :
    run.job.batchSize = env.exportBatchSize ∧
      Sufficient world.records run.job.terms run.lastExportedId
        run.exportedRowCount := by
  obtain ⟨size, enough⟩ := sufficient _ track.job
  obtain ⟨done, reached, _, cursor, count⟩ := track.reached
  rw [cursor, count]
  exact ⟨size, enough done reached⟩

/-- A run on the log has exported no more rows than were requested. -/
theorem OnTrack.count_le (track : OnTrack world run)
    (log : LogInvariant world) :
    run.exportedRowCount ≤ run.job.requestedRowLimit := by
  obtain ⟨done, reached, _, _, count⟩ := track.reached
  rw [count]
  exact ((track.log log).upTo reached).total

/-- The loop ends only when every row has been exported. -/
theorem sufficient_loopTop (table : RecordTable) (track : OnTrack world run)
    (log : LogInvariant world) : sufficientRuns table (.loopTop run) := by
  have most := track.count_le log
  apply RunPc.loopTop_cases run
  · intro more
    trivial
  · intro beyond reason
    omega
  · intro all
    trivial

theorem sufficient_nextPage (table : RecordTable) (outcome : RunOutcome)
    (token : Option String) (deleted : Nat) :
    sufficientRuns table (.nextPage outcome token deleted) :=
  RunPc.nextPage_cases outcome token deleted trivial fun _ => trivial

/-- What a run knows about the records before the call that follows. -/
theorem sufficient_step (room : 0 < env.exportBatchSize)
    (kept : List String) {pc : RunPc} (other : pc.commits = false)
    (log : LogInvariant world) (track : logRuns world pc)
    (sufficient : SufficientLog env world)
    (assertion : sufficientRuns world.records pc) :
    sufficientRuns world.records (runStep env kept world pc).2 := by
  cases pc with
  | findJob =>
      simp only [runStep, afterFindJob]
      repeat' split
      all_goals trivial
  | claim job staleCutoff =>
      simp only [runStep, claimStep]
      split <;> trivial
  | loadResume job =>
      simp only [runStep]
      split <;> trivial
  | readProgress job resume =>
      simp only [runStep]
      split
      · exact sufficient_loopTop _ track log
      · trivial
  | reconcile job resume => exact sufficient_loopTop _ track log
  | pollCancel run =>
      simp only [runStep]
      split <;> trivial
  | fetchBatch run =>
      have unfinished : Unfinished world run := track
      obtain ⟨size, enough⟩ := sufficient.at_run unfinished.toOnTrack
      apply fetchBatch_cases env kept (sufficientRuns world.records)
      · intro exhausted
        exact absurd exhausted
          (enough.batch_nonempty (size ▸ room) unfinished.less)
      · intro raw batchLastId select fetched
        have beyond := enough.beyond_batch select fetched.last
        simpa [sufficientRuns] using beyond
  | putChunk run rows batchLastId => exact assertion
  | confirmChunk run rows batchLastId =>
      simp only [runStep, confirmStep]
      split
      · trivial
      · split
        · trivial
        · exact assertion
  | commitBatch => cases other
  | loadFinal run =>
      have finished : Finished world run := track
      have total : (resumeStateOf world.checkpoints).rowsWritten =
          run.job.requestedRowLimit :=
        (finished.at_log log).2.2.symm.trans finished.all
      simp only [runStep, finalStep, log.load finished.job]
      rw [if_neg (not_not.mpr total)]
      trivial
  | writeVerifying run batchCount =>
      simp only [runStep, RunPc.assembleFrom]
      split <;> trivial
  | readChunk run batchCount batchNumber assembled =>
      simp only [runStep]
      split
      · trivial
      · simp only [RunPc.assembleFrom]
        split <;> trivial
  | headAssembled run | verifyRead run fileBytes =>
      simp only [runStep]
      repeat' split
      all_goals trivial
  | verifyHead run =>
      simp only [runStep]
      split <;> trivial
  | saveVerification run result =>
      simp only [runStep]
      split
      · split
        · trivial
        · exact ⟨_, rfl⟩
      · trivial
  | writeFileKey run reason => exact assertion
  | listChunks outcome token deleted =>
      simp only [runStep]
      split
      · trivial
      · exact sufficient_nextPage _ _ _ _
  | deletePage outcome keys token deleted =>
      exact sufficient_nextPage _ _ _ _
  | recordFailure error exit => cases exit <;> trivial
  | _ => trivial

/-- The commit of a batch leaves enough records beyond the longer log. -/
theorem sufficient_commit {rows : List ExportableRow} {batchLastId : Int}
    (log : LogInvariant world) (batch : HasBatch world run rows batchLastId)
    (sufficient : SufficientLog env world)
    (assertion : Sufficient world.records run.job.terms batchLastId
      (run.exportedRowCount + rows.length)) :
    SufficientLog env (commitStep world run rows batchLastId).1 ∧
      sufficientRuns (commitStep world run rows batchLastId).1.records
        (commitStep world run rows batchLastId).2 ∧
      (commitStep world run rows batchLastId).1.records = world.records := by
  have logAfter := log_commit log batch
  revert logAfter
  apply commitBatch_cases batch.toOnTrack log fun result =>
    (LogInvariant result.1 ∧ logRuns result.1 result.2 ∧
        LogGrows world result.1) →
      SufficientLog env result.1 ∧
        sufficientRuns result.1.records result.2 ∧
        result.1.records = world.records
  · intro error _
    exact ⟨sufficient, trivial, rfl⟩
  · rintro after position afterEq ⟨logAfter, _, _⟩
    have sameTerms : after.terms = world.terms := by
      rw [afterEq]
      simp only [World.terms, Option.map_map]
      rfl
    have sameRecords : after.records = world.records := by rw [afterEq]
    have longer : after.checkpoints = world.checkpoints ++
        [{ batchNumber := run.batchNumber
           lastRecordId := batchLastId
           rowsWritten := rows.length }] := by rw [afterEq]
    refine ⟨?_, ?_, sameRecords⟩
    · intro terms termsEq
      rw [sameTerms] at termsEq
      obtain ⟨size, enough⟩ := sufficient terms termsEq
      refine ⟨size, fun done reached => ?_⟩
      rw [sameRecords]
      rw [longer, List.prefix_concat_iff] at reached
      rcases reached with rfl | reached
      · obtain rfl := Option.some.inj (batch.job.symm.trans termsEq)
        rw [cursorOf_concat, rowsOf_append, rowsOf_cons, rowsOf_nil,
          ← position.2.2]
        simpa using assertion
      · exact enough done reached
    · have track : OnTrack after (run.advance rows batchLastId) :=
        ⟨sameTerms.trans batch.job, after.checkpoints, List.prefix_refl _,
          longer ▸ position.advance⟩
      exact sufficient_loopTop _ track logAfter

/-- A created job has counted enough records for its empty log. -/
theorem sufficient_insertJob (env : Env) {userId : String}
    {rowLimit snapshotMaxId : Int} (log : LogInvariant world)
    (counted : rowLimit ≤
      countRecordsWithinSnapshot world.records snapshotMaxId)
    (absent : world.job = none) :
    SufficientLog env
      (apiStep env world (.insertJob userId rowLimit snapshotMaxId)).1 := by
  have empty : world.checkpoints = [] :=
    log.empty (by rw [World.terms, absent, Option.map_none])
  intro terms termsEq
  simp only [apiStep, absent, World.terms, Option.map_some,
    Option.some.injEq] at termsEq
  simp only [apiStep, absent, empty, ← termsEq]
  refine ⟨rfl, fun done reached => ?_⟩
  rw [List.prefix_nil.mp reached, Sufficient]
  change rowLimit ≤ 0 + (world.records.remaining 0 snapshotMaxId : Int)
  rw [remaining_zero]
  omega

/-- Records that are kept leave enough of them. -/
theorem SufficientLog.kept {table : RecordTable}
    (sufficient : SufficientLog env world)
    (kept : ∀ terms, world.terms = some terms →
      ∀ row ∈ world.records.rows, row.id ≤ terms.snapshotMaxId →
        ∃ other ∈ table.rows, other.id = row.id) :
    SufficientLog env { world with records := table } := by
  intro terms termsEq
  obtain ⟨size, enough⟩ := sufficient terms termsEq
  exact ⟨size, fun done reached =>
    (enough done reached).kept (kept terms termsEq)⟩

end Steps

/-- Enough records stay there under every interleaving, crash and fault. -/
def sufficientOutline (env : Env) (room : 0 < env.exportBatchSize) :
    SystemOutline env fun config event =>
      KeepsRecords config event ∧
        (logOutline env KeepsRecords).Holds config where
  invariant := SufficientLog env
  runs world pc := sufficientRuns world.records pc
  commands := countedCommands
  rely before after := after.records = before.records
  invariant_passive same sufficient :=
    sufficient.same same.terms same.records same.checkpoints
  rely_passive same := same.records
  stable_runs same assertion := by rwa [same]
  stable_commands := countedCommands_stable
  owner_stable_commands := @countedCommands_unowned
  runs_findJob _ := trivial
  runs_ended world pc ended := by
    cases pc <;> trivial
  runs_caught _ _ := trivial
  commands_begin := countedCommands_begin
  run_sound := by
    intro config index fault pc kept allowed here _ sufficient assertion
    obtain ⟨_, logHolds⟩ := allowed
    have log := logHolds.1
    have track := logHolds.run here
    by_cases commits : pc.commits = false
    · have records := runStep_records env kept config.shared pc
      refine ⟨sufficient.same (runStep_terms env kept config.shared pc)
        records (runStep_checkpoints env kept config.shared commits), ?_,
        .inl records⟩
      rw [records]
      exact sufficient_step room kept commits log track sufficient assertion
    · cases pc with
      | commitBatch run rows batchLastId =>
          obtain ⟨sufficientAfter, next, records⟩ :=
            sufficient_commit log track sufficient assertion
          exact ⟨sufficientAfter, next, .inl records⟩
      | _ => exact absurd rfl commits
  command_sound := by
    intro config index fault pc allowed here _ sufficient assertion
    have records := apiStep_records env config.shared pc
    refine ⟨?_, countedCommands_next env config.shared pc, records⟩
    by_cases other : pc.inserts = false ∨ config.shared.job ≠ none
    · exact sufficient.same (apiStep_terms env other) records
        (apiStep_checkpoints env config.shared pc)
    · simp only [not_or, not_not, Bool.not_eq_false] at other
      obtain ⟨inserts, absent⟩ := other
      cases pc with
      | insertJob =>
          exact sufficient_insertJob env allowed.2.1 assertion absent
      | _ => cases inserts
  sweep_sound := by
    intro config index fault pc _ _ sufficient
    have records := sweepStep_records env config.shared pc
    exact ⟨sufficient.same (sweepStep_terms env config.shared pc) records
      (sweepStep_checkpoints env config.shared pc), records⟩
  change_sound := by
    intro config change allowed sufficient
    cases change with
    | tick milliseconds =>
        exact ⟨sufficient, fun _ _ _ assertion => assertion,
          fun _ _ _ assertion => assertion⟩
    | setRecords table =>
        obtain ⟨keeps, logHolds⟩ := allowed
        have knownKept : ∀ terms, config.shared.terms = some terms →
            ∀ row ∈ config.shared.records.rows,
              row.id ≤ terms.snapshotMaxId →
                ∃ other ∈ table.rows, other.id = row.id := by
          intro terms termsEq
          obtain ⟨job, found, rfl⟩ := Option.map_eq_some_iff.mp termsEq
          exact keeps table job.snapshotMaxId rfl (.inl ⟨job, found, rfl⟩)
        refine ⟨sufficient.kept knownKept, ?_, ?_⟩
        · intro index pc here assertion
          have track := logHolds.run here
          cases pc with
          | putChunk | confirmChunk | commitBatch =>
              exact Sufficient.kept (knownKept _ track.job) assertion
          | failJob reason error exit => cases exit <;> exact assertion
          | _ => exact assertion
        · intro index pc here assertion
          cases pc with
          | insertJob userId rowLimit snapshotMaxId =>
              have more : config.shared.records.remaining 0 snapshotMaxId ≤
                  table.remaining 0 snapshotMaxId :=
                Keyset.length_window_le config.shared.records.ascending
                  (keeps table snapshotMaxId rfl
                    (.inr ⟨index, userId, rowLimit, here⟩))
              rw [countedCommands, ← remaining_zero] at assertion ⊢
              exact le_trans assertion (Int.ofNat_le.mpr more)
          | _ => trivial

theorem sufficientOutline_initial {env : Env}
    {room : 0 < env.exportBatchSize} {config : Config World Proc}
    (initial : Initial env config) :
    (sufficientOutline env room).Holds config := by
  apply SystemOutline.holds_of_idle _ initial.idle
  intro terms termsEq
  rw [World.terms, initial.noJob] at termsEq
  cases termsEq

/-! ## Turns of the batch loop -/

def RunPc.loaded : RunPc → Bool
  | .findJob => false
  | .recordMissing _ => false
  | .cancelBeforeStart _ => false
  | .claim _ _ => false
  | .setStartedAt _ => false
  | .loadResume _ => false
  | _ => true

def RunPc.beginsTurn : RunPc → Bool
  | .pollCancel _ => true
  | _ => false

/-- The rows that are missing when the run comes back to the head of the
loop, if every batch has one row. -/
def RunPc.turnsLeft : RunPc → Int
  | .readProgress job resume => job.requestedRowLimit - resume.rowsWritten
  | .reconcile job resume => job.requestedRowLimit - resume.rowsWritten
  | .pollCancel run => run.job.requestedRowLimit - run.exportedRowCount
  | .fetchBatch run => run.job.requestedRowLimit - run.exportedRowCount - 1
  | .putChunk run _ _ =>
      run.job.requestedRowLimit - run.exportedRowCount - 1
  | .confirmChunk run _ _ =>
      run.job.requestedRowLimit - run.exportedRowCount - 1
  | .commitBatch run _ _ =>
      run.job.requestedRowLimit - run.exportedRowCount - 1
  | _ => 0

def turnBegins (index : Nat) (config : Config World Proc) :
    Event Action Change → Bool
  | .act other (.call _) =>
      decide (other = index) &&
        (config.procs index).runs RunPc.beginsTurn
  | _ => false

/-- The turns of its batch loop that the run of a process begins before it is
over. -/
def turns (env : Env) (index : Nat) :
    Config World Proc → List (Event Action Change) → Nat
  | _, [] => 0
  | config, event :: rest =>
      if (config.procs index).executing then
        (turnBegins index config event).toNat +
          match (machine env).step config event with
          | some next => turns env index next rest
          | none => 0
      else 0

section Turns

variable {env : Env} {world : World} {run : Progress}

theorem turnsLeft_loopTop
    (most : run.exportedRowCount ≤ run.job.requestedRowLimit) :
    (RunPc.loopTop run).loaded = true ∧
      (RunPc.loopTop run).turnsLeft ≤
        run.job.requestedRowLimit - run.exportedRowCount := by
  apply RunPc.loopTop_cases (motive := fun pc => pc.loaded = true ∧
    pc.turnsLeft ≤ run.job.requestedRowLimit - run.exportedRowCount) run
  · intro less
    exact ⟨rfl, le_refl _⟩
  · intro beyond reason
    omega
  · intro all
    exact ⟨rfl, by simp only [RunPc.turnsLeft]; omega⟩

theorem turnsLeft_nonneg {pc : RunPc} (log : LogInvariant world)
    (assertion : logRuns world pc) : 0 ≤ pc.turnsLeft := by
  cases pc with
  | readProgress job resume | reconcile job resume =>
      have most := OnTrack.count_le assertion log
      simp only [Progress.start] at most
      simp only [RunPc.turnsLeft]
      omega
  | pollCancel | fetchBatch | putChunk | confirmChunk | commitBatch =>
      have less := assertion.less
      simp only [RunPc.turnsLeft]
      omega
  | _ => exact le_refl _

/-- A batch has between one row and all that are missing. -/
theorem HasBatch.length_rows {rows : List ExportableRow} {batchLastId : Int}
    (batch : HasBatch world run rows batchLastId) :
    1 ≤ (rows.length : Int) ∧
      run.exportedRowCount + rows.length ≤ run.job.requestedRowLimit := by
  obtain ⟨raw, rfl, fetched⟩ := batch.fetched
  have least := List.length_pos_iff.mpr fetched.nonempty
  have few := fetched.few
  simp only [Progress.limit] at few
  rw [List.length_map]
  omega

/-- A call that does not begin a turn, or begins the last one, may end the
run. -/
theorem beginsTurn_le {pc : RunPc} (log : LogInvariant world)
    (assertion : logRuns world pc) :
    pc.beginsTurn.toNat ≤ pc.turnsLeft := by
  cases pc with
  | pollCancel run =>
      have less := Unfinished.less assertion
      simp only [RunPc.beginsTurn, RunPc.turnsLeft, Bool.toNat_true]
      omega
  | _ => exact turnsLeft_nonneg log assertion

/-- A statement of a loaded run uses up the turn it begins: a batch has at
least one row. -/
theorem turnsLeft_runStep (kept : List String) {pc : RunPc}
    (log : LogInvariant world) (assertion : logRuns world pc)
    (loaded : pc.loaded = true) :
    (runStep env kept world pc).2.loaded = true ∧
      pc.beginsTurn.toNat + (runStep env kept world pc).2.turnsLeft ≤
        pc.turnsLeft := by
  have nothing := beginsTurn_le log assertion
  have next : ∀ {following : RunPc}, following.loaded = true →
      following.turnsLeft = 0 →
        following.loaded = true ∧
          pc.beginsTurn.toNat + following.turnsLeft ≤ pc.turnsLeft := by
    intro following followingLoaded none
    exact ⟨followingLoaded, by omega⟩
  cases pc with
  | readProgress job resume =>
      simp only [runStep]
      split
      · obtain ⟨entered, most⟩ :=
          turnsLeft_loopTop (OnTrack.count_le assertion log)
        exact ⟨entered, le_of_eq_of_le (zero_add _) most⟩
      · exact ⟨rfl, le_of_eq (zero_add _)⟩
  | reconcile job resume =>
      obtain ⟨entered, most⟩ :=
        turnsLeft_loopTop (OnTrack.count_le assertion log)
      exact ⟨entered, le_of_eq_of_le (zero_add _) most⟩
  | pollCancel run =>
      simp only [runStep]
      split
      · exact next rfl rfl
      · refine ⟨rfl, le_of_eq ?_⟩
        simp only [RunPc.beginsTurn, RunPc.turnsLeft, Bool.toNat_true]
        ring
  | fetchBatch run =>
      apply fetchBatch_cases env kept fun following =>
        following.loaded = true ∧
          (RunPc.fetchBatch run).beginsTurn.toNat + following.turnsLeft ≤
            (RunPc.fetchBatch run).turnsLeft
      · intro _
        exact next rfl rfl
      · intro raw batchLastId _ _
        exact ⟨rfl, le_of_eq (zero_add _)⟩
  | putChunk => exact ⟨rfl, le_of_eq (zero_add _)⟩
  | confirmChunk run rows batchLastId =>
      simp only [runStep, confirmStep]
      split
      · exact next rfl rfl
      · split
        · exact next rfl rfl
        · exact ⟨rfl, le_of_eq (zero_add _)⟩
  | commitBatch run rows batchLastId =>
      have batch : HasBatch world run rows batchLastId := assertion
      obtain ⟨least, most⟩ := batch.length_rows
      apply commitBatch_cases batch.toOnTrack log fun result =>
        result.2.loaded = true ∧
          (RunPc.commitBatch run rows batchLastId).beginsTurn.toNat +
            result.2.turnsLeft ≤
              (RunPc.commitBatch run rows batchLastId).turnsLeft
      · intro error
        exact next rfl rfl
      · intro after _ _
        obtain ⟨entered, left⟩ :=
          @turnsLeft_loopTop (run.advance rows batchLastId) most
        refine ⟨entered, le_of_eq_of_le (zero_add _) (le_trans left ?_)⟩
        simp only [Progress.advance, RunPc.turnsLeft]
        omega
  | loadFinal run =>
      simp only [runStep, finalStep]
      split
      · exact next rfl rfl
      · split <;> exact next rfl rfl
  | writeVerifying | readChunk | headAssembled | verifyHead | verifyRead
  | saveVerification | listChunks =>
      simp only [runStep, RunPc.assembleFrom, RunPc.nextPage]
      repeat' split
      all_goals exact next rfl rfl
  | deletePage =>
      simp only [runStep, RunPc.nextPage]
      repeat' split
      all_goals exact next rfl rfl
  | recordFailure error exit => cases exit <;> exact next rfl rfl
  | findJob | recordMissing | cancelBeforeStart | claim | setStartedAt
  | loadResume => cases loaded
  | _ => exact next rfl rfl

theorem turnsLeft_of_ended {pc : RunPc} (ended : pc.ended = true) :
    pc.loaded = true ∧ pc.turnsLeft = 0 := by
  cases pc with
  | returned | threw | crashed => exact ⟨rfl, rfl⟩
  | _ => cases ended

/-- So does a call that fails. -/
theorem turnsLeft_runCall (fault : Fault) {pc : RunPc}
    (log : LogInvariant world) (assertion : logRuns world pc)
    (loaded : pc.loaded = true) :
    (runCall env world pc fault).2.loaded = true ∧
      pc.beginsTurn.toNat + (runCall env world pc fault).2.turnsLeft ≤
        pc.turnsLeft := by
  have least := beginsTurn_le log assertion
  have failed : ∀ error, (pc.onError error).loaded = true ∧
      pc.beginsTurn.toNat + (pc.onError error).turnsLeft ≤
        pc.turnsLeft := by
    intro error
    apply RunPc.onError_cases (motive := fun next =>
      next.loaded = true ∧
        pc.beginsTurn.toNat + next.turnsLeft ≤ pc.turnsLeft)
    · intro next ended
      obtain ⟨loadedNext, none⟩ := turnsLeft_of_ended ended
      exact ⟨loadedNext, by omega⟩
    · intro error
      exact ⟨rfl, le_of_eq_of_le (add_zero _) least⟩
  apply runCall_cases (motive := fun result =>
    result.2.loaded = true ∧
      pc.beginsTurn.toNat + result.2.turnsLeft ≤ pc.turnsLeft) fault
  · exact fun kept => turnsLeft_runStep kept log assertion loaded
  · exact failed
  · exact failed

/-- A step of the system uses up the turn it begins. -/
theorem turnsLeft_step {config next : Config World Proc}
    {event : Event Action Change} {index : Nat} {pc : RunPc}
    (stepEq : (machine env).step config event = some next)
    (log : LogInvariant config.shared)
    (assertion : logRuns config.shared pc)
    (here : config.procs index = .run pc) (loaded : pc.loaded = true)
    (live : pc.ended = false) :
    ∃ following, next.procs index = .run following ∧
      following.loaded = true ∧
      (turnBegins index config event).toNat + following.turnsLeft ≤
        pc.turnsLeft := by
  have left := turnsLeft_nonneg log assertion
  cases event with
  | env change =>
      obtain ⟨shared, _, rfl⟩ := Network.step_env_iff.mp stepEq
      exact ⟨pc, here, loaded, le_of_eq (zero_add _)⟩
  | act other action =>
      obtain ⟨shared, proc, actEq, rfl⟩ := Network.step_act_iff.mp stepEq
      by_cases same : other = index
      · subst same
        simp only [Function.update_self]
        rw [here] at actEq
        have step := actStep_of_act actEq
        cases step with
        | run fault _ =>
            obtain ⟨loadedNext, used⟩ :=
              turnsLeft_runCall fault log assertion loaded
            exact ⟨_, rfl, loadedNext, by
              simpa [turnBegins, here, Proc.runs] using used⟩
        | runCrash _ => exact ⟨.crashed, rfl, rfl, left⟩
        | settleReturned | settleThrew => cases live
        | stall held => exact ⟨pc, rfl, loaded, le_of_eq (zero_add _)⟩
      · have quiet : turnBegins index config (.act other action) = false := by
          cases action <;> simp [turnBegins, same]
        simp only [Function.update_of_ne (Ne.symm same), quiet]
        exact ⟨pc, here, loaded, le_of_eq (zero_add _)⟩

/-- A run that has loaded the log begins no more turns than rows are
missing. -/
theorem turns_le {permitted : Condition} {source target : Config World Proc}
    {events : List (Event Action Change)}
    (history : (machine env).Exec permitted source events target)
    (holds : (logOutline env permitted).Holds source) {index : Nat}
    {pc : RunPc} (here : source.procs index = .run pc)
    (loaded : pc.loaded = true) :
    (turns env index source events : Int) ≤ pc.turnsLeft := by
  induction events generalizing source pc with
  | nil => exact turnsLeft_nonneg holds.1 (holds.run here)
  | cons event rest inductionHypothesis =>
      obtain ⟨allowed, middle, stepEq, remaining⟩ := history
      have holdsAfter :=
        (logOutline env permitted).toProofOutline.step_preserved allowed
          stepEq holds
      simp only [turns, here, stepEq, Proc.executing]
      split
      · next live =>
          obtain ⟨following, there, loadedNext, used⟩ :=
            turnsLeft_step stepEq holds.1 (holds.run here) here loaded
              (by simpa using live)
          have later :=
            inductionHypothesis remaining holdsAfter there loadedNext
          push_cast
          omega
      · exact turnsLeft_nonneg holds.1 (holds.run here)

end Turns

/-- A created export can be exported in full as long as the records that were
counted are not deleted: whatever crashes, resumes and overlaps, no run gives
up for want of rows, and the loop of a run ends after at most as many turns
as there are rows missing in the log it has loaded. -/
theorem export_suffices {env : Env} {source middle : Config World Proc}
    {events : List (Event Action Change)} (room : 0 < env.exportBatchSize)
    (initial : Initial env source)
    (history : (machine env).Exec KeepsRecords source events middle) :
    (∀ index pc, middle.procs index = .run pc → ¬ GivesUp pc) ∧
      ∀ index job resume,
        middle.procs index = .run (.readProgress job resume) →
        ∀ later target,
          (machine env).Exec KeepsRecords middle later target →
          (turns env index middle later : Int) ≤
            job.requestedRowLimit - resume.rowsWritten := by
  have logged := (logOutline env KeepsRecords).strengthen history
    (logOutline_initial initial)
  have sufficient := (sufficientOutline env room).preserved logged
    (sufficientOutline_initial initial)
  refine ⟨fun index pc here => not_givesUp (sufficient.run here), ?_⟩
  intro index job resume here later target continues
  have holds := (logOutline env KeepsRecords).preserved history
    (logOutline_initial initial)
  exact turns_le continues holds here rfl

/-- `KeepsRecords`, where no record at all is deleted. -/
def keepsRecords (config : Config World Proc) :
    Event Action Change → Bool
  | .env (.setRecords table) =>
      config.shared.records.rows.all fun row =>
        table.rows.any fun other => decide (other.id = row.id)
  | _ => true

theorem keepsRecords_sound {config : Config World Proc}
    {event : Event Action Change} (passes : keepsRecords config event = true) :
    KeepsRecords config event := by
  rintro table boundary rfl _ row member _
  simpa using List.all_eq_true.mp passes row member

def loadedOneOfTwo : RunPc → Bool
  | .readProgress job resume =>
      decide (job.requestedRowLimit = 2) && decide (resume.rowsWritten = 1)
  | _ => false

/-- The second worker of `crashedAndResumed` has loaded the log of the first
one; what remains is one turn of its loop. -/
theorem export_suffices_crashedAndResumed :
    ∃ middle target,
      (machine smallEnv).Exec KeepsRecords (smallStart twoRecords)
        (crashedAndResumed.take 31) middle ∧
      (machine smallEnv).Exec KeepsRecords middle
        (crashedAndResumed.drop 31) target ∧
      (∀ index pc, middle.procs index = .run pc → ¬ GivesUp pc) ∧
      (turns smallEnv 2 middle (crashedAndResumed.drop 31) : Int) ≤ 1 := by
  obtain ⟨middle, history, _, ends⟩ :=
    exists_history KeepsRecords twoRecords 3 keepsRecords
      (crashedAndResumed.take 31)
      (fun middle => (middle.procs 2).runs loadedOneOfTwo &&
        ((machine smallEnv).runChecked keepsRecords middle
          (crashedAndResumed.drop 31)).isSome)
      (fun _ passes => keepsRecords_sound passes) (by decide +kernel)
  simp only [Bool.and_eq_true] at ends
  obtain ⟨loads, runs⟩ := ends
  obtain ⟨target, runEq⟩ := Option.isSome_iff_exists.mp runs
  have later : (machine smallEnv).Exec KeepsRecords middle
      (crashedAndResumed.drop 31) target :=
    Machine.exec_of_runChecked (fun _ => True)
      (fun _ passes => keepsRecords_sound passes) (fun _ _ _ => trivial)
      trivial runEq
  obtain ⟨enough, few⟩ :=
    export_suffices (by decide) (initial_smallStart _) history
  refine ⟨middle, target, history, later, enough, ?_⟩
  obtain ⟨pc, here, oneOfTwo⟩ := Proc.exists_of_runs loads
  cases pc with
  | readProgress job resume =>
      simp only [loadedOneOfTwo, Bool.and_eq_true, decide_eq_true_eq]
        at oneOfTwo
      have bound := few 2 job resume here _ target later
      rwa [oneOfTwo.1, oneOfTwo.2] at bound
  | _ => cases oneOfTwo

end ExportVault
