import ExportVault.Cancel
import ExportVault.Drift
import ExportVault.Exactness

/-!
# Runs that meet nobody

A run whose chunks are all there, whose records suffice and that nobody
cancels completes the export when no call fails and nobody else acts.
-/

namespace ExportVault

open Interleaving

/-- A run that meets neither a fault nor anybody else. -/
def alone (env : Env) : Machine (World × RunPc) Unit where
  step state _ :=
    if state.2.ended then none else some (runStep env [] state.1 state.2)

/-- The run gets from one call to another. -/
def GoesOn (env : Env) (source target : World × RunPc) : Prop :=
  (alone env).Reaches (fun _ _ => True) source target

/-- The selection has all the rows the job asks for, and a batch has room for
a row. -/
def Enough (world : World) (terms : Terms) : Prop :=
  ((selection world.records terms).length : Int) = terms.requestedRowLimit ∧
    0 < terms.batchSize

/-- Everything the run relies on is there. -/
structure Ready (env : Env) (world : World) (pc : RunPc) : Prop where
  log : LogInvariant world
  known : logRuns world pc
  exact : ExactInvariant env world
  exactly : exactRuns env world pc
  enough : ∀ terms, world.terms = some terms → Enough world terms
  stored : ∀ checkpoint ∈ world.checkpoints,
    world.Stores env checkpoint.batchNumber
  own : ∀ number body, pc.uncommitted = some (number, body) →
    world.store.get? (chunkKey env.exportJobId number) = some body
  wanted : world.cancelFlagged = false

variable {env : Env} {world : World} {run : Progress}

theorem goesOn_step {pc : RunPc} (live : pc.ended = false) :
    GoesOn env (world, pc) (runStep env [] world pc) :=
  ⟨[()], trivial, _, by simp [alone, live], rfl⟩

/-- What a run does alone, as statements of its process. -/
theorem solo_of_goesOn (index : Nat) {pc next : RunPc} {after : World}
    (goesOn : GoesOn env (world, pc) (after, next)) :
    ∃ count, (network env).solo index world (.run pc)
      (List.replicate count (.call .none)) = some (after, .run next) := by
  obtain ⟨events, execution⟩ := goesOn
  induction events generalizing world pc with
  | nil =>
      obtain ⟨rfl, rfl⟩ := Prod.mk.inj execution
      exact ⟨0, rfl⟩
  | cons event rest inductionHypothesis =>
      obtain ⟨_, middle, stepEq, remaining⟩ := execution
      simp only [alone, Option.ite_none_left_eq_some, Option.some.injEq,
        Bool.not_eq_true] at stepEq
      obtain ⟨live, rfl⟩ := stepEq
      obtain ⟨count, soloEq⟩ := inductionHypothesis remaining
      refine ⟨count + 1, ?_⟩
      rw [List.replicate_succ, solo_run live]
      exact soloEq

theorem terms_of_goesOn {pc next : RunPc} {after : World}
    (goesOn : GoesOn env (world, pc) (after, next)) :
    after.terms = world.terms := by
  obtain ⟨events, execution⟩ := goesOn
  induction events generalizing world pc with
  | nil => rw [(Prod.mk.inj execution).1]
  | cons event rest inductionHypothesis =>
      obtain ⟨_, middle, stepEq, remaining⟩ := execution
      simp only [alone, Option.ite_none_left_eq_some,
        Option.some.injEq] at stepEq
      obtain ⟨_, rfl⟩ := stepEq
      exact (inductionHypothesis remaining).trans
        (runStep_terms env [] world pc)

/-- A statement that deletes nothing keeps everything the run relies on. -/
theorem Ready.step {pc : RunPc} (ready : Ready env world pc)
    (spares : pc.deletes = false) :
    Ready env (runStep env [] world pc).1 (runStep env [] world pc).2 := by
  obtain ⟨logAfter, knownAfter, _⟩ :=
    log_runStep env [] ready.log ready.known
  obtain ⟨exactAfter, exactlyAfter, _⟩ :=
    exact_runStep [] ready.known ready.log ready.exact ready.exactly
  refine
    { log := logAfter
      known := knownAfter
      exact := exactAfter
      exactly := exactlyAfter
      enough := ?_
      stored := ?_
      own := ?_
      wanted := ?_ }
  · intro terms termsEq
    rw [runStep_terms] at termsEq
    rw [Enough, runStep_records]
    exact ready.enough terms termsEq
  · intro checkpoint member
    apply stores_runStep [] spares
    rcases mem_checkpoints_runStep member with old | ⟨body, written⟩
    · exact ready.stored checkpoint old
    · rw [World.Stores, ready.own _ body written]
      exact Option.some_ne_none _
  · intro number body written
    rcases uncommitted_runStep written with
      before | ⟨run, rows, batchLastId, rfl, rfl, rfl⟩
    · have sameStore : (runStep env [] world pc).1.store = world.store := by
        apply runStep_store
        cases pc <;> first | rfl | cases before
      rw [sameStore]
      exact ready.own number body before
    · exact ObjectStore.get?_put_self _ _ _
  · rw [runStep_cancelFlagged]
    exact ready.wanted

/-- One call of a run that has everything it relies on. -/
theorem Ready.goesTo {pc next : RunPc} {after : World}
    (ready : Ready env world pc) (live : pc.ended = false)
    (spares : pc.deletes = false)
    (stepEq : runStep env [] world pc = (after, next)) :
    GoesOn env (world, pc) (after, next) ∧ Ready env after next := by
  have goesOn : GoesOn env (world, pc) (runStep env [] world pc) :=
    goesOn_step live
  have readyAfter := ready.step spares
  rw [stepEq] at goesOn readyAfter
  exact ⟨goesOn, readyAfter⟩

/-- Before the last row the next batch is not empty. -/
theorem Ready.exists_batch (ready : Ready env world (.fetchBatch run))
    (position : run.At world.checkpoints) :
    ∃ raw batchLastId, Fetched run raw batchLastId ∧
      (runStep env [] world (.fetchBatch run)).2 =
        .putChunk run (raw.map normaliseRecord) batchLastId := by
  have unfinished : Unfinished world run := ready.known
  obtain ⟨enough, room⟩ := ready.enough _ unfinished.job
  have wellFormed := unfinished.log ready.log
  have nonneg := OnTrack.nonneg wellFormed (List.prefix_refl _)
  have less : rowsOf world.checkpoints < run.job.requestedRowLimit :=
    position.2.2 ▸ unfinished.less
  have limit : run.job.terms.requestedRowLimit = run.job.requestedRowLimit :=
    rfl
  apply fetchBatch_cases env [] fun next => ∃ raw batchLastId,
    Fetched run raw batchLastId ∧
      next = .putChunk run (raw.map normaliseRecord) batchLastId
  · intro exhausted
    have tiled := (ready.exact.exact _ unfinished.job).tiled
    have next := select_eq_nextBatch nonneg
      (tiled.cursor _ (List.prefix_refl _)) wellFormed.total
    rw [← position.2.1, ← position.2.2] at next
    have batchEmpty : nextBatch (selection world.records run.job.terms)
        run.job.terms.batchSize world.checkpoints = [] :=
      next.symm.trans exhausted
    have size := congrArg List.length batchEmpty
    simp only [nextBatch, List.length_take, List.length_drop,
      List.length_nil] at size
    omega
  · intro raw batchLastId _ fetched
    exact ⟨raw, batchLastId, fetched, rfl⟩

/-- The batch of a run at the end of the log is committed. -/
theorem Ready.commits {rows : List ExportableRow} {batchLastId : Int}
    (ready : Ready env world (.putChunk run rows batchLastId))
    (position : run.At world.checkpoints) :
    ∃ after, GoesOn env (world, .putChunk run rows batchLastId)
        (after, .loopTop (run.advance rows batchLastId)) ∧
      Ready env after (.loopTop (run.advance rows batchLastId)) ∧
      (run.advance rows batchLastId).At after.checkpoints := by
  let put := world.putObject (chunkKey env.exportJobId run.batchNumber)
    (chunkBytes rows)
  obtain ⟨puts, written⟩ := ready.goesTo rfl rfl
    (show _ = (put, .confirmChunk run rows batchLastId) from rfl)
  obtain ⟨confirms, confirmed⟩ := written.goesTo rfl rfl
    (show _ = (put, .commitBatch run rows batchLastId) by
      simp [runStep, confirmStep, put])
  have batch : HasBatch put run rows batchLastId := confirmed.known
  obtain ⟨commits, committed⟩ := confirmed.goesTo rfl rfl
    (commitStep_of_at (batch.toOnTrack.log confirmed.log) position)
  exact ⟨_, (puts.trans confirms).trans commits, committed,
    position.advance⟩

/-- The batch loop comes to its end. -/
theorem Ready.loops (ready : Ready env world (.loopTop run))
    (knows : KnowsJob world run.job) (position : run.At world.checkpoints) :
    ∃ after final, GoesOn env (world, .loopTop run) (after, .loadFinal final) ∧
      Ready env after (.loadFinal final) := by
  -- the rows that are left decrease with every batch
  generalize left : (run.job.requestedRowLimit -
    run.exportedRowCount).toNat = measure
  induction measure using Nat.strong_induction_on generalizing world run with
  | _ measure inductionHypothesis =>
      by_cases less : run.exportedRowCount < run.job.requestedRowLimit
      · have top : RunPc.loopTop run = .pollCancel run := if_pos less
        rw [top] at ready ⊢
        obtain ⟨polls, polled⟩ := ready.goesTo rfl rfl
          (show _ = (world, .fetchBatch run) by
            have unwanted : world.job.any ExportJob.cancelRequested = false :=
              ready.wanted
            simp [runStep, unwanted])
        obtain ⟨raw, batchLastId, fetched, next⟩ :=
          polled.exists_batch position
        obtain ⟨fetches, carrying⟩ := polled.goesTo rfl rfl
          (show _ = (world, .putChunk run (raw.map normaliseRecord)
            batchLastId) from Prod.ext rfl next)
        obtain ⟨after, commits, committed, positionAfter⟩ :=
          carrying.commits position
        have batch := (polls.trans fetches).trans commits
        have some_row := List.length_pos_iff.mpr fetched.nonempty
        obtain ⟨final, last, loops, ends⟩ := inductionHypothesis
          (run.job.requestedRowLimit -
            (run.exportedRowCount + raw.length)).toNat (by omega) committed
          ((terms_of_goesOn batch).trans knows) positionAfter
          (by simp [Progress.advance])
        exact ⟨final, last, batch.trans loops, ends⟩
      · have all : run.exportedRowCount = run.job.requestedRowLimit := by
          have total := (ready.log.wellFormed _ knows).total
          rw [← position.2.2] at total
          exact le_antisymm total (not_lt.mp less)
        have top : RunPc.loopTop run = .loadFinal run := by
          rw [RunPc.loopTop, if_neg less, if_neg (not_not.mpr all)]
        rw [top] at ready ⊢
        exact ⟨world, run, .refl _, ready⟩

/-- The chunks are read one after the other. -/
theorem Ready.assembles {batchCount batchNumber : Int} {assembled : Bytes}
    (ready : Ready env world
      (.assembleFrom run batchCount batchNumber assembled)) :
    ∃ whole, GoesOn env
        (world, .assembleFrom run batchCount batchNumber assembled)
        (world, .uploadFinal run whole) ∧
      Ready env world (.uploadFinal run whole) := by
  generalize left : (batchCount + 1 - batchNumber).toNat = measure
  induction measure generalizing batchNumber assembled with
  | zero =>
      have all : RunPc.assembleFrom run batchCount batchNumber assembled =
          .uploadFinal run assembled := if_neg (by omega)
      rw [all] at ready ⊢
      exact ⟨assembled, .refl _, ready⟩
  | succ measure inductionHypothesis =>
      have more : RunPc.assembleFrom run batchCount batchNumber assembled =
          .readChunk run batchCount batchNumber assembled := if_pos (by omega)
      rw [more] at ready ⊢
      obtain ⟨finished, count⟩ : Finished world run ∧
        run.batchNumber = batchCount + 1 := ready.known
      obtain ⟨_, inside, done, _, number, _⟩ : ExactAssembly world run
        batchCount batchNumber assembled := ready.exactly
      have position := (finished.at_log ready.log).1
      obtain ⟨_, checkpoint, _, log, numberEq, _⟩ :=
        numbered_exists (finished.log ready.log).numbered
          (show 1 ≤ batchNumber by omega) (by omega)
      have present : world.Stores env batchNumber := by
        rw [← numberEq]
        exact ready.stored checkpoint (by rw [log]; simp)
      obtain ⟨body, stored⟩ := Option.ne_none_iff_exists'.mp present
      obtain ⟨reads, read⟩ := ready.goesTo rfl rfl
        (show _ = (world, .assembleFrom run batchCount (batchNumber + 1)
          (assembled ++ body)) by simp [runStep, stored])
      obtain ⟨whole, rest, ends⟩ := inductionHypothesis read (by omega)
      exact ⟨whole, reads.trans rest, ends⟩

/-- The log accounts for the rows, and the file is assembled. -/
theorem Ready.finishes (ready : Ready env world (.loadFinal run)) :
    ∃ after whole, GoesOn env (world, .loadFinal run)
        (after, .uploadFinal run whole) ∧
      Ready env after (.uploadFinal run whole) := by
  have finished : Finished world run := ready.known
  have complete := (finished.whole ready.log ready.exact).1
  obtain ⟨loads, loaded⟩ := ready.goesTo rfl rfl
    (show _ = (world, .writeVerifying run world.checkpoints.length) by
      simp [runStep, finalStep, ready.log.load finished.job, resumeStateOf,
        complete])
  obtain ⟨writes, verifying⟩ := loaded.goesTo rfl rfl rfl
  obtain ⟨whole, assembles, assembled⟩ := verifying.assembles
  exact ⟨_, whole, (loads.trans writes).trans assembles, assembled⟩

/-- The verdict on the file of a selection. -/
theorem verify_selection {records : RecordTable} {terms : Terms}
    (sha256 : String) {fileBytes : Int} (positive : 0 < fileBytes)
    (whole : ((selection records terms).length : Int) =
      terms.requestedRowLimit) :
    (verificationResult terms.requestedRowLimit terms.snapshotMaxId fileBytes
        sha256 (verifyRecords terms.snapshotMaxId
          (exportRecords (selection records terms)))).passed = true ∧
      (verificationResult terms.requestedRowLimit terms.snapshotMaxId
        fileBytes sha256 (verifyRecords terms.snapshotMaxId
          (exportRecords (selection records terms)))).storable = true := by
  have ascending : Keyset.Ascending RawRecordRow.id (selection records terms) :=
    Keyset.page_ascending records.ascending
  have bigint : ∀ row ∈ selection records terms, isBigInt row.id :=
    fun row member => isBigInt_of_isBigSerial
      (records.drawn row (Keyset.mem_of_mem_page member).1)
  rw [← whole]
  exact verify_export_passes sha256 ascending
    (fun _ member => selection_within member) bigint positive

/-- The file is uploaded and passes its verification. -/
theorem Ready.verifies (parses : ParsesRfc4180 env.csvParse) {whole : Bytes}
    (ready : Ready env world (.uploadFinal run whole)) :
    ∃ after, GoesOn env (world, .uploadFinal run whole)
        (after, .writeCompleted run) ∧
      Ready env after (.writeCompleted run) := by
  obtain ⟨_, wholeEq, length⟩ : KnowsJob world run.job ∧
    whole = exportBytes (selection world.records run.job.terms) ∧
    ((selection world.records run.job.terms).length : Int) =
      run.job.requestedRowLimit := ready.exactly
  have positive : 0 < whole.size := wholeEq ▸ exportBytes_size_pos _
  let put := world.putObject (finalKey env.exportJobId) whole
  let result := verificationResult run.job.terms.requestedRowLimit
    run.job.terms.snapshotMaxId whole.size (env.sha256 whole)
    (verifyRecords run.job.terms.snapshotMaxId
      (exportRecords (selection world.records run.job.terms)))
  obtain ⟨passed, storable⟩ : result.passed = true ∧ result.storable = true :=
    verify_selection (env.sha256 whole)
      (show (0 : Int) < whole.size by omega) length
  obtain ⟨uploads, uploaded⟩ := ready.goesTo rfl rfl
    (show _ = (put, .headAssembled run) from rfl)
  obtain ⟨heads, headed⟩ := uploaded.goesTo rfl rfl
    (show _ = (put, .verifyHead run) by
      simp [runStep, put, Nat.ne_of_gt positive])
  obtain ⟨sizes, sized⟩ := headed.goesTo rfl rfl
    (show _ = (put, .verifyRead run whole.size) by simp [runStep, put])
  have verdict : verifyBody env run.job.requestedRowLimit
      run.job.snapshotMaxId whole.size whole = .ok result := by
    rw [verifyBody, wholeEq, parses.exportBytes, ← wholeEq]
    rfl
  obtain ⟨reads, judged⟩ := sized.goesTo rfl rfl
    (show _ = (put, .saveVerification run result) by
      simp [runStep, put, verdict])
  obtain ⟨saves, saved⟩ := judged.goesTo rfl rfl
    (show _ = (put.insertVerification result.toRow, .writeCompleted run) by
      simp [runStep, passed, storable])
  exact ⟨_, (((uploads.trans heads).trans sizes).trans reads).trans saves,
    saved⟩

/-- Deleting the chunks comes to its end and leaves the job alone. -/
theorem goesOn_returned (env : Env) (world : World) (outcome : RunOutcome)
    (token : Option String) (deleted : Nat) :
    ∃ after, GoesOn env (world, .listChunks outcome token deleted)
        (after, .returned outcome) ∧ after.job = world.job := by
  -- every page leaves fewer keys to list
  generalize left : (world.store.keysAfter (chunkPrefix env.exportJobId)
    token).length = measure
  induction measure using Nat.strong_induction_on
    generalizing world token deleted with
  | _ measure inductionHypothesis =>
      let listed :=
        world.store.listObjectsV2 (chunkPrefix env.exportJobId) token
      let next :=
        if listed.isTruncated then listed.nextContinuationToken else none
      have listedNext : ∀ last, next = some last →
          last ∈ listed.contents := by
        intro last nextEq
        simp only [next, Option.ite_none_right_eq_some] at nextEq
        obtain ⟨truncated, tokenEq⟩ := nextEq
        have long := of_decide_eq_true truncated
        simp only [listed, ObjectStore.listObjectsV2, if_pos long] at tokenEq
        exact List.mem_of_getLast? tokenEq
      have pages : ∀ (after : World) (count : Nat), after.job = world.job →
          (∀ last, next = some last →
            (after.store.keysAfter (chunkPrefix env.exportJobId)
              (some last)).length < measure) →
          ∃ final, GoesOn env (after, .nextPage outcome next count)
              (final, .returned outcome) ∧ final.job = world.job := by
        intro after count sameJob fewer
        cases nextEq : next with
        | none => exact ⟨after, .refl _, sameJob⟩
        | some last =>
            by_cases blank : last = ""
            · rw [RunPc.nextPage, if_pos blank]
              exact ⟨after, .refl _, sameJob⟩
            · rw [RunPc.nextPage, if_neg blank]
              obtain ⟨final, rest, jobEq⟩ := inductionHypothesis _
                (fewer last nextEq) after (some last) count rfl
              exact ⟨final, rest, jobEq.trans sameJob⟩
      have lists : GoesOn env (world, .listChunks outcome token deleted)
          (runStep env [] world (.listChunks outcome token deleted)) :=
        goesOn_step rfl
      by_cases some_listed : listed.contents.length > 0
      · have first : runStep env [] world
            (.listChunks outcome token deleted) =
            (world, .deletePage outcome listed.contents next deleted) := by
          rw [runStep]
          simp only [listed, next, if_pos some_listed]
        rw [first] at lists
        have deletes : GoesOn env
            (world, .deletePage outcome listed.contents next deleted)
            (runStep env [] world
              (.deletePage outcome listed.contents next deleted)) :=
          goesOn_step rfl
        obtain ⟨final, rest, jobEq⟩ := pages
          (world.deleteObjects listed.contents [])
          (deleted + listed.contents.length) rfl fun last nextEq =>
            left ▸ ObjectStore.length_keysAfter_lt
              (List.mem_of_mem_take (listedNext last nextEq))
              listed.contents []
        exact ⟨final, (lists.trans deletes).trans rest, jobEq⟩
      · have first : runStep env [] world
            (.listChunks outcome token deleted) =
            (world, .nextPage outcome next deleted) := by
          rw [runStep]
          simp only [listed, next, if_neg some_listed]
        rw [first] at lists
        obtain ⟨final, rest, jobEq⟩ := pages world deleted rfl
          fun last nextEq => absurd
            (List.length_pos_of_mem (listedNext last nextEq)) some_listed
        exact ⟨final, lists.trans rest, jobEq⟩

/-! ## The whole run -/

/-- A run claims a job it may resume and takes up its log. -/
theorem Ready.starts (ready : Ready env world .findJob) {job : ExportJob}
    (found : world.job = some job)
    (resumable : job.status ∈ resumableStatuses) :
    ∃ after run, GoesOn env (world, .findJob) (after, .loopTop run) ∧
      Ready env after (.loopTop run) ∧ KnowsJob after run.job ∧
      run.At after.checkpoints := by
  have notCompleted : job.status ≠ .completed := by
    intro completed
    rw [completed] at resumable
    exact absurd resumable (by decide)
  have notCancelled : job.status ≠ .cancelled := by
    intro cancelled
    rw [cancelled] at resumable
    exact absurd resumable (by decide)
  have wanted : job.cancelRequested = false := by
    have unflagged := ready.wanted
    rwa [World.cancelFlagged, found] at unflagged
  let claimed := world.updateJob fun row =>
    { row with status := .running, errorMessage := none, failedAt := none }
  obtain ⟨finds, looked⟩ := ready.goesTo rfl rfl
    (show _ = (world, .claim job (env.staleCutoff world)) by
      simp [runStep, afterFindJob, found, notCompleted, notCancelled, wanted])
  obtain ⟨claims, owned⟩ := looked.goesTo rfl rfl
    (show _ = (claimed, .setStartedAt job) by
      simp [runStep, claimStep, found, claimable, resumable, claimed])
  obtain ⟨stamps, stamped⟩ := owned.goesTo rfl rfl rfl
  generalize (if claimed.job.any fun row => row.startedAt.isNone then
    claimed.updateJob fun row => { row with startedAt := some claimed.now }
    else claimed) = started at stamps stamped
  have knows : KnowsJob started job := stamped.known
  obtain ⟨loads, loaded⟩ := stamped.goesTo rfl rfl
    (show _ = (started, .readProgress job
      (resumeStateOf started.checkpoints)) by
        simp [runStep, stamped.log.load knows])
  have before := ((finds.trans claims).trans stamps).trans loads
  let run := Progress.start job (resumeStateOf started.checkpoints)
  by_cases agrees : started.job.any (fun row =>
      row.lastExportedId.getD 0 =
          (resumeStateOf started.checkpoints).lastExportedId &&
        row.exportedRowCount =
          (resumeStateOf started.checkpoints).rowsWritten) = true
  · obtain ⟨enters, entered⟩ := loaded.goesTo rfl rfl
      (show _ = (started, .loopTop run) by
        simp only [runStep, if_pos agrees, run])
    exact ⟨started, run, before.trans enters, entered, knows, rfl, rfl, rfl⟩
  · obtain ⟨reads, read⟩ := loaded.goesTo rfl rfl
      (show _ = (started, .reconcile job
        (resumeStateOf started.checkpoints)) by
          simp only [runStep, if_neg agrees])
    obtain ⟨enters, entered⟩ := read.goesTo rfl rfl
      (show _ = (_, .loopTop run) from rfl)
    exact ⟨_, run, (before.trans reads).trans enters, entered,
      (terms_of_goesOn enters).trans knows, rfl, rfl, rfl⟩

/-- A run that has everything it relies on completes the export. -/
theorem Ready.completes (parses : ParsesRfc4180 env.csvParse)
    (ready : Ready env world .findJob) {job : ExportJob}
    (found : world.job = some job)
    (resumable : job.status ∈ resumableStatuses) :
    ∃ after rows, GoesOn env (world, .findJob)
        (after, .returned (.completed rows)) ∧
      after.status = some .completed := by
  obtain ⟨_, _, starts, started, knows, position⟩ :=
    ready.starts found resumable
  obtain ⟨_, final, loops, looped⟩ := started.loops knows position
  obtain ⟨_, _, finishes, finished⟩ := looped.finishes
  obtain ⟨checked, verifies, verified⟩ := finished.verifies parses
  have onTrack : Finished checked final := verified.known
  obtain ⟨row, present, _⟩ := Option.map_eq_some_iff.mp onTrack.job
  have writes : GoesOn env (checked, .writeCompleted final)
      (runStep env [] checked (.writeCompleted final)) := goesOn_step rfl
  obtain ⟨after, tidies, sameJob⟩ := goesOn_returned env
    (runStep env [] checked (.writeCompleted final)).1
    (.completed final.exportedRowCount) none 0
  refine ⟨after, _, ((((starts.trans loops).trans finishes).trans
    verifies).trans writes).trans tidies, ?_⟩
  rw [World.status, sameJob]
  simp [runStep, present]

end ExportVault
