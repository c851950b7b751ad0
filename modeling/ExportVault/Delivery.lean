import ExportVault.Page
import ExportVault.Resume
import ExportVault.Succession

/-!
# From a request to a download

Whatever the other exports have come to, a new one can be created, run and
downloaded: a request with enough records behind it is accepted, and one
delivery of its queue entry, with nobody in between, leads to a page that
offers the download of exactly the records that were asked for
(`export_delivered`).
-/

namespace ExportVault

open Interleaving

variable {env : Env} {world after : World} {pc next : RunPc}
variable {userId : String} {rowLimit : Int}

/-- What every call of a run keeps, the run keeps. -/
theorem GoesOn.keeps {property : World → RunPc → Prop}
    (goesOn : GoesOn env (world, pc) (after, next))
    (kept : ∀ {world pc}, property world pc →
      property (runStep env [] world pc).1 (runStep env [] world pc).2)
    (initial : property world pc) : property after next := by
  obtain ⟨events, execution⟩ := goesOn
  have step : ∀ {before : World × RunPc} {event following}, True →
      (alone env).step before event = some following →
      property before.1 before.2 → property following.1 following.2 := by
    intro before event following _ stepEq sofar
    simp only [alone, Option.ite_none_left_eq_some,
      Option.some.injEq] at stepEq
    obtain ⟨_, rfl⟩ := stepEq
    exact kept sofar
  exact execution.invariant step initial

/-- A run does nothing to the rows that a statement cannot do. -/
theorem GoesOn.stays {start : World}
    (goesOn : GoesOn env (world, pc) (after, next))
    (stays : Stays start world) :
    Stays start after := by
  let property := fun (world : World) (_ : RunPc) =>
    Stays start world
  have kept : ∀ {world pc}, property world pc →
      property (runStep env [] world pc).1 (runStep env [] world pc).2 :=
    fun sofar => sofar.trans (stays_runStep [] _)
  have initial : property world pc := stays
  exact goesOn.keeps kept initial

/-- The latest verification is a passed one of the object at the final key. -/
def World.Sealed (env : Env) (world : World) : Prop :=
  ∃ v body, world.latestVerification = some v ∧ v.passed = true ∧
    world.store.get? (finalKey env.exportJobId) = some body ∧
    v.sha256 = env.sha256 body ∧ v.fileBytes = body.size

/-- The export can be downloaded. -/
def World.Offered (env : Env) (world : World) : Prop :=
  world.Sealed env ∧ world.fileKey = some (finalKey env.exportJobId)

/-- A run that goes to `failJob` does not report a completion. -/
def FailExit.fails : FailExit → Bool
  | .returns (.completed _) => false
  | _ => true

def sealingRuns (env : Env) (world : World) : RunPc → Prop
  | .verifyRead _ fileBytes =>
      ∀ body, world.store.get? (finalKey env.exportJobId) = some body →
        fileBytes = body.size
  | .saveVerification _ result =>
      ∃ body, world.store.get? (finalKey env.exportJobId) = some body ∧
        result.sha256 = env.sha256 body ∧ result.fileBytes = body.size
  | .writeCompleted _ => world.Sealed env
  | .listChunks (.completed _) _ _ => world.Offered env
  | .deletePage (.completed _) keys _ _ =>
      world.Offered env ∧
        ∀ key ∈ keys, hasPrefix (chunkPrefix env.exportJobId) key = true
  | .failJob _ _ exit => exit.fails = true
  | .recordFailure _ exit => exit.fails = true
  | .returned (.completed _) => world.Offered env
  | _ => True

theorem sealing_nextPage {outcome : RunOutcome}
    (offered : ∀ rows, outcome = .completed rows → world.Offered env)
    (token : Option String) (deleted : Nat) :
    sealingRuns env world (.nextPage outcome token deleted) := by
  have named : sealingRuns env world (.returned outcome) ∧
      ∀ last, sealingRuns env world (.listChunks outcome last deleted) := by
    cases outcome with
    | completed rows => exact ⟨offered rows rfl, fun _ => offered rows rfl⟩
    | _ => exact ⟨trivial, fun _ => trivial⟩
  exact RunPc.nextPage_cases outcome token deleted named.1
    fun last => named.2 (some last)

/-- Every call of the run keeps what it knows. -/
theorem sealing_step (known : logRuns world pc)
    (sealing : sealingRuns env world pc) :
    sealingRuns env (runStep env [] world pc).1
      (runStep env [] world pc).2 := by
  have looped : ∀ (world : World) (run : Progress),
      sealingRuns env world (.loopTop run) := fun world run =>
    RunPc.loopTop_cases run (fun _ => trivial) (fun _ _ => rfl)
      fun _ => trivial
  cases pc with
  | findJob =>
      simp only [runStep, afterFindJob]
      repeat' split
      all_goals trivial
  | claim =>
      simp only [runStep, claimStep]
      split <;> trivial
  | loadResume =>
      simp only [runStep]
      split
      · exact rfl
      · trivial
  | readProgress =>
      simp only [runStep]
      split
      · exact looped _ _
      · trivial
  | reconcile => exact looped _ _
  | pollCancel =>
      simp only [runStep]
      split <;> trivial
  | fetchBatch run =>
      exact fetchBatch_cases env [] (sealingRuns env _) (fun _ => rfl)
        fun _ _ _ _ => trivial
  | confirmChunk =>
      simp only [runStep, confirmStep]
      repeat' split
      all_goals first | exact rfl | trivial
  | commitBatch =>
      simp only [runStep, commitStep]
      split
      · exact rfl
      · exact looped _ _
  | loadFinal =>
      simp only [runStep, finalStep]
      repeat' split
      all_goals first | exact rfl | trivial
  | writeVerifying =>
      simp only [runStep, RunPc.assembleFrom]
      split <;> trivial
  | readChunk =>
      simp only [runStep, RunPc.assembleFrom]
      repeat' split
      all_goals first | exact rfl | trivial
  | headAssembled =>
      simp only [runStep]
      repeat' split
      all_goals first | exact rfl | trivial
  | verifyHead =>
      simp only [runStep]
      split
      · exact rfl
      · next body stored =>
          intro other same
          rw [Option.some.inj (same.symm.trans stored)]
  | verifyRead run fileBytes =>
      simp only [runStep]
      split
      · exact rfl
      · next body stored =>
          obtain rfl := sealing body stored
          simp only [verifyBody]
          split
          · exact rfl
          · next verdict =>
              split at verdict
              · cases verdict
              · obtain rfl := Except.ok.inj verdict
                exact ⟨body, stored, rfl, rfl⟩
  | saveVerification run result =>
      obtain ⟨body, stored, digest, size⟩ := sealing
      simp only [runStep]
      repeat' split
      · next passed =>
          exact ⟨result.toRow, body, List.getLast?_concat .., passed, stored,
            digest, size⟩
      · trivial
      · exact rfl
  | writeFileKey => exact rfl
  | writeCompleted run =>
      have finished : Finished world run := known
      obtain ⟨row, present, _⟩ := Option.map_eq_some_iff.mp finished.job
      exact ⟨sealing, by simp [runStep, World.fileKey, present]⟩
  | listChunks outcome token deleted =>
      have offered : ∀ rows, outcome = .completed rows → world.Offered env := by
        rintro rows rfl
        exact sealing
      simp only [runStep]
      split
      · cases outcome with
        | completed rows =>
            exact ⟨offered rows rfl, fun key member =>
              ObjectStore.hasPrefix_of_mem_listObjectsV2 member⟩
        | _ => trivial
      · exact sealing_nextPage offered _ _
  | deletePage outcome keys token deleted =>
      refine sealing_nextPage (fun rows isCompleted => ?_) _ _
      subst isCompleted
      obtain ⟨⟨⟨v, body, latest, passed, stored, described⟩, file⟩, chunks⟩ :=
        sealing
      exact ⟨⟨v, body, latest, passed,
        (get?_finalKey_deleteObjects chunks world.store).trans stored,
        described⟩, file⟩
  | failJob => exact sealing
  | recordFailure error exit =>
      cases exit with
      | returns outcome =>
          cases outcome with
          | completed => cases sealing
          | _ => trivial
      | rethrows => trivial
  | returned => exact sealing
  | _ => trivial

/-! ## A new export -/

/-- There is nothing of the export yet. -/
structure Blank (env : Env) (world : World) : Prop where
  noJob : world.job = none
  noCheckpoints : world.checkpoints = []
  noEntry : world.entry = none
  noObject : ∀ key, ownKey env.exportJobId key = true →
    world.store.get? key = none

def createdJob (env : Env) (world : World) (userId : String) (rowLimit : Int) :
    ExportJob :=
  { newExportJob env world userId rowLimit
      (captureSnapshotMaxId world.records) with
    status := .queued }

def World.created (env : Env) (world : World) (userId : String)
    (rowLimit : Int) (entry : QueueEntry) : World :=
  { world with
    job := some (createdJob env world userId rowLimit)
    entry := some entry }

/-- A request with enough records behind it is accepted. -/
theorem Blank.create_returns (blank : Blank env world)
    (enough : rowLimit ≤ countRecordsWithinSnapshot world.records
      (captureSnapshotMaxId world.records)) :
    runCommand env 8 world (.captureSnapshot userId rowLimit) =
      (world.created env userId rowLimit {},
        .returned (.job (createdJob env world userId rowLimit))) := by
  have counted : apiStep env world (.countRecords userId rowLimit
      (captureSnapshotMaxId world.records)) = (world, .insertJob userId rowLimit
        (captureSnapshotMaxId world.records)) := by
    simp only [apiStep, if_neg (not_lt.mpr enough)]
  have noJob := blank.noJob
  have noEntry := blank.noEntry
  rw [runCommand_live rfl]
  show runCommand env 7 world (.countRecords ..) = _
  rw [runCommand_live rfl, counted, runCommand_live rfl]
  simp only [apiStep, noJob]
  rw [runCommand_live rfl]
  simp only [apiStep, noEntry]
  rw [runCommand_live rfl]
  simp only [apiStep]
  rw [ApiPc.afterEnqueue, runCommand_live rfl]
  simp only [apiStep, returnJob, World.updateJob, World.setEntry,
    Option.map_some]
  rw [runCommand_ended rfl]
  rfl

/-- A run of the new export has everything it relies on. -/
theorem Blank.ready (blank : Blank env world)
    (room : 0 < env.exportBatchSize) (positive : 0 < rowLimit)
    (enough : rowLimit ≤ countRecordsWithinSnapshot world.records
      (captureSnapshotMaxId world.records)) (userId : String)
    (entry : QueueEntry) :
    Ready env (world.created env userId rowLimit entry) .findJob := by
  have unknown : world.terms = none := by
    rw [World.terms, blank.noJob, Option.map_none]
  have noChunk : ∀ number : Int,
      world.store.get? (chunkKey env.exportJobId number) = none :=
    fun number => blank.noObject _ (ownKey_chunkKey _ number)
  have noFile : world.store.get? (finalKey env.exportJobId) = none :=
    blank.noObject _ (ownKey_finalKey _)
  have log : LogInvariant world :=
    ⟨fun _ => blank.noCheckpoints, fun terms known => by
      rw [unknown] at known
      cases known⟩
  have exact : ExactInvariant env world :=
    { noneBeyond := fun number _ => noChunk number
      noneBefore := fun _ => ⟨noChunk 1, noFile⟩
      exact := fun terms known => by
        rw [unknown] at known
        cases known
      completed := fun isCompleted => by
        rw [World.status, blank.noJob] at isCompleted
        cases isCompleted }
  let inserted := (apiStep env world (.insertJob userId rowLimit
    (captureSnapshotMaxId world.records))).1
  have logThen : LogInvariant inserted :=
    log_insertJob env log positive blank.noJob
  have exactThen : ExactInvariant env inserted :=
    (exact_insertJob log exact blank.noJob).1
  have written : inserted = { world with
      job := some (newExportJob env world userId rowLimit
        (captureSnapshotMaxId world.records)) } := by
    simp only [inserted, apiStep, blank.noJob]
  rw [written] at logThen exactThen
  exact
    { log := logThen.same rfl rfl
      known := trivial
      exact := exactThen.same rfl rfl rfl rfl fun isCompleted => by
        cases isCompleted
      exactly := trivial
      enough := by
        intro terms known
        obtain rfl := Option.some.inj known
        exact ⟨length_selection positive enough, room⟩
      stored := by
        intro checkpoint member
        rw [World.created, blank.noCheckpoints] at member
        cases member
      own := fun _ _ none => by cases none
      wanted := rfl }

/-- Up to the largest id, the selection is the first records of the table. -/
theorem selection_created (world : World) (userId : String)
    (rowLimit : Int) :
    selection world.records (createdJob env world userId rowLimit).terms =
      world.records.rows.take rowLimit.toNat := by
  have whole : Keyset.window RawRecordRow.id world.records.rows 0
      (captureSnapshotMaxId world.records) = world.records.rows := by
    refine List.filter_eq_self.mpr fun row member =>
      decide_eq_true ⟨?_, le_captureSnapshotMaxId member⟩
    have drawn := (world.records.drawn row member).1
    omega
  exact congrArg (List.take rowLimit.toNat) whole

/-- What a run that meets nobody keeps. -/
structure Alone (env : Env) (records : RecordTable) (world : World)
    (pc : RunPc) : Prop where
  log : LogInvariant world
  known : logRuns world pc
  exact : ExactInvariant env world
  exactly : exactRuns env world pc
  sealing : sealingRuns env world pc
  same : world.records = records

theorem Alone.step {records : RecordTable}
    (sofar : Alone env records world pc) :
    Alone env records (runStep env [] world pc).1
      (runStep env [] world pc).2 := by
  have logged := log_runStep env [] sofar.log sofar.known
  have exacted :=
    exact_runStep [] sofar.known sofar.log sofar.exact sofar.exactly
  exact
    { log := logged.1
      known := logged.2.1
      exact := exacted.1
      exactly := exacted.2.1
      sealing := sealing_step sofar.known sofar.sealing
      same := (runStep_records env [] world pc).trans sofar.same }

/-- One delivery of a new export completes it: it can be downloaded, and its
object is the first records of the table. -/
theorem Blank.completes (blank : Blank env world)
    (parses : ParsesRfc4180 env.csvParse) (room : 0 < env.exportBatchSize)
    (positive : 0 < rowLimit)
    (enough : rowLimit ≤ countRecordsWithinSnapshot world.records
      (captureSnapshotMaxId world.records)) (userId : String)
    (entry : QueueEntry) :
    ∃ final rows, GoesOn env
        (world.created env userId rowLimit entry, .findJob)
        (final, .returned (.completed rows)) ∧
      final.status = some .completed ∧ final.Offered env ∧
      final.terms = some (createdJob env world userId rowLimit).terms ∧
      final.store.get? (finalKey env.exportJobId) =
        some (exportBytes (world.records.rows.take rowLimit.toNat)) := by
  have ready := blank.ready room positive enough userId entry
  obtain ⟨final, rows, completes, completed⟩ := ready.completes parses rfl
    (show ExportStatus.queued ∈ resumableStatuses by decide)
  have terms : final.terms =
      some (createdJob env world userId rowLimit).terms :=
    terms_of_goesOn completes
  have kept : Alone env world.records final (.returned (.completed rows)) :=
    completes.keeps Alone.step
      { log := ready.log
        known := ready.known
        exact := ready.exact
        exactly := ready.exactly
        sealing := trivial
        same := rfl }
  have offered : final.Offered env := kept.sealing
  refine ⟨final, rows, completes, completed, offered, terms, ?_⟩
  obtain ⟨⟨_, body, _, _, stored, _⟩, _⟩ := offered
  have file := ((kept.exact.exact _ terms).file body stored).1
  rw [kept.same, selection_created] at file
  rw [stored, file]

variable {server : Server} {vault : Vault} {call : Call} {job : ExportJob}
variable {installation : Installation} {exportJobId : String}

theorem find_of_unused (named : canonical exportJobId = exportJobId)
    (unused : Unused vault exportJobId) : vault.find exportJobId = none :=
  Vault.find_eq_none_iff.mpr (by rw [named]; exact unused.noRow)

/-- Nothing of an unused id is seen in the installation. -/
theorem blank_of_unused (holds : vault.Holds installation)
    (named : canonical exportJobId = exportJobId)
    (unused : Unused vault exportJobId) :
    Blank (env.forExport exportJobId) (installation.view exportJobId) := by
  have sees := holds.sees exportJobId
  rw [Vault.world, find_of_unused named unused] at sees
  rw [← sees]
  exact
    { noJob := rfl
      noCheckpoints := rfl
      noEntry := unused.noEntry exportJobId named
      noObject := fun key own => unused.noObject key own }

def World.toExport (world : World) (exportJobId : String) (job : ExportJob) :
    Export where
  id := exportJobId
  createdAt := world.now
  job := job
  checkpoints := world.checkpoints
  failures := world.failures.map fun failure =>
    ⟨exportJobId, world.now, failure⟩
  verifications := world.verifications.map fun verification =>
    ⟨exportJobId, world.now, verification⟩

theorem verificationLog_toExport (world : World) (exportJobId : String)
    (job : ExportJob) :
    (world.toExport exportJobId job).verificationLog =
      (world.toExport exportJobId job).verifications := by
  refine List.Pairwise.insertionSort_eq ?_
  exact List.pairwise_map.mpr (List.pairwise_of_forall fun _ _ => le_rfl)

/-- The vault with the row, the entry and the objects of a new export. -/
def Vault.record (vault : Vault) (exportJobId : String) (job : ExportJob)
    (world : World) (unused : Unused vault exportJobId) : Vault where
  records := vault.records
  exports := vault.exports ++ [world.toExport exportJobId job]
  distinct := by
    rw [List.map_append, List.map_singleton]
    refine List.nodup_append.mpr ⟨vault.distinct, List.nodup_singleton _, ?_⟩
    rintro _ member _ last rfl
    obtain ⟨row, inside, same⟩ := List.mem_map.mp member
    exact unused.noRow row inside (same.trans (List.mem_singleton.mp last))
  queue := Function.update vault.queue exportJobId world.entry
  store := world.store

/-- A vault that holds what the installation held holds, with the new row,
what the installation holds once the new export has come so far. -/
theorem Vault.Holds.record (holds : vault.Holds installation)
    (named : canonical exportJobId = exportJobId)
    (unused : Unused vault exportJobId)
    (stays : Stays (installation.view exportJobId) world)
    (isJob : world.job = some job) :
    (vault.record exportJobId job world unused).Holds
      (installation.absorb exportJobId world) where
  sees id := by
    have here : (vault.record exportJobId job world unused).world
        installation.now exportJobId =
          (installation.absorb exportJobId world).view exportJobId := by
      have sees := holds.sees exportJobId
      have absent := find_of_unused named unused
      rw [Vault.find, named] at absent
      have found : (vault.record exportJobId job world unused).find
          exportJobId = some (world.toExport exportJobId job) := by
        simp [Vault.find, Vault.record, List.find?_append, absent,
          World.toExport, named]
      have records : vault.records = world.records :=
        (congrArg World.records sees).trans stays.records.symm
      have now : installation.now = world.now := stays.now.symm
      rw [view_absorb_self stays, Vault.world, found]
      simp only [Option.map_some, Option.getD_some, verificationLog_toExport]
      simp [World.toExport, Vault.record, records, now, ← isJob,
        Function.comp_def]
    by_cases same : id = exportJobId
    · subst same
      exact here
    have queueSame : (vault.record exportJobId job world unused).queue id =
        installation.queue id :=
      (Function.update_of_ne same ..).trans
        (congrArg World.entry (holds.sees id))
    by_cases spelled : canonical id = canonical exportJobId
    · show (vault.record exportJobId job world unused).world
        installation.now id = _
      rw [world_setEntry _ spelled, here, ← view_setEntry spelled.symm,
        queueSame, queue_absorb_of_ne same]
    · have elsewhere : (vault.record exportJobId job world unused).find id =
          vault.find id := by
        have different : exportJobId ≠ canonical id := by
          rw [← named]
          exact Ne.symm spelled
        simp [Vault.find, Vault.record, List.find?_append, World.toExport,
          different]
      have before := holds.sees id
      simp only [Vault.world, Installation.view, World.mk.injEq] at before
      simp only [Vault.world, Installation.view, World.mk.injEq, elsewhere,
        rows_absorb_of_ne spelled, queueSame, queue_absorb_of_ne same]
      obtain ⟨now, records, job, checkpoints, failures, verifications, _,
        entry⟩ := before
      exact ⟨now, records, job, checkpoints, failures, verifications, rfl,
        trivial⟩
  listed := by
    have noJob := congrArg World.job (holds.sees exportJobId)
    rw [Vault.world, find_of_unused named unused] at noJob
    have absent : (installation.rows exportJobId).job = none := by
      simpa only [Installation.view, named, Option.map_none] using
        noJob.symm
    simp [Vault.record, Installation.absorb, named, absent, isJob,
      World.toExport, holds.listed]
  dated row member := by
    rcases List.mem_append.mp member with inside | last
    · exact holds.dated row inside
    · rw [List.mem_singleton.mp last]
      intro verification written
      obtain ⟨_, _, rfl⟩ := List.mem_map.mp written
      exact stays.now.le

def downloadName (exportJobId : String) : String :=
  "export-" ++ exportJobId ++ ".csv"

/-- The page of the export offers its owner the file, and the API has the
bucket serve it. -/
structure Vault.Delivers (server : Server) (vault : Vault)
    (userId exportJobId : String) (file : Bytes) : Prop where
  stored : vault.store.get? (finalKey exportJobId) = some file
  offered : ∀ view : Call, (exportDetailPage (vault.serve server userId
    { view with operation := .detail exportJobId }).2).any
      DetailPage.canDownload = true
  served : ∀ press : Call, (vault.serve server userId
    { press with operation := .download exportJobId }).2 = success
      [("download", .obj
        [("url", .str (server.env.signedUrl (finalKey exportJobId)
            (downloadName exportJobId))),
          ("filename", .str (downloadName exportJobId)),
          ("expiresInSeconds", .num server.env.signedUrlTtl),
          ("fileBytes", bigIntToJson (some file.size)),
          ("sha256", .str (server.env.sha256 file))])]

/-- A completed export whose file is the one that was verified is delivered
to its owner. -/
theorem delivers_of_offered {file : Bytes} {terms : Terms}
    (holds : vault.Holds installation) (uuid : isUuid exportJobId = true)
    (completed : (installation.view exportJobId).status = some .completed)
    (offered : (installation.view exportJobId).Offered
      (server.env.forExport exportJobId))
    (known : (installation.view exportJobId).terms = some terms)
    (stored : (installation.view exportJobId).store.get?
      (finalKey exportJobId) = some file) :
    vault.Delivers server terms.userId exportJobId file := by
  have sees := holds.sees exportJobId
  rw [← sees] at completed offered known stored
  obtain ⟨⟨v, body, latest, passed, here, digest, size⟩, fileKey⟩ := offered
  obtain rfl : body = file := Option.some.inj (here.symm.trans stored)
  cases found : vault.find exportJobId with
  | none => simp [Vault.world, World.status, found] at completed
  | some row =>
      have job := job_world found installation.now
      have isCompleted : row.job.status = .completed := by
        simpa [World.status, job] using completed
      have isFile : row.job.fileKey = some (finalKey exportJobId) := by
        rw [World.fileKey, job] at fileKey
        exact fileKey
      have owner : row.job.userId = terms.userId := by
        rw [World.terms, job] at known
        exact congrArg Terms.userId (Option.some.inj known)
      have last : row.latestVerification.map Stamped.row = some v :=
        (latestVerification_world found _).symm.trans latest
      refine ⟨stored, fun view => ?_, fun press => ?_⟩
      · obtain ⟨stamped, isLast, rfl⟩ := Option.map_eq_some_iff.mp last
        simp only [Vault.serve, uuid, if_true]
        rw [exportDetailPage_detail found owner]
        simp [Export.page, isCompleted, isLast, passed]
      · let call : Call := { press with operation := .download exportJobId }
        let env := server.env.forExport exportJobId
        have returned : (runCommand env 2 (vault.world call.now exportJobId)
            (.findForDownload row.job.userId)).2 = _ :=
          download_returns (job_world found call.now) isCompleted isFile
            (finalKey_ne_empty exportJobId)
            ((latestVerification_world found call.now).trans last) passed
        have runs : call.command terms.userId =
            some (200, exportJobId, .download terms.userId) := if_pos uuid
        rw [owner] at returned
        have answered : (vault.command server call exportJobId
            (.download terms.userId)).2 = _ := congrArg ApiPc.outcome returned
        rw [serve_command runs, Vault.serveCommand, answered]
        simp only [ApiPc.outcome, replyResponse, size, digest]
        rfl

theorem stays_created (entry : QueueEntry) :
    Stays world (world.created env userId rowLimit entry) where
  now := rfl
  records := rfl
  job _ := by simp [World.created]

/-- A worker takes up an entry that waits. -/
theorem act_deliver (env : Env) (index : Nat)
    (uuid : isUuid exportJobId = true)
    (stays : Stays (installation.view exportJobId) world)
    (waits : world.entry = some {}) :
    (installation.absorb exportJobId world).act env index .idle
        (.take exportJobId .deliver) =
      some (installation.absorb exportJobId
        (world.setEntry (some { state := .active index })),
          .on exportJobId (.run .findJob)) := by
  have held : ExportVault.act (env.forExport exportJobId) index world .idle
      .deliver = some (world.setEntry (some { state := .active index }),
        .run .findJob) := by
    rw [ExportVault.act, World.readyEntry, waits]
    rfl
  have still : world.job ≠ none →
      (world.setEntry (some { state := .active index })).job ≠ none := id
  have accepted : Action.accepts exportJobId .deliver = true := uuid
  simp only [Installation.act, if_pos accepted, Installation.actOn,
    view_absorb_self stays, held, Option.map_some, Activity.of,
    Installation.absorb_absorb stays.job still]

/-- What one delivery of a new export leads to. -/
structure Completes (env : Env) (world : World) (userId : String)
    (rowLimit : Int) (final : World) : Prop where
  stays : Stays world final
  status : final.status = some .completed
  offered : final.Offered env
  terms : final.terms = some (createdJob env world userId rowLimit).terms
  stored : final.store.get? (finalKey env.exportJobId) =
    some (exportBytes (world.records.rows.take rowLimit.toNat))

/-- The delivery of a new export, as a worker that meets nobody makes it. -/
theorem delivery_solo (index : Nat) (uuid : isUuid exportJobId = true)
    (parses : ParsesRfc4180 env.csvParse)
    (blank : Blank (env.forExport exportJobId)
      (installation.view exportJobId))
    (room : 0 < env.exportBatchSize) (positive : 0 < rowLimit)
    (enough : rowLimit ≤ countRecordsWithinSnapshot installation.records
      (captureSnapshotMaxId installation.records)) (userId : String) :
    ∃ count final rows,
      (Installation.network env).solo index
        (installation.absorb exportJobId
          ((installation.view exportJobId).created
            (env.forExport exportJobId) userId rowLimit {})) .idle
        (.take exportJobId .deliver ::
          List.replicate count (.go (.call .none))) =
        some (installation.absorb exportJobId final,
          .on exportJobId (.run (.returned (.completed rows)))) ∧
      Completes (env.forExport exportJobId) (installation.view exportJobId)
        userId rowLimit final := by
  let seen := installation.view exportJobId
  let own := env.forExport exportJobId
  let held : QueueEntry := { state := .active index }
  have asked : ParsesRfc4180 own.csvParse := parses
  have wanted : Blank own seen := blank
  obtain ⟨final, rows, completes, status, offered, terms, stored⟩ :=
    wanted.completes asked room positive enough userId held
  obtain ⟨count, soloEq⟩ := solo_of_goesOn index completes
  have before : Stays seen
      (seen.created own userId rowLimit {}) := stays_created _
  have queued : Stays seen
      (seen.created own userId rowLimit held) := stays_created _
  have stays : Stays seen final :=
    completes.stays queued
  have delivers := act_deliver env index uuid before rfl
  rw [← List.map_replicate] at soloEq
  have runs := Installation.solo_calls queued soloEq
  rw [List.map_replicate] at runs
  exact ⟨count, final, rows, Option.bind_eq_some_iff.mpr ⟨_, delivers, runs⟩,
    stays, status, offered, terms, stored⟩

variable {source : Config Installation Activity}

/-- The creation of a new export, as a command that meets nobody makes it. -/
theorem creation_solo (server : Server) (userId : String) (index : Nat)
    (holds : vault.Holds installation) (clock : call.now = installation.now)
    (generates : call.Generates) (unused : Unused vault call.newId)
    (asked : call.operation = .create (some rowLimit))
    (positive : 0 < rowLimit) (bounded : rowLimit ≤ maxRowLimit)
    (enough : rowLimit ≤ countRecordsWithinSnapshot installation.records
      (captureSnapshotMaxId installation.records)) :
    let env := server.env.forExport call.newId
    let created := installation.absorb call.newId
      ((installation.view call.newId).created env userId rowLimit {})
    ∃ moves pc,
      (Installation.network server.env).solo index installation .idle moves =
        some (created, .on call.newId (.api pc)) ∧
      (∀ config, ∀ move ∈ moves, NamesExports config (.act index move)) ∧
      (vault.serve server userId call).1.Holds created ∧
      (vault.serve server userId call).2.statusCode = 201 := by
  intro env created
  have uuid := generates.1
  have canonicalId := generates.2
  have blank : Blank env (installation.view call.newId) :=
    blank_of_unused holds canonicalId unused
  have runs : call.command userId =
      some (201, call.newId, .create userId rowLimit) := by
    simp only [Call.command, asked, Option.getD_some]
    exact if_neg (by omega)
  have begin : (Request.create userId rowLimit).begin =
      .captureSnapshot userId rowLimit := by
    simp only [Request.begin]
    rw [if_neg (by omega), if_neg (by omega)]
  have result : runCommand env
      (Request.create userId rowLimit).begin.callsLeft
      (installation.view call.newId) (Request.create userId rowLimit).begin =
      ((installation.view call.newId).created env userId rowLimit {},
        .returned (.job (createdJob env (installation.view call.newId) userId
          rowLimit))) := by
    rw [begin]
    exact blank.create_returns enough
  obtain ⟨moves, soloEq, allowed, holdsAfter, _, response⟩ :=
    serveCommand_solo server index 201 (.create userId rowLimit) holds clock
      (accepts_command generates runs)
  rw [result] at soloEq holdsAfter response
  rw [serve_command runs]
  exact ⟨moves, _, soloEq, allowed canonicalId, holdsAfter,
    congrArg Response.statusCode response⟩

/-- Whatever the other exports have come to: a request with enough records
behind it is answered 201, and one delivery of the new export's entry, in which
its worker meets nobody and no call fails, completes it.  Its owner is then
offered the file by the page and given it by the API, and the file is the first
records of the table; the rows of the other exports are as they were. -/
theorem export_delivered (server : Server) (userId : String)
    (parses : ParsesRfc4180 server.env.csvParse)
    (room : 0 < server.env.exportBatchSize)
    (holds : vault.Holds source.shared) (clock : call.now = source.shared.now)
    (generates : call.Generates) (unused : Unused vault call.newId)
    (asked : call.operation = .create (some rowLimit))
    (positive : 0 < rowLimit) (bounded : rowLimit ≤ maxRowLimit)
    (enough : rowLimit ≤ countRecordsWithinSnapshot vault.records
      (captureSnapshotMaxId vault.records))
    {creator worker : Nat} (apart : worker ≠ creator)
    (creatorIdle : source.procs creator = .idle)
    (workerIdle : source.procs worker = .idle) :
    let served := vault.serve server userId call
    let delivery := fun count : Nat =>
      Event.act worker (Move.take call.newId .deliver) ::
        List.replicate count (.act worker (.go (.call .none)))
    ∃ creates created count delivered rows,
      (installationMachine server.env).Exec NamesExports source creates
        created ∧
      served.1.Holds created.shared ∧ served.2.statusCode = 201 ∧
      (installationMachine server.env).Exec NamesExports created
        (delivery count) delivered ∧
      delivered.procs worker =
        .on call.newId (.run (.returned (.completed rows))) ∧
      (∀ other, other ≠ call.newId →
        delivered.shared.rows other = source.shared.rows other) ∧
      (∃ finished : Vault, finished.Holds delivered.shared) ∧
      ∀ finished : Vault, finished.Holds delivered.shared →
        finished.Delivers server userId call.newId
          (exportBytes (vault.records.rows.take rowLimit.toNat)) := by
  intro served delivery
  let newId := call.newId
  let env := server.env.forExport newId
  let seen := source.shared.view newId
  have uuid := generates.1
  have canonicalId := generates.2
  have blank : Blank env seen := blank_of_unused holds canonicalId unused
  have records : vault.records = source.shared.records :=
    congrArg World.records (holds.sees newId)
  rw [records] at enough
  obtain ⟨creates, pc, createEq, allowed, holdsAfter, accepted⟩ :=
    creation_solo server userId creator holds clock generates unused asked positive
      bounded enough
  obtain ⟨count, final, rows, workEq, completes⟩ := delivery_solo
    worker uuid parses blank room positive enough userId
  let created : Config Installation Activity :=
    ⟨source.shared.absorb newId (seen.created env userId rowLimit {}),
      Function.update source.procs creator (.on newId (.api pc))⟩
  let delivered : Config Installation Activity :=
    ⟨source.shared.absorb newId final,
      Function.update created.procs worker
        (.on newId (.run (.returned (.completed rows))))⟩
  have creation : (installationMachine server.env).Exec NamesExports source
      (creates.map (.act creator)) created := by
    rw [← creatorIdle] at createEq
    exact Network.exec_solo allowed createEq
  have work : (installationMachine server.env).Exec NamesExports created
      (delivery count) delivered := by
    have idle : created.procs worker = .idle :=
      (Function.update_of_ne apart ..).trans workerIdle
    rw [← idle] at workEq
    have workAllowed : ∀ config,
        ∀ move ∈ Move.take newId .deliver ::
            List.replicate count (.go (.call .none)),
          NamesExports config (.act worker move) := by
      intro config move member
      rcases List.mem_cons.mp member with rfl | member
      · exact ⟨uuid, canonicalId⟩
      · rw [List.eq_of_mem_replicate member]
        trivial
    have moves : (installationMachine server.env).Exec NamesExports created
        ((Move.take newId .deliver ::
          List.replicate count (.go (.call .none))).map (.act worker))
        delivered := Network.exec_solo workAllowed workEq
    rwa [List.map_cons, List.map_replicate] at moves
  have seenAfter : delivered.shared.view newId = final :=
    view_absorb_self completes.stays
  obtain ⟨job, found, _⟩ := Option.map_eq_some_iff.mp completes.status
  refine ⟨_, created, count, delivered, rows, creation, holdsAfter,
    accepted, work, Function.update_self ..,
    fun other different => rows_absorb_of_ne (canonicalId.symm ▸ different),
    ⟨_, holds.record canonicalId unused completes.stays found⟩,
    fun finished holdsThen => ?_⟩
  rw [← seenAfter] at completes
  rw [records]
  exact delivers_of_offered holdsThen uuid completes.status
    completes.offered completes.terms completes.stored

def adasSecond : Call := ⟨.create (some 1), 3, "r2", newId⟩

theorem unused_adasFirst : Unused adasFirst newId := by
  refine ⟨by decide +kernel, fun exportJobId same => ?_, fun _ _ => rfl⟩
  refine Function.update_of_ne (fun isFirst => ?_) ..
  rw [isFirst] at same
  revert same
  decide

theorem export_delivered_adasSecond :
    ∃ events target, ∃ finished : Vault,
      (installationMachine smallEnv).Exec AnyMove
        (smallInstallation twoRecords) events target ∧
      finished.Holds target.shared ∧
      finished.Delivers smallServer "ada" newId
        (exportBytes (twoRecords.rows.take 1)) := by
  have generates : Call.Generates ⟨.create (some 2), 3, "r1", adaId⟩ :=
    ⟨by decide, by decide⟩
  obtain ⟨first, shared, activity, begins, holds, now, _⟩ := serve_refines
    smallServer "ada" 0 (holds_emptyVault twoRecords) rfl generates
    (by decide)
  let source : Config Installation Activity :=
    ⟨shared, Function.update (smallInstallation twoRecords).procs 0 activity⟩
  have holdsFirst : adasFirst.Holds source.shared := holds
  have clock : adasSecond.now = source.shared.now := now.symm
  have generatesSecond : adasSecond.Generates := ⟨by decide, by decide⟩
  obtain ⟨creates, created, count, target, _, creation, _, _, work, _, _,
    ⟨finished, holdsThen⟩, delivered⟩ :=
    export_delivered smallServer "ada" parsesRfc4180_readCsv (by decide)
      holdsFirst clock generatesSecond unused_adasFirst rfl (by decide)
      (by decide) (by decide +kernel) (show 2 ≠ 1 by decide) rfl rfl
  have creates : (installationMachine smallEnv).Exec AnyMove source _
      created := creation.mono fun _ => trivial
  have works : (installationMachine smallEnv).Exec AnyMove created _
      target := work.mono fun _ => trivial
  exact ⟨_, target, finished,
    Machine.exec_append.mpr ⟨source, begins,
      Machine.exec_append.mpr ⟨created, creates, works⟩⟩,
    holdsThen, delivered finished holdsThen⟩

end ExportVault
