import ExportVault.Gate
import ExportVault.Succession

/-!
# Downloads point at proven bytes

With successive owners the final object, once it is there, is never changed:
every run that assembles the file again reads the same chunks.  So a
verification, whoever made it and however long ago, still describes the
object, and a download that is answered names bytes that have passed
(`download_proven`).
-/

namespace ExportVault

open Interleaving

/-- The final object. -/
def World.file (env : Env) (world : World) : Option Bytes :=
  world.store.get? (finalKey env.exportJobId)

/-- The header and the first chunks, when they are all there. -/
def assembly (env : Env) (store : ObjectStore) : Nat → Option Bytes
  | 0 => some (utf8 csvHeader)
  | count + 1 =>
      (assembly env store count).bind fun file =>
        (store.get? (chunkKey env.exportJobId (count + 1))).map fun chunk =>
          file ++ chunk

/-- The result of a verification of the final object against the terms of the
job. -/
def Describes (env : Env) (world : World) (result : VerificationResult) :
    Prop :=
  ∃ terms file, world.terms = some terms ∧ world.file env = some file ∧
    verifyBody env terms.requestedRowLimit terms.snapshotMaxId file.size
      file = .ok result

/-- The answer of a download points at the final object, which has passed. -/
def DownloadProven (env : Env) (world : World) (url filename : String)
    (fileBytes : Int) (sha256 : String) : Prop :=
  world.fileKey = some (finalKey env.exportJobId) ∧
    url = env.signedUrl (finalKey env.exportJobId) filename ∧
    ∃ terms file result, world.terms = some terms ∧
      world.file env = some file ∧
      verifyBody env terms.requestedRowLimit terms.snapshotMaxId file.size
        file = .ok result ∧
      result.passed = true ∧ fileBytes = file.size ∧
      sha256 = env.sha256 file

/-- Whatever was verified describes the final object; assembling the file
again gives the same object. -/
structure ProvenInvariant (env : Env) (world : World) : Prop where
  same : ∀ file, world.file env = some file → ∀ again,
    assembly env world.store world.checkpoints.length = some again →
    again = file
  named : ∀ fileKey, world.fileKey = some fileKey →
    fileKey = finalKey env.exportJobId
  described : ∀ row ∈ world.verifications, ∃ result,
    Describes env world result ∧ row = result.toRow

def provenRuns (env : Env) (world : World) : RunPc → Prop
  | .readChunk _ batchCount batchNumber assembled =>
      batchNumber ≤ batchCount ∧ ∃ count : Nat, batchNumber = count + 1 ∧
        assembly env world.store count = some assembled
  | .uploadFinal _ assembled =>
      assembly env world.store world.checkpoints.length = some assembled
  | .verifyRead _ fileBytes =>
      ∃ file, world.file env = some file ∧ fileBytes = file.size
  | .saveVerification _ result => Describes env world result
  | _ => True

def provenCommands (env : Env) (world : World) : ApiPc → Prop
  | .verifyHead job fileKey =>
      KnowsJob world job ∧ fileKey = finalKey env.exportJobId
  | .verifyRead job fileKey fileBytes =>
      KnowsJob world job ∧ fileKey = finalKey env.exportJobId ∧
        ∃ file, world.file env = some file ∧ fileBytes = file.size
  | .saveVerification _ result => Describes env world result
  | .latestForDownload fileKey => world.fileKey = some fileKey
  | .returned (.download url filename _ fileBytes sha256) =>
      DownloadProven env world url filename fileBytes sha256
  | _ => True

/-- The terms of the job, its file key and the final object stay once they
are there. -/
structure FileStays (env : Env) (before after : World) : Prop where
  terms : ∀ terms, before.terms = some terms → after.terms = some terms
  fileKey : ∀ fileKey, before.fileKey = some fileKey →
    after.fileKey = some fileKey
  file : ∀ file, before.file env = some file → after.file env = some file

/-- What a process that does not own the job leaves alone. -/
structure ProvenRely (env : Env) (before after : World) : Prop
    extends FileStays env before after where
  checkpoints : after.checkpoints = before.checkpoints
  store : after.store = before.store

section Stability

variable {env : Env} {before after world : World}

theorem FileStays.same (terms : after.terms = before.terms)
    (fileKey : after.fileKey = before.fileKey)
    (store : after.store = before.store) : FileStays env before after where
  terms := by rw [terms]; exact fun _ known => known
  fileKey := by rw [fileKey]; exact fun _ named => named
  file := by rw [World.file, World.file, store]; exact fun _ stored => stored

theorem Describes.stable {result : VerificationResult}
    (describes : Describes env before result)
    (stays : FileStays env before after) : Describes env after result := by
  obtain ⟨terms, file, known, stored, verdict⟩ := describes
  exact ⟨terms, file, stays.terms _ known, stays.file _ stored, verdict⟩

theorem provenRuns_stable {pc : RunPc} (changed : ProvenRely env before after)
    (assertion : provenRuns env before pc) : provenRuns env after pc := by
  cases pc with
  | readChunk =>
      rw [provenRuns, changed.store]
      exact assertion
  | uploadFinal =>
      rw [provenRuns, changed.store, changed.checkpoints]
      exact assertion
  | verifyRead =>
      obtain ⟨file, stored, size⟩ := assertion
      exact ⟨file, changed.file _ stored, size⟩
  | saveVerification => exact Describes.stable assertion changed.toFileStays
  | _ => trivial

theorem provenCommands_stable {pc : ApiPc}
    (stays : FileStays env before after)
    (assertion : provenCommands env before pc) :
    provenCommands env after pc := by
  cases pc with
  | verifyHead => exact ⟨stays.terms _ assertion.1, assertion.2⟩
  | verifyRead =>
      obtain ⟨knows, named, file, stored, size⟩ := assertion
      exact ⟨stays.terms _ knows, named, file, stays.file _ stored, size⟩
  | saveVerification => exact Describes.stable assertion stays
  | latestForDownload => exact stays.fileKey _ assertion
  | returned reply =>
      cases reply with
      | download =>
          obtain ⟨named, url, terms, file, result, known, stored, proven⟩ :=
            assertion
          exact ⟨stays.fileKey _ named, url, terms, file, result,
            stays.terms _ known, stays.file _ stored, proven⟩
      | _ => trivial
  | _ => trivial

theorem provenRuns_of_not_claimed {pc : RunPc} (free : pc.claimed = false) :
    provenRuns env world pc := by
  cases pc <;> trivial

/-- A step that changes neither the log, nor the store, nor what was
verified. -/
theorem ProvenInvariant.unchanged (proven : ProvenInvariant env before)
    (stays : FileStays env before after)
    (checkpoints : after.checkpoints = before.checkpoints)
    (store : after.store = before.store)
    (named : ∀ fileKey, after.fileKey = some fileKey →
      fileKey = finalKey env.exportJobId)
    (verifications : after.verifications = before.verifications) :
    ProvenInvariant env after where
  same := by
    rw [World.file, store, checkpoints]
    exact proven.same
  named := named
  described := by
    rw [verifications]
    intro row member
    obtain ⟨result, describes, rowEq⟩ := proven.described row member
    exact ⟨result, describes.stable stays, rowEq⟩

end Stability

section Steps

variable {env : Env} {world : World} {run : Progress}

/-- Deleting objects never changes an assembly that is still possible. -/
theorem assembly_of_deleteObjects {store : ObjectStore}
    {keys kept : List String} {count : Nat} {file : Bytes}
    (assembled : assembly env (store.deleteObjects keys kept) count =
      some file) : assembly env store count = some file := by
  induction count generalizing file with
  | zero => exact assembled
  | succ count inductionHypothesis =>
      simp only [assembly, Option.bind_eq_some_iff,
        Option.map_eq_some_iff] at assembled ⊢
      obtain ⟨first, before, chunk, stored, whole⟩ := assembled
      exact ⟨first, inductionHypothesis before, chunk,
        ObjectStore.get?_of_get?_deleteObjects stored, whole⟩

/-- The final object is not part of an assembly. -/
theorem assembly_put_finalKey (store : ObjectStore) (body : Bytes)
    (count : Nat) :
    assembly env (store.put (finalKey env.exportJobId) body) count =
      assembly env store count := by
  induction count with
  | zero => rfl
  | succ count inductionHypothesis =>
      rw [assembly, assembly, inductionHypothesis,
        ObjectStore.get?_put_of_ne _ _ (chunkKey_ne_finalKey _ _)]

theorem proven_assembleFrom {batchCount : Int} {count : Nat}
    {assembled : Bytes} (finished : Finished world run)
    (log : LogInvariant world) (batches : run.batchNumber = batchCount + 1)
    (read : (count : Int) ≤ batchCount)
    (chunks : assembly env world.store count = some assembled) :
    provenRuns env world
      (.assembleFrom run batchCount (count + 1) assembled) := by
  rw [RunPc.assembleFrom]
  split
  · next more => exact ⟨more, count, rfl, chunks⟩
  · next noMore =>
      have position := (finished.at_log log).1
      obtain rfl : count = world.checkpoints.length := by omega
      exact chunks

theorem proven_readChunk {batchCount batchNumber : Int} {assembled : Bytes}
    (kept : List String) (finished : Finished world run)
    (log : LogInvariant world) (batches : run.batchNumber = batchCount + 1)
    (assertion : provenRuns env world
      (.readChunk run batchCount batchNumber assembled)) :
    provenRuns env world
      (runStep env kept world
        (.readChunk run batchCount batchNumber assembled)).2 := by
  obtain ⟨inside, count, rfl, chunks⟩ := assertion
  simp only [runStep]
  split
  · trivial
  · next chunk stored =>
      have more : assembly env world.store (count + 1) =
          some (assembled ++ chunk) := by
        simp only [assembly, chunks, stored, Option.bind_some,
          Option.map_some]
      exact proven_assembleFrom finished log batches (by exact_mod_cast inside)
        more

/-- What a run knows about the file before the call that follows. -/
theorem provenRuns_step (kept : List String) {pc : RunPc}
    (log : LogInvariant world) (known : logRuns world pc)
    (assertion : provenRuns env world pc)
    (other : pc.stores = false) (noCommit : pc.commits = false) :
    provenRuns env world (runStep env kept world pc).2 := by
  have looped : ∀ run : Progress, provenRuns env world (.loopTop run) :=
    fun run => RunPc.loopTop_cases run (fun _ => trivial)
      (fun _ _ => trivial) fun _ => trivial
  cases pc with
  | putChunk | uploadFinal | deletePage => cases other
  | commitBatch => cases noCommit
  | findJob =>
      simp only [runStep, afterFindJob]
      repeat' split
      all_goals trivial
  | claim =>
      simp only [runStep, claimStep]
      split <;> trivial
  | loadResume =>
      simp only [runStep]
      split <;> trivial
  | readProgress =>
      simp only [runStep]
      split
      · exact looped _
      · trivial
  | reconcile => exact looped _
  | pollCancel =>
      simp only [runStep]
      split <;> trivial
  | fetchBatch run =>
      apply fetchBatch_cases env kept (provenRuns env world) <;> intros <;>
        trivial
  | confirmChunk =>
      simp only [runStep, confirmStep]
      repeat' split
      all_goals trivial
  | loadFinal =>
      simp only [runStep, finalStep]
      repeat' split
      all_goals trivial
  | writeVerifying run batchCount =>
      have finished : Finished world run := known.1
      have position := (finished.at_log log).1
      have batches : run.batchNumber = batchCount + 1 := known.2
      exact proven_assembleFrom finished log batches (by omega) rfl
  | readChunk run batchCount batchNumber assembled =>
      exact proven_readChunk kept known.1 log known.2 assertion
  | headAssembled =>
      simp only [runStep]
      repeat' split
      all_goals trivial
  | verifyHead run =>
      simp only [runStep]
      split
      · trivial
      · next body stored => exact ⟨body, stored, rfl⟩
  | verifyRead run fileBytes =>
      obtain ⟨file, stored, rfl⟩ := assertion
      have present : world.store.get? (finalKey env.exportJobId) =
          some file := stored
      have finished : Finished world run := known
      simp only [runStep, present]
      split
      · trivial
      · next result verdict =>
          exact ⟨run.job.terms, file, finished.job, stored, verdict⟩
  | saveVerification =>
      simp only [runStep]
      repeat' split
      all_goals trivial
  | listChunks =>
      simp only [runStep, RunPc.nextPage]
      repeat' split
      all_goals trivial
  | recordFailure error exit => cases exit <;> trivial
  | _ => trivial

/-- While rows are missing there is no file. -/
theorem no_file_of_unfinished {seen : RawRecordRow → Prop} {held : Int → Prop}
    (succession : SuccessionInvariant seen held env world)
    (unfinished : Unfinished world run) (atEnd : AtEnd world run) :
    world.file env = none := by
  cases stored : world.file env with
  | none => rfl
  | some file =>
      obtain ⟨⟨terms, known, complete⟩, _⟩ := succession.file file stored
      obtain rfl := Option.some.inj (unfinished.job.symm.trans known)
      have less := unfinished.less
      rw [atEnd.2.2, complete] at less
      exact absurd less (lt_irrefl _)

/-- The file key a statement leaves. -/
theorem proven_fileKey (kept : List String) (pc : RunPc)
    (proven : ProvenInvariant env world) :
    (∀ fileKey, (runStep env kept world pc).1.fileKey = some fileKey →
        fileKey = finalKey env.exportJobId) ∧
      ∀ fileKey, world.fileKey = some fileKey →
        (runStep env kept world pc).1.fileKey = some fileKey := by
  rcases runStep_fileKey env kept world pc with same | written
  · rw [same]
    exact ⟨proven.named, fun _ named => named⟩
  · rw [written]
    constructor
    · intro fileKey named
      obtain ⟨_, _, rfl⟩ := Option.map_eq_some_iff.mp named
      rfl
    · intro fileKey named
      obtain rfl := proven.named fileKey named
      obtain ⟨job, found, _⟩ := Option.bind_eq_some_iff.mp named
      rw [found, Option.map_some]

/-- A statement that touches neither log, store nor verifications. -/
theorem proven_unchanged (kept : List String) {pc : RunPc}
    (proven : ProvenInvariant env world) (noStore : pc.stores = false)
    (noCommit : pc.commits = false) :
    ProvenRely env world (runStep env kept world pc).1 ∧
      (pc.verifies = false →
        ProvenInvariant env (runStep env kept world pc).1) := by
  have store := runStep_store env kept world noStore
  have checkpoints := runStep_checkpoints env kept world noCommit
  have terms := runStep_terms env kept world pc
  obtain ⟨named, fileKey⟩ := proven_fileKey kept pc proven
  have stays : FileStays env world (runStep env kept world pc).1 :=
    ⟨by rw [terms]; exact fun _ known => known, fileKey,
      by rw [World.file, World.file, store]; exact fun _ stored => stored⟩
  exact ⟨⟨stays, checkpoints, store⟩, fun other =>
    proven.unchanged stays checkpoints store named
      (runStep_verifications env kept world other)⟩

theorem proven_saveVerification {result : VerificationResult}
    (kept : List String) (proven : ProvenInvariant env world)
    (describes : Describes env world result) :
    ProvenInvariant env
      (runStep env kept world (.saveVerification run result)).1 := by
  simp only [runStep]
  split
  · refine ⟨proven.same, proven.named, ?_⟩
    intro row member
    rcases List.mem_append.mp member with before | new
    · exact proven.described row before
    · exact ⟨result, describes, List.mem_singleton.mp new⟩
  · exact proven

/-- A step that keeps the verifications and moves the file only. -/
theorem proven_putObject {key : String} {body : Bytes}
    (proven : ProvenInvariant env world)
    (stays : FileStays env world (world.putObject key body))
    (same : ∀ file, (world.putObject key body).file env = some file →
      ∀ again, assembly env (world.store.put key body)
        world.checkpoints.length = some again → again = file) :
    ProvenInvariant env (world.putObject key body) where
  same := same
  named := proven.named
  described := by
    intro row member
    obtain ⟨result, describes, rowEq⟩ := proven.described row member
    exact ⟨result, describes.stable stays, rowEq⟩

theorem proven_putChunk {number : Int} {body : Bytes}
    (proven : ProvenInvariant env world) (noFile : world.file env = none) :
    ProvenInvariant env
        (world.putObject (chunkKey env.exportJobId number) body) ∧
      FileStays env world
        (world.putObject (chunkKey env.exportJobId number) body) := by
  have sameFile : (world.putObject (chunkKey env.exportJobId number)
      body).file env = world.file env :=
    ObjectStore.get?_put_of_ne _ _ (chunkKey_ne_finalKey _ _).symm
  have stays : FileStays env world
      (world.putObject (chunkKey env.exportJobId number) body) :=
    ⟨fun _ known => known, fun _ named => named,
      by rw [sameFile]; exact fun _ stored => stored⟩
  refine ⟨proven_putObject proven stays ?_, stays⟩
  intro file stored
  rw [sameFile, noFile] at stored
  cases stored

theorem proven_uploadFinal {assembled : Bytes}
    (proven : ProvenInvariant env world)
    (whole : assembly env world.store world.checkpoints.length =
      some assembled) :
    ProvenInvariant env
        (world.putObject (finalKey env.exportJobId) assembled) ∧
      FileStays env world
        (world.putObject (finalKey env.exportJobId) assembled) := by
  have uploaded : (world.putObject (finalKey env.exportJobId)
      assembled).file env = some assembled :=
    ObjectStore.get?_put_self _ _ _
  have stays : FileStays env world
      (world.putObject (finalKey env.exportJobId) assembled) := by
    refine ⟨fun _ known => known, fun _ named => named, ?_⟩
    intro file stored
    rw [uploaded, proven.same file stored assembled whole]
  refine ⟨proven_putObject proven stays ?_, stays⟩
  intro file stored again reassembled
  rw [uploaded] at stored
  rw [assembly_put_finalKey, whole] at reassembled
  exact (Option.some.inj reassembled).symm.trans (Option.some.inj stored)

theorem proven_deletePage {keys kept : List String}
    (proven : ProvenInvariant env world)
    (chunks : ∀ key ∈ keys,
      hasPrefix (chunkPrefix env.exportJobId) key = true) :
    ProvenInvariant env (world.deleteObjects keys kept) ∧
      FileStays env world (world.deleteObjects keys kept) := by
  have absent : finalKey env.exportJobId ∉ keys := by
    intro member
    have listed := chunks _ member
    rw [not_hasPrefix_finalKey] at listed
    cases listed
  have sameFile : (world.deleteObjects keys kept).file env =
      world.file env :=
    ObjectStore.get?_deleteObjects_of_notMem _ absent
  have stays : FileStays env world (world.deleteObjects keys kept) :=
    ⟨fun _ known => known, fun _ named => named,
      by rw [sameFile]; exact fun _ stored => stored⟩
  refine ⟨⟨?_, proven.named, ?_⟩, stays⟩
  · rw [sameFile]
    intro file stored again assembled
    exact proven.same file stored again (assembly_of_deleteObjects assembled)
  · intro row member
    obtain ⟨result, describes, rowEq⟩ := proven.described row member
    exact ⟨result, describes.stable stays, rowEq⟩

theorem proven_commit {rows : List ExportableRow} {batchLastId : Int}
    (track : OnTrack world run) (log : LogInvariant world)
    (proven : ProvenInvariant env world) (noFile : world.file env = none) :
    ProvenInvariant env (commitStep world run rows batchLastId).1 ∧
      provenRuns env (commitStep world run rows batchLastId).1
        (commitStep world run rows batchLastId).2 ∧
      FileStays env world (commitStep world run rows batchLastId).1 := by
  apply commitBatch_cases track log fun result =>
    ProvenInvariant env result.1 ∧ provenRuns env result.1 result.2 ∧
      FileStays env world result.1
  · intro error
    exact ⟨proven, trivial, .same rfl rfl rfl⟩
  · intro after _ afterEq
    have stays : FileStays env world after := by
      apply FileStays.same <;> rw [afterEq]
      · simp only [World.terms, Option.map_map]
        rfl
      · rw [World.fileKey, Option.bind_map]
        rfl
    have fileKey : after.fileKey = world.fileKey := by
      rw [afterEq, World.fileKey, Option.bind_map]
      rfl
    have store : after.store = world.store := by rw [afterEq]
    have verifications : after.verifications = world.verifications := by
      rw [afterEq]
    refine ⟨⟨?_, ?_, ?_⟩, ?_, stays⟩
    · intro file stored
      rw [World.file, store] at stored
      exact absurd (noFile.symm.trans stored) (by simp)
    · rw [fileKey]
      exact proven.named
    · rw [verifications]
      intro row member
      obtain ⟨result, describes, rowEq⟩ := proven.described row member
      exact ⟨result, describes.stable stays, rowEq⟩
    · exact RunPc.loopTop_cases _ (fun _ => trivial) (fun _ _ => trivial)
        fun _ => trivial

/-- Every statement of a run keeps what was proven. -/
theorem proven_runStep {seen : RawRecordRow → Prop} {held : Int → Prop}
    (kept : List String) {pc : RunPc} (log : LogInvariant world)
    (known : logRuns world pc)
    (succession : SuccessionInvariant seen held env world)
    (owned : successionRuns seen held env world pc)
    (proven : ProvenInvariant env world)
    (assertion : provenRuns env world pc) :
    ProvenInvariant env (runStep env kept world pc).1 ∧
      provenRuns env (runStep env kept world pc).1
        (runStep env kept world pc).2 ∧
      FileStays env world (runStep env kept world pc).1 ∧
      (pc.claimed = false →
        ProvenRely env world (runStep env kept world pc).1) := by
  by_cases commits : pc.commits = true
  · cases pc with
    | commitBatch run rows batchLastId =>
        have batch : HasBatch world run rows batchLastId := known
        obtain ⟨provenAfter, next, stays⟩ :=
          proven_commit batch.toOnTrack log proven
            (no_file_of_unfinished succession batch.toUnfinished owned.1.1)
        exact ⟨provenAfter, next, stays, fun free => by cases free⟩
    | _ => cases commits
  by_cases stores : pc.stores = true
  · cases pc with
    | putChunk run rows batchLastId =>
        have batch : HasBatch world run rows batchLastId := known
        obtain ⟨provenAfter, stays⟩ := proven_putChunk proven
          (no_file_of_unfinished succession batch.toUnfinished owned.1)
        exact ⟨provenAfter, trivial, stays, fun free => by cases free⟩
    | uploadFinal run assembled =>
        obtain ⟨provenAfter, stays⟩ := proven_uploadFinal proven assertion
        exact ⟨provenAfter, trivial, stays, fun free => by cases free⟩
    | deletePage outcome keys token deleted =>
        obtain ⟨provenAfter, stays⟩ := proven_deletePage proven owned
        exact ⟨provenAfter, RunPc.nextPage_cases _ _ _ trivial fun _ => trivial,
          stays, fun free => by cases free⟩
    | _ => cases stores
  · simp only [Bool.not_eq_true] at commits stores
    obtain ⟨changed, unchanged⟩ :=
      @proven_unchanged env world kept pc proven stores commits
    refine ⟨?_, provenRuns_stable changed
      (provenRuns_step kept log known assertion stores commits),
      changed.toFileStays, fun _ => changed⟩
    cases verifies : pc.verifies with
    | false => exact unchanged verifies
    | true =>
        cases pc with
        | saveVerification run result =>
            exact proven_saveVerification kept proven assertion
        | _ => cases verifies

end Steps

section Commands

variable {env : Env} {world : World}

/-- What the latest verification answers to a download. -/
theorem proven_latestForDownload {fileKey : String}
    (proven : ProvenInvariant env world)
    (named : world.fileKey = some fileKey) :
    provenCommands env world
      (afterLatestForDownload env fileKey world.latestVerification) := by
  cases latest : world.latestVerification with
  | none => trivial
  | some row =>
      simp only [afterLatestForDownload]
      split
      · trivial
      · next passed =>
          obtain ⟨result, describes, rfl⟩ :=
            proven.described row (List.mem_of_getLast? latest)
          obtain ⟨terms, file, known, stored, verdict⟩ := describes
          obtain rfl := proven.named fileKey named
          have isPassed : result.passed = true := by
            simpa [VerificationResult.toRow] using passed
          have measured := verdict
          rw [verifyBody] at measured
          split at measured
          · cases measured
          · obtain rfl := Except.ok.inj measured
            exact ⟨named, rfl, terms, file, _, known, stored, verdict,
              isPassed, rfl, rfl⟩

/-- What a command knows about the file before the call that follows. -/
theorem provenCommands_step {pc : ApiPc} (proven : ProvenInvariant env world)
    (assertion : provenCommands env world pc) :
    provenCommands env world (apiStep env world pc).2 := by
  have answered : ∀ {after : World} {next : ExportJob → ApiPc},
      (∀ job, provenCommands env world (next job)) →
        provenCommands env world (returnJob after next) := by
    intro after next follows
    exact returnJob_cases (fun _ => trivial) fun job _ => follows job
  cases pc with
  | insertJob | getJob | remove | saveVerification =>
      simp only [apiStep]
      split <;> trivial
  | getState caller =>
      simp only [apiStep]
      split
      · cases caller <;> trivial
      · trivial
  | add caller => cases caller <;> trivial
  | countRecords =>
      simp only [apiStep]
      split <;> trivial
  | writeQueued | writeResuming | writeCancel =>
      exact answered fun _ => trivial
  | findForResume userId =>
      refine getOwnedExportJob_cases userId trivial fun job _ => ?_
      rw [afterFindForResume]
      repeat' split
      all_goals trivial
  | findForCancel userId =>
      refine getOwnedExportJob_cases userId trivial fun job _ => ?_
      rw [afterFindForCancel]
      repeat' split
      all_goals trivial
  | findForVerifyOwner userId =>
      exact getOwnedExportJob_cases userId trivial fun _ _ => trivial
  | findForVerify =>
      simp only [apiStep]
      split
      · trivial
      · next job found =>
          split
          · trivial
          · next fileKey named =>
              split
              · trivial
              · refine ⟨?_, proven.named fileKey ?_⟩
                · rw [KnowsJob, World.terms, found, Option.map_some]
                · rw [World.fileKey, found, Option.bind_some, named]
  | verifyHead job fileKey =>
      obtain ⟨knows, rfl⟩ := assertion
      simp only [apiStep]
      split
      · trivial
      · next body stored => exact ⟨knows, rfl, body, stored, rfl⟩
  | verifyRead job fileKey fileBytes =>
      obtain ⟨knows, rfl, file, stored, rfl⟩ := assertion
      have present : world.store.get? (finalKey env.exportJobId) =
          some file := stored
      simp only [apiStep, present]
      split
      · trivial
      · next result verdict => exact ⟨job.terms, file, knows, stored, verdict⟩
  | findForDownload userId =>
      refine getOwnedExportJob_cases userId trivial fun job found => ?_
      rw [afterFindForDownload]
      split
      · trivial
      · split
        · trivial
        · next fileKey named =>
            split
            · trivial
            · rw [provenCommands, World.fileKey, found, Option.bind_some,
                named]
  | latestForDownload fileKey => exact proven_latestForDownload proven assertion
  | returned reply => exact assertion
  | _ => trivial

/-- A statement of a command keeps the terms, the file key and the store. -/
theorem proven_apiStep (pc : ApiPc) :
    ProvenRely env world (apiStep env world pc).1 := by
  have checkpoints := apiStep_checkpoints env world pc
  have store := apiStep_store env world pc
  refine ⟨?_, checkpoints, store⟩
  by_cases other : pc.inserts = false ∨ world.job ≠ none
  · exact .same (apiStep_terms env other) (apiStep_fileKey env other) store
  · simp only [not_or, not_not] at other
    refine ⟨?_, ?_, by rw [World.file, World.file, store]; exact fun _ => id⟩
    · intro terms known
      rw [World.terms, other.2] at known
      cases known
    · intro fileKey named
      rw [World.fileKey, other.2] at named
      cases named

theorem proven_command {pc : ApiPc} (proven : ProvenInvariant env world)
    (assertion : provenCommands env world pc) :
    ProvenInvariant env (apiStep env world pc).1 := by
  have changed := @proven_apiStep env world pc
  cases verifies : pc.verifies with
  | false =>
      refine proven.unchanged changed.toFileStays changed.checkpoints
        changed.store ?_ (apiStep_verifications env world verifies)
      by_cases other : pc.inserts = false ∨ world.job ≠ none
      · rw [apiStep_fileKey env other]
        exact proven.named
      · simp only [not_or, not_not, Bool.not_eq_false] at other
        obtain ⟨inserts, absent⟩ := other
        cases pc with
        | insertJob userId rowLimit snapshotMaxId =>
            simp only [apiStep, absent, World.fileKey, Option.bind_some]
            intro fileKey named
            cases named
        | _ => cases inserts
  | true =>
      cases pc with
      | saveVerification job result =>
          simp only [apiStep]
          split
          · refine ⟨proven.same, proven.named, ?_⟩
            intro row member
            rcases List.mem_append.mp member with before | new
            · exact proven.described row before
            · exact ⟨result, assertion, List.mem_singleton.mp new⟩
          · exact proven
      | _ => cases verifies

end Commands

/-- A run claims the job only when no other run owns it. -/
abbrev Successive : Condition := fun config event =>
  AloneAtClaim config event ∧
    TableWithin (fun _ => True) (fun _ => False) config.shared

/-- What is known of the log and of the chunks at every step. -/
abbrev SuccessiveLogged (env : Env) : Condition := fun config event =>
  Successive config event ∧ (logOutline env Successive).Holds config

abbrev Succeeded (env : Env) : Condition := fun config event =>
  SuccessiveLogged env config event ∧
    (successionOutline env (fun _ => True) (fun _ => False)).Holds config

def provenOutline (env : Env) : SystemOutline env (Succeeded env) where
  invariant := ProvenInvariant env
  runs := provenRuns env
  commands := provenCommands env
  owner := RunPc.claimed
  rely := ProvenRely env
  ownerRely := FileStays env
  invariant_passive := by
    intro before after same proven
    have fileKey : after.fileKey = before.fileKey := by
      rw [World.fileKey, World.fileKey, same.job]
    exact proven.unchanged (.same same.terms fileKey same.store)
      same.checkpoints same.store (by rw [fileKey]; exact proven.named)
      same.verifications
  rely_passive := by
    intro before after same
    refine ⟨.same same.terms ?_ same.store, same.checkpoints, same.store⟩
    rw [World.fileKey, World.fileKey, same.job]
  stable_runs := provenRuns_stable
  stable_commands changed := provenCommands_stable changed.toFileStays
  owner_stable_runs _ free _ := provenRuns_of_not_claimed free
  owner_stable_commands := provenCommands_stable
  runs_findJob _ := trivial
  runs_ended world pc ended := by
    cases pc <;> trivial
  runs_caught _ _ := trivial
  commands_begin world request := by
    cases request with
    | create userId rowLimit =>
        simp only [Request.begin]
        repeat' split
        all_goals trivial
    | _ => trivial
  owner_claimed _ owned := owned
  exclusive allowed here live owns ownedNot other otherPc different there :=
    aloneAtClaim_exclusive allowed.1.1.1 here live owns ownedNot other otherPc
      different there
  run_sound := by
    intro config index fault pc kept allowed here _ proven assertion
    obtain ⟨⟨_, logHolds⟩, succession⟩ := allowed
    obtain ⟨provenAfter, next, stays, changed⟩ :=
      proven_runStep kept logHolds.1 (logHolds.run here) succession.1
        (succession.run here) proven assertion
    refine ⟨provenAfter, next, ?_⟩
    cases owned : pc.claimed with
    | true => exact .inr ⟨rfl, stays⟩
    | false => exact .inl (changed owned)
  command_sound := by
    intro config index fault pc _ _ _ proven assertion
    have changed := @proven_apiStep env config.shared pc
    exact ⟨proven_command proven assertion,
      provenCommands_stable changed.toFileStays
        (provenCommands_step proven assertion), changed⟩
  sweep_sound := by
    intro config index fault pc _ _ proven
    have checkpoints := sweepStep_checkpoints env config.shared pc
    have store := sweepStep_store env config.shared pc
    have fileKey := sweepStep_fileKey env config.shared pc
    have stays : FileStays env config.shared
        (sweepStep env config.shared pc).1 :=
      .same (sweepStep_terms env config.shared pc) fileKey store
    exact ⟨proven.unchanged stays checkpoints store
      (by rw [fileKey]; exact proven.named)
      (sweepStep_verifications env config.shared pc),
      stays, checkpoints, store⟩
  change_sound := by
    intro config change _ proven
    have store := change.apply_store config.shared
    have checkpoints := change.apply_checkpoints config.shared
    have fileKey : (change.apply config.shared).fileKey =
        config.shared.fileKey := by
      rw [World.fileKey, World.fileKey, change.apply_job]
    have stays : FileStays env config.shared (change.apply config.shared) :=
      .same (change.apply_terms config.shared) fileKey store
    have changed : ProvenRely env config.shared
        (change.apply config.shared) := ⟨stays, checkpoints, store⟩
    refine ⟨proven.unchanged stays checkpoints store
      (by rw [fileKey]; exact proven.named) ?_,
      fun _ _ _ assertion => provenRuns_stable changed assertion,
      fun _ _ _ assertion => provenCommands_stable stays assertion⟩
    cases change <;> rfl

theorem provenOutline_initial {env : Env} {config : Config World Proc}
    (initial : Initial env config)
    (unverified : config.shared.verifications = []) :
    (provenOutline env).Holds config := by
  apply SystemOutline.holds_of_idle _ initial.idle
  refine ⟨?_, ?_, ?_⟩
  · intro file stored
    rw [World.file, initial.noFile] at stored
    cases stored
  · intro fileKey named
    rw [World.fileKey, initial.noJob] at named
    cases named
  · rw [unverified]
    exact fun row member => absurd member List.not_mem_nil

/-- Whenever `getExportDownload` answers, the object at the file key of the
job has the digest and the length of the answer and passes every check of the
verifier; and so it does ever after.  The export has no verification rows
before it is created. -/
theorem download_proven {env : Env} {source target : Config World Proc}
    {events : List (Event Action Change)} (initial : Initial env source)
    (unverified : source.shared.verifications = [])
    (history : (machine env).Exec AloneAtClaim source events target)
    {index : Nat} {url filename : String} {expires fileBytes : Int}
    {sha256 : String}
    (answered : target.procs index = .api (.returned
      (.download url filename expires fileBytes sha256))) :
    ∃ job fileKey file, target.shared.job = some job ∧
      job.fileKey = some fileKey ∧ url = env.signedUrl fileKey filename ∧
      target.shared.store.get? fileKey = some file ∧
      sha256 = env.sha256 file ∧ fileBytes = file.size ∧
      Passes env job file := by
  have successive : (machine env).Exec Successive source events target :=
    history.mono fun alone => ⟨alone, fun _ =>
      ⟨fun _ _ => trivial, fun _ impossible => impossible.elim⟩⟩
  have logged := (logOutline env Successive).strengthen successive
    (logOutline_initial initial)
  have succeeded := (successionOutline env _ _).strengthen logged
    (successionOutline_initial initial)
  have holds := (provenOutline env).preserved succeeded
    (provenOutline_initial initial unverified)
  obtain ⟨named, pointed, terms, file, result, known, stored, verdict, passed,
    size, digest⟩ := holds.command answered
  obtain ⟨job, found, hasFile⟩ := Option.bind_eq_some_iff.mp named
  obtain ⟨sameJob, sameFound, rfl⟩ := Option.map_eq_some_iff.mp known
  obtain rfl := Option.some.inj (found.symm.trans sameFound)
  exact ⟨job, _, file, found, hasFile, pointed, stored, digest, size, result,
    verdict, passed⟩

end ExportVault
