import ExportVault.Exactness

/-!
# Successive workers on a changing table

Here the records may change arbitrarily between any two statements, but a run
claims the job only when no other run that has claimed it is alive.  A batch
that is written again may then differ from the one written before; the
invariant says that the chunk of a checkpoint fits the log, whatever it holds.

`seen` stands for the rows the table has held since the job was created and
`kept` for the ids it has held all that time; the theorem instantiates them
with the states of the history.
-/

namespace ExportVault

open Interleaving

section Succession

variable (seen : RawRecordRow → Prop) (kept : Int → Prop)

/-- The rows of an export up to the cursor of a log. -/
abbrev Segment (floor last : Int) (rows : List RawRecordRow) : Prop :=
  Keyset.Segment RawRecordRow.id seen kept floor last rows

/-- While the job exists the table holds only seen rows, and all kept ids. -/
def TableWithin (world : World) : Prop :=
  world.job ≠ none →
    (∀ row ∈ world.records.rows, seen row) ∧
      ∀ id, kept id → ∃ row ∈ world.records.rows, row.id = id

def ChunkFits (floor : Int) (checkpoint : ExportCheckpoint) (body : Bytes) :
    Prop :=
  ∃ rows, Segment seen kept floor checkpoint.lastRecordId rows ∧
    (rows.length : Int) = checkpoint.rowsWritten ∧
    body = chunkBytes (rows.map normaliseRecord)

/-- The bytes hold the rows the log speaks of. -/
def FileFits (done : List ExportCheckpoint) (body : Bytes) : Prop :=
  ∃ rows, Segment seen kept 0 (cursorOf done) rows ∧
    (rows.length : Int) = rowsOf done ∧ body = exportBytes rows

structure SuccessionInvariant (env : Env) (world : World) : Prop where
  chunks : ∀ done checkpoint, done ++ [checkpoint] <+: world.checkpoints →
    ∀ body, world.store.get?
        (chunkKey env.exportJobId (done.length + 1)) = some body →
      ChunkFits seen kept (cursorOf done) checkpoint body
  file : ∀ body, world.store.get? (finalKey env.exportJobId) = some body →
    (∃ terms, world.terms = some terms ∧
      rowsOf world.checkpoints = terms.requestedRowLimit) ∧
    FileFits seen kept world.checkpoints body
  completed : world.status = some .completed →
    world.store.get? (finalKey env.exportJobId) ≠ none

def AtEnd (world : World) (run : Progress) : Prop :=
  run.At world.checkpoints

def OwnBatch (world : World) (run : Progress) (rows : List ExportableRow)
    (batchLastId : Int) : Prop :=
  AtEnd world run ∧
    ∃ raw, rows = raw.map normaliseRecord ∧
      Segment seen kept run.lastExportedId batchLastId raw

def WrittenBatch (env : Env) (world : World) (run : Progress)
    (rows : List ExportableRow) (batchLastId : Int) : Prop :=
  OwnBatch seen kept world run rows batchLastId ∧
    ∀ body, world.store.get? (chunkKey env.exportJobId run.batchNumber) =
      some body → body = chunkBytes rows

def successionRuns (env : Env) (world : World) : RunPc → Prop
  | .readProgress job resume => AtEnd world (.start job resume)
  | .reconcile job resume => AtEnd world (.start job resume)
  | .pollCancel run => AtEnd world run
  | .writeCancelled run => AtEnd world run
  | .fetchBatch run => AtEnd world run
  | .putChunk run rows batchLastId =>
      OwnBatch seen kept world run rows batchLastId
  | .confirmChunk run rows batchLastId =>
      WrittenBatch seen kept env world run rows batchLastId
  | .commitBatch run rows batchLastId =>
      WrittenBatch seen kept env world run rows batchLastId
  | .readChunk _ batchCount batchNumber assembled =>
      batchNumber ≤ batchCount ∧
        ∃ done, done <+: world.checkpoints ∧
          batchNumber = done.length + 1 ∧ FileFits seen kept done assembled
  | .uploadFinal _ assembled =>
      FileFits seen kept world.checkpoints assembled
  | .headAssembled _ => world.store.get? (finalKey env.exportJobId) ≠ none
  | .verifyHead _ => world.store.get? (finalKey env.exportJobId) ≠ none
  | .verifyRead _ _ => world.store.get? (finalKey env.exportJobId) ≠ none
  | .saveVerification _ _ =>
      world.store.get? (finalKey env.exportJobId) ≠ none
  | .writeCompleted _ => world.store.get? (finalKey env.exportJobId) ≠ none
  | .deletePage _ keys _ _ =>
      ∀ key ∈ keys, hasPrefix (chunkPrefix env.exportJobId) key = true
  | _ => True

/-- What the steps of a process that does not own the job leave alone. -/
structure SuccessionRely (before after : World) : Prop where
  checkpoints : after.checkpoints = before.checkpoints
  store : after.store = before.store

end Succession

variable {env : Env} {before after world : World} {run : Progress}
variable {seen : RawRecordRow → Prop} {kept : Int → Prop}

theorem successionRuns_stable {pc : RunPc}
    (changed : SuccessionRely before after)
    (assertion : successionRuns seen kept env before pc) :
    successionRuns seen kept env after pc := by
  obtain ⟨checkpoints, store⟩ := changed
  cases pc <;>
    simp only [successionRuns, AtEnd, OwnBatch, WrittenBatch, checkpoints,
      store] at assertion ⊢ <;> exact assertion

/-- A run that does not own the job is not concerned. -/
theorem successionRuns_of_not_claimed {pc : RunPc}
    (free : pc.claimed = false) :
    successionRuns seen kept env world pc := by
  cases pc <;> trivial

theorem SuccessionInvariant.same
    (invariant : SuccessionInvariant seen kept env before)
    (terms : after.terms = before.terms)
    (checkpoints : after.checkpoints = before.checkpoints)
    (store : after.store = before.store)
    (completed : after.status = some .completed →
      before.store.get? (finalKey env.exportJobId) ≠ none) :
    SuccessionInvariant seen kept env after where
  chunks := by rw [checkpoints, store]; exact invariant.chunks
  file := by rw [terms, checkpoints, store]; exact invariant.file
  completed := by rw [store]; exact completed

theorem fileFits_nil : FileFits seen kept [] (utf8 csvHeader) :=
  ⟨[], Keyset.segment_nil, rfl, exportBytes_nil.symm⟩

/-- The chunk of the next checkpoint goes behind the rows so far. -/
theorem FileFits.append {done : List ExportCheckpoint}
    {checkpoint : ExportCheckpoint} {file chunk : Bytes}
    (fits : FileFits seen kept done file)
    (next : ChunkFits seen kept (cursorOf done) checkpoint chunk) :
    FileFits seen kept (done ++ [checkpoint]) (file ++ chunk) := by
  obtain ⟨rows, segment, count, rfl⟩ := fits
  obtain ⟨more, nextSegment, nextCount, rfl⟩ := next
  refine ⟨rows ++ more, ?_, ?_, (exportBytes_append rows more).symm⟩
  · rw [cursorOf_concat]
    exact segment.append nextSegment
  · simp only [List.length_append, Nat.cast_add, count, nextCount,
      rowsOf_append, rowsOf_cons, rowsOf_nil, add_zero]

theorem succession_fetchBatch (keptKeys : List String)
    (within : TableWithin seen kept world) (knows : KnowsJob world run.job)
    (atEnd : AtEnd world run) :
    successionRuns seen kept env world
      (runStep env keptKeys world (.fetchBatch run)).2 := by
  apply fetchBatch_cases env keptKeys (successionRuns seen kept env world)
  · intro _
    trivial
  · intro raw batchLastId select fetched
    have present : world.job ≠ none := by
      intro absent
      rw [KnowsJob, World.terms, absent] at knows
      cases knows
    obtain ⟨allSeen, keptPresent⟩ := within present
    refine ⟨atEnd, raw, rfl, ?_⟩
    have nonempty := fetched.nonempty
    rw [← fetched.last]
    rw [← select, selectRecordBatch] at nonempty ⊢
    exact Keyset.segment_page world.records.ascending nonempty allSeen
      keptPresent

theorem succession_putChunk {rows : List ExportableRow} {batchLastId : Int}
    (invariant : SuccessionInvariant seen kept env world)
    (batch : OwnBatch seen kept world run rows batchLastId) :
    SuccessionInvariant seen kept env (world.putObject
        (chunkKey env.exportJobId run.batchNumber) (chunkBytes rows)) ∧
      WrittenBatch seen kept env (world.putObject
        (chunkKey env.exportJobId run.batchNumber) (chunkBytes rows))
        run rows batchLastId := by
  have number := batch.1.1
  have otherFile :
      (world.store.put (chunkKey env.exportJobId run.batchNumber)
        (chunkBytes rows)).get? (finalKey env.exportJobId) =
      world.store.get? (finalKey env.exportJobId) :=
    ObjectStore.get?_put_of_ne _ _ (chunkKey_ne_finalKey _ _).symm
  refine ⟨⟨?_, ?_, ?_⟩, batch, ?_⟩
  · intro done checkpoint reached body stored
    -- the batch being written lies behind the log
    have inLog := reached.length_le
    simp only [World.putObject_checkpoints, List.length_append,
      List.length_singleton] at inLog
    have different : chunkKey env.exportJobId (done.length + 1) ≠
        chunkKey env.exportJobId run.batchNumber := by
      rw [number]
      intro same
      rw [chunkKey_inj (by omega) (by omega)] at same
      omega
    rw [World.putObject_store,
      ObjectStore.get?_put_of_ne _ _ different] at stored
    exact invariant.chunks done checkpoint reached body stored
  · rw [World.putObject_store, otherFile]
    exact invariant.file
  · rw [World.putObject_store, otherFile]
    exact invariant.completed
  · intro body stored
    rw [World.putObject_store, ObjectStore.get?_put_self] at stored
    exact (Option.some.inj stored).symm

theorem succession_commit {rows : List ExportableRow} {batchLastId : Int}
    (unfinished : Unfinished world run) (log : LogInvariant world)
    (invariant : SuccessionInvariant seen kept env world)
    (batch : WrittenBatch seen kept env world run rows batchLastId) :
    SuccessionInvariant seen kept env
        (commitStep world run rows batchLastId).1 ∧
      successionRuns seen kept env
        (commitStep world run rows batchLastId).1
        (commitStep world run rows batchLastId).2 := by
  apply commitBatch_cases unfinished.toOnTrack log fun result =>
    SuccessionInvariant seen kept env result.1 ∧
      successionRuns seen kept env result.1 result.2
  · intro error
    exact ⟨invariant, trivial⟩
  · intro after position afterEq
    obtain ⟨⟨_, raw, rfl, segment⟩, written⟩ := batch
    have sameStatus : after.status = world.status := by
      rw [afterEq]
      simp only [World.status, Option.map_map]
      rfl
    have sameStore : after.store = world.store := by rw [afterEq]
    have checkpointsEq : after.checkpoints = world.checkpoints ++
        [{ batchNumber := run.batchNumber
           lastRecordId := batchLastId
           rowsWritten := (raw.map normaliseRecord).length }] := by
      rw [afterEq]
    refine ⟨⟨?_, ?_, ?_⟩, ?_⟩
    · intro done checkpoint reached body stored
      rw [sameStore] at stored
      rw [checkpointsEq] at reached
      rcases List.prefix_concat_iff.mp reached with whole | early
      · obtain ⟨rfl, lastEq⟩ := List.append_inj' whole rfl
        obtain rfl := List.singleton_inj.mp lastEq
        rw [← position.1] at stored
        refine ⟨raw, ?_, ?_, written body stored⟩
        · rw [← position.2.1]
          exact segment
        · rw [List.length_map]
      · exact invariant.chunks done checkpoint early body stored
    · -- the loop is not over, so there is no file yet
      intro body stored
      rw [sameStore] at stored
      obtain ⟨⟨terms, termsEq, complete⟩, _⟩ := invariant.file body stored
      obtain rfl := Option.some.inj (unfinished.job.symm.trans termsEq)
      have less := unfinished.less
      rw [position.2.2, complete] at less
      exact absurd less (lt_irrefl _)
    · rw [sameStatus, sameStore]
      exact invariant.completed
    · have atEnd : AtEnd after
          (run.advance (raw.map normaliseRecord) batchLastId) := by
        rw [AtEnd, checkpointsEq]
        exact position.advance
      exact RunPc.loopTop_cases (motive := successionRuns seen kept env after)
        _ (fun _ => atEnd) (fun _ _ => trivial) fun _ => trivial

theorem succession_assembleFrom {batchCount : Int}
    {done : List ExportCheckpoint} {assembled : Bytes}
    (finished : Finished world run) (log : LogInvariant world)
    (count : run.batchNumber = batchCount + 1)
    (reached : done <+: world.checkpoints)
    (fits : FileFits seen kept done assembled) :
    successionRuns seen kept env world
      (.assembleFrom run batchCount (done.length + 1) assembled) := by
  rw [RunPc.assembleFrom]
  split
  · next more => exact ⟨more, done, reached, rfl, fits⟩
  · next noMore =>
      have position := (finished.at_log log).1
      have inLog := reached.length_le
      obtain rfl := prefix_eq reached (List.prefix_refl _) (by omega)
      exact fits

theorem succession_readChunk {batchCount batchNumber : Int}
    {assembled : Bytes} (keptKeys : List String)
    (finished : Finished world run) (log : LogInvariant world)
    (invariant : SuccessionInvariant seen kept env world)
    (count : run.batchNumber = batchCount + 1)
    (assertion : successionRuns seen kept env world
      (.readChunk run batchCount batchNumber assembled)) :
    successionRuns seen kept env world
      (runStep env keptKeys world
        (.readChunk run batchCount batchNumber assembled)).2 := by
  obtain ⟨inside, done, reached, rfl, fits⟩ := assertion
  simp only [runStep]
  split
  · trivial
  · next body stored =>
      have position := (finished.at_log log).1
      obtain ⟨rest, whole⟩ := reached
      cases rest with
      | nil =>
          rw [List.append_nil] at whole
          rw [whole] at inside
          omega
      | cons checkpoint rest =>
          have reachedNext : done ++ [checkpoint] <+: world.checkpoints := by
            rw [← whole]
            exact (List.prefix_append_right_inj done).mpr ⟨rest, rfl⟩
          have next : successionRuns seen kept env world
              (.assembleFrom run batchCount
                ((done ++ [checkpoint]).length + 1) (assembled ++ body)) :=
            succession_assembleFrom finished log count reachedNext
              (fits.append
                (invariant.chunks done checkpoint reachedNext body stored))
          rwa [List.length_append, List.length_singleton, Nat.cast_add,
            Nat.cast_one] at next

theorem succession_uploadFinal {assembled : Bytes}
    (finished : Finished world run) (log : LogInvariant world)
    (invariant : SuccessionInvariant seen kept env world)
    (fits : FileFits seen kept world.checkpoints assembled) :
    SuccessionInvariant seen kept env
      (world.putObject (finalKey env.exportJobId) assembled) := by
  have complete : rowsOf world.checkpoints = run.job.requestedRowLimit :=
    (finished.at_log log).2.2.symm.trans finished.all
  refine ⟨?_, ?_, ?_⟩
  · intro done checkpoint reached body stored
    rw [World.putObject_store, ObjectStore.get?_put_of_ne _ _
      (chunkKey_ne_finalKey _ _)] at stored
    exact invariant.chunks done checkpoint reached body stored
  · intro body stored
    rw [World.putObject_store, ObjectStore.get?_put_self] at stored
    obtain rfl := Option.some.inj stored
    exact ⟨⟨_, finished.job, complete⟩, fits⟩
  · intro _
    rw [World.putObject_store, ObjectStore.get?_put_self]
    exact Option.some_ne_none _

theorem get?_finalKey_deleteObjects {keys removed : List String}
    (listed : ∀ key ∈ keys,
      hasPrefix (chunkPrefix env.exportJobId) key = true)
    (store : ObjectStore) :
    (store.deleteObjects keys removed).get? (finalKey env.exportJobId) =
      store.get? (finalKey env.exportJobId) := by
  apply ObjectStore.get?_deleteObjects_of_notMem
  intro member
  have isPrefix := listed _ member
  rw [not_hasPrefix_finalKey] at isPrefix
  cases isPrefix

theorem succession_deletePage {keys removed : List String}
    (invariant : SuccessionInvariant seen kept env world)
    (listed : ∀ key ∈ keys,
      hasPrefix (chunkPrefix env.exportJobId) key = true) :
    SuccessionInvariant seen kept env (world.deleteObjects keys removed) := by
  refine ⟨?_, ?_, ?_⟩
  · intro done checkpoint reached body stored
    exact invariant.chunks done checkpoint reached body
      (ObjectStore.get?_of_get?_deleteObjects stored)
  · rw [World.deleteObjects_store, get?_finalKey_deleteObjects listed]
    exact invariant.file
  · rw [World.deleteObjects_store, get?_finalKey_deleteObjects listed]
    exact invariant.completed

theorem succession_nextPage (outcome : RunOutcome) (token : Option String)
    (deleted : Nat) :
    successionRuns seen kept env world
      (.nextPage outcome token deleted) := by
  exact RunPc.nextPage_cases (motive := successionRuns seen kept env world)
    outcome token deleted trivial fun _ => trivial

/-- A statement of the owner that touches neither log nor store. -/
theorem successionRuns_step (keptKeys : List String) {pc : RunPc}
    (noCommit : pc.commits = false) (noStore : pc.stores = false)
    (within : TableWithin seen kept world) (known : logRuns world pc)
    (log : LogInvariant world)
    (invariant : SuccessionInvariant seen kept env world)
    (assertion : successionRuns seen kept env world pc) :
    successionRuns seen kept env world
      (runStep env keptKeys world pc).2 := by
  have looped : ∀ run : Progress, AtEnd world run →
      successionRuns seen kept env world (.loopTop run) := by
    intro run atEnd
    exact RunPc.loopTop_cases (motive := successionRuns seen kept env world)
      run (fun _ => atEnd) (fun _ _ => trivial) fun _ => trivial
  cases pc with
  | putChunk | uploadFinal | deletePage => cases noStore
  | commitBatch => cases noCommit
  | findJob =>
      simp only [runStep, afterFindJob]
      repeat' split
      all_goals trivial
  | claim =>
      simp only [runStep, claimStep]
      split <;> trivial
  | loadResume job =>
      simp only [runStep, log.load known]
      exact ⟨rfl, rfl, rfl⟩
  | readProgress =>
      simp only [runStep]
      split
      · exact looped _ assertion
      · exact assertion
  | reconcile => exact looped _ assertion
  | pollCancel =>
      simp only [runStep]
      split <;> exact assertion
  | fetchBatch run =>
      have unfinished : Unfinished world run := known
      exact succession_fetchBatch keptKeys within unfinished.job assertion
  | confirmChunk run rows batchLastId =>
      simp only [runStep, confirmStep]
      split
      · trivial
      · split
        · trivial
        · exact assertion
  | loadFinal run =>
      simp only [runStep, finalStep]
      repeat' split
      all_goals trivial
  | writeVerifying run batchCount =>
      have nothing : [] <+: world.checkpoints := List.nil_prefix
      exact succession_assembleFrom known.1 log known.2 nothing fileFits_nil
  | readChunk run batchCount batchNumber assembled =>
      exact succession_readChunk keptKeys known.1 log invariant known.2
        assertion
  | headAssembled run =>
      simp only [runStep]
      split
      · trivial
      · split
        · trivial
        · exact assertion
  | verifyHead run =>
      simp only [runStep]
      split
      · trivial
      · exact assertion
  | verifyRead run fileBytes =>
      simp only [runStep]
      split
      · trivial
      · split
        · trivial
        · exact assertion
  | saveVerification run result =>
      simp only [runStep]
      split
      · split
        · exact assertion
        · trivial
      · trivial
  | listChunks outcome token deleted =>
      simp only [runStep]
      split
      · exact fun key member =>
          ObjectStore.hasPrefix_of_mem_listObjectsV2 member
      · exact succession_nextPage _ _ _
  | recordFailure error exit => cases exit <;> trivial
  | _ => trivial

theorem succession_runStep (keptKeys : List String) {pc : RunPc}
    (within : TableWithin seen kept world) (known : logRuns world pc)
    (log : LogInvariant world)
    (invariant : SuccessionInvariant seen kept env world)
    (assertion : successionRuns seen kept env world pc) :
    SuccessionInvariant seen kept env (runStep env keptKeys world pc).1 ∧
      successionRuns seen kept env (runStep env keptKeys world pc).1
        (runStep env keptKeys world pc).2 ∧
      (pc.claimed = false →
        SuccessionRely world (runStep env keptKeys world pc).1) := by
  by_cases commits : pc.commits = true
  · cases pc with
    | commitBatch run rows batchLastId =>
        have batch : HasBatch world run rows batchLastId := known
        obtain ⟨invariantAfter, assertionAfter⟩ :=
          succession_commit batch.toUnfinished log invariant assertion
        exact ⟨invariantAfter, assertionAfter, fun free => by cases free⟩
    | _ => cases commits
  by_cases stores : pc.stores = true
  · cases pc with
    | putChunk run rows batchLastId =>
        obtain ⟨invariantAfter, written⟩ :=
          succession_putChunk invariant assertion
        exact ⟨invariantAfter, written, fun free => by cases free⟩
    | uploadFinal run assembled =>
        refine ⟨succession_uploadFinal known log invariant assertion, ?_,
          fun free => by cases free⟩
        simp [runStep, successionRuns]
    | deletePage outcome keys token deleted =>
        exact ⟨succession_deletePage invariant assertion,
          succession_nextPage _ _ _, fun free => by cases free⟩
    | _ => cases stores
  · simp only [Bool.not_eq_true] at commits stores
    have terms := runStep_terms env keptKeys world pc
    have checkpoints := runStep_checkpoints env keptKeys world commits
    have store := runStep_store env keptKeys world stores
    have changed : SuccessionRely world (runStep env keptKeys world pc).1 :=
      ⟨checkpoints, store⟩
    refine ⟨invariant.same terms checkpoints store ?_,
      successionRuns_stable changed (successionRuns_step keptKeys commits
        stores within known log invariant assertion),
      fun _ => changed⟩
    intro isCompleted
    by_cases completes : pc.sets = some .completed
    · cases pc with
      | writeCompleted run => exact assertion
      | _ => cases completes
    · exact invariant.completed ((runStep_status env keptKeys world pc).before
        completes isCompleted)

/-- A run that claims the job finds no other owner. -/
theorem aloneAtClaim_exclusive {config : Config World Proc} {index : Nat}
    {fault : Fault} {pc : RunPc}
    (alone : AloneAtClaim config (.act index (.call fault)))
    (here : config.procs index = .run pc) (live : pc.ended = false)
    (owns : (runCall env config.shared pc fault).2.claimed = true)
    (ownedNot : pc.claimed = false) (other : Nat) (otherPc : RunPc)
    (different : other ≠ index)
    (there : config.procs other = .run otherPc) :
    otherPc.claimed = false := by
  obtain ⟨job, staleCutoff, rfl⟩ :=
    claims_of_claimed fault live owns ownedNot
  have free := alone index fault job staleCutoff rfl here other different
  rw [there] at free
  exact free

/-- Successive owners on a table whose rows are seen and whose kept ids
stay. -/
def successionOutline (env : Env) (seen : RawRecordRow → Prop)
    (kept : Int → Prop) :
    SystemOutline env fun config event =>
      (AloneAtClaim config event ∧ TableWithin seen kept config.shared) ∧
        (logOutline env fun config event => AloneAtClaim config event ∧
          TableWithin seen kept config.shared).Holds config where
  invariant := SuccessionInvariant seen kept env
  runs := successionRuns seen kept env
  owner := RunPc.claimed
  rely := SuccessionRely
  ownerRely _ _ := True
  invariant_passive same invariant :=
    invariant.same same.terms same.checkpoints same.store
      fun isCompleted => invariant.completed (same.status ▸ isCompleted)
  rely_passive same := ⟨same.checkpoints, same.store⟩
  stable_runs := successionRuns_stable
  owner_stable_runs _ free _ := successionRuns_of_not_claimed free
  runs_findJob _ := trivial
  runs_ended world pc ended := by
    cases pc <;> trivial
  runs_caught _ _ := trivial
  owner_claimed _ owned := owned
  exclusive allowed here live owns ownedNot other otherPc different there :=
    aloneAtClaim_exclusive allowed.1.1 here live owns ownedNot other otherPc
      different there
  run_sound := by
    intro config index fault pc keptKeys allowed here _ invariant assertion
    obtain ⟨invariantAfter, assertionAfter, changed⟩ :=
      succession_runStep keptKeys allowed.1.2
        (allowed.2.run here) allowed.2.1 invariant assertion
    refine ⟨invariantAfter, assertionAfter, ?_⟩
    cases owned : pc.claimed with
    | true => exact .inr ⟨rfl, trivial⟩
    | false => exact .inl (changed owned)
  command_sound := by
    intro config index fault pc allowed _ _ invariant _
    have checkpoints := apiStep_checkpoints env config.shared pc
    have store := apiStep_store env config.shared pc
    refine ⟨?_, trivial, checkpoints, store⟩
    by_cases other : pc.inserts = false ∨ config.shared.job ≠ none
    · exact invariant.same (apiStep_terms env other) checkpoints store
        fun isCompleted => invariant.completed (apiStep_before (by decide) isCompleted)
    · simp only [not_or, not_not] at other
      have unknown : config.shared.terms = none := by
        rw [World.terms, other.2, Option.map_none]
      refine ⟨?_, ?_, ?_⟩
      · rw [checkpoints, store]
        exact invariant.chunks
      · intro body stored
        rw [store] at stored
        obtain ⟨⟨terms, known, _⟩, _⟩ := invariant.file body stored
        exact absurd (unknown.symm.trans known) (by simp)
      · intro isCompleted
        rw [store]
        exact invariant.completed (apiStep_before (by decide) isCompleted)
  sweep_sound := by
    intro config index fault pc _ _ invariant
    have checkpoints := sweepStep_checkpoints env config.shared pc
    have store := sweepStep_store env config.shared pc
    exact ⟨invariant.same (sweepStep_terms env config.shared pc) checkpoints
        store fun isCompleted =>
          invariant.completed (sweepStep_before (by decide) isCompleted),
      checkpoints, store⟩
  change_sound := by
    intro config change _ invariant
    have checkpoints := change.apply_checkpoints config.shared
    have store := change.apply_store config.shared
    have status := change.apply_status config.shared
    exact ⟨invariant.same (change.apply_terms config.shared) checkpoints store
        fun isCompleted => invariant.completed (status ▸ isCompleted),
      fun _ _ _ assertion =>
        successionRuns_stable ⟨checkpoints, store⟩ assertion,
      fun _ _ _ _ => trivial⟩

theorem successionOutline_initial {config : Config World Proc}
    (initial : Initial env config) :
    (successionOutline env seen kept).Holds config := by
  apply SystemOutline.holds_of_idle _ initial.idle
  refine ⟨?_, ?_, ?_⟩
  · intro done checkpoint reached
    rw [initial.noCheckpoints] at reached
    simp at reached
  · intro body stored
    rw [initial.noFile] at stored
    cases stored
  · intro isCompleted
    rw [World.status, initial.noJob] at isCompleted
    cases isCompleted

/-- The row was in the table in one of the states, after the job was
created. -/
def SeenIn (states : List (Config World Proc)) (row : RawRecordRow) : Prop :=
  ∃ state ∈ states, state.shared.job ≠ none ∧
    row ∈ state.shared.records.rows

/-- The record was in the table in all of the states since the job was
created. -/
def KeptIn (states : List (Config World Proc)) (id : Int) : Prop :=
  ∀ state ∈ states, state.shared.job ≠ none →
    ∃ row ∈ state.shared.records.rows, row.id = id

/-- However the records changed meanwhile: with successive owners the file of
a completed export has the requested number of rows with strictly increasing
ids in `1..snapshotMaxId`, each of them a version its record had after the job
was created, and each record that existed all the time, up to the last
exported id, exactly once. -/
theorem completedFile_gapless {source target : Config World Proc}
    {events : List (Event Action Change)} (initial : Initial env source)
    (history : (machine env).Exec AloneAtClaim source events target)
    {job : ExportJob} (found : target.shared.job = some job)
    (completed : job.status = .completed) :
    ∃ rows : List RawRecordRow,
      target.shared.store.get? (finalKey env.exportJobId) =
          some (exportBytes rows) ∧
        (rows.length : Int) = job.requestedRowLimit ∧
        Keyset.Ascending RawRecordRow.id rows ∧
        (∀ row ∈ rows, 1 ≤ row.id ∧ row.id ≤ job.snapshotMaxId) ∧
        (∀ row ∈ rows, SeenIn ((machine env).states source events) row) ∧
        ∀ id, KeptIn ((machine env).states source events) id →
          (∃ row ∈ rows, id ≤ row.id) →
          (rows.map RawRecordRow.id).count id = 1 := by
  let states := (machine env).states source events
  have within : (machine env).Exec
      (fun config event => AloneAtClaim config event ∧
        TableWithin (SeenIn states) (KeptIn states) config.shared)
      source events target := by
    refine history.through.mono ?_
    rintro config event ⟨alone, visited, _⟩
    exact ⟨alone, fun present =>
      ⟨fun row member => ⟨config, visited, present, member⟩,
        fun id keptId => keptId config visited present⟩⟩
  obtain ⟨logHolds, _⟩ := (logOutline env _).preserved within
    (logOutline_initial initial)
  obtain ⟨invariant, _⟩ :=
    (successionOutline env (SeenIn states) (KeptIn states)).preserved
      ((logOutline env _).strengthen within (logOutline_initial initial))
      (successionOutline_initial initial)
  have termsEq : target.shared.terms = some job.terms := by
    rw [World.terms, found, Option.map_some]
  have statusEq : target.shared.status = some .completed := by
    rw [World.status, found, Option.map_some, completed]
  obtain ⟨body, stored⟩ :=
    Option.ne_none_iff_exists'.mp (invariant.completed statusEq)
  obtain ⟨⟨terms, known, complete⟩, rows, segment, count, rfl⟩ :=
    invariant.file body stored
  obtain rfl := Option.some.inj (termsEq.symm.trans known)
  have log := logHolds.wellFormed _ termsEq
  have nonempty : target.shared.checkpoints ≠ [] := by
    intro empty
    have positive := log.positive
    rw [← complete, empty] at positive
    exact absurd positive (lt_irrefl 0)
  refine ⟨rows, stored, count.trans complete, segment.ascending, ?_,
    segment.seen, ?_⟩
  · intro row member
    exact ⟨segment.beyond row member,
      le_trans (segment.upTo row member) (log.cursorOf_le nonempty)⟩
  · rintro id keptId ⟨row, member, below⟩
    obtain ⟨present, inTable, rfl⟩ :=
      keptId target (Machine.target_mem_states history) (by simp [found])
    obtain ⟨exported, exportedMember, sameId⟩ :=
      segment.complete _ keptId
        (target.shared.records.drawn present inTable).1
        (le_trans below (segment.upTo row member))
    apply List.count_eq_one_of_mem
    · exact (segment.ascending.map _ fun _ _ less => ne_of_lt less)
    · exact List.mem_map.mpr ⟨exported, exportedMember, sameId⟩

end ExportVault
