import ExportVault.Log

/-!
# Exactness against stable records

While the records up to the boundary stay as they are, every run that writes a
batch writes the same bytes to the same key, whichever runs overlap.  The
invariant ties the log, the chunks, the file being assembled and the final
object to one list, the `selection`.
-/

namespace ExportVault

open Interleaving

/-- The records with the smallest ids in `1..snapshotMaxId`, as many as were
requested, in ascending order. -/
def selection (records : RecordTable) (terms : Terms) : List RawRecordRow :=
  Keyset.page RawRecordRow.id records.rows 0 terms.snapshotMaxId
    terms.requestedRowLimit.toNat

def nextBatch (rows : List RawRecordRow) (batchSize : Int)
    (done : List ExportCheckpoint) : List RawRecordRow :=
  (rows.drop (rowsOf done).toNat).take batchSize.toNat

/-- The log cuts the rows into consecutive batches. -/
structure Tiled (rows : List RawRecordRow) (batchSize : Int)
    (checkpoints : List ExportCheckpoint) : Prop where
  count : ∀ done, done <+: checkpoints → rowsOf done ≤ rows.length
  cursor : ∀ done, done <+: checkpoints →
    cursorOf done =
      Keyset.cursor RawRecordRow.id 0 (rows.take (rowsOf done).toNat)
  batch : ∀ done checkpoint, done ++ [checkpoint] <+: checkpoints →
    checkpoint.rowsWritten = ((nextBatch rows batchSize done).length : Int)

theorem length_selection_le (records : RecordTable) (terms : Terms) :
    (selection records terms).length ≤ terms.requestedRowLimit.toNat :=
  Keyset.length_page_le

theorem selection_within {records : RecordTable} {terms : Terms}
    {row : RawRecordRow} (member : row ∈ selection records terms) :
    row.id ≤ terms.snapshotMaxId :=
  (Keyset.mem_of_mem_page member).2.2

theorem exportBytes_nil : exportBytes [] = utf8 csvHeader := by
  rw [exportBytes, List.map_nil, serializeBatch_nil, String.append_empty]

theorem exportBytes_append (first second : List RawRecordRow) :
    exportBytes (first ++ second) =
      exportBytes first ++ chunkBytes (second.map normaliseRecord) := by
  rw [exportBytes, List.map_append, serializeBatch_append,
    ← String.append_assoc, utf8_append]
  rfl

/-- The batches up to a checkpoint and the batch of the checkpoint. -/
theorem take_nextBatch {rows : List RawRecordRow} {batchSize : Int}
    {done : List ExportCheckpoint} {checkpoint : ExportCheckpoint}
    (nonneg : 0 ≤ rowsOf done)
    (batch : checkpoint.rowsWritten = (nextBatch rows batchSize done).length) :
    rows.take (rowsOf (done ++ [checkpoint])).toNat =
      rows.take (rowsOf done).toNat ++ nextBatch rows batchSize done := by
  have whole :
      (rowsOf (done ++ [checkpoint])).toNat =
        (rowsOf done).toNat + (nextBatch rows batchSize done).length := by
    simp only [rowsOf_append, rowsOf_cons, rowsOf_nil, batch]
    omega
  rw [whole, List.take_add]
  congr 1
  rw [nextBatch, List.length_take, ← List.take_take, List.take_length]

/-- The statement of the run that fetches the batch after `done`. -/
theorem select_eq_nextBatch {records : RecordTable} {terms : Terms}
    {done : List ExportCheckpoint} (nonneg : 0 ≤ rowsOf done)
    (cursor : cursorOf done = Keyset.cursor RawRecordRow.id 0
      ((selection records terms).take (rowsOf done).toNat))
    (less : rowsOf done ≤ terms.requestedRowLimit) :
    selectRecordBatch records (cursorOf done) terms.snapshotMaxId
        (min terms.batchSize (terms.requestedRowLimit - rowsOf done)) =
      nextBatch (selection records terms) terms.batchSize done := by
  have early : (selection records terms).take (rowsOf done).toNat =
      (Keyset.window RawRecordRow.id records.rows 0
        terms.snapshotMaxId).take (rowsOf done).toNat := by
    rw [selection, Keyset.page, List.take_take, min_eq_left (by omega)]
  rw [cursor, early, selectRecordBatch,
    Keyset.page_cursor_take records.ascending, nextBatch, selection,
    Keyset.page, List.drop_take, List.take_take]
  congr 1
  omega

/-- What the log and the store hold once the job exists. -/
structure ExactExport (env : Env) (world : World) (terms : Terms) : Prop where
  tiled : Tiled (selection world.records terms) terms.batchSize
    world.checkpoints
  chunks : ∀ done, done <+: world.checkpoints → ∀ body,
    world.store.get? (chunkKey env.exportJobId (done.length + 1)) =
      some body →
    body = chunkBytes ((nextBatch (selection world.records terms)
      terms.batchSize done).map normaliseRecord)
  file : ∀ body, world.store.get? (finalKey env.exportJobId) = some body →
    body = exportBytes (selection world.records terms) ∧
      ((selection world.records terms).length : Int) =
        terms.requestedRowLimit

structure ExactInvariant (env : Env) (world : World) : Prop where
  noneBeyond : ∀ number : Int, world.checkpoints.length + 1 < number →
    world.store.get? (chunkKey env.exportJobId number) = none
  noneBefore : world.terms = none →
    world.store.get? (chunkKey env.exportJobId 1) = none ∧
      world.store.get? (finalKey env.exportJobId) = none
  exact : ∀ terms, world.terms = some terms → ExactExport env world terms
  completed : world.status = some .completed →
    world.store.get? (finalKey env.exportJobId) ≠ none

structure ExactRely (env : Env) (before after : World) : Prop where
  grows : LogGrows before after
  selection : ∀ terms, before.terms = some terms →
    selection after.records terms = selection before.records terms
  file : before.store.get? (finalKey env.exportJobId) ≠ none →
    after.store.get? (finalKey env.exportJobId) ≠ none

def ExactBatch (world : World) (run : Progress) (rows : List ExportableRow)
    (batchLastId : Int) : Prop :=
  KnowsJob world run.job ∧ ∃ done, done <+: world.checkpoints ∧ run.At done ∧
    rows = (nextBatch (selection world.records run.job.terms)
      run.job.batchSize done).map normaliseRecord ∧
    Fetched run (nextBatch (selection world.records run.job.terms)
      run.job.batchSize done) batchLastId

/-- The chunks read so far are the first rows of the export. -/
def ExactAssembly (world : World) (run : Progress) (batchCount : Int)
    (batchNumber : Int) (assembled : Bytes) : Prop :=
  KnowsJob world run.job ∧ batchNumber ≤ batchCount ∧
    ∃ done, done <+: world.checkpoints ∧ batchNumber = done.length + 1 ∧
      assembled = exportBytes ((selection world.records run.job.terms).take
        (rowsOf done).toNat)

def exactRuns (env : Env) (world : World) : RunPc → Prop
  | .putChunk run rows batchLastId => ExactBatch world run rows batchLastId
  | .confirmChunk run rows batchLastId =>
      ExactBatch world run rows batchLastId
  | .commitBatch run rows batchLastId => ExactBatch world run rows batchLastId
  | .readChunk run batchCount batchNumber assembled =>
      ExactAssembly world run batchCount batchNumber assembled
  | .uploadFinal run assembled =>
      KnowsJob world run.job ∧
        assembled = exportBytes (selection world.records run.job.terms) ∧
        ((selection world.records run.job.terms).length : Int) =
          run.job.requestedRowLimit
  | .headAssembled _ => world.store.get? (finalKey env.exportJobId) ≠ none
  | .verifyHead _ => world.store.get? (finalKey env.exportJobId) ≠ none
  | .verifyRead _ _ => world.store.get? (finalKey env.exportJobId) ≠ none
  | .saveVerification _ _ =>
      world.store.get? (finalKey env.exportJobId) ≠ none
  | .writeCompleted _ => world.store.get? (finalKey env.exportJobId) ≠ none
  | .deletePage _ keys _ _ =>
      ∀ key ∈ keys, hasPrefix (chunkPrefix env.exportJobId) key = true
  | _ => True

variable {env : Env} {before after world : World} {run : Progress}

theorem ExactBatch.stable {rows : List ExportableRow} {batchLastId : Int}
    (batch : ExactBatch before run rows batchLastId)
    (changed : ExactRely env before after) :
    ExactBatch after run rows batchLastId := by
  obtain ⟨knows, done, reached, position, rowsEq, fetched⟩ := batch
  rw [← changed.selection _ knows] at rowsEq fetched
  exact ⟨knows.stable changed.grows, done, reached.trans changed.grows.log,
    position, rowsEq, fetched⟩

theorem ExactAssembly.stable {batchCount batchNumber : Int}
    {assembled : Bytes}
    (assembly : ExactAssembly before run batchCount batchNumber assembled)
    (changed : ExactRely env before after) :
    ExactAssembly after run batchCount batchNumber assembled := by
  obtain ⟨knows, inside, done, reached, number, assembledEq⟩ := assembly
  rw [← changed.selection _ knows] at assembledEq
  exact ⟨knows.stable changed.grows, inside, done,
    reached.trans changed.grows.log, number, assembledEq⟩

theorem exactRuns_stable {pc : RunPc} (changed : ExactRely env before after)
    (assertion : exactRuns env before pc) : exactRuns env after pc := by
  cases pc with
  | putChunk => exact ExactBatch.stable assertion changed
  | confirmChunk => exact ExactBatch.stable assertion changed
  | commitBatch => exact ExactBatch.stable assertion changed
  | readChunk => exact ExactAssembly.stable assertion changed
  | uploadFinal run assembled =>
      obtain ⟨knows, assembledEq, whole⟩ := assertion
      rw [← changed.selection _ knows] at assembledEq whole
      exact ⟨knows.stable changed.grows, assembledEq, whole⟩
  | headAssembled => exact changed.file assertion
  | verifyHead => exact changed.file assertion
  | verifyRead => exact changed.file assertion
  | saveVerification => exact changed.file assertion
  | writeCompleted => exact changed.file assertion
  | deletePage => exact assertion
  | _ => trivial

theorem ExactRely.same (terms : after.terms = before.terms)
    (checkpoints : after.checkpoints = before.checkpoints)
    (store : after.store = before.store)
    (records : after.records = before.records) :
    ExactRely env before after where
  grows := .same terms checkpoints
  selection _ _ := by rw [records]
  file := by rw [store]; exact id

theorem ExactInvariant.same (exact : ExactInvariant env before)
    (terms : after.terms = before.terms)
    (checkpoints : after.checkpoints = before.checkpoints)
    (store : after.store = before.store)
    (records : after.records = before.records)
    (completed : after.status = some .completed →
      before.store.get? (finalKey env.exportJobId) ≠ none) :
    ExactInvariant env after where
  noneBeyond := by rw [checkpoints, store]; exact exact.noneBeyond
  noneBefore := by rw [terms, store]; exact exact.noneBefore
  exact := by
    intro known termsEq
    rw [terms] at termsEq
    obtain ⟨tiled, chunks, file⟩ := exact.exact known termsEq
    exact
      { tiled := by rw [records, checkpoints]; exact tiled
        chunks := by rw [records, checkpoints, store]; exact chunks
        file := by rw [records, store]; exact file }
  completed := by rw [store]; exact completed

/-! ## The batch loop -/

/-- The position of a run is one of the tiling. -/
theorem OnTrack.nonneg {done : List ExportCheckpoint}
    (log : WellFormedLog run.job.terms world.checkpoints)
    (reached : done <+: world.checkpoints) : 0 ≤ rowsOf done := by
  have rows := rowsOf_nonneg _ (log.upTo reached).rows
  omega

theorem exact_fetchBatch (kept : List String)
    (unfinished : Unfinished world run) (log : LogInvariant world)
    (exact : ExactInvariant env world) :
    exactRuns env world (runStep env kept world (.fetchBatch run)).2 := by
  apply fetchBatch_cases env kept (exactRuns env world)
  · intro _
    trivial
  · intro raw batchLastId select fetched
    obtain ⟨done, reached, position⟩ := unfinished.reached
    have wellFormed := unfinished.log log
    have tiled := (exact.exact _ unfinished.job).tiled
    have fetchedEq : raw = nextBatch (selection world.records run.job.terms)
        run.job.batchSize done := by
      rw [← select, position.2.1, Progress.limit, position.2.2]
      exact select_eq_nextBatch (OnTrack.nonneg wellFormed reached)
        (tiled.cursor done reached) (wellFormed.upTo reached).total
    subst fetchedEq
    exact ⟨unfinished.job, done, reached, position, rfl, fetched⟩

/-- Prefixes of one log with one length are one prefix. -/
theorem prefix_eq {first second checkpoints : List ExportCheckpoint}
    (firstReached : first <+: checkpoints)
    (secondReached : second <+: checkpoints)
    (same : first.length = second.length) : first = second :=
  (List.prefix_of_prefix_length_le firstReached secondReached
    (le_of_eq same)).eq_of_length same

theorem exact_putChunk {rows : List ExportableRow} {batchLastId : Int}
    (exact : ExactInvariant env world)
    (batch : ExactBatch world run rows batchLastId) :
    ExactInvariant env (world.putObject
        (chunkKey env.exportJobId run.batchNumber) (chunkBytes rows)) ∧
      ExactRely env world (world.putObject
        (chunkKey env.exportJobId run.batchNumber) (chunkBytes rows)) := by
  obtain ⟨knows, done, reached, position, rowsEq, fetched⟩ := batch
  have inLog := reached.length_le
  have otherFile : ∀ body,
      (world.store.put (chunkKey env.exportJobId run.batchNumber)
        body).get? (finalKey env.exportJobId) =
      world.store.get? (finalKey env.exportJobId) := fun body =>
    ObjectStore.get?_put_of_ne _ body (chunkKey_ne_finalKey _ _).symm
  refine ⟨⟨?_, ?_, ?_, ?_⟩, .same rfl rfl, fun _ _ => rfl, ?_⟩
  · intro number beyond
    have different : chunkKey env.exportJobId number ≠
        chunkKey env.exportJobId run.batchNumber := by
      rw [position.1]
      intro same
      rw [chunkKey_inj (by omega) (by omega)] at same
      simp only [World.putObject_checkpoints] at beyond
      omega
    rw [World.putObject_store, ObjectStore.get?_put_of_ne _ _ different]
    exact exact.noneBeyond number beyond
  · intro unknown
    exact absurd (knows.symm.trans unknown) (by simp)
  · intro terms termsEq
    obtain rfl := Option.some.inj (knows.symm.trans termsEq)
    obtain ⟨tiled, chunks, file⟩ := exact.exact _ knows
    refine ⟨tiled, ?_, ?_⟩
    · intro other otherReached body stored
      by_cases same : other.length = done.length
      · obtain rfl := prefix_eq otherReached reached same
        rw [← position.1] at stored
        simp only [World.putObject_store, ObjectStore.get?_put_self,
          Option.some.injEq] at stored
        rw [← stored, rowsEq]
        rfl
      · have different : chunkKey env.exportJobId (other.length + 1) ≠
            chunkKey env.exportJobId run.batchNumber := by
          rw [position.1]
          intro sameKey
          rw [chunkKey_inj (by omega) (by omega)] at sameKey
          omega
        rw [World.putObject_store,
          ObjectStore.get?_put_of_ne _ _ different] at stored
        exact chunks other otherReached body stored
    · rw [World.putObject_store, otherFile]
      exact file
  · intro isCompleted
    rw [World.putObject_store, otherFile]
    exact exact.completed isCompleted
  · rw [World.putObject_store, otherFile]
    exact id

/-- A batch read from the log's position extends the tiling. -/
theorem Tiled.concat {rows : List RawRecordRow} {batchSize : Int}
    {checkpoints : List ExportCheckpoint} (checkpoint : ExportCheckpoint)
    (tiled : Tiled rows batchSize checkpoints)
    (nonneg : 0 ≤ rowsOf checkpoints)
    (batch : checkpoint.rowsWritten =
      (nextBatch rows batchSize checkpoints).length)
    (last : checkpoint.lastRecordId =
      Keyset.cursor RawRecordRow.id (cursorOf checkpoints)
        (nextBatch rows batchSize checkpoints)) :
    Tiled rows batchSize (checkpoints ++ [checkpoint]) := by
  have cases : ∀ done, done <+: checkpoints ++ [checkpoint] →
      done <+: checkpoints ∨ done = checkpoints ++ [checkpoint] := by
    intro done reached
    rcases List.prefix_concat_iff.mp reached with whole | early
    · exact .inr whole
    · exact .inl early
  have whole := take_nextBatch nonneg batch
  have counted : rowsOf (checkpoints ++ [checkpoint]) ≤ rows.length := by
    have within := tiled.count checkpoints (List.prefix_refl _)
    simp only [nextBatch, List.length_take, List.length_drop] at batch
    simp only [rowsOf_append, rowsOf_cons, rowsOf_nil, batch]
    omega
  refine ⟨?_, ?_, ?_⟩
  · intro done reached
    rcases cases done reached with early | rfl
    · exact tiled.count done early
    · exact counted
  · intro done reached
    rcases cases done reached with early | rfl
    · exact tiled.cursor done early
    · rw [cursorOf_concat, last, whole, Keyset.cursor_append,
        ← tiled.cursor checkpoints (List.prefix_refl _)]
  · intro done other reached
    rcases cases _ reached with early | same
    · exact tiled.batch done other early
    · obtain ⟨rfl, lastEq⟩ := List.append_inj' same rfl
      obtain rfl := List.singleton_inj.mp lastEq
      exact batch

theorem exact_commit {rows : List ExportableRow} {batchLastId : Int}
    (track : OnTrack world run) (log : LogInvariant world)
    (exact : ExactInvariant env world)
    (batch : ExactBatch world run rows batchLastId) :
    ExactInvariant env (commitStep world run rows batchLastId).1 ∧
      exactRuns env (commitStep world run rows batchLastId).1
        (commitStep world run rows batchLastId).2 ∧
      ExactRely env world (commitStep world run rows batchLastId).1 := by
  apply commitBatch_cases track log fun result =>
    ExactInvariant env result.1 ∧ exactRuns env result.1 result.2 ∧
      ExactRely env world result.1
  · intro error
    exact ⟨exact, trivial, .same rfl rfl rfl rfl⟩
  · intro after position afterEq
    obtain ⟨knows, done, reached, doneAt, rowsEq, fetched⟩ := batch
    have sameLength : done.length = world.checkpoints.length := by
      have first := doneAt.1
      have second := position.1
      omega
    obtain rfl := prefix_eq reached (List.prefix_refl _) sameLength
    obtain ⟨tiled, chunks, file⟩ := exact.exact _ knows
    have nonneg := OnTrack.nonneg (track.log log) (List.prefix_refl _)
    have longer := tiled.concat
      { batchNumber := run.batchNumber
        lastRecordId := batchLastId
        rowsWritten := rows.length } nonneg
      (by rw [rowsEq, List.length_map]; rfl)
      (by
        rw [← doneAt.2.1]
        exact fetched.last.symm)
    have sameTerms : after.terms = world.terms := by
      rw [afterEq]
      simp only [World.terms, Option.map_map]
      rfl
    have sameStatus : after.status = world.status := by
      rw [afterEq]
      simp only [World.status, Option.map_map]
      rfl
    have sameStore : after.store = world.store := by rw [afterEq]
    have sameRecords : after.records = world.records := by rw [afterEq]
    have checkpointsEq : after.checkpoints = world.checkpoints ++
        [{ batchNumber := run.batchNumber
           lastRecordId := batchLastId
           rowsWritten := rows.length }] := by rw [afterEq]
    refine ⟨⟨?_, ?_, ?_, ?_⟩, ?_, ⟨?_, ?_⟩, ?_, ?_⟩
    · intro number beyond
      rw [sameStore]
      apply exact.noneBeyond
      rw [checkpointsEq, List.length_append] at beyond
      omega
    · intro unknown
      exact absurd (knows.symm.trans (sameTerms.symm.trans unknown)) (by simp)
    · intro terms termsEq
      rw [sameTerms] at termsEq
      obtain rfl := Option.some.inj (knows.symm.trans termsEq)
      refine ⟨?_, ?_, ?_⟩
      · rw [checkpointsEq, sameRecords]
        exact longer
      · intro other otherReached body stored
        rw [sameStore] at stored
        rw [checkpointsEq] at otherReached
        rcases List.prefix_concat_iff.mp otherReached with rfl | early
        · -- nothing is stored beyond the batch just committed
          rw [exact.noneBeyond _ (by simp)] at stored
          cases stored
        · rw [sameRecords]
          exact chunks other early body stored
      · rw [sameStore, sameRecords]
        exact file
    · rw [sameStatus, sameStore]
      exact exact.completed
    · exact RunPc.loopTop_cases (motive := exactRuns env after) _
        (fun _ => trivial) (fun _ _ => trivial) fun _ => trivial
    · intro terms termsEq
      exact sameTerms.trans termsEq
    · rw [checkpointsEq]
      exact List.prefix_append _ _
    · intro terms _
      rw [sameRecords]
    · rw [sameStore]
      exact id

/-- Past the loop the log accounts for the whole selection. -/
theorem Finished.whole (finished : Finished world run)
    (log : LogInvariant world) (exact : ExactInvariant env world) :
    rowsOf world.checkpoints = run.job.requestedRowLimit ∧
      ((selection world.records run.job.terms).length : Int) =
        run.job.requestedRowLimit := by
  have complete : rowsOf world.checkpoints = run.job.requestedRowLimit :=
    (finished.at_log log).2.2.symm.trans finished.all
  have counted := (exact.exact _ finished.job).tiled.count _
    (List.prefix_refl _)
  have bounded := length_selection_le world.records run.job.terms
  have positive : 0 < run.job.requestedRowLimit := (finished.log log).positive
  have limit : run.job.terms.requestedRowLimit = run.job.requestedRowLimit :=
    rfl
  omega

theorem exact_assembleFrom {batchCount : Int} {done : List ExportCheckpoint}
    (finished : Finished world run) (log : LogInvariant world)
    (exact : ExactInvariant env world)
    (count : run.batchNumber = batchCount + 1)
    (reached : done <+: world.checkpoints) :
    exactRuns env world (.assembleFrom run batchCount (done.length + 1)
      (exportBytes ((selection world.records run.job.terms).take
        (rowsOf done).toNat))) := by
  rw [RunPc.assembleFrom]
  split
  · next more => exact ⟨finished.job, more, done, reached, rfl, rfl⟩
  · next noMore =>
      have position := (finished.at_log log).1
      have inLog := reached.length_le
      obtain rfl := prefix_eq reached (List.prefix_refl _) (by omega)
      obtain ⟨complete, whole⟩ := finished.whole log exact
      refine ⟨finished.job, ?_, whole⟩
      rw [complete, List.take_of_length_le (by omega)]

theorem exact_readChunk {batchCount batchNumber : Int} {assembled : Bytes}
    (kept : List String) (finished : Finished world run)
    (log : LogInvariant world) (exact : ExactInvariant env world)
    (count : run.batchNumber = batchCount + 1)
    (assembly : ExactAssembly world run batchCount batchNumber assembled) :
    exactRuns env world
      (runStep env kept world
        (.readChunk run batchCount batchNumber assembled)).2 := by
  obtain ⟨knows, inside, done, reached, rfl, rfl⟩ := assembly
  simp only [runStep]
  split
  · trivial
  · next body stored =>
      have position := (finished.at_log log).1
      obtain ⟨rest, whole⟩ := reached
      cases rest with
      | nil =>
          rw [List.append_nil] at whole
          rw [whole] at inside
          omega
      | cons checkpoint rest =>
          have reached : done <+: world.checkpoints :=
            whole ▸ List.prefix_append _ _
          have reachedNext : done ++ [checkpoint] <+: world.checkpoints := by
            rw [← whole]
            exact (List.prefix_append_right_inj done).mpr ⟨rest, rfl⟩
          obtain ⟨tiled, chunks, _⟩ := exact.exact _ finished.job
          rw [chunks done reached body stored, ← exportBytes_append,
            ← take_nextBatch (OnTrack.nonneg (finished.log log) reached)
              (tiled.batch done checkpoint reachedNext)]
          have next := exact_assembleFrom finished log exact count reachedNext
          rwa [List.length_append, List.length_singleton, Nat.cast_add,
            Nat.cast_one] at next

theorem exact_uploadFinal {assembled : Bytes} (exact : ExactInvariant env world)
    (knows : KnowsJob world run.job)
    (assembledEq : assembled =
      exportBytes (selection world.records run.job.terms))
    (whole : ((selection world.records run.job.terms).length : Int) =
      run.job.requestedRowLimit) :
    ExactInvariant env
        (world.putObject (finalKey env.exportJobId) assembled) ∧
      ExactRely env world
        (world.putObject (finalKey env.exportJobId) assembled) := by
  have otherChunk : ∀ number,
      (world.store.put (finalKey env.exportJobId) assembled).get?
        (chunkKey env.exportJobId number) =
      world.store.get? (chunkKey env.exportJobId number) := fun number =>
    ObjectStore.get?_put_of_ne _ _ (chunkKey_ne_finalKey _ _)
  refine ⟨⟨?_, ?_, ?_, ?_⟩, .same rfl rfl, fun _ _ => rfl, ?_⟩
  · intro number beyond
    rw [World.putObject_store, otherChunk]
    exact exact.noneBeyond number beyond
  · intro unknown
    exact absurd (knows.symm.trans unknown) (by simp)
  · intro terms termsEq
    obtain rfl := Option.some.inj (knows.symm.trans termsEq)
    obtain ⟨tiled, chunks, _⟩ := exact.exact _ knows
    refine ⟨tiled, ?_, ?_⟩
    · intro done reached body stored
      rw [World.putObject_store, otherChunk] at stored
      exact chunks done reached body stored
    · intro body stored
      rw [World.putObject_store, ObjectStore.get?_put_self] at stored
      obtain rfl := Option.some.inj stored
      exact ⟨assembledEq, whole⟩
  · intro _
    rw [World.putObject_store, ObjectStore.get?_put_self]
    exact Option.some_ne_none _
  · intro _
    rw [World.putObject_store, ObjectStore.get?_put_self]
    exact Option.some_ne_none _

/-- Deleting chunks changes no object and keeps the file. -/
theorem exact_deletePage {keys : List String} (kept : List String)
    (exact : ExactInvariant env world)
    (listed : ∀ key ∈ keys,
      hasPrefix (chunkPrefix env.exportJobId) key = true) :
    ExactInvariant env (world.deleteObjects keys kept) ∧
      ExactRely env world (world.deleteObjects keys kept) := by
  have fileKept :
      (world.store.deleteObjects keys kept).get? (finalKey env.exportJobId) =
        world.store.get? (finalKey env.exportJobId) := by
    apply ObjectStore.get?_deleteObjects_of_notMem
    intro member
    have isPrefix := listed _ member
    rw [not_hasPrefix_finalKey] at isPrefix
    cases isPrefix
  have gone : ∀ key, world.store.get? key = none →
      (world.store.deleteObjects keys kept).get? key = none := by
    intro key absent
    rw [Option.eq_none_iff_forall_ne_some] at absent ⊢
    intro body stored
    exact absent body (ObjectStore.get?_of_get?_deleteObjects stored)
  refine ⟨⟨?_, ?_, ?_, ?_⟩, .same rfl rfl, fun _ _ => rfl, ?_⟩
  · intro number beyond
    exact gone _ (exact.noneBeyond number beyond)
  · intro unknown
    obtain ⟨noChunk, noFile⟩ := exact.noneBefore unknown
    exact ⟨gone _ noChunk, gone _ noFile⟩
  · intro terms termsEq
    obtain ⟨tiled, chunks, file⟩ := exact.exact terms termsEq
    refine ⟨tiled, ?_, ?_⟩
    · intro done reached body stored
      exact chunks done reached body
        (ObjectStore.get?_of_get?_deleteObjects stored)
    · rw [World.deleteObjects_store, fileKept]
      exact file
  · intro isCompleted
    rw [World.deleteObjects_store, fileKept]
    exact exact.completed isCompleted
  · rw [World.deleteObjects_store, fileKept]
    exact id

theorem exact_nextPage (outcome : RunOutcome) (token : Option String)
    (deleted : Nat) :
    exactRuns env world (.nextPage outcome token deleted) := by
  exact RunPc.nextPage_cases (motive := exactRuns env world) outcome token
    deleted trivial fun _ => trivial

/-- A statement that touches neither log nor store goes on in step. -/
theorem exactRuns_step (kept : List String) {pc : RunPc}
    (noCommit : pc.commits = false) (noStore : pc.stores = false)
    (known : logRuns world pc) (log : LogInvariant world)
    (exact : ExactInvariant env world)
    (assertion : exactRuns env world pc) :
    exactRuns env world (runStep env kept world pc).2 := by
  have looped : ∀ run : Progress, exactRuns env world (.loopTop run) := by
    intro run
    exact RunPc.loopTop_cases (motive := exactRuns env world) run
      (fun _ => trivial) (fun _ _ => trivial) fun _ => trivial
  cases pc with
  | putChunk | uploadFinal | deletePage => cases noStore
  | commitBatch => cases noCommit
  | findJob =>
      simp only [runStep, afterFindJob]
      repeat' split
      all_goals trivial
  | claim =>
      simp only [runStep, claimStep]
      split <;> trivial
  | loadResume =>
      simp only [runStep]
      split <;> trivial
  | readProgress =>
      simp only [runStep]
      split
      · exact looped _
      · trivial
  | reconcile => exact looped _
  | pollCancel =>
      simp only [runStep]
      split <;> trivial
  | fetchBatch run => exact exact_fetchBatch kept known log exact
  | confirmChunk run rows batchLastId =>
      simp only [runStep, confirmStep]
      split
      · trivial
      · split
        · trivial
        · exact assertion
  | loadFinal run =>
      simp only [runStep, finalStep]
      repeat' split
      all_goals trivial
  | writeVerifying run batchCount =>
      have nothing : [] <+: world.checkpoints := List.nil_prefix
      have next := exact_assembleFrom known.1 log exact known.2 nothing
      simpa [runStep, exportBytes_nil] using next
  | readChunk run batchCount batchNumber assembled =>
      exact exact_readChunk kept known.1 log exact known.2 assertion
  | headAssembled run =>
      simp only [runStep]
      split
      · trivial
      · split
        · trivial
        · exact assertion
  | verifyHead run =>
      simp only [runStep]
      split
      · trivial
      · exact assertion
  | verifyRead run fileBytes =>
      simp only [runStep]
      split
      · trivial
      · split
        · trivial
        · exact assertion
  | saveVerification run result =>
      simp only [runStep]
      split
      · split
        · exact assertion
        · trivial
      · trivial
  | listChunks outcome token deleted =>
      simp only [runStep]
      split
      · exact fun key member =>
          ObjectStore.hasPrefix_of_mem_listObjectsV2 member
      · exact exact_nextPage _ _ _
  | recordFailure error exit => cases exit <;> trivial
  | _ => trivial

theorem selection_of_upTo {records table : RecordTable} {terms : Terms}
    (same : table.upTo terms.snapshotMaxId =
      records.upTo terms.snapshotMaxId) :
    selection table terms = selection records terms := by
  have windowEq : ∀ records : RecordTable,
      Keyset.window RawRecordRow.id records.rows 0 terms.snapshotMaxId =
        (records.upTo terms.snapshotMaxId).filter fun row =>
          decide (0 < row.id) := by
    intro records
    rw [Keyset.window, RecordTable.upTo, List.filter_filter]
    apply List.filter_congr
    intro row _
    simp
  rw [selection, selection, Keyset.page, Keyset.page, windowEq, windowEq,
    same]

theorem exact_change {change : Change}
    (stable : ∀ terms, world.terms = some terms →
      selection (change.apply world).records terms =
        selection world.records terms)
    (exact : ExactInvariant env world) :
    ExactInvariant env (change.apply world) ∧
      ExactRely env world (change.apply world) := by
  have terms := change.apply_terms world
  have checkpoints := change.apply_checkpoints world
  have store := change.apply_store world
  have status := change.apply_status world
  refine ⟨⟨?_, ?_, ?_, ?_⟩, .same terms checkpoints, stable, ?_⟩
  · rw [checkpoints, store]
    exact exact.noneBeyond
  · rw [terms, store]
    exact exact.noneBefore
  · intro known termsEq
    rw [terms] at termsEq
    obtain ⟨tiled, chunks, file⟩ := exact.exact known termsEq
    refine ⟨?_, ?_, ?_⟩
    · rw [stable known termsEq, checkpoints]
      exact tiled
    · rw [stable known termsEq, checkpoints, store]
      exact chunks
    · rw [stable known termsEq, store]
      exact file
  · rw [status, store]
    exact exact.completed
  · rw [store]
    exact id

/-- The command that creates the job finds no object of it. -/
theorem exact_insertJob {userId : String} {rowLimit snapshotMaxId : Int}
    (log : LogInvariant world) (exact : ExactInvariant env world)
    (absent : world.job = none) :
    ExactInvariant env
        (apiStep env world (.insertJob userId rowLimit snapshotMaxId)).1 ∧
      ExactRely env world
        (apiStep env world (.insertJob userId rowLimit snapshotMaxId)).1 := by
  have unknown : world.terms = none := by
    rw [World.terms, absent, Option.map_none]
  have empty := log.empty unknown
  obtain ⟨noChunk, noFile⟩ := exact.noneBefore unknown
  simp only [apiStep, absent]
  refine ⟨⟨exact.noneBeyond, ?_, ?_, ?_⟩, ⟨?_, List.prefix_refl _⟩, ?_, id⟩
  · intro stillUnknown
    simp [World.terms] at stillUnknown
  · intro terms _
    simp only [empty]
    refine ⟨⟨?_, ?_, ?_⟩, ?_, ?_⟩
    · intro done reached
      rw [List.prefix_nil.mp reached]
      simp
    · intro done reached
      rw [List.prefix_nil.mp reached]
      simp
    · intro done checkpoint reached
      simp at reached
    · intro done reached body stored
      rw [List.prefix_nil.mp reached] at stored
      simp only [List.length_nil, Nat.cast_zero, zero_add, noChunk] at stored
      cases stored
    · intro body stored
      simp only [noFile] at stored
      cases stored
  · intro isCompleted
    simp [World.status, newExportJob] at isCompleted
  · intro terms termsEq
    exact absurd (unknown.symm.trans termsEq) (by simp)
  · intro terms termsEq
    exact absurd (unknown.symm.trans termsEq) (by simp)

/-- A statement of a run keeps the invariant. -/
theorem exact_runStep (kept : List String) {pc : RunPc}
    (known : logRuns world pc) (log : LogInvariant world)
    (exact : ExactInvariant env world)
    (assertion : exactRuns env world pc) :
    ExactInvariant env (runStep env kept world pc).1 ∧
      exactRuns env (runStep env kept world pc).1
        (runStep env kept world pc).2 ∧
      ExactRely env world (runStep env kept world pc).1 := by
  by_cases commits : pc.commits = true
  · cases pc with
    | commitBatch run rows batchLastId =>
        have batch : HasBatch world run rows batchLastId := known
        exact exact_commit batch.toOnTrack log exact assertion
    | _ => cases commits
  by_cases stores : pc.stores = true
  · cases pc with
    | putChunk run rows batchLastId =>
        obtain ⟨invariantAfter, changed⟩ := exact_putChunk exact assertion
        exact ⟨invariantAfter, ExactBatch.stable assertion changed, changed⟩
    | uploadFinal run assembled =>
        obtain ⟨knows, assembledEq, whole⟩ := assertion
        obtain ⟨invariantAfter, changed⟩ :=
          exact_uploadFinal exact knows assembledEq whole
        refine ⟨invariantAfter, ?_, changed⟩
        simp [runStep, exactRuns]
    | deletePage outcome keys token deleted =>
        obtain ⟨invariantAfter, changed⟩ :=
          exact_deletePage kept exact assertion
        exact ⟨invariantAfter, exact_nextPage _ _ _, changed⟩
    | _ => cases stores
  · simp only [Bool.not_eq_true] at commits stores
    have terms := runStep_terms env kept world pc
    have checkpoints := runStep_checkpoints env kept world commits
    have store := runStep_store env kept world stores
    have records := runStep_records env kept world pc
    have changed : ExactRely env world (runStep env kept world pc).1 :=
      .same terms checkpoints store records
    refine ⟨exact.same terms checkpoints store records ?_,
      exactRuns_stable changed
        (exactRuns_step kept commits stores known log exact assertion),
      changed⟩
    intro isCompleted
    by_cases completes : pc.sets = some .completed
    · cases pc with
      | writeCompleted run => exact assertion
      | _ => cases completes
    · exact exact.completed
        ((runStep_status env kept world pc).before completes isCompleted)

/-- Exactness under every interleaving of runs, commands and sweeps. -/
def exactOutline (env : Env) :
    SystemOutline env fun config event => StableRecords config event ∧
      (logOutline env StableRecords).Holds config where
  invariant := ExactInvariant env
  runs := exactRuns env
  rely := ExactRely env
  invariant_passive same exact :=
    exact.same same.terms same.checkpoints same.store same.records
      fun isCompleted => exact.completed (same.status ▸ isCompleted)
  rely_passive same :=
    .same same.terms same.checkpoints same.store same.records
  stable_runs := exactRuns_stable
  runs_findJob _ := trivial
  runs_ended world pc ended := by
    cases pc <;> trivial
  runs_caught _ _ := trivial
  run_sound := by
    intro config index fault pc kept allowed here _ exact assertion
    obtain ⟨invariantAfter, assertionAfter, changed⟩ :=
      exact_runStep kept (allowed.2.run here) allowed.2.1 exact assertion
    exact ⟨invariantAfter, assertionAfter, .inl changed⟩
  command_sound := by
    intro config index fault pc allowed here _ exact _
    have log : LogInvariant config.shared := allowed.2.1
    have checkpoints := apiStep_checkpoints env config.shared pc
    have store := apiStep_store env config.shared pc
    have records := apiStep_records env config.shared pc
    by_cases other : pc.inserts = false ∨ config.shared.job ≠ none
    · have terms := apiStep_terms env other
      exact ⟨exact.same terms checkpoints store records fun isCompleted =>
          exact.completed (apiStep_before (by decide) isCompleted),
        trivial, .same terms checkpoints store records⟩
    · simp only [not_or, not_not, Bool.not_eq_false] at other
      obtain ⟨inserts, absent⟩ := other
      cases pc with
      | insertJob =>
          obtain ⟨invariantAfter, changed⟩ :=
            exact_insertJob log exact absent
          exact ⟨invariantAfter, trivial, changed⟩
      | _ => cases inserts
  sweep_sound := by
    intro config index fault pc _ _ exact
    have terms := sweepStep_terms env config.shared pc
    have checkpoints := sweepStep_checkpoints env config.shared pc
    have store := sweepStep_store env config.shared pc
    have records := sweepStep_records env config.shared pc
    exact ⟨exact.same terms checkpoints store records fun isCompleted =>
        exact.completed (sweepStep_before (by decide) isCompleted),
      .same terms checkpoints store records⟩
  change_sound := by
    intro config change allowed exact
    have stable : ∀ terms, config.shared.terms = some terms →
        selection (change.apply config.shared).records terms =
          selection config.shared.records terms := by
      intro terms termsEq
      obtain ⟨job, found, rfl⟩ := Option.map_eq_some_iff.mp termsEq
      cases change with
      | tick => rfl
      | setRecords table => exact selection_of_upTo (allowed.1 job found)
    obtain ⟨invariantAfter, changed⟩ := exact_change stable exact
    exact ⟨invariantAfter,
      fun _ _ _ assertion => exactRuns_stable changed assertion,
      fun _ _ _ _ => trivial⟩

theorem exactOutline_initial {config : Config World Proc}
    (initial : Initial env config) :
    (exactOutline env).Holds config := by
  apply SystemOutline.holds_of_idle _ initial.idle
  have noChunk : ∀ number, config.shared.store.get?
      (chunkKey env.exportJobId number) = none := fun number =>
    initial.noChunks _ (hasPrefix_chunkKey _ _)
  refine ⟨fun number _ => noChunk number,
    fun _ => ⟨noChunk 1, initial.noFile⟩, fun terms termsEq => ?_,
    fun isCompleted => ?_⟩
  · rw [World.terms, initial.noJob] at termsEq
    cases termsEq
  · rw [World.status, initial.noJob] at isCompleted
    cases isCompleted

/-- Both outlines hold after every history with stable records. -/
theorem exact_preserved {source target : Config World Proc}
    {events : List (Event Action Change)} (initial : Initial env source)
    (history : (machine env).Exec StableRecords source events target) :
    (logOutline env StableRecords).Holds target ∧
      (exactOutline env).Holds target :=
  ⟨(logOutline env StableRecords).preserved history
      (logOutline_initial initial),
    (exactOutline env).preserved
      ((logOutline env StableRecords).strengthen history
        (logOutline_initial initial))
      (exactOutline_initial initial)⟩

/-- Whatever runs, commands, sweeps, crashes and faults there were: the file
of a completed export is the header and the requested number of records with
the smallest ids in `1..snapshotMaxId`, in ascending order. -/
theorem completedFile_exact {source target : Config World Proc}
    {events : List (Event Action Change)} (initial : Initial env source)
    (history : (machine env).Exec StableRecords source events target)
    {job : ExportJob} (found : target.shared.job = some job)
    (completed : job.status = .completed) :
    target.shared.store.get? (finalKey env.exportJobId) =
        some (exportBytes (selection target.shared.records job.terms)) ∧
      ((selection target.shared.records job.terms).length : Int) =
        job.requestedRowLimit := by
  obtain ⟨_, exact⟩ := exact_preserved initial history
  have termsEq : target.shared.terms = some job.terms := by
    rw [World.terms, found, Option.map_some]
  have statusEq : target.shared.status = some .completed := by
    rw [World.status, found, Option.map_some, completed]
  obtain ⟨body, stored⟩ :=
    Option.ne_none_iff_exists'.mp (exact.1.completed statusEq)
  obtain ⟨bodyEq, whole⟩ := (exact.1.exact _ termsEq).file body stored
  exact ⟨bodyEq ▸ stored, whole⟩

end ExportVault
