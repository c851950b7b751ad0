import ExportVault.Log

/-!
# Chunks and checkpoints

A checkpoint is never taken back, but its chunk is an object that any run can
overwrite, and that is deleted after a terminal status has been written.  Two
invariants say when the two stay together.  `ChunksStored`: while the export is
not over, the chunk of every checkpoint is stored.  `ChunksMatch`: a stored
chunk holds the rows its checkpoint speaks of.
-/

namespace ExportVault

open Interleaving

/-- The status is `COMPLETED` or `CANCELLED`. -/
def World.ended (world : World) : Bool :=
  world.status.any ExportStatus.terminal

def RunPc.uncommitted : RunPc → Option (Int × Bytes)
  | .confirmChunk run rows _ => some (run.batchNumber, chunkBytes rows)
  | .commitBatch run rows _ => some (run.batchNumber, chunkBytes rows)
  | _ => none

def RunPc.deletes : RunPc → Bool
  | .deletePage _ _ _ _ => true
  | _ => false

/-- There is an object for the batch. -/
def World.Stores (env : Env) (world : World) (number : Int) : Prop :=
  world.store.get? (chunkKey env.exportJobId number) ≠ none

/-- No chunk of a checkpoint is missing, nor one that a run is about to
commit. -/
structure ChunksStored (env : Env) (config : Config World Proc) : Prop where
  checkpointed : ∀ checkpoint ∈ config.shared.checkpoints,
    config.shared.Stores env checkpoint.batchNumber
  uncommitted : ∀ index pc number body, config.procs index = .run pc →
    pc.uncommitted = some (number, body) → config.shared.Stores env number

/-- Chunks are deleted only while the export is over, and that it is over is
taken back only while no chunk is missing. -/
def ChunksSpared (env : Env) : Condition := fun config event =>
  ∀ index action, event = .act index action →
    (∀ pc fault, config.procs index = .run pc → pc.deletes = true →
      action = .call fault → fault.lands = true →
      config.shared.ended = true) ∧
    (∀ status,
      (config.procs index).writes config.shared action = some status →
      status.terminal = false → config.shared.ended = true →
      ChunksStored env config)

/-- The chunk holds the rows the checkpoint speaks of: as many as it says, the
last one with the id it says, the first one beyond the cursor before it. -/
def ChunkHolds (floor : Int) (checkpoint : ExportCheckpoint) (body : Bytes) :
    Prop :=
  ∃ rows : List RawRecordRow, rows ≠ [] ∧
    Keyset.Ascending RawRecordRow.id rows ∧
    (∀ row ∈ rows, floor < row.id) ∧
    Keyset.cursor RawRecordRow.id floor rows = checkpoint.lastRecordId ∧
    (rows.length : Int) = checkpoint.rowsWritten ∧
    body = chunkBytes (rows.map normaliseRecord)

/-- The stored chunks hold what their checkpoints, or the runs that are about
to commit them, speak of. -/
structure ChunksMatch (env : Env) (config : Config World Proc) : Prop where
  checkpointed : ∀ done checkpoint,
    done ++ [checkpoint] <+: config.shared.checkpoints → ∀ body,
    config.shared.store.get?
        (chunkKey env.exportJobId checkpoint.batchNumber) = some body →
      ChunkHolds (cursorOf done) checkpoint body
  uncommitted : ∀ index pc number body, config.procs index = .run pc →
    pc.uncommitted = some (number, body) →
    number = config.shared.checkpoints.length + 1 → ∀ stored,
    config.shared.store.get? (chunkKey env.exportJobId number) =
      some stored → stored = body

/-- A run writes a batch only where this replaces neither a checkpointed chunk
nor one that another run is about to commit, or the bytes are the same. -/
def PutsAgree (env : Env) : Condition := fun config event =>
  ∀ index fault run rows batchLastId, event = .act index (.call fault) →
    config.procs index = .run (.putChunk run rows batchLastId) →
    fault.lands = true →
    (∀ checkpoint ∈ config.shared.checkpoints,
      checkpoint.batchNumber = run.batchNumber →
      config.shared.store.get? (chunkKey env.exportJobId run.batchNumber) =
        some (chunkBytes rows)) ∧
    ∀ other pc body, other ≠ index → config.procs other = .run pc →
      pc.uncommitted = some (run.batchNumber, body) → body = chunkBytes rows

variable {env : Env} {before after world : World}

theorem uncommitted_loopTop (run : Progress) :
    (RunPc.loopTop run).uncommitted = none := by
  exact RunPc.loopTop_cases (motive := fun next =>
    next.uncommitted = none) run (fun _ => rfl) (fun _ _ => rfl)
    fun _ => rfl

theorem uncommitted_nextPage (outcome : RunOutcome) (token : Option String)
    (deleted : Nat) :
    (RunPc.nextPage outcome token deleted).uncommitted = none := by
  exact RunPc.nextPage_cases (motive := fun next =>
    next.uncommitted = none) outcome token deleted rfl fun _ => rfl

theorem uncommitted_onError (pc : RunPc) (error : AppError) :
    (pc.onError error).uncommitted = none := by
  refine RunPc.onError_cases (motive := fun next => next.uncommitted = none)
    pc error ?_ fun _ => rfl
  intro next ended
  cases next <;> first | rfl | cases ended

/-- A run has an uncommitted batch because it has just written it, or has
just found it in the store. -/
theorem uncommitted_runStep {kept : List String} {pc : RunPc} {number : Int}
    {body : Bytes}
    (written : (runStep env kept world pc).2.uncommitted =
      some (number, body)) :
    pc.uncommitted = some (number, body) ∨
      ∃ run rows batchLastId, pc = .putChunk run rows batchLastId ∧
        number = run.batchNumber ∧ body = chunkBytes rows := by
  have never : (runStep env kept world pc).2.uncommitted = none →
      pc.uncommitted = some (number, body) ∨
        ∃ run rows batchLastId, pc = .putChunk run rows batchLastId ∧
          number = run.batchNumber ∧ body = chunkBytes rows := by
    intro free
    rw [free] at written
    cases written
  cases pc with
  | putChunk run rows batchLastId =>
      obtain ⟨rfl, rfl⟩ := Prod.mk.inj (Option.some.inj written)
      exact .inr ⟨run, rows, batchLastId, rfl, rfl, rfl⟩
  | confirmChunk run rows batchLastId =>
      simp only [runStep, confirmStep] at written
      split at written
      · cases written
      · split at written
        · cases written
        · exact .inl written
  | findJob =>
      apply never
      simp only [runStep, afterFindJob]
      repeat' split
      all_goals rfl
  | claim =>
      apply never
      simp only [runStep, claimStep]
      split <;> rfl
  | loadResume | pollCancel | verifyHead =>
      apply never
      simp only [runStep]
      split <;> rfl
  | readProgress job resume =>
      apply never
      simp only [runStep]
      split
      · exact uncommitted_loopTop _
      · rfl
  | reconcile => exact never (uncommitted_loopTop _)
  | fetchBatch =>
      apply never
      simp only [runStep]
      repeat' split
      all_goals rfl
  | commitBatch =>
      apply never
      simp only [runStep, commitStep]
      split
      · rfl
      · exact uncommitted_loopTop _
  | loadFinal =>
      apply never
      simp only [runStep, finalStep]
      repeat' split
      all_goals rfl
  | writeVerifying =>
      apply never
      simp only [runStep, RunPc.assembleFrom]
      split <;> rfl
  | readChunk | headAssembled | verifyRead | saveVerification =>
      apply never
      simp only [runStep, RunPc.assembleFrom]
      repeat' split
      all_goals rfl
  | listChunks =>
      apply never
      simp only [runStep]
      split
      · rfl
      · exact uncommitted_nextPage _ _ _
  | deletePage => exact never (uncommitted_nextPage _ _ _)
  | recordFailure error exit => exact never (by cases exit <;> rfl)
  | _ => exact never rfl

theorem uncommitted_runCall {pc : RunPc} {fault : Fault} {number : Int}
    {body : Bytes}
    (written : (runCall env world pc fault).2.uncommitted =
      some (number, body)) :
    fault.fails = false ∧
      (pc.uncommitted = some (number, body) ∨
        ∃ run rows batchLastId, pc = .putChunk run rows batchLastId ∧
          number = run.batchNumber ∧ body = chunkBytes rows) := by
  cases fault with
  | none => exact ⟨rfl, uncommitted_runStep written⟩
  | keeping kept => exact ⟨rfl, uncommitted_runStep written⟩
  | refused message =>
      simp only [runCall, uncommitted_onError] at written
      cases written
  | lost message =>
      simp only [runCall, uncommitted_onError] at written
      cases written

/-- A run that does not delete leaves every chunk in the store. -/
theorem stores_runStep (kept : List String) {pc : RunPc}
    (spares : pc.deletes = false) {number : Int}
    (stored : world.Stores env number) :
    (runStep env kept world pc).1.Stores env number := by
  have put : ∀ key body,
      (world.store.put key body).get? (chunkKey env.exportJobId number) ≠
        none := by
    intro key body
    by_cases same : chunkKey env.exportJobId number = key
    · rw [same, ObjectStore.get?_put_self]
      exact Option.some_ne_none _
    · rwa [ObjectStore.get?_put_of_ne _ _ same]
  cases pc with
  | putChunk => exact put _ _
  | uploadFinal => exact put _ _
  | deletePage => cases spares
  | _ => rwa [World.Stores, runStep_store env kept world rfl]

/-- The checkpoints after a statement of a run: a new one is that of its
batch. -/
theorem mem_checkpoints_runStep {kept : List String} {pc : RunPc}
    {checkpoint : ExportCheckpoint}
    (member : checkpoint ∈ (runStep env kept world pc).1.checkpoints) :
    checkpoint ∈ world.checkpoints ∨
      ∃ body, pc.uncommitted = some (checkpoint.batchNumber, body) := by
  by_cases commits : pc.commits = false
  · rw [runStep_checkpoints env kept world commits] at member
    exact .inl member
  · cases pc with
    | commitBatch run rows batchLastId =>
        simp only [runStep, commitStep, World.commitBatch] at member
        split at member
        · exact .inl member
        · next next committed =>
            split at committed
            · cases committed
            · obtain rfl := Option.some.inj committed
              rcases List.mem_append.mp member with old | new
              · exact .inl old
              · rw [List.mem_singleton.mp new]
                exact .inr ⟨_, rfl⟩
    | _ => exact absurd rfl commits

/-- A call of a run keeps every chunk, its own included. -/
theorem chunksStored_runCall {config : Config World Proc} {index : Nat}
    {pc : RunPc} {fault : Fault} (here : config.procs index = .run pc)
    (stored : ChunksStored env config)
    (spares : pc.deletes = true → fault.lands = false) :
    ChunksStored env ⟨(runCall env config.shared pc fault).1,
      Function.update config.procs index
        (.run (runCall env config.shared pc fault).2)⟩ := by
  have stays : ∀ number, config.shared.Stores env number →
      (runCall env config.shared pc fault).1.Stores env number := by
    intro number present
    cases deletes : pc.deletes with
    | false =>
        exact runCall_cases (motive := fun result =>
            result.1.Stores env number) fault
          (fun kept => stores_runStep kept deletes present)
          (fun _ => present) (fun _ => stores_runStep [] deletes present)
    | true =>
        cases fault with
        | refused => exact present
        | _ => cases spares deletes
  have committed : ∀ checkpoint,
      checkpoint ∈ (runCall env config.shared pc fault).1.checkpoints →
        config.shared.Stores env checkpoint.batchNumber := by
    have step : ∀ kept checkpoint,
        checkpoint ∈ (runStep env kept config.shared pc).1.checkpoints →
          config.shared.Stores env checkpoint.batchNumber := by
      intro kept checkpoint member
      rcases mem_checkpoints_runStep member with old | ⟨body, own⟩
      · exact stored.checkpointed checkpoint old
      · exact stored.uncommitted index pc _ body here own
    exact runCall_cases (motive := fun result => ∀ checkpoint,
        checkpoint ∈ result.1.checkpoints →
          config.shared.Stores env checkpoint.batchNumber) fault step
      (fun _ => stored.checkpointed) (fun _ => step [])
  refine ⟨fun checkpoint member => stays _ (committed checkpoint member), ?_⟩
  intro other otherPc number body there uncommitted
  by_cases same : other = index
  · subst same
    simp only [Function.update_self, Proc.run.injEq] at there
    subst there
    obtain ⟨answered, own | ⟨run, rows, batchLastId, rfl, rfl, rfl⟩⟩ :=
      uncommitted_runCall uncommitted
    · exact stays _ (stored.uncommitted other pc number body here own)
    · have put : (config.shared.putObject
          (chunkKey env.exportJobId run.batchNumber)
          (chunkBytes rows)).Stores env run.batchNumber := by
        rw [World.Stores, World.putObject_store, ObjectStore.get?_put_self]
        exact Option.some_ne_none _
      cases fault with
      | none => exact put
      | keeping => exact put
      | refused => cases answered
      | lost => cases answered
  · simp only [Function.update_of_ne same] at there
    exact stays _ (stored.uncommitted other otherPc number body there
      uncommitted)

/-- A step that changes neither log nor store, and whose process is not a run
with a batch on its way. -/
theorem ChunksStored.same {config : Config World Proc} {index : Nat}
    {proc : Proc} (stored : ChunksStored env config)
    (checkpoints : after.checkpoints = config.shared.checkpoints)
    (store : after.store = config.shared.store)
    (free : ∀ pc, proc = .run pc →
      pc.uncommitted = none ∨ config.procs index = .run pc) :
    ChunksStored env ⟨after, Function.update config.procs index proc⟩ where
  checkpointed := by
    simp only [World.Stores, checkpoints, store]
    exact stored.checkpointed
  uncommitted := by
    intro other pc number body there uncommitted
    simp only [World.Stores, store]
    by_cases same : other = index
    · subst same
      simp only [Function.update_self] at there
      rcases free pc there with none | before
      · rw [none] at uncommitted
        cases uncommitted
      · exact stored.uncommitted other pc number body before uncommitted
    · simp only [Function.update_of_ne same] at there
      exact stored.uncommitted other pc number body there uncommitted

theorem status_of_deletes (kept : List String) {pc : RunPc}
    (deletes : pc.deletes = true) :
    (runStep env kept world pc).1.status = world.status := by
  cases pc with
  | deletePage => rfl
  | _ => cases deletes

/-- Where a step ends with the export not over, no chunk was missing
before. -/
theorem chunksStored_before {config : Config World Proc} {index : Nat}
    {action : Action} {next : Proc}
    (allowed : ChunksSpared env config (.act index action))
    (step : ActStep env index config.shared (config.procs index) action
      after next)
    (stored : config.shared.ended = false → ChunksStored env config)
    (unfinished : after.ended = false) : ChunksStored env config := by
  cases ended : config.shared.ended with
  | false => exact stored ended
  | true =>
      obtain ⟨old, present, terminal⟩ := (Option.any_eq_true _ _).mp ended
      have exists_job : config.shared.job ≠ none := by
        intro absent
        rw [World.status, absent] at present
        cases present
      rcases actStep_writes exists_job step with same | ⟨status, writes, set⟩
      · rw [World.ended, same, present, Option.any_some, terminal] at unfinished
        cases unfinished
      · rw [World.ended, set, present] at unfinished
        exact (allowed index action rfl).2 status writes unfinished ended

theorem chunksStored_step {source target : Config World Proc}
    {event : Event Action Change} (allowed : ChunksSpared env source event)
    (stepEq : (machine env).step source event = some target)
    (stored : source.shared.ended = false → ChunksStored env source)
    (unfinished : target.shared.ended = false) : ChunksStored env target := by
  cases event with
  | env change =>
      obtain ⟨shared, envEq, rfl⟩ := Network.step_env_iff.mp stepEq
      obtain rfl := Option.some.inj envEq
      have open_before : source.shared.ended = false := by
        rwa [World.ended, Change.apply_status] at unfinished
      obtain ⟨checkpointed, uncommitted⟩ := stored open_before
      constructor
      · simpa only [World.Stores, Change.apply_checkpoints,
          Change.apply_store] using checkpointed
      · simpa only [World.Stores, Change.apply_store] using uncommitted
  | act index action =>
      obtain ⟨shared, proc, actEq, rfl⟩ := Network.step_act_iff.mp stepEq
      have step := actStep_of_act actEq
      have present := chunksStored_before allowed step stored unfinished
      generalize here : source.procs index = own at step
      cases step with
      | run fault live =>
          refine chunksStored_runCall here present fun deletes => ?_
          cases lands : fault.lands with
          | false => rfl
          | true =>
              -- deleting writes no status, so the export would still be over
              have ended := (allowed index _ rfl).1 _ fault here deletes rfl
                lands
              have still : ∀ pc : RunPc, pc.deletes = true →
                  (runCall env source.shared pc fault).1.status =
                    source.shared.status := fun pc deletes =>
                runCall_cases (motive := fun result =>
                    result.1.status = source.shared.status) fault
                  (fun kept => status_of_deletes kept deletes)
                  (fun _ => rfl) (fun _ => status_of_deletes [] deletes)
              rw [World.ended, still _ deletes] at unfinished
              exact absurd (unfinished.symm.trans ended) (by simp)
      | runCrash live =>
          exact present.same rfl rfl fun pc same => by cases same; exact .inl rfl
      | start | deliver =>
          exact present.same rfl rfl fun pc same => by cases same; exact .inl rfl
      | settleReturned | stall =>
          exact present.same rfl rfl fun pc same =>
            .inr (by rw [here, same])
      | api fault live =>
          refine present.same ?_ ?_ fun pc same => by cases same
          · exact apiCall_cases (motive := fun result =>
              result.1.checkpoints = source.shared.checkpoints) fault
              (apiStep_checkpoints env _ _) (fun _ => rfl)
              (fun _ => apiStep_checkpoints env _ _)
          · exact apiCall_cases (motive := fun result =>
              result.1.store = source.shared.store) fault
              (apiStep_store env _ _) (fun _ => rfl)
              (fun _ => apiStep_store env _ _)
      | sweep fault =>
          refine present.same ?_ ?_ fun pc same => by cases same
          · exact sweepCall_cases (motive := fun result =>
              result.1.checkpoints = source.shared.checkpoints) fault
              (sweepStep_checkpoints env _ _) rfl
              (sweepStep_checkpoints env _ _)
          · exact sweepCall_cases (motive := fun result =>
              result.1.store = source.shared.store) fault
              (sweepStep_store env _ _) rfl (sweepStep_store env _ _)
      | queueFailed fault same =>
          exact present.same same.checkpoints same.store
            fun pc same => by cases same
      | _ => exact present.same rfl rfl fun pc same => by cases same

/-! ## Contents -/

theorem Fetched.chunkHolds {run : Progress} {raw : List RawRecordRow}
    {batchLastId : Int} (fetched : Fetched run raw batchLastId) :
    ChunkHolds run.lastExportedId
      { batchNumber := run.batchNumber
        lastRecordId := batchLastId
        rowsWritten := (raw.map normaliseRecord).length }
      (chunkBytes (raw.map normaliseRecord)) :=
  ⟨raw, fetched.nonempty, fetched.ascending, fetched.beyond, fetched.last,
    by rw [List.length_map], rfl⟩

/-- A run with an uncommitted batch carries that batch. -/
theorem hasBatch_of_uncommitted {pc : RunPc} {number : Int} {body : Bytes}
    (known : logRuns world pc)
    (written : pc.uncommitted = some (number, body)) :
    ∃ run rows batchLastId, HasBatch world run rows batchLastId ∧
      number = run.batchNumber ∧ body = chunkBytes rows := by
  cases pc with
  | confirmChunk run rows batchLastId =>
      obtain ⟨rfl, rfl⟩ := Prod.mk.inj (Option.some.inj written)
      exact ⟨run, rows, batchLastId, known, rfl, rfl⟩
  | commitBatch run rows batchLastId =>
      obtain ⟨rfl, rfl⟩ := Prod.mk.inj (Option.some.inj written)
      exact ⟨run, rows, batchLastId, known, rfl, rfl⟩
  | _ => cases written

/-- A run is at most one batch ahead of the log. -/
theorem OnTrack.batchNumber_bounds {run : Progress}
    (track : OnTrack world run) :
    1 ≤ run.batchNumber ∧ run.batchNumber ≤ world.checkpoints.length + 1 := by
  obtain ⟨done, reached, number, _, _⟩ := track.reached
  have inLog := reached.length_le
  omega

/-- The number of a checkpoint is its place in the log. -/
theorem WellFormedLog.batchNumber_eq {terms : Terms}
    {done checkpoints : List ExportCheckpoint}
    {checkpoint : ExportCheckpoint} (log : WellFormedLog terms checkpoints)
    (reached : done ++ [checkpoint] <+: checkpoints) :
    checkpoint.batchNumber = done.length + 1 := by
  have number := (numbered_append.mp (log.upTo reached).numbered).2.1
  rw [number]
  ring

/-- The write of a batch that agrees with what is there. -/
theorem chunksMatch_putChunk {config : Config World Proc} {index : Nat}
    {run : Progress} {rows : List ExportableRow} {batchLastId : Int}
    {next : RunPc} (log : (logOutline env (PutsAgree env)).Holds config)
    (matching : ChunksMatch env config)
    (here : config.procs index = .run (.putChunk run rows batchLastId))
    (agrees : (∀ checkpoint ∈ config.shared.checkpoints,
        checkpoint.batchNumber = run.batchNumber →
        config.shared.store.get?
          (chunkKey env.exportJobId run.batchNumber) =
            some (chunkBytes rows)) ∧
      ∀ other pc body, other ≠ index → config.procs other = .run pc →
        pc.uncommitted = some (run.batchNumber, body) →
        body = chunkBytes rows)
    (own : ∀ number body, next.uncommitted = some (number, body) →
      number = run.batchNumber ∧ body = chunkBytes rows) :
    ChunksMatch env
      ⟨config.shared.putObject (chunkKey env.exportJobId run.batchNumber)
        (chunkBytes rows), Function.update config.procs index (.run next)⟩ := by
  have batch : HasBatch config.shared run rows batchLastId := log.run here
  have wellFormed := batch.toOnTrack.log log.1
  have positive := batch.toOnTrack.batchNumber_bounds.1
  have elsewhere : ∀ {number : Int}, 1 ≤ number → number ≠ run.batchNumber →
      (config.shared.store.put (chunkKey env.exportJobId run.batchNumber)
          (chunkBytes rows)).get? (chunkKey env.exportJobId number) =
        config.shared.store.get? (chunkKey env.exportJobId number) := by
    intro number numberPositive different
    apply ObjectStore.get?_put_of_ne
    rwa [Ne, chunkKey_inj (by omega) (by omega)]
  constructor
  · intro done checkpoint reached body stored
    simp only [World.putObject_checkpoints,
      World.putObject_store] at reached stored
    have member : checkpoint ∈ config.shared.checkpoints :=
      reached.subset (by simp)
    have place := wellFormed.batchNumber_eq reached
    apply matching.checkpointed done checkpoint reached body
    by_cases same : checkpoint.batchNumber = run.batchNumber
    · rw [same, ObjectStore.get?_put_self] at stored
      rw [same, agrees.1 checkpoint member same, stored]
    · rwa [elsewhere (by omega) same] at stored
  · intro other pc number body there uncommitted ahead stored kept
    simp only [World.putObject_checkpoints,
      World.putObject_store] at ahead kept
    by_cases mine : other = index
    · subst mine
      simp only [Function.update_self, Proc.run.injEq] at there
      subst there
      obtain ⟨rfl, rfl⟩ := own _ _ uncommitted
      rw [ObjectStore.get?_put_self] at kept
      exact (Option.some.inj kept).symm
    · simp only [Function.update_of_ne mine] at there
      by_cases same : number = run.batchNumber
      · subst same
        rw [ObjectStore.get?_put_self] at kept
        rw [agrees.2 other pc body mine there uncommitted]
        exact (Option.some.inj kept).symm
      · rw [elsewhere (by omega) same] at kept
        exact matching.uncommitted other pc number body there uncommitted
          ahead stored kept

/-- The commit of a batch whose chunk is the one the run wrote. -/
theorem chunksMatch_commit {config : Config World Proc} {index : Nat}
    {run : Progress} {rows : List ExportableRow} {batchLastId : Int}
    {next : RunPc} (log : (logOutline env (PutsAgree env)).Holds config)
    (matching : ChunksMatch env config)
    (here : config.procs index = .run (.commitBatch run rows batchLastId))
    (free : next.uncommitted = none) :
    ChunksMatch env
      ⟨(commitStep config.shared run rows batchLastId).1,
        Function.update config.procs index (.run next)⟩ := by
  have batch : HasBatch config.shared run rows batchLastId := log.run here
  have others : ∀ {other pc number body}, other ≠ index →
      config.procs other = .run pc → pc.uncommitted = some (number, body) →
      number ≤ config.shared.checkpoints.length + 1 := by
    intro other pc number body _ there uncommitted
    obtain ⟨otherRun, _, _, otherBatch, rfl, _⟩ :=
      hasBatch_of_uncommitted (log.run there) uncommitted
    exact otherBatch.toOnTrack.batchNumber_bounds.2
  have elsewhere : ∀ {other : Nat} {pc : RunPc} {number : Int}
      {body : Bytes},
      Function.update config.procs index (.run next) other = .run pc →
      pc.uncommitted = some (number, body) →
      other ≠ index ∧ config.procs other = .run pc := by
    intro other pc number body there uncommitted
    by_cases mine : other = index
    · subst mine
      simp only [Function.update_self, Proc.run.injEq] at there
      rw [← there, free] at uncommitted
      cases uncommitted
    · exact ⟨mine, by rwa [Function.update_of_ne mine] at there⟩
  apply commitBatch_cases batch.toOnTrack log.1 fun result =>
    ChunksMatch env
      ⟨result.1, Function.update config.procs index (.run next)⟩
  · intro _
    refine ⟨matching.checkpointed, ?_⟩
    intro other pc number body there uncommitted
    exact matching.uncommitted other pc number body
      (elsewhere there uncommitted).2 uncommitted
  · rintro after position rfl
    constructor
    · intro done checkpoint reached body stored
      rcases List.prefix_concat_iff.mp reached with whole | old
      · obtain ⟨rfl, new⟩ := List.append_inj' whole rfl
        obtain rfl := List.head_eq_of_cons_eq new
        have same := matching.uncommitted index _ run.batchNumber
          (chunkBytes rows) here rfl position.1 body stored
        obtain ⟨raw, rfl, fetched⟩ := batch.fetched
        rw [same, ← position.2.1]
        exact fetched.chunkHolds
      · exact matching.checkpointed done checkpoint old body stored
    · intro other pc number body there uncommitted ahead
      obtain ⟨different, before⟩ := elsewhere there uncommitted
      have bound := others different before uncommitted
      simp only [List.length_append, List.length_cons,
        List.length_nil] at ahead
      omega

/-- A step that leaves the log alone, adds no chunk, and whose process is not
a run that has just written one. -/
theorem ChunksMatch.same {config : Config World Proc} {index : Nat}
    {proc : Proc} (matching : ChunksMatch env config)
    (checkpoints : after.checkpoints = config.shared.checkpoints)
    (store : ∀ number body,
      after.store.get? (chunkKey env.exportJobId number) = some body →
        config.shared.store.get? (chunkKey env.exportJobId number) =
          some body)
    (known : ∀ pc number body, proc = .run pc →
      pc.uncommitted = some (number, body) →
      ∃ before, config.procs index = .run before ∧
        before.uncommitted = some (number, body)) :
    ChunksMatch env ⟨after, Function.update config.procs index proc⟩ where
  checkpointed := by
    intro done checkpoint reached body stored
    simp only [checkpoints] at reached
    exact matching.checkpointed done checkpoint reached body
      (store _ _ stored)
  uncommitted := by
    intro other pc number body there uncommitted ahead stored kept
    simp only [checkpoints] at ahead
    by_cases mine : other = index
    · subst mine
      simp only [Function.update_self] at there
      obtain ⟨before, here, same⟩ := known pc number body there uncommitted
      exact matching.uncommitted other before number body here same ahead
        stored (store _ _ kept)
    · simp only [Function.update_of_ne mine] at there
      exact matching.uncommitted other pc number body there uncommitted ahead
        stored (store _ _ kept)

/-- A statement of a run that neither writes a batch nor commits one. -/
theorem chunksMatch_runCall {config : Config World Proc} {index : Nat}
    {pc : RunPc} {fault : Fault} (matching : ChunksMatch env config)
    (here : config.procs index = .run pc) (commitsNot : pc.commits = false)
    (puts : ∀ run rows batchLastId,
      pc = .putChunk run rows batchLastId → fault.lands = false) :
    ChunksMatch env ⟨(runCall env config.shared pc fault).1,
      Function.update config.procs index
        (.run (runCall env config.shared pc fault).2)⟩ := by
  refine matching.same ?_ ?_ ?_
  · exact runCall_cases (motive := fun result =>
        result.1.checkpoints = config.shared.checkpoints) fault
      (fun kept => runStep_checkpoints env kept _ commitsNot)
      (fun _ => rfl) (fun _ => runStep_checkpoints env [] _ commitsNot)
  · intro number body stored
    have keeps : (∀ run rows batchLastId,
        pc ≠ .putChunk run rows batchLastId) → ∀ kept,
        (runStep env kept config.shared pc).1.store.get?
            (chunkKey env.exportJobId number) = some body →
          config.shared.store.get? (chunkKey env.exportJobId number) =
            some body := by
      intro other kept stored
      cases pc with
      | putChunk => exact absurd rfl (other _ _ _)
      | uploadFinal =>
          rwa [runStep, World.putObject_store, ObjectStore.get?_put_of_ne _ _
            (chunkKey_ne_finalKey _ _)] at stored
      | deletePage => exact ObjectStore.get?_of_get?_deleteObjects stored
      | _ => rwa [runStep_store env kept _ rfl] at stored
    cases fault with
    | refused => exact stored
    | _ =>
        refine keeps (fun run rows batchLastId same => ?_) _ stored
        cases puts run rows batchLastId same
  · intro next number body nextEq uncommitted
    obtain rfl := Proc.run.inj nextEq
    obtain ⟨answered, own | ⟨run, rows, batchLastId, same, _⟩⟩ :=
      uncommitted_runCall uncommitted
    · exact ⟨pc, here, own⟩
    · cases fault with
      | refused | lost => cases answered
      | _ => cases puts run rows batchLastId same

theorem chunksMatch_step {source target : Config World Proc}
    {event : Event Action Change} (allowed : PutsAgree env source event)
    (log : (logOutline env (PutsAgree env)).Holds source)
    (stepEq : (machine env).step source event = some target)
    (matching : ChunksMatch env source) : ChunksMatch env target := by
  cases event with
  | env change =>
      obtain ⟨shared, envEq, rfl⟩ := Network.step_env_iff.mp stepEq
      obtain rfl := Option.some.inj envEq
      obtain ⟨checkpointed, uncommitted⟩ := matching
      constructor
      · simpa only [Change.apply_checkpoints, Change.apply_store]
          using checkpointed
      · simpa only [Change.apply_checkpoints, Change.apply_store]
          using uncommitted
  | act index action =>
      obtain ⟨shared, proc, actEq, rfl⟩ := Network.step_act_iff.mp stepEq
      have step := actStep_of_act actEq
      generalize here : source.procs index = own at step
      have passive : ∀ {after : World} {next : Proc},
          after.checkpoints = source.shared.checkpoints →
          after.store = source.shared.store →
          (∀ pc, next = .run pc →
            pc.uncommitted = none ∨ source.procs index = .run pc) →
          ChunksMatch env
            ⟨after, Function.update source.procs index next⟩ := by
        intro after next checkpoints store free
        refine matching.same checkpoints (fun _ _ => by rw [store]; exact id) ?_
        intro pc number body nextEq uncommitted
        rcases free pc nextEq with none | same
        · rw [none] at uncommitted
          cases uncommitted
        · exact ⟨pc, same, uncommitted⟩
      cases step with
      | @run pc fault live =>
          cases pc with
          | putChunk run rows batchLastId =>
              cases lands : fault.lands with
              | false =>
                  exact chunksMatch_runCall matching here rfl
                    fun _ _ _ _ => lands
              | true =>
                  have agrees := allowed index fault run rows batchLastId rfl
                    here lands
                  have own : ∀ number body,
                      (runCall env source.shared
                        (.putChunk run rows batchLastId) fault).2.uncommitted =
                          some (number, body) →
                        number = run.batchNumber ∧ body = chunkBytes rows := by
                    intro number body written
                    obtain ⟨_, none | ⟨_, _, _, same, rfl, rfl⟩⟩ :=
                      uncommitted_runCall written
                    · cases none
                    · cases same
                      exact ⟨rfl, rfl⟩
                  have put := chunksMatch_putChunk log matching here agrees own
                  cases fault with
                  | refused => cases lands
                  | _ => exact put
          | commitBatch run rows batchLastId =>
              have free : (runCall env source.shared
                  (.commitBatch run rows batchLastId) fault).2.uncommitted =
                    none := by
                rw [Option.eq_none_iff_forall_ne_some]
                rintro ⟨number, body⟩ written
                cases fault with
                | refused | lost => cases written
                | _ =>
                    simp only [runCall, runStep, commitStep] at written
                    split at written
                    · cases written
                    · rw [uncommitted_loopTop] at written
                      cases written
              have committed := chunksMatch_commit log matching here free
              cases fault with
              | refused =>
                  exact passive rfl rfl fun pc same => by
                    cases same
                    exact .inl rfl
              | _ => exact committed
          | _ =>
              exact chunksMatch_runCall matching here rfl
                fun _ _ _ same => by cases same
      | runCrash | start | deliver =>
          exact passive rfl rfl fun pc same => by cases same; exact .inl rfl
      | settleReturned | stall =>
          exact passive rfl rfl fun pc same => .inr (by rw [here, same])
      | api fault live =>
          refine passive ?_ ?_ fun pc same => by cases same
          · exact apiCall_cases (motive := fun result =>
              result.1.checkpoints = source.shared.checkpoints) fault
              (apiStep_checkpoints env _ _) (fun _ => rfl)
              (fun _ => apiStep_checkpoints env _ _)
          · exact apiCall_cases (motive := fun result =>
              result.1.store = source.shared.store) fault
              (apiStep_store env _ _) (fun _ => rfl)
              (fun _ => apiStep_store env _ _)
      | sweep fault =>
          refine passive ?_ ?_ fun pc same => by cases same
          · exact sweepCall_cases (motive := fun result =>
              result.1.checkpoints = source.shared.checkpoints) fault
              (sweepStep_checkpoints env _ _) rfl
              (sweepStep_checkpoints env _ _)
          · exact sweepCall_cases (motive := fun result =>
              result.1.store = source.shared.store) fault
              (sweepStep_store env _ _) rfl (sweepStep_store env _ _)
      | queueFailed fault same =>
          exact passive same.checkpoints same.store fun pc same => by cases same
      | _ => exact passive rfl rfl fun pc same => by cases same

theorem chunksMatch_initial {config : Config World Proc}
    (initial : Initial env config) : ChunksMatch env config where
  checkpointed := by
    intro done checkpoint reached
    rw [initial.noCheckpoints] at reached
    exact absurd (List.prefix_nil.mp reached) (by simp)
  uncommitted index pc _ _ there := by
    rw [initial.idle index] at there
    cases there

theorem chunksStored_initial {config : Config World Proc}
    (initial : Initial env config) : ChunksStored env config where
  checkpointed := by
    rw [initial.noCheckpoints]
    exact fun _ member => absurd member List.not_mem_nil
  uncommitted index pc _ _ there := by
    rw [initial.idle index] at there
    cases there

/-- As long as late writes and deletions spare the chunks, the chunk of every
checkpoint of an export that is not over is stored and holds the rows the
checkpoint speaks of. -/
theorem chunk_holds_checkpoint {source target : Config World Proc}
    {events : List (Event Action Change)} (initial : Initial env source)
    (history : (machine env).Exec
      (fun config event => ChunksSpared env config event ∧
        PutsAgree env config event) source events target)
    (notCompleted : target.shared.status ≠ some .completed)
    (notCancelled : target.shared.status ≠ some .cancelled)
    {done : List ExportCheckpoint} {checkpoint : ExportCheckpoint}
    (committed : done ++ [checkpoint] <+: target.shared.checkpoints) :
    checkpoint.batchNumber = done.length + 1 ∧
      ∃ body, target.shared.store.get?
          (chunkKey env.exportJobId checkpoint.batchNumber) = some body ∧
        ChunkHolds (cursorOf done) checkpoint body := by
  have spared := history.mono fun allowed => allowed.1
  have agreed := history.mono fun allowed => allowed.2
  have start : (logOutline env (PutsAgree env)).Holds source :=
    logOutline_initial initial
  have log : LogInvariant target.shared :=
    ((logOutline env (PutsAgree env)).preserved agreed start).1
  have unfinished : target.shared.ended = false := by
    cases status : target.shared.status with
    | none => rw [World.ended, status, Option.any_none]
    | some now =>
        rw [World.ended, status, Option.any_some]
        cases now <;> first | rfl | simp_all
  have stored : target.shared.ended = false → ChunksStored env target :=
    spared.invariant chunksStored_step fun _ => chunksStored_initial initial
  have matching : ChunksMatch env target :=
    ((logOutline env (PutsAgree env)).strengthen agreed start).invariant
      (fun allowed stepEq => chunksMatch_step allowed.1 allowed.2 stepEq)
      (chunksMatch_initial initial)
  have known : target.shared.terms ≠ none := by
    intro unknown
    rw [log.empty unknown] at committed
    exact absurd (List.prefix_nil.mp committed) (by simp)
  obtain ⟨terms, termsEq⟩ := Option.ne_none_iff_exists'.mp known
  obtain ⟨body, present⟩ := Option.ne_none_iff_exists'.mp
    ((stored unfinished).checkpointed checkpoint (committed.subset (by simp)))
  exact ⟨(log.wellFormed terms termsEq).batchNumber_eq committed, body,
    present, matching.checkpointed done checkpoint committed body present⟩

/-- `ChunksSpared`, where nothing is deleted and the export is not over. -/
def chunksSpared (config : Config World Proc) : Event Action Change → Bool
  | .act index _ =>
      (match config.procs index with
        | .run pc => !pc.deletes
        | _ => true) && !config.shared.ended
  | .env _ => true

theorem chunksSpared_sound {config : Config World Proc}
    {event : Event Action Change} (passes : chunksSpared config event = true) :
    ChunksSpared env config event := by
  rintro index action rfl
  simp only [chunksSpared, Bool.and_eq_true, Bool.not_eq_true'] at passes
  constructor
  · intro pc fault here deletes
    simp [here, deletes] at passes
  · intro _ _ _ ended
    rw [ended] at passes
    cases passes.2

/-- `PutsAgree`, computed for the first processes. -/
def putsAgree (env : Env) (bound : Nat) (config : Config World Proc) :
    Event Action Change → Bool
  | .act index (.call _) =>
      match config.procs index with
      | .run (.putChunk run rows _) =>
          (config.shared.checkpoints.all fun checkpoint =>
            decide (checkpoint.batchNumber ≠ run.batchNumber) ||
              decide (config.shared.store.get?
                (chunkKey env.exportJobId run.batchNumber) =
                  some (chunkBytes rows))) &&
            (List.range bound).all fun other =>
              decide (other = index) ||
                match config.procs other with
                | .run pc => pc.uncommitted.all fun written =>
                    decide (written.1 ≠ run.batchNumber) ||
                      decide (written.2 = chunkBytes rows)
                | _ => true
      | _ => true
  | _ => true

theorem putsAgree_sound {bound : Nat} {config : Config World Proc}
    {event : Event Action Change} (idle : IdleFrom bound config)
    (passes : putsAgree env bound config event = true) :
    PutsAgree env config event := by
  rintro index fault run rows batchLastId rfl here _
  simp only [putsAgree, here, Bool.and_eq_true, List.all_eq_true,
    Bool.or_eq_true, decide_eq_true_eq, List.mem_range] at passes
  constructor
  · intro checkpoint member same
    exact (passes.1 checkpoint member).resolve_left (not_not.mpr same)
  · intro other pc body different there written
    have below : other < bound := by
      by_contra beyond
      rw [idle other (not_lt.mp beyond)] at there
      cases there
    have agrees := (passes.2 other below).resolve_left different
    simpa [there, written] using agrees

/-- A worker that was paused writes a batch the next worker has committed; the
table is as it was. -/
def lateSameWrite : List (Event Action Change) :=
  createSteps 2 ++ .act 1 .deliver :: calls 1 7 ++
    [.act 1 .stall, .env (.tick 60000), .act 2 .deliver] ++ calls 2 10 ++
    calls 1 1

/-- A chunk tells the ids of its rows. -/
theorem ids_of_chunkBytes {first second : List RawRecordRow}
    (same : chunkBytes (first.map normaliseRecord) =
      chunkBytes (second.map normaliseRecord)) :
    first.map RawRecordRow.id = second.map RawRecordRow.id := by
  have files : exportBytes first = exportBytes second := by
    rw [exportBytes, exportBytes, utf8_append, utf8_append]
    exact congrArg (utf8 csvHeader ++ ·) same
  have records : exportRecords first = exportRecords second := by
    have read := congrArg readCsv files
    rw [parsesRfc4180_readCsv.exportBytes, parsesRfc4180_readCsv.exportBytes]
      at read
    exact Except.ok.inj read
  have heads := congrArg (List.map List.head?)
    (List.tail_eq_of_cons_eq records)
  simp only [List.map_map, Function.comp_def,
    csvFields_normaliseRecord_head] at heads
  have injective : Function.Injective fun id : Int => some (toString id) :=
    fun _ _ same => toString_int_injective (Option.some.inj same)
  apply injective.list_map
  simpa only [List.map_map, Function.comp_def] using heads

def withoutFirst : RecordTable :=
  ⟨[smallRecord 3, smallRecord 4], by decide, by decide⟩

/-- A record is deleted between the reads of two workers; the first one was
paused and writes late. -/
def lateOtherWrite : List (Event Action Change) :=
  createSteps 2 ++ .act 1 .deliver :: calls 1 7 ++
    [.act 1 .stall, .env (.setRecords withoutFirst), .env (.tick 60000),
      .act 2 .deliver] ++ calls 2 10 ++ calls 1 1

/-- The late write replaces a checkpointed chunk. -/
theorem late_write_drifts :
    ∃ target checkpoint,
      (machine smallEnv).Exec Anything (smallStart threeRecords)
        lateOtherWrite target ∧
      target.shared.status = some .running ∧
      target.shared.checkpoints = [checkpoint] ∧
      ¬ ∃ body, target.shared.store.get?
          (chunkKey smallEnv.exportJobId checkpoint.batchNumber) =
            some body ∧
        ChunkHolds 0 checkpoint body := by
  let checkpoint : ExportCheckpoint :=
    { batchNumber := 1, lastRecordId := 3, rowsWritten := 1 }
  obtain ⟨target, history, _, ends⟩ :=
    exists_history Anything threeRecords 3 (fun _ _ => true) lateOtherWrite
      (fun target =>
        decide (target.shared.status = some .running) &&
          decide (target.shared.checkpoints =
            [{ batchNumber := 1, lastRecordId := 3, rowsWritten := 1 }]) &&
          decide (target.shared.store.get?
            (chunkKey smallEnv.exportJobId 1) =
              some (chunkBytes ([smallRecord 1].map normaliseRecord))))
      (fun _ _ => trivial) (by decide +kernel)
  simp only [Bool.and_eq_true, decide_eq_true_eq] at ends
  obtain ⟨⟨running, checkpoints⟩, chunk⟩ := ends
  refine ⟨target, checkpoint, history, running, checkpoints, ?_⟩
  rintro ⟨body, stored, rows, _, _, _, last, _, rfl⟩
  -- the chunk holds the record with id 1, not the one with id 3
  have ids := ids_of_chunkBytes (Option.some.inj (stored.symm.trans chunk))
  have lasts : rows.getLast?.map RawRecordRow.id = some 1 := by
    rw [← List.getLast?_map, ids]
    rfl
  rw [Keyset.cursor, lasts] at last
  cases last

end ExportVault
