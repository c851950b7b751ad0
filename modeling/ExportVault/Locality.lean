import ExportVault.Installation
import ExportVault.Outline

/-!
# The bucket of one export

Every statement reads and writes objects of its own export only.  It does the
same on the bucket cut down to these objects (`runStep_own`, `apiStep_own`),
and the objects of other exports stay as they are (`runStep_others`).
-/

namespace ExportVault

open Interleaving

def ownKey (exportJobId key : String) : Bool :=
  hasPrefix ("exports/" ++ exportJobId ++ "/") key

def ObjectStore.own (store : ObjectStore) (exportJobId : String) :
    ObjectStore :=
  ⟨store.objects.filter fun object => ownKey exportJobId object.1⟩

def World.own (world : World) (exportJobId : String) : World :=
  world.withStore (world.store.own exportJobId)

section Fields

variable (world : World) (exportJobId : String)
variable (change : ExportJob → ExportJob)
variable (failure : ExportFailure) (row : ExportVerification)
variable (entry : Option QueueEntry)

@[simp] theorem World.own_job : (world.own exportJobId).job = world.job := rfl
@[simp] theorem World.own_checkpoints :
    (world.own exportJobId).checkpoints = world.checkpoints := rfl
@[simp] theorem World.own_entry :
    (world.own exportJobId).entry = world.entry := rfl
@[simp] theorem World.own_now : (world.own exportJobId).now = world.now := rfl
@[simp] theorem World.own_updateJob :
    (world.own exportJobId).updateJob change =
      (world.updateJob change).own exportJobId := rfl
@[simp] theorem World.own_insertFailure :
    (world.own exportJobId).insertFailure failure =
      (world.insertFailure failure).own exportJobId := rfl
@[simp] theorem World.own_insertVerification :
    (world.own exportJobId).insertVerification row =
      (world.insertVerification row).own exportJobId := rfl
@[simp] theorem World.own_setEntry :
    (world.own exportJobId).setEntry entry =
      (world.setEntry entry).own exportJobId := rfl

theorem World.own_commitBatch (checkpoint : ExportCheckpoint)
    (exportedRowCount : Int) :
    (world.own exportJobId).commitBatch checkpoint exportedRowCount =
      (world.commitBatch checkpoint exportedRowCount).map fun after =>
        after.own exportJobId := by
  simp only [World.commitBatch, World.own_checkpoints,
    apply_ite (Option.map _), Option.map_none, Option.map_some]
  rfl

end Fields

section Keys

variable {exportJobId other key : String}

theorem ownKey_of_hasPrefix
    (isChunk : hasPrefix (chunkPrefix exportJobId) key = true) :
    ownKey exportJobId key = true := by
  simp only [ownKey, hasPrefix, chunkPrefix, String.toList_append,
    List.isPrefixOf_iff_prefix] at isChunk ⊢
  refine List.IsPrefix.trans ?_ isChunk
  rw [List.prefix_append_right_inj]
  exact ⟨"chunks/".toList, by simp⟩

theorem ownKey_chunkKey (exportJobId : String) (batchNumber : Int) :
    ownKey exportJobId (chunkKey exportJobId batchNumber) = true :=
  ownKey_of_hasPrefix (hasPrefix_chunkKey exportJobId batchNumber)

theorem ownKey_finalKey (exportJobId : String) :
    ownKey exportJobId (finalKey exportJobId) = true := by
  simp only [ownKey, hasPrefix, finalKey, String.toList_append,
    List.isPrefixOf_iff_prefix, List.append_assoc]
  simp only [List.prefix_append_right_inj]
  exact ⟨("export-" ++ exportJobId ++ ".csv").toList, by simp⟩

/-- A key belongs to one export only. -/
theorem ownKey_unique (uuid : isUuid exportJobId = true)
    (otherUuid : isUuid other = true)
    (own : ownKey exportJobId key = true)
    (ownOther : ownKey other key = true) : exportJobId = other := by
  simp only [ownKey, hasPrefix, String.toList_append,
    List.isPrefixOf_iff_prefix, List.append_assoc] at own ownOther
  obtain ⟨rest, equality⟩ := own
  obtain ⟨otherRest, otherEquality⟩ := ownOther
  simp only [List.append_assoc] at equality otherEquality
  exact ((exports_append_inj
    ((length_of_isUuid uuid).trans (length_of_isUuid otherUuid).symm)).mp
      (equality.trans otherEquality.symm)).1

/-- The keys of one export are foreign to every other. -/
theorem ownKey_of_ne (uuid : isUuid exportJobId = true)
    (otherUuid : isUuid other = true) (different : other ≠ exportJobId)
    (own : ownKey exportJobId key = true) : ownKey other key = false := by
  rw [Bool.eq_false_iff]
  intro ownOther
  exact different (ownKey_unique uuid otherUuid own ownOther).symm

end Keys

namespace ObjectStore

variable {store : ObjectStore} {exportJobId key : String}

theorem get?_own (own : ownKey exportJobId key = true) :
    (store.own exportJobId).get? key = store.get? key :=
  lookup_filter_of_pos (ownKey exportJobId) own

theorem own_put (body : Bytes) (own : ownKey exportJobId key = true) :
    (store.put key body).own exportJobId =
      (store.own exportJobId).put key body := by
  simp only [ObjectStore.own, put, List.filter_cons, own, if_true]
  rw [List.filter_comm]

theorem own_put_foreign (body : Bytes)
    (foreign : ownKey exportJobId key = false) :
    (store.put key body).own exportJobId = store.own exportJobId := by
  simp only [ObjectStore.own, put, List.filter_cons, foreign,
    Bool.false_eq_true, if_false, List.filter_filter]
  congr 1
  apply List.filter_congr
  intro object _
  by_cases same : object.1 = key
  · simp [same, foreign]
  · simp [same]

theorem own_deleteObjects (keys kept : List String) :
    (store.deleteObjects keys kept).own exportJobId =
      (store.own exportJobId).deleteObjects keys kept := by
  simp only [ObjectStore.own, deleteObjects]
  rw [List.filter_comm]

theorem own_deleteObjects_foreign {keys : List String} (kept : List String)
    (foreign : ∀ key ∈ keys, ownKey exportJobId key = false) :
    (store.deleteObjects keys kept).own exportJobId =
      store.own exportJobId := by
  simp only [ObjectStore.own, deleteObjects, List.filter_filter]
  congr 1
  apply List.filter_congr
  intro object _
  by_cases listed : object.1 ∈ keys
  · simp [foreign object.1 listed]
  · simp [listed]

/-- The listing of the chunks sees the objects of the export only. -/
theorem listObjectsV2_own (exportJobId : String) (token : Option String) :
    (store.own exportJobId).listObjectsV2 (chunkPrefix exportJobId) token =
      store.listObjectsV2 (chunkPrefix exportJobId) token := by
  have sameKeys : (store.own exportJobId).keysAfter
      (chunkPrefix exportJobId) token =
        store.keysAfter (chunkPrefix exportJobId) token := by
    have chunks :
        (((store.objects.filter fun object =>
            ownKey exportJobId object.1).map Prod.fst).filter
          (hasPrefix (chunkPrefix exportJobId))) =
        ((store.objects.map Prod.fst).filter
          (hasPrefix (chunkPrefix exportJobId))) := by
      rw [List.filter_map, List.filter_map, List.filter_filter]
      congr 1
      apply List.filter_congr
      intro object _
      cases isChunk : hasPrefix (chunkPrefix exportJobId) object.1 with
      | true => simp [isChunk, ownKey_of_hasPrefix isChunk]
      | false => simp [isChunk]
    simp only [keysAfter, ObjectStore.own, chunks]
  simp only [listObjectsV2, sameKeys]

end ObjectStore

def RunPc.removes : RunPc → List String
  | .deletePage _ keys _ _ => keys
  | _ => []

/-- Only keys of the export are about to be deleted. -/
def RunPc.Within (exportJobId : String) (pc : RunPc) : Prop :=
  ∀ key ∈ pc.removes, ownKey exportJobId key = true

def Proc.Within (exportJobId : String) : Proc → Prop
  | .run pc => pc.Within exportJobId
  | _ => True

/-- No other object than the final one of the export is named: by the job and
by what a command is about to do. -/
def World.FileOf (exportJobId : String) (world : World) : Prop :=
  ∀ key, world.fileKey = some key → key = finalKey exportJobId

def ApiPc.FileOf (exportJobId : String) (pc : ApiPc) : Prop :=
  ∀ key, pc.opens = some key → key = finalKey exportJobId

def Proc.FileOf (exportJobId : String) : Proc → Prop
  | .api pc => pc.FileOf exportJobId
  | _ => True

section Statements

variable {env : Env} {world : World}

/-- A statement of a run does the same on the objects of its export. -/
theorem runStep_own (kept : List String) (pc : RunPc) :
    runStep env kept (world.own env.exportJobId) pc =
      ((runStep env kept world pc).1.own env.exportJobId,
        (runStep env kept world pc).2) := by
  have chunk : ∀ number,
      (world.store.own env.exportJobId).get?
        (chunkKey env.exportJobId number) =
          world.store.get? (chunkKey env.exportJobId number) :=
    fun number => ObjectStore.get?_own (ownKey_chunkKey _ number)
  have final :
      (world.store.own env.exportJobId).get? (finalKey env.exportJobId) =
        world.store.get? (finalKey env.exportJobId) :=
    ObjectStore.get?_own (ownKey_finalKey _)
  cases pc with
  | claim job staleCutoff =>
      by_cases claims : world.job.any (claimable staleCutoff)
      · simp [runStep, claimStep, claims]
      · simp [runStep, claimStep, claims]
  | setStartedAt =>
      by_cases never : world.job.any fun row => row.startedAt.isNone
      · simp [runStep, never]
      · simp [runStep, never]
  | putChunk run rows batchLastId =>
      simp only [runStep, World.own, World.withStore, World.putObject,
        ObjectStore.own_put _ (ownKey_chunkKey _ _)]
  | confirmChunk =>
      simp only [runStep, confirmStep, World.own, World.withStore, chunk]
  | commitBatch run rows batchLastId =>
      simp only [runStep, commitStep, World.own_commitBatch]
      cases world.commitBatch _ _ <;> rfl
  | readChunk =>
      simp only [runStep, World.own, World.withStore, chunk]
  | uploadFinal run assembled =>
      simp only [runStep, World.own, World.withStore, World.putObject,
        ObjectStore.own_put _ (ownKey_finalKey _)]
  | headAssembled | verifyHead | verifyRead =>
      simp only [runStep, World.own, World.withStore, final]
  | saveVerification run result =>
      by_cases storable : result.storable
      · simp [runStep, storable]
      · simp [runStep, storable]
  | listChunks =>
      simp only [runStep, World.own, World.withStore,
        ObjectStore.listObjectsV2_own]
  | deletePage =>
      simp only [runStep, World.own, World.withStore, World.deleteObjects,
        ObjectStore.own_deleteObjects]
  | _ => rfl

/-- A statement of a run leaves the objects of other exports as they are. -/
theorem runStep_others {other : String} (kept : List String) {pc : RunPc}
    (within : pc.Within env.exportJobId)
    (foreign : ∀ key, ownKey env.exportJobId key = true →
      ownKey other key = false) :
    (runStep env kept world pc).1.store.own other = world.store.own other := by
  cases pc with
  | putChunk =>
      exact ObjectStore.own_put_foreign _ (foreign _ (ownKey_chunkKey _ _))
  | uploadFinal =>
      exact ObjectStore.own_put_foreign _ (foreign _ (ownKey_finalKey _))
  | deletePage outcome keys token deleted =>
      exact ObjectStore.own_deleteObjects_foreign kept fun key member =>
        foreign key (within key member)
  | _ => rw [runStep_store env kept world rfl]

/-- The next statement of a run deletes chunks that were listed. -/
theorem within_runStep (kept : List String) (pc : RunPc) :
    (runStep env kept world pc).2.Within env.exportJobId := by
  have never : ∀ {next : RunPc}, next.removes = [] →
      next.Within env.exportJobId := by
    intro next none key member
    rw [none] at member
    cases member
  have looped : ∀ run, (RunPc.loopTop run).removes = [] := fun run =>
    RunPc.loopTop_cases (motive := fun next => next.removes = []) run
      (fun _ => rfl) (fun _ _ => rfl) fun _ => rfl
  have paged : ∀ outcome token deleted,
      (RunPc.nextPage outcome token deleted).removes = [] :=
    fun outcome token deleted =>
      RunPc.nextPage_cases (motive := fun next => next.removes = []) outcome
        token deleted rfl fun _ => rfl
  have assembles : ∀ run batchCount batchNumber assembled,
      (RunPc.assembleFrom run batchCount batchNumber assembled).removes =
        [] := by
    intro run batchCount batchNumber assembled
    rw [RunPc.assembleFrom]
    split <;> rfl
  cases pc with
  | findJob =>
      refine never ?_
      simp only [runStep, afterFindJob]
      repeat' split
      all_goals rfl
  | claim | setStartedAt =>
      refine never ?_
      simp only [runStep, claimStep]
      repeat' split
      all_goals rfl
  | loadResume | pollCancel | fetchBatch | headAssembled | verifyHead
  | verifyRead | saveVerification =>
      refine never ?_
      simp only [runStep]
      repeat' split
      all_goals rfl
  | readProgress =>
      refine never ?_
      simp only [runStep]
      split
      · exact looped _
      · rfl
  | reconcile => exact never (looped _)
  | confirmChunk =>
      refine never ?_
      simp only [runStep, confirmStep]
      repeat' split
      all_goals rfl
  | commitBatch =>
      refine never ?_
      simp only [runStep, commitStep]
      split
      · rfl
      · exact looped _
  | loadFinal =>
      refine never ?_
      simp only [runStep, finalStep]
      repeat' split
      all_goals rfl
  | writeVerifying => exact never (assembles _ _ _ _)
  | readChunk =>
      refine never ?_
      simp only [runStep]
      split
      · rfl
      · exact assembles _ _ _ _
  | listChunks outcome token deleted =>
      simp only [runStep]
      split
      · intro key member
        exact ownKey_of_hasPrefix
          (ObjectStore.hasPrefix_of_mem_listObjectsV2 member)
      · exact never (paged _ _ _)
  | deletePage => exact never (paged _ _ _)
  | failJob reason error exit => exact never rfl
  | recordFailure error exit => cases exit <;> exact never rfl
  | _ => exact never rfl

theorem within_onError (pc : RunPc) (error : AppError) (id : String) :
    (pc.onError error).Within id := by
  refine RunPc.onError_cases (motive := fun next => next.Within id) pc error
    (fun next ended key member => ?_) fun _ _ member => nomatch member
  have none : next.removes = [] := by
    cases next <;> first | rfl | cases ended
  rw [none] at member
  cases member

/-- A statement of a command does the same on the objects of its export. -/
theorem apiStep_own {pc : ApiPc} {exportJobId : String}
    (file : world.FileOf exportJobId) (opened : pc.FileOf exportJobId) :
    apiStep env (world.own exportJobId) pc =
      ((apiStep env world pc).1.own exportJobId,
        (apiStep env world pc).2) := by
  have final : (world.store.own exportJobId).get? (finalKey exportJobId) =
      world.store.get? (finalKey exportJobId) :=
    ObjectStore.get?_own (ownKey_finalKey exportJobId)
  have same : SameReads world (world.store.own exportJobId) pc :=
    ⟨fun key isFile => by rw [file key isFile, final],
      fun key opens => by rw [opened key opens, final]⟩
  rw [World.own, World.own, apiStep_withStore same, apiStep_store]

theorem fileOf_apiStep {pc : ApiPc} {exportJobId : String}
    (file : world.FileOf exportJobId) (opened : pc.FileOf exportJobId) :
    (apiStep env world pc).2.FileOf exportJobId := by
  intro key opens
  rcases apiStep_opens opens with isFile | before
  · exact file key isFile
  · exact opened key before

/-- A statement of a sweep does the same on any bucket. -/
theorem sweepStep_own (exportJobId : String) (pc : SweepPc) :
    sweepStep env (world.own exportJobId) pc =
      ((sweepStep env world pc).1.own exportJobId,
        (sweepStep env world pc).2) := by
  cases pc with
  | markInterrupted cutoff message =>
      by_cases isStalled : world.job.any (stalled cutoff)
      · simp [sweepStep, isStalled]
      · simp [sweepStep, isStalled]
  | _ => rfl

end Statements

section Processes

variable {env : Env} {world : World}

theorem runCall_own (pc : RunPc) (fault : Fault) :
    runCall env (world.own env.exportJobId) pc fault =
      ((runCall env world pc fault).1.own env.exportJobId,
        (runCall env world pc fault).2) := by
  cases fault <;> simp only [runCall, runStep_own]

theorem apiCall_own {pc : ApiPc} (fault : Fault) {exportJobId : String}
    (file : world.FileOf exportJobId) (opened : pc.FileOf exportJobId) :
    apiCall env (world.own exportJobId) pc fault =
      ((apiCall env world pc fault).1.own exportJobId,
        (apiCall env world pc fault).2) := by
  cases fault <;> simp only [apiCall, apiStep_own file opened]

theorem sweepCall_own (exportJobId : String) (pc : SweepPc) (fault : Fault) :
    sweepCall env (world.own exportJobId) pc fault =
      ((sweepCall env world pc fault).1.own exportJobId,
        (sweepCall env world pc fault).2) := by
  cases fault <;> simp only [sweepCall, sweepStep_own]

/-- What the objects of an export let a process of it do. -/
theorem queueMove_own (exportJobId : String) (index : Nat) (pc : RunPc)
    (action : Action) :
    queueMove (world.own exportJobId) index pc action =
      (queueMove world index pc action).map fun result =>
        (result.1.own exportJobId, result.2) := by
  cases action <;> cases pc <;>
    simp [queueMove, World.heldEntry, Option.map_map, Function.comp_def]

/-- A process does the same on the objects of its export. -/
theorem act_own (index : Nat) {proc : Proc} (action : Action)
    (file : world.FileOf env.exportJobId)
    (opened : proc.FileOf env.exportJobId) :
    act env index (world.own env.exportJobId) proc action =
      (act env index world proc action).map fun result =>
        (result.1.own env.exportJobId, result.2) := by
  cases proc with
  | idle =>
      cases action <;>
        simp [act, World.readyEntry, Option.map_map, Function.comp_def,
          Env.staleCutoff]
  | run pc =>
      cases action with
      | call fault =>
          simp only [act, runCall_own]
          split <;> rfl
      | crash =>
          simp only [act]
          split <;> rfl
      | _ =>
          simp only [act]
          exact queueMove_own _ _ _ _
  | api pc =>
      cases action with
      | call fault =>
          simp only [act, apiCall_own fault file opened]
          split <;> rfl
      | crash =>
          simp only [act]
          split <;> rfl
      | _ => rfl
  | sweep pc =>
      cases action with
      | call fault =>
          simp only [act, sweepCall_own]
          rfl
      | _ => rfl
  | queueFailed error =>
      cases action with
      | call fault => cases fault <;> rfl
      | _ => rfl

end Processes

end ExportVault
