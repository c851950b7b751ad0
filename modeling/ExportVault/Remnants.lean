import ExportVault.Succession
import ExportVault.Deletion

/-!
# What a cancelled export leaves behind

`CANCELLED` is written at three places: by a cancel request for a job that no
worker holds, by a worker before it starts, and by a worker between two
batches.  Only the last of them goes on to delete the chunks.  A run that has
claimed the job writes another status or deletes the chunks unless it dies
(`RunPc.unsettled`), so the chunks go whenever such a run is left to see to them
(`CleanupLeft`).
-/

namespace ExportVault

open Interleaving

/-- The bucket holds no object under the prefix of the chunks. -/
def NoChunks (env : Env) (store : ObjectStore) : Prop :=
  ∀ key, hasPrefix (chunkPrefix env.exportJobId) key = true →
    store.get? key = none

/-- No run executes the job and no command on it is in progress. -/
def AtRest (config : Config World Proc) : Prop :=
  NoRunExecuting config ∧
    ∀ index, (config.procs index).commands (fun pc => !pc.ended) = false

def LeavesNoChunks (env : Env) (config : Config World Proc) : Prop :=
  config.shared.status = some .cancelled → AtRest config →
    NoChunks env config.shared.store

/-- No call fails. -/
def FaultFree : Condition := fun _ event =>
  ∀ index fault, event = .act index (.call fault) → fault = .none

/-- The run has yet to write its last status or to finish its deletion. -/
def RunPc.unsettled : RunPc → Bool
  | .recordFailure _ _ => false
  | pc => pc.claimed

/-- The next step of the process writes `CANCELLED` and is its last one. -/
def Proc.cancels : Proc → Action → Bool
  | .run (.cancelBeforeStart _), .call _ => true
  | .api (.writeCancel job), .call _ => decide (job.status ≠ .running)
  | _, _ => false

/-- Such a write, and a crash of a run that has to tidy up after one, happens
only when there are no chunks or another run will tidy up. -/
def CleanupLeft (env : Env) : Condition := fun config event =>
  ∀ index action, event = .act index action →
    ((config.procs index).cancels action = true ∨
      action = .crash ∧ (config.procs index).runs RunPc.unsettled = true ∧
        config.shared.status = some .cancelled) →
    NoChunks env config.shared.store ∨
      ∃ other, other ≠ index ∧
        (config.procs other).runs RunPc.unsettled = true

variable {env : Env} {world : World} {store : ObjectStore}

def deletionRuns (env : Env) (store : ObjectStore) : RunPc → Prop
  | .listChunks _ token _ =>
      ∀ key, hasPrefix (chunkPrefix env.exportJobId) key = true →
        store.get? key ≠ none → ∀ last, token = some last → last < key
  | .deletePage _ keys token _ =>
      (∀ last, token = some last → last ≠ "") ∧
        ∀ key, hasPrefix (chunkPrefix env.exportJobId) key = true →
          store.get? key ≠ none →
          key ∈ keys ∨ ∃ last, token = some last ∧ last < key
  | _ => True

/-- A run that has not claimed the job deletes nothing. -/
theorem deletionRuns_of_not_claimed {pc : RunPc}
    (free : pc.claimed = false) : deletionRuns env store pc := by
  cases pc <;> trivial

/-- A key with a non-empty prefix is not empty. -/
theorem ne_empty_of_hasPrefix {exportJobId key : String}
    (isPrefix : hasPrefix (chunkPrefix exportJobId) key = true) :
    key ≠ "" := by
  rintro rfl
  simp [hasPrefix, chunkPrefix] at isPrefix

/-- What a page leaves out lies beyond its last key. -/
theorem mem_contents_or_beyond {initial key : String} {token : Option String}
    (listed : key ∈ store.keysAfter initial token) :
    key ∈ (store.listObjectsV2 initial token).contents ∨
      ∃ last, (if (store.listObjectsV2 initial token).isTruncated then
          (store.listObjectsV2 initial token).nextContinuationToken
        else none) = some last ∧ last < key := by
  by_cases inPage : key ∈ (store.keysAfter initial token).take 1000
  · exact .inl inPage
  right
  have split := List.take_append_drop 1000 (store.keysAfter initial token)
  have long : 1000 < (store.keysAfter initial token).length := by
    by_contra short
    rw [List.take_of_length_le (not_lt.mp short)] at inPage
    exact inPage listed
  have page : (store.keysAfter initial token).take 1000 ≠ [] := by
    rw [ne_eq, ← List.length_eq_zero_iff, List.length_take]
    omega
  obtain ⟨last, lastEq⟩ :
      ∃ last, ((store.keysAfter initial token).take 1000).getLast? =
        some last :=
    ⟨_, List.getLast?_eq_some_getLast page⟩
  refine ⟨last, ?_, ?_⟩
  · simp only [ObjectStore.listObjectsV2, long, decide_true, if_true, lastEq]
  · have sorted : (store.keysAfter initial token).Pairwise (· ≤ ·) :=
      (List.pairwise_insertionSort _ _).filter _
    have member := List.mem_of_getLast? lastEq
    rw [← split] at sorted listed
    refine lt_of_le_of_ne ?_ fun same => inPage (same ▸ member)
    exact (List.pairwise_append.mp sorted).2.2 last member key
      ((List.mem_append.mp listed).resolve_left inPage)

/-- The run has deleted all chunks, or goes on to the next page. -/
theorem deletion_nextPage {token : Option String} (outcome : RunOutcome)
    (deleted : Nat) (named : ∀ last, token = some last → last ≠ "")
    (left : ∀ key, hasPrefix (chunkPrefix env.exportJobId) key = true →
      store.get? key ≠ none → ∃ last, token = some last ∧ last < key) :
    deletionRuns env store (.nextPage outcome token deleted) ∧
      ((RunPc.nextPage outcome token deleted).unsettled = true ∨
        NoChunks env store) := by
  cases token with
  | none =>
      refine ⟨trivial, .inr fun key isPrefix => ?_⟩
      by_contra stored
      obtain ⟨last, impossible, _⟩ := left key isPrefix stored
      cases impossible
  | some last =>
      rw [RunPc.nextPage, if_neg (named last rfl)]
      refine ⟨fun key isPrefix stored earlier same => ?_, .inl rfl⟩
      obtain ⟨_, lastEq, beyond⟩ := left key isPrefix stored
      rw [← Option.some.inj same]
      rwa [Option.some.inj lastEq]

def RunPc.deleting : RunPc → Bool
  | .listChunks _ _ _ => true
  | .deletePage _ _ _ _ => true
  | _ => false

/-- A statement of the deletion. -/
theorem deletion_step {pc : RunPc} (deleting : pc.deleting = true)
    (assertion : deletionRuns env world.store pc) :
    deletionRuns env (runStep env [] world pc).1.store
        (runStep env [] world pc).2 ∧
      ((runStep env [] world pc).2.unsettled = true ∨
        NoChunks env (runStep env [] world pc).1.store) := by
  cases pc with
  | listChunks outcome token deleted =>
      have named : ∀ last,
          (if (world.store.listObjectsV2 (chunkPrefix env.exportJobId)
              token).isTruncated then
            (world.store.listObjectsV2 (chunkPrefix env.exportJobId)
              token).nextContinuationToken
          else none) = some last → last ≠ "" := by
        intro last next
        have inPage := List.mem_of_getLast? (ObjectStore.token_mem next).2
        exact ne_empty_of_hasPrefix
          (ObjectStore.hasPrefix_of_mem_listObjectsV2 inPage)
      have left : ∀ key,
          hasPrefix (chunkPrefix env.exportJobId) key = true →
          world.store.get? key ≠ none → _ := fun key isPrefix stored =>
        mem_contents_or_beyond (ObjectStore.mem_keysAfter.mpr
          ⟨ObjectStore.mem_map_iff.mpr (Option.isSome_iff_ne_none.mpr stored),
            isPrefix, assertion key isPrefix stored⟩)
      simp only [runStep]
      split
      · exact ⟨⟨named, left⟩, .inl rfl⟩
      · next empty =>
          apply deletion_nextPage outcome deleted named
          intro key isPrefix stored
          refine (left key isPrefix stored).resolve_left fun inPage => ?_
          exact empty (List.length_pos_of_mem inPage)
  | deletePage outcome keys token deleted =>
      apply deletion_nextPage outcome _ assertion.1
      intro key isPrefix stored
      have storedBefore : world.store.get? key ≠ none := by
        intro absent
        apply stored
        by_contra present
        obtain ⟨body, bodyEq⟩ := Option.ne_none_iff_exists'.mp present
        rw [ObjectStore.get?_of_get?_deleteObjects bodyEq] at absent
        cases absent
      refine (assertion.2 key isPrefix storedBefore).resolve_left
        fun deletedHere => stored ?_
      exact ObjectStore.lookup_filter_of_neg
        (fun name =>
          !(keys.contains name && !([] : List String).contains name))
        (by simpa using deletedHere)
  | _ => cases deleting

/-- The run is not in the middle of the deletion. -/
theorem deletionRuns_of_not_deleting {pc : RunPc}
    (other : pc.deleting = false) : deletionRuns env store pc := by
  cases pc <;> trivial

theorem unsettled_loopTop (run : Progress) :
    (RunPc.loopTop run).unsettled = true ∧
      (RunPc.loopTop run).deleting = false := by
  exact RunPc.loopTop_cases (motive := fun next =>
    next.unsettled = true ∧ next.deleting = false) run (fun _ => ⟨rfl, rfl⟩)
    (fun _ _ => ⟨rfl, rfl⟩) fun _ => ⟨rfl, rfl⟩

/-- A run that will tidy up goes on to, or writes another status. -/
theorem unsettled_step {pc : RunPc} (unsettled : pc.unsettled = true)
    (other : pc.deleting = false) :
    ((runStep env [] world pc).2.unsettled = true ∧
        deletionRuns env (runStep env [] world pc).1.store
          (runStep env [] world pc).2) ∨
      (runStep env [] world pc).1.status ≠ some .cancelled ∧
        (runStep env [] world pc).2.deleting = false := by
  have goesOn : ∀ {next : RunPc} {after : World},
      next.unsettled = true ∧ next.deleting = false →
        (next.unsettled = true ∧ deletionRuns env after.store next) ∨
          after.status ≠ some .cancelled ∧ next.deleting = false :=
    fun next => .inl ⟨next.1, deletionRuns_of_not_deleting next.2⟩
  cases pc with
  | loadResume =>
      apply goesOn
      simp only [runStep]
      split <;> exact ⟨rfl, rfl⟩
  | readProgress =>
      apply goesOn
      simp only [runStep]
      split
      · exact unsettled_loopTop _
      · exact ⟨rfl, rfl⟩
  | reconcile => exact goesOn (unsettled_loopTop _)
  | pollCancel | confirmChunk | loadFinal =>
      apply goesOn
      simp only [runStep, confirmStep, finalStep]
      repeat' split
      all_goals exact ⟨rfl, rfl⟩
  | writeCancelled => exact .inl ⟨rfl, fun _ _ _ _ none => by cases none⟩
  | fetchBatch =>
      apply goesOn
      simp only [runStep]
      repeat' split
      all_goals exact ⟨rfl, rfl⟩
  | commitBatch =>
      apply goesOn
      simp only [runStep, commitStep]
      split
      · exact ⟨rfl, rfl⟩
      · exact unsettled_loopTop _
  | writeVerifying | readChunk =>
      apply goesOn
      simp only [runStep, RunPc.assembleFrom]
      repeat' split
      all_goals exact ⟨rfl, rfl⟩
  | headAssembled | verifyHead | verifyRead | saveVerification =>
      apply goesOn
      simp only [runStep]
      repeat' split
      all_goals exact ⟨rfl, rfl⟩
  | writeCompleted => exact .inl ⟨rfl, fun _ _ _ _ none => by cases none⟩
  | failJob reason error exit =>
      refine .inr ⟨?_, rfl⟩
      have failed :
          (runStep env [] world (.failJob reason error exit)).1.status =
            world.status.map fun _ => .failed :=
        world.status_updateJob_set fun _ => rfl
      rw [failed]
      cases world.status <;> simp
  | setStartedAt | putChunk | uploadFinal | writeFileKey =>
      exact goesOn ⟨rfl, rfl⟩
  | listChunks | deletePage => cases other
  | _ => cases unsettled

/-- A run that will not tidy up comes to do so by its claim only. -/
theorem deleting_step {pc : RunPc} (free : pc.unsettled = false)
    (live : pc.ended = false) :
    (runStep env [] world pc).2.deleting = false := by
  cases pc with
  | findJob =>
      simp only [runStep, afterFindJob]
      repeat' split
      all_goals rfl
  | claim =>
      simp only [runStep, claimStep]
      split <;> rfl
  | recordFailure error exit => cases exit <;> rfl
  | recordMissing | cancelBeforeStart => rfl
  | returned | threw | crashed => cases live
  | _ => cases free

/-- Only a run that will tidy up writes a chunk. -/
theorem noChunks_step {pc : RunPc} (none : NoChunks env world.store) :
    (runStep env [] world pc).2.unsettled = true ∨
      NoChunks env (runStep env [] world pc).1.store := by
  by_cases stores : pc.stores = true
  · cases pc with
    | putChunk => exact .inl rfl
    | uploadFinal => exact .inl rfl
    | deletePage outcome keys token deleted =>
        refine .inr fun key isPrefix => ?_
        by_contra present
        obtain ⟨body, bodyEq⟩ := Option.ne_none_iff_exists'.mp present
        have before := ObjectStore.get?_of_get?_deleteObjects bodyEq
        rw [none key isPrefix] at before
        cases before
    | _ => cases stores
  · simp only [Bool.not_eq_true] at stores
    rw [runStep_store env [] world stores]
    exact .inr none

/-- At most one run owns the job. -/
def ownerOutline (env : Env) (permitted : Condition)
    (alone : ∀ {config event}, permitted config event →
      AloneAtClaim config event) : SystemOutline env permitted where
  invariant _ := True
  runs _ _ := True
  owner := RunPc.claimed
  rely _ _ := True
  ownerRely _ _ := True
  invariant_passive _ _ := trivial
  rely_passive _ := trivial
  stable_runs _ _ := trivial
  owner_stable_runs _ _ _ := trivial
  runs_findJob _ := trivial
  runs_ended _ _ _ := trivial
  runs_caught _ _ := trivial
  owner_claimed _ owned := owned
  exclusive allowed here live owns ownedNot other otherPc different there :=
    aloneAtClaim_exclusive (alone allowed) here live owns ownedNot other
      otherPc different there
  run_sound _ _ _ _ _ := ⟨trivial, trivial, .inl trivial⟩
  command_sound _ _ _ _ _ := ⟨trivial, trivial, trivial⟩
  sweep_sound _ _ _ := ⟨trivial, trivial⟩
  change_sound _ _ := ⟨trivial, fun _ _ _ _ => trivial, fun _ _ _ _ => trivial⟩

theorem claimed_of_unsettled {pc : RunPc} (unsettled : pc.unsettled = true) :
    pc.claimed = true := by
  cases pc <;> first | rfl | cases unsettled

theorem claimed_of_stores {pc : RunPc} (stores : pc.stores = true) :
    pc.claimed = true := by
  cases pc <;> first | rfl | cases stores

/-- Every run that deletes knows what is left, and a cancelled job has no
chunks or a run that will see to them. -/
structure Tended (env : Env) (config : Config World Proc) : Prop where
  deletions : ∀ index pc, config.procs index = .run pc →
    deletionRuns env config.shared.store pc
  tidied : config.shared.status = some .cancelled →
    NoChunks env config.shared.store ∨
      ∃ index, (config.procs index).runs RunPc.unsettled = true

/-- A command writes `CANCELLED` for a job that no worker holds only. -/
theorem apiStep_cancelled {pc : ApiPc}
    (now : (apiStep env world pc).1.status = some .cancelled) :
    world.status = some .cancelled ∨
      ∃ job : ExportJob, pc = .writeCancel job ∧ job.status ≠ .running := by
  by_cases other : pc.inserts = false ∨ world.job ≠ none
  · by_cases sets : pc.sets = some .cancelled
    · cases pc with
      | writeCancel job =>
          refine .inr ⟨job, rfl, fun running => ?_⟩
          rw [ApiPc.sets, if_pos running] at sets
          cases sets
      | _ => cases sets
    · exact .inl ((apiStep_status env other).before sets now)
  · simp only [not_or, not_not, Bool.not_eq_false] at other
    obtain ⟨inserts, absent⟩ := other
    cases pc with
    | insertJob =>
        simp [apiStep, absent, World.status, newExportJob] at now
    | _ => cases inserts

/-- A call of a run keeps the chunks tended. -/
theorem tended_run {config : Config World Proc} {index : Nat} {pc : RunPc}
    (cleanup : CleanupLeft env config (.act index (.call .none)))
    (mine : config.procs index = .run pc) (live : pc.ended = false)
    (tended : Tended env config) :
    deletionRuns env (runStep env [] config.shared pc).1.store
        (runStep env [] config.shared pc).2 ∧
      ((runStep env [] config.shared pc).1.status = some .cancelled →
        NoChunks env (runStep env [] config.shared pc).1.store ∨
          (runStep env [] config.shared pc).2.unsettled = true ∨
          ∃ other, other ≠ index ∧
            (config.procs other).runs RunPc.unsettled = true) := by
  by_cases deleting : pc.deleting = true
  · obtain ⟨assertion, tidy⟩ :=
      deletion_step deleting (tended.deletions index pc mine)
    exact ⟨assertion, fun _ => tidy.symm.imp_right .inl⟩
  simp only [Bool.not_eq_true] at deleting
  by_cases unsettled : pc.unsettled = true
  · rcases unsettled_step unsettled deleting with
      ⟨goesOn, assertion⟩ | ⟨settled, elsewhere⟩
    · exact ⟨assertion, fun _ => .inr (.inl goesOn)⟩
    · exact ⟨deletionRuns_of_not_deleting elsewhere,
        fun cancelled => absurd cancelled settled⟩
  simp only [Bool.not_eq_true] at unsettled
  refine ⟨deletionRuns_of_not_deleting (deleting_step unsettled live),
    fun cancelled => ?_⟩
  by_cases was : config.shared.status = some .cancelled
  · rcases tended.tidied was with none | ⟨other, tidying⟩
    · exact (noChunks_step none).symm.imp_right .inl
    · refine .inr (.inr ⟨other, ?_, tidying⟩)
      rintro rfl
      rw [mine] at tidying
      exact absurd tidying (by simp [Proc.runs, unsettled])
  · -- a worker that has not claimed the job cancels it before it starts
    have sets : pc.sets = some .cancelled := by
      by_contra other
      exact was ((runStep_status env [] config.shared pc).before other
        cancelled)
    cases pc with
    | cancelBeforeStart job =>
        have cancels :
            (config.procs index).cancels (.call .none) = true := by
          rw [mine]
          rfl
        exact (cleanup index _ rfl (.inl cancels)).imp_right .inr
    | writeCancelled => cases unsettled
    | _ => cases sets

/-- What one process does to the store and the status. -/
theorem tended_act {config : Config World Proc} {index : Nat}
    {action : Action} {shared : World} {proc : Proc}
    (faultFree : FaultFree config (.act index action))
    (cleanup : CleanupLeft env config (.act index action))
    (step : ActStep env index config.shared (config.procs index) action
      shared proc)
    (tended : Tended env config) :
    (∀ pc, proc = .run pc → deletionRuns env shared.store pc) ∧
      (shared.status = some .cancelled →
        NoChunks env shared.store ∨ proc.runs RunPc.unsettled = true ∨
          ∃ other, other ≠ index ∧
            (config.procs other).runs RunPc.unsettled = true) := by
  generalize mine : config.procs index = old at step
  -- a step that changes neither, of a process with nothing to tidy up
  have persists : shared.store = config.shared.store →
      (shared.status = some .cancelled →
        config.shared.status = some .cancelled) →
      (old.runs RunPc.unsettled = true → proc.runs RunPc.unsettled = true) →
      shared.status = some .cancelled →
        NoChunks env shared.store ∨ proc.runs RunPc.unsettled = true ∨
          ∃ other, other ≠ index ∧
            (config.procs other).runs RunPc.unsettled = true := by
    intro sameStore sameStatus own cancelled
    rcases tended.tidied (sameStatus cancelled) with none | ⟨other, tidying⟩
    · exact .inl (sameStore ▸ none)
    · by_cases same : other = index
      · rw [same, mine] at tidying
        exact .inr (.inl (own tidying))
      · exact .inr (.inr ⟨other, same, tidying⟩)
  cases step with
  | start =>
      exact ⟨fun pc same => by cases same; trivial,
        persists rfl id fun own => by cases own⟩
  | deliver ready =>
      exact ⟨fun pc same => by cases same; trivial,
        persists rfl id fun own => by cases own⟩
  | run fault live =>
      obtain rfl := faultFree index fault rfl
      obtain ⟨assertion, tidied⟩ := tended_run cleanup mine live tended
      exact ⟨fun pc same => by cases same; exact assertion, tidied⟩
  | @runCrash pc live =>
      refine ⟨fun pc same => by cases same; trivial, fun cancelled => ?_⟩
      by_cases unsettled : pc.unsettled = true
      · exact (cleanup index _ rfl (.inr ⟨rfl, by rw [mine]; exact unsettled,
          cancelled⟩)).imp_right .inr
      · exact persists rfl id (fun own => absurd own unsettled) cancelled
  | settleReturned held =>
      exact ⟨fun pc same => by cases same; trivial,
        persists rfl id fun own => by cases own⟩
  | settleThrew held =>
      exact ⟨fun _ same => (by cases same),
        persists rfl id fun own => by cases own⟩
  | stall held =>
      exact ⟨fun pc same => tended.deletions index pc (mine.trans same),
        persists rfl id id⟩
  | @api pc fault live =>
      obtain rfl := faultFree index fault rfl
      refine ⟨fun _ same => (by cases same), fun cancelled => ?_⟩
      rcases apiStep_cancelled cancelled with was | ⟨job, rfl, notRunning⟩
      · exact persists (apiStep_store env config.shared pc) (fun _ => was)
          (fun own => by cases own) cancelled
      · have cancels :
            (config.procs index).cancels (.call .none) = true := by
          rw [mine]
          exact decide_eq_true notRunning
        exact (cleanup index _ rfl (.inl cancels)).imp_right .inr
  | @sweep pc fault =>
      obtain rfl := faultFree index fault rfl
      exact ⟨fun _ same => (by cases same),
        persists (sweepStep_store env config.shared pc)
          (sweepStep_before (by decide)) fun own => by cases own⟩
  | queueFailed fault same entry =>
      exact ⟨fun _ same => (by cases same),
        persists same.store (fun now => same.status.symm.trans now)
          fun own => by cases own⟩
  | _ =>
      exact ⟨fun _ same => (by cases same),
        persists rfl id fun own => by cases own⟩

/-- Only a run that owns the job writes to the store. -/
theorem actStep_store {index : Nat} {after : World} {proc next : Proc}
    {action : Action} (free : proc.owning = false)
    (step : ActStep env index world proc action after next) :
    after.store = world.store := by
  cases step with
  | @run pc fault live =>
      have noStore : pc.stores = false := by
        rw [← Bool.not_eq_true]
        intro stores
        exact absurd (claimed_of_stores stores)
          (by simpa [Proc.owning] using free)
      exact runCall_cases (motive := fun result =>
        result.1.store = world.store) fault
        (fun kept => runStep_store env kept world noStore) (fun _ => rfl)
        fun _ => runStep_store env [] world noStore
  | @api pc fault live =>
      exact apiCall_cases (motive := fun result =>
        result.1.store = world.store) fault (apiStep_store env world pc)
        (fun _ => rfl) fun _ => apiStep_store env world pc
  | @sweep pc fault =>
      exact sweepCall_cases (motive := fun result =>
        result.1.store = world.store) fault (sweepStep_store env world pc) rfl
        (sweepStep_store env world pc)
  | queueFailed fault same entry => exact same.store
  | _ => rfl

/-- A step keeps the chunks tended. -/
theorem tended_step {before after : Config World Proc}
    {event : Event Action Change}
    (faultFree : FaultFree before event) (cleanup : CleanupLeft env before event)
    (unique : ∀ first second, (before.procs first).owning = true →
      (before.procs second).owning = true → first = second)
    (stepEq : (machine env).step before event = some after)
    (tended : Tended env before) : Tended env after := by
  cases event with
  | env change =>
      obtain ⟨shared, changeEq, rfl⟩ := Network.step_env_iff.mp stepEq
      obtain rfl := Option.some.inj changeEq
      have store := change.apply_store before.shared
      refine ⟨fun index pc there => ?_, fun cancelled => ?_⟩
      · rw [store]
        exact tended.deletions index pc there
      · rw [store]
        exact tended.tidied
          ((change.apply_status before.shared).symm.trans cancelled)
  | act index action =>
      obtain ⟨shared, proc, actEq, rfl⟩ := Network.step_act_iff.mp stepEq
      have step := actStep_of_act actEq
      obtain ⟨assertion, tidied⟩ := tended_act faultFree cleanup step tended
      have here : Function.update before.procs index proc index = proc :=
        Function.update_self ..
      have elsewhere : ∀ {other}, other ≠ index →
          Function.update before.procs index proc other =
            before.procs other :=
        fun different => Function.update_of_ne different ..
      refine ⟨fun other pc there => ?_, fun cancelled => ?_⟩
      · by_cases same : other = index
        · subst same
          exact assertion pc (here.symm.trans there)
        · replace there := (elsewhere same).symm.trans there
          -- only the owner writes to the store, and there is one
          by_cases claimed : pc.claimed = true
          · have free : (before.procs index).owning = false := by
              rw [← Bool.not_eq_true]
              intro owns
              exact same (unique other index (there ▸ claimed) owns)
            have sameStore : shared.store = before.shared.store :=
              actStep_store free step
            rw [sameStore]
            exact tended.deletions other pc there
          · exact deletionRuns_of_not_claimed (by simpa using claimed)
      · rcases tidied cancelled with none | own | ⟨other, different, tidying⟩
        · exact .inl none
        · exact .inr ⟨index, (congrArg (Proc.runs _) here).trans own⟩
        · exact .inr ⟨other,
            (congrArg (Proc.runs _) (elsewhere different)).trans tidying⟩

theorem tended_initial {config : Config World Proc}
    (initial : Initial env config) : Tended env config where
  deletions index pc there := by
    rw [initial.idle index] at there
    cases there
  tidied cancelled := by
    rw [World.status, initial.noJob] at cancelled
    cases cancelled

/-- One run at a time owns the job. -/
theorem unique_of_holds {permitted : Condition}
    {alone : ∀ {config event}, permitted config event →
      AloneAtClaim config event} {config : Config World Proc}
    (holds : (ownerOutline env permitted alone).Holds config)
    (first second : Nat) (ownsFirst : (config.procs first).owning = true)
    (ownsSecond : (config.procs second).owning = true) : first = second := by
  have owning : ∀ {index}, (config.procs index).owning = true →
      (ownerOutline env permitted alone).owning (config.procs index) := by
    intro index owns
    generalize config.procs index = proc at owns
    cases proc with
    | run pc => exact owns
    | _ => cases owns
  exact holds.2.2 first second (owning ownsFirst) (owning ownsSecond)

/-- In every history of calls that do not fail and successive runs, whose
cancellations leave the deletion of the chunks to somebody, a cancelled export
at rest has no chunks. -/
theorem cancelled_leaves_no_chunks {source target : Config World Proc}
    {events : List (Event Action Change)} (initial : Initial env source)
    (history : (machine env).Exec
      (fun config event => FaultFree config event ∧
        AloneAtClaim config event ∧ CleanupLeft env config event)
      source events target) : LeavesNoChunks env target := by
  have owned := (ownerOutline env _ fun allowed => allowed.2.1).strengthen
    history ((ownerOutline env _ _).holds_of_idle initial.idle trivial)
  have tended : Tended env target := by
    refine owned.invariant (fun allowed stepEq => ?_) (tended_initial initial)
    obtain ⟨⟨faultFree, _, cleanup⟩, holds⟩ := allowed
    exact tended_step faultFree cleanup (unique_of_holds holds) stepEq
  intro cancelled atRest
  rcases tended.tidied cancelled with none | ⟨index, tidying⟩
  · exact none
  · obtain ⟨pc, there, unsettled⟩ := Proc.exists_of_runs tidying
    have settledNow := atRest.1 index
    rw [there, Proc.executing, live_of_claimed (claimed_of_unsettled unsettled)]
      at settledNow
    cases settledNow

/-- `FaultFree`, computed. -/
def faultFree : Event Action Change → Bool
  | .act _ (.call fault) => decide (fault = .none)
  | _ => true

theorem faultFree_sound {config : Config World Proc}
    {event : Event Action Change} (passes : faultFree event = true) :
    FaultFree config event := by
  rintro index fault rfl
  exact of_decide_eq_true passes

/-- No process crashes or cancels outright. -/
def needsNoCleanup (config : Config World Proc) : Event Action Change → Bool
  | .act index action =>
      !(config.procs index).cancels action && decide (action ≠ .crash)
  | .env _ => true

theorem needsNoCleanup_sound {config : Config World Proc}
    {event : Event Action Change} (passes : needsNoCleanup config event = true) :
    CleanupLeft env config event := by
  rintro index action rfl needed
  simp only [needsNoCleanup, Bool.and_eq_true, Bool.not_eq_true',
    decide_eq_true_eq] at passes
  rcases needed with cancels | ⟨crashes, _⟩
  · rw [passes.1] at cancels
    cases cancels
  · exact absurd crashes passes.2

/-- No process below the bound executes a run or a command. -/
def restsBelow (bound : Nat) (config : Config World Proc) : Bool :=
  (List.range bound).all fun index =>
    !(config.procs index).executing &&
      !(config.procs index).commands fun pc => !pc.ended

theorem atRest_of_restsBelow {bound : Nat} {config : Config World Proc}
    (idle : IdleFrom bound config)
    (below : restsBelow bound config = true) : AtRest config := by
  simp only [restsBelow, List.all_eq_true, List.mem_range, Bool.and_eq_true,
    Bool.not_eq_true'] at below
  have either : ∀ index, (config.procs index).executing = false ∧
      (config.procs index).commands (fun pc => !pc.ended) = false := by
    intro index
    by_cases inside : index < bound
    · exact below index inside
    · rw [idle index (not_lt.mp inside)]
      exact ⟨rfl, rfl⟩
  exact ⟨fun index => (either index).1, fun index => (either index).2⟩

/-- The worker dies after the first batch, a sweep marks the export
`INTERRUPTED` and the user cancels it. -/
def cancelledInterrupted : List (Event Action Change) :=
  createSteps 2 ++ .act 1 .deliver :: calls 1 10 ++
    [.act 1 .crash, .env (.tick 60000), .act 2 .beginSweep] ++ calls 2 3 ++
    .act 3 (.request (.cancel "u")) :: calls 3 2

/-- The chunk of the first batch stays. -/
theorem cancelledInterrupted_keeps_chunk :
    ∃ target,
      (machine smallEnv).Exec
        (fun config event => FaultFree config event ∧
          AloneAtClaim config event)
        (smallStart twoRecords) cancelledInterrupted target ∧
      ¬ LeavesNoChunks smallEnv target := by
  obtain ⟨target, history, idle, ends⟩ :=
    exists_history
      (fun config event => FaultFree config event ∧
        AloneAtClaim config event) twoRecords 4
      (fun config event => faultFree event && aloneAtClaim 4 config event)
      cancelledInterrupted
      (fun target =>
        decide (target.shared.status = some .cancelled) &&
          restsBelow 4 target &&
          (target.shared.store.get?
            (chunkKey smallEnv.exportJobId 1)).isSome)
      (fun idle passes => by
        simp only [Bool.and_eq_true] at passes
        exact ⟨faultFree_sound passes.1, aloneAtClaim_sound idle passes.2⟩)
      (by decide +kernel)
  simp only [Bool.and_eq_true, decide_eq_true_eq] at ends
  obtain ⟨⟨cancelled, rests⟩, stored⟩ := ends
  refine ⟨target, history, fun leaves => ?_⟩
  rw [leaves cancelled (atRest_of_restsBelow idle rests) _
    (hasPrefix_chunkKey _ 1)] at stored
  cases stored

end ExportVault
