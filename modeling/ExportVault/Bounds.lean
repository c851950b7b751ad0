import ExportVault.Trail
import ExportVault.Deletion

/-!
# A run ends

No run of an export goes on for ever, whatever the other processes do in
between: the calls a run can still make are bounded by its position
(`RunPc.callsLeft`), and every call lowers the bound.  So each delivery is
over after a number of calls that depends on the requested rows only
(`run_ends`).
-/

namespace ExportVault

open Interleaving

/-- A listing that continues at the token may still hold the key. -/
def isBeyond (token : Option String) (key : String) : Bool :=
  match token with
  | none => true
  | some last => decide (last < key)

def chunksBeyond (exportJobId : String) (limit : Nat)
    (token : Option String) : Nat :=
  (List.range limit).countP fun (number : Nat) =>
    isBeyond token (chunkKey exportJobId (number + 1))

/-- The calls a deletion still makes once it has the next token. -/
def pagesLeft (exportJobId : String) (limit : Nat) : Option String → Nat
  | none => 0
  | some last => 2 * chunksBeyond exportJobId limit (some last) + 2

/-- The rows a run still has to write. -/
def Progress.left (run : Progress) (limit : Nat) : Nat :=
  (limit - run.exportedRowCount).toNat

/-- The calls a run can still make, at most, for a request of `limit` rows;
the last two of them record a failure. -/
def RunPc.callsLeft (exportJobId : String) (limit : Nat) : RunPc → Nat
  | .findJob => 8 * limit + 18
  | .recordMissing _ => 1
  | .cancelBeforeStart _ => 1
  | .claim _ _ => 8 * limit + 17
  | .setStartedAt _ => 8 * limit + 16
  | .loadResume _ => 8 * limit + 15
  | .readProgress job resume =>
      5 * (Progress.start job resume).left limit + 3 * limit + 14
  | .reconcile job resume =>
      5 * (Progress.start job resume).left limit + 3 * limit + 13
  -- a batch takes five calls
  | .pollCancel run => 5 * run.left limit + 3 * limit + 12
  | .writeCancelled _ => 2 * limit + 5
  | .fetchBatch run => 5 * run.left limit + 3 * limit + 11
  | .putChunk run _ _ => 5 * run.left limit + 3 * limit + 10
  | .confirmChunk run _ _ => 5 * run.left limit + 3 * limit + 9
  | .commitBatch run _ _ => 5 * run.left limit + 3 * limit + 8
  -- the chunks are read one by one
  | .loadFinal _ => 3 * limit + 12
  | .writeVerifying _ _ => 3 * limit + 11
  | .readChunk _ batchCount batchNumber _ =>
      (batchCount - batchNumber).toNat + 2 * limit + 11
  | .uploadFinal _ _ => 2 * limit + 10
  | .headAssembled _ => 2 * limit + 9
  | .verifyHead _ => 2 * limit + 8
  | .verifyRead _ _ => 2 * limit + 7
  | .saveVerification _ _ => 2 * limit + 6
  | .writeFileKey _ _ => 4
  | .writeCompleted _ => 2 * limit + 5
  -- a page takes two calls and moves the token on
  | .listChunks _ token _ => 2 * chunksBeyond exportJobId limit token + 4
  | .deletePage _ _ token _ => pagesLeft exportJobId limit token + 3
  | .failJob _ _ (.returns _) => 3
  | .failJob _ _ (.rethrows _) => 2
  | .recordFailure _ _ => 1
  | .returned _ => 0
  | .threw _ => 0
  | .crashed => 0

variable {env : Env} {world before after : World} {limit : Nat}
variable {run : Progress}

theorem chunksBeyond_none (exportJobId : String) (limit : Nat) :
    chunksBeyond exportJobId limit none = limit := by
  simp [chunksBeyond, isBeyond]

theorem isBeyond_trans {token : Option String} {key later : String}
    (beyond : isBeyond token key = true) (order : key < later) :
    isBeyond token later = true := by
  cases token with
  | none => rfl
  | some last =>
      exact decide_eq_true (lt_trans (of_decide_eq_true beyond) order)

/-- Beyond the key of a chunk that is itself beyond the token, there are
fewer. -/
theorem chunksBeyond_lt {exportJobId : String} {token : Option String}
    {number : Nat} (inRange : number < limit)
    (beyond : isBeyond token (chunkKey exportJobId (number + 1)) = true) :
    chunksBeyond exportJobId limit
        (some (chunkKey exportJobId (number + 1))) <
      chunksBeyond exportJobId limit token := by
  let key : Nat → String := fun other => chunkKey exportJobId (other + 1)
  have narrower :
      (List.range limit).filter (fun other =>
          isBeyond (some (key number)) (key other)) =
        ((List.range limit).filter fun other =>
          isBeyond token (key other)).filter fun other =>
            isBeyond (some (key number)) (key other) := by
    rw [List.filter_filter]
    apply List.filter_congr
    intro other _
    cases isLater : isBeyond (some (key number)) (key other) with
    | false => rfl
    | true =>
        rw [isBeyond_trans beyond (of_decide_eq_true isLater)]
        rfl
  rw [chunksBeyond, chunksBeyond, List.countP_eq_length_filter,
    List.countP_eq_length_filter]
  rw [narrower]
  apply List.length_filter_lt_length_iff_exists.mpr
  exact ⟨number, List.mem_filter.mpr ⟨List.mem_range.mpr inRange, beyond⟩,
    by simp [isBeyond]⟩

theorem callsLeft_onError {exportJobId : String} {pc : RunPc}
    (live : pc.ended = false) (error : AppError) :
    (pc.onError error).callsLeft exportJobId limit <
      pc.callsLeft exportJobId limit := by
  cases pc with
  | failJob reason error exit =>
      cases exit <;> simp [RunPc.onError, RunPc.caught, RunPc.callsLeft]
  | recordFailure error exit =>
      cases exit <;> simp [RunPc.onError, RunPc.exitWith, RunPc.callsLeft]
  | returned | threw | crashed => cases live
  | _ => simp [RunPc.onError, RunPc.caught, RunPc.callsLeft]

theorem callsLeft_loopTop (exportJobId : String) (limit : Nat)
    (run : Progress) :
    (RunPc.loopTop run).callsLeft exportJobId limit ≤
      5 * run.left limit + 3 * limit + 12 := by
  exact RunPc.loopTop_cases (motive := fun next =>
      next.callsLeft exportJobId limit ≤ 5 * run.left limit + 3 * limit + 12)
    run (fun _ => le_refl _)
    (fun _ reason => by simp only [RunPc.failWith, RunPc.callsLeft]; omega)
    fun _ => by simp only [RunPc.callsLeft]; omega

theorem callsLeft_nextPage (exportJobId : String) (outcome : RunOutcome)
    (token : Option String) (deleted : Nat) :
    (RunPc.nextPage outcome token deleted).callsLeft exportJobId limit ≤
      pagesLeft exportJobId limit token + 2 := by
  cases token with
  | none => exact Nat.zero_le _
  | some last =>
      rw [RunPc.nextPage]
      split
      · exact Nat.zero_le _
      · exact le_refl _

theorem callsLeft_assembleFrom (exportJobId : String) (run : Progress)
    (batchCount batchNumber : Int) (assembled : Bytes) :
    (RunPc.assembleFrom run batchCount batchNumber assembled).callsLeft
        exportJobId limit ≤
      (batchCount + 1 - batchNumber).toNat + 2 * limit + 10 := by
  rw [RunPc.assembleFrom]
  split <;> simp only [RunPc.callsLeft] <;> omega

def ChunksNumbered (env : Env) (world : World) : Prop :=
  ∀ key, hasPrefix (chunkPrefix env.exportJobId) key = true →
    world.store.get? key ≠ none →
      ∃ terms, world.terms = some terms ∧
        ∃ number : Int, 0 < number ∧ number ≤ terms.requestedRowLimit ∧
          key = chunkKey env.exportJobId number

/-- The token of the next page stands for a chunk beyond the last one. -/
theorem pagesLeft_next (token : Option String)
    (numbered : ChunksNumbered env world)
    (limited : ∀ terms, world.terms = some terms →
      terms.requestedRowLimit = limit) :
    let listed := world.store.listObjectsV2 (chunkPrefix env.exportJobId) token
    pagesLeft env.exportJobId limit
        (if listed.isTruncated then listed.nextContinuationToken else none) ≤
      2 * chunksBeyond env.exportJobId limit token := by
  intro listed
  cases next : (if listed.isTruncated then listed.nextContinuationToken
      else none) with
  | none => exact Nat.zero_le _
  | some last =>
      obtain ⟨_, lastEq⟩ := ObjectStore.token_mem next
      obtain ⟨stored, isChunk, beyond⟩ := ObjectStore.mem_keysAfter.mp
        (List.mem_of_mem_take (List.mem_of_getLast? lastEq))
      have present : world.store.get? last ≠ none := by
        rw [← Option.isSome_iff_ne_none]
        exact ObjectStore.mem_map_iff.mp stored
      have ahead : isBeyond token last = true := by
        cases token with
        | none => rfl
        | some before => exact decide_eq_true (beyond before rfl)
      obtain ⟨terms, known, number, positive, within, lastKey⟩ :=
        numbered last isChunk present
      obtain ⟨earlier, numberEq⟩ : ∃ earlier : Nat, number = earlier + 1 :=
        ⟨(number - 1).toNat, by omega⟩
      rw [lastKey, numberEq] at ahead ⊢
      have inRange : earlier < limit := by
        have sameLimit := limited terms known
        omega
      have fewer := chunksBeyond_lt inRange ahead
      simp only [pagesLeft]
      omega

/-- A batch that is written leaves fewer rows to write. -/
theorem left_advance {rows : List ExportableRow} {batchLastId : Int}
    (batch : HasBatch world run rows batchLastId)
    (limited : run.job.requestedRowLimit = limit) :
    (run.advance rows batchLastId).left limit + 1 ≤ run.left limit := by
  obtain ⟨raw, rfl, fetched⟩ := batch.fetched
  have some_row := List.length_pos_iff.mpr fetched.nonempty
  have less := batch.less
  simp only [Progress.left, Progress.advance, List.length_map]
  omega

/-- The batches of a finished log are no more than its rows. -/
theorem batchCount_le {batchCount : Int} (log : LogInvariant world)
    (finished : Finished world run) (last : run.batchNumber = batchCount + 1)
    (limited : run.job.requestedRowLimit = limit) : batchCount ≤ limit := by
  obtain ⟨number, _, count⟩ := finished.at_log log
  have rows := rowsOf_nonneg run.job.terms (finished.log log).rows
  have all := finished.all
  omega

/-- Every call of a run lowers the number of calls it has left. -/
theorem callsLeft_runStep (kept : List String) {pc : RunPc}
    (limited : ∀ terms, world.terms = some terms →
      terms.requestedRowLimit = limit)
    (log : LogInvariant world) (knows : logRuns world pc)
    (numbered : ChunksNumbered env world) (live : pc.ended = false) :
    (runStep env kept world pc).2.callsLeft env.exportJobId limit <
      pc.callsLeft env.exportJobId limit := by
  have begins := callsLeft_loopTop env.exportJobId limit
  cases pc with
  | findJob =>
      simp only [runStep, afterFindJob]
      repeat' split
      all_goals simp only [RunPc.callsLeft]; omega
  | claim job staleCutoff =>
      simp only [runStep, claimStep]
      split <;> simp only [RunPc.callsLeft] <;> omega
  | loadResume job =>
      have rows := rowsOf_nonneg job.terms (log.wellFormed _ knows).rows
      simp only [runStep, log.load knows, RunPc.callsLeft, Progress.left,
        Progress.start, resumeStateOf]
      omega
  | readProgress job resume =>
      simp only [runStep]
      split
      · refine lt_of_le_of_lt (begins _) ?_
        simp only [RunPc.callsLeft]
        omega
      · simp only [RunPc.callsLeft]
        omega
  | reconcile job resume =>
      refine lt_of_le_of_lt (begins _) ?_
      simp only [RunPc.callsLeft]
      omega
  | pollCancel run =>
      simp only [runStep]
      split <;> simp only [RunPc.callsLeft] <;> omega
  | fetchBatch run =>
      simp only [runStep]
      repeat' split
      all_goals
        simp only [RunPc.failWith, RunPc.caught, RunPc.callsLeft]
        omega
  | confirmChunk run rows batchLastId =>
      simp only [runStep, confirmStep]
      repeat' split
      all_goals
        simp only [RunPc.caught, RunPc.callsLeft]
        omega
  | commitBatch run rows batchLastId =>
      have fewer := left_advance knows (limited _ knows.job)
      simp only [runStep, commitStep]
      split
      · simp only [RunPc.caught, RunPc.callsLeft]
        omega
      · refine lt_of_le_of_lt (begins _) ?_
        simp only [RunPc.callsLeft]
        omega
  | loadFinal run =>
      simp only [runStep, finalStep]
      repeat' split
      all_goals
        simp only [RunPc.failWith, RunPc.caught, RunPc.callsLeft]
        omega
  | writeVerifying run batchCount =>
      have few := batchCount_le log knows.1 knows.2 (limited _ knows.1.job)
      refine lt_of_le_of_lt (callsLeft_assembleFrom _ _ _ _ _) ?_
      simp only [RunPc.callsLeft]
      omega
  | readChunk run batchCount batchNumber assembled =>
      simp only [runStep]
      split
      · simp only [RunPc.caught, RunPc.callsLeft]
        omega
      · refine lt_of_le_of_lt (callsLeft_assembleFrom _ _ _ _ _) ?_
        simp only [RunPc.callsLeft]
        omega
  | headAssembled run =>
      simp only [runStep]
      repeat' split
      all_goals
        simp only [RunPc.caught, RunPc.callsLeft]
        omega
  | verifyHead run =>
      simp only [runStep]
      split <;> simp only [RunPc.caught, RunPc.callsLeft] <;> omega
  | verifyRead run fileBytes =>
      simp only [runStep]
      repeat' split
      all_goals
        simp only [RunPc.caught, RunPc.callsLeft]
        omega
  | saveVerification run result =>
      simp only [runStep]
      repeat' split
      all_goals
        simp only [RunPc.caught, RunPc.callsLeft]
        omega
  | writeCompleted run =>
      simp only [runStep, RunPc.callsLeft, chunksBeyond_none]
      omega
  | writeCancelled run =>
      simp only [runStep, RunPc.callsLeft, chunksBeyond_none]
      omega
  | listChunks outcome token deleted =>
      have fewer := pagesLeft_next token numbered limited
      simp only [runStep]
      split
      · simp only [RunPc.callsLeft]
        omega
      · refine lt_of_le_of_lt (callsLeft_nextPage _ _ _ _) ?_
        simp only [RunPc.callsLeft]
        omega
  | deletePage outcome keys token deleted =>
      refine lt_of_le_of_lt (callsLeft_nextPage _ _ _ _) ?_
      simp only [RunPc.callsLeft]
      omega
  | failJob reason error exit =>
      cases exit <;> simp [runStep, RunPc.callsLeft]
  | recordFailure error exit =>
      cases exit <;> simp [runStep, RunPc.exitWith, RunPc.callsLeft]
  | returned | threw | crashed => cases live
  | _ =>
      simp only [runStep, RunPc.failWith, RunPc.callsLeft]
      omega

theorem ChunksNumbered.keep (numbered : ChunksNumbered env before)
    (terms : ∀ terms, before.terms = some terms → after.terms = some terms)
    (fewer : ∀ key, hasPrefix (chunkPrefix env.exportJobId) key = true →
      after.store.get? key ≠ none → before.store.get? key ≠ none) :
    ChunksNumbered env after := by
  intro key isChunk stored
  obtain ⟨known, knownEq, number, numbers⟩ :=
    numbered key isChunk (fewer key isChunk stored)
  exact ⟨known, terms known knownEq, number, numbers⟩

/-- The chunk a run writes is that of a batch of the request. -/
theorem numbered_putChunk {rows : List ExportableRow} {batchLastId : Int}
    {body : Bytes} (log : LogInvariant world)
    (batch : HasBatch world run rows batchLastId)
    (numbered : ChunksNumbered env world) :
    ChunksNumbered env
      (world.putObject (chunkKey env.exportJobId run.batchNumber) body) := by
  intro key isChunk stored
  by_cases here : key = chunkKey env.exportJobId run.batchNumber
  · obtain ⟨done, reached, number, _, count⟩ := batch.reached
    have wellFormed := (batch.toOnTrack.log log).upTo reached
    have rows := rowsOf_nonneg run.job.terms wellFormed.rows
    have less := batch.less
    refine ⟨run.job.terms, batch.job, run.batchNumber, by omega, ?_, here⟩
    simp only [ExportJob.terms]
    omega
  · refine numbered key isChunk ?_
    rwa [World.putObject_store, ObjectStore.get?_put_of_ne _ _ here] at stored

theorem numbered_runStep (kept : List String) {pc : RunPc}
    (log : LogInvariant world) (knows : logRuns world pc)
    (numbered : ChunksNumbered env world) :
    ChunksNumbered env (runStep env kept world pc).1 := by
  have terms : ∀ terms, world.terms = some terms →
      (runStep env kept world pc).1.terms = some terms :=
    fun _ known => (runStep_terms env kept world pc).trans known
  cases stores : pc.stores with
  | false =>
      refine numbered.keep terms fun key _ stored => ?_
      rwa [runStep_store env kept world stores] at stored
  | true =>
      cases pc with
      | putChunk run rows batchLastId =>
          exact numbered_putChunk log knows numbered
      | uploadFinal run assembled =>
          refine numbered.keep terms fun key isChunk stored => ?_
          have other : key ≠ finalKey env.exportJobId := by
            rintro rfl
            rw [not_hasPrefix_finalKey] at isChunk
            cases isChunk
          simp only [runStep, World.putObject_store,
            ObjectStore.get?_put_of_ne _ _ other] at stored
          exact stored
      | deletePage outcome keys token deleted =>
          refine numbered.keep terms fun key _ stored => ?_
          obtain ⟨body, present⟩ := Option.ne_none_iff_exists'.mp stored
          rw [ObjectStore.get?_of_get?_deleteObjects present]
          nofun
      | _ => cases stores

def numberedOutline (env : Env) :
    SystemOutline env fun config _ =>
      (logOutline env Anything).Holds config where
  invariant := ChunksNumbered env
  runs _ _ := True
  rely _ _ := True
  invariant_passive same numbered :=
    numbered.keep (keepsRows_same same).terms fun key _ stored => by
      rwa [same.store] at stored
  rely_passive _ := trivial
  stable_runs _ _ := trivial
  runs_findJob _ := trivial
  runs_ended _ _ _ := trivial
  runs_caught _ _ := trivial
  owner_stable_runs _ _ _ := trivial
  exclusive _ _ _ _ _ _ _ _ _ := rfl
  run_sound := by
    intro config index fault pc kept allowed here _ numbered _
    exact ⟨numbered_runStep kept allowed.1 (allowed.run here) numbered,
      trivial, .inl trivial⟩
  command_sound := by
    intro config index fault pc _ _ _ numbered _
    have keeps : KeepsRows config.shared (apiStep env config.shared pc).1 :=
      keepsRows_apiStep pc
    refine ⟨numbered.keep keeps.terms fun key _ stored => ?_, trivial,
      trivial⟩
    rwa [apiStep_store] at stored
  sweep_sound := by
    intro config index fault pc _ _ numbered
    have keeps : KeepsRows config.shared (sweepStep env config.shared pc).1 :=
      keepsRows_sweepStep pc
    refine ⟨numbered.keep keeps.terms fun key _ stored => ?_, trivial⟩
    rwa [sweepStep_store] at stored
  change_sound := by
    intro config change _ numbered
    refine ⟨numbered.keep (fun _ known =>
        (change.apply_terms config.shared).trans known) fun key _ stored => ?_,
      fun _ _ _ _ => trivial, fun _ _ _ _ => trivial⟩
    rwa [change.apply_store] at stored

theorem numberedOutline_initial {config : Config World Proc}
    (initial : Initial env config) : (numberedOutline env).Holds config := by
  apply SystemOutline.holds_of_idle _ initial.idle
  intro key isChunk stored
  exact absurd (initial.noChunks key isChunk) stored

/-! ## The end of a run -/

def callsOf (index : Nat) : Event Action Change → Bool
  | .act other (.call _) => decide (other = index)
  | _ => false

def Proc.callsLeft (exportJobId : String) (limit : Nat) : Proc → Nat
  | .run pc => pc.callsLeft exportJobId limit
  | _ => 0

/-- A call lowers the bound whether it succeeds or fails. -/
theorem callsLeft_runCall {pc : RunPc} (fault : Fault)
    (limited : ∀ terms, world.terms = some terms →
      terms.requestedRowLimit = limit)
    (log : LogInvariant world) (knows : logRuns world pc)
    (numbered : ChunksNumbered env world) (live : pc.ended = false) :
    (runCall env world pc fault).2.callsLeft env.exportJobId limit <
      pc.callsLeft env.exportJobId limit :=
  runCall_cases (motive := fun result =>
      result.2.callsLeft env.exportJobId limit <
        pc.callsLeft env.exportJobId limit) fault
    (fun kept => callsLeft_runStep kept limited log knows numbered live)
    (fun error => callsLeft_onError live error)
    fun error => callsLeft_onError live error

theorem ended_of_callsLeft {exportJobId : String} {pc : RunPc}
    (none : pc.callsLeft exportJobId limit = 0) : pc.ended = true := by
  cases pc with
  | returned | threw | crashed => rfl
  | failJob reason error exit => cases exit <;> cases none
  | _ => simp [RunPc.callsLeft] at none

/-- What is known while a run goes on. -/
structure Going (env : Env) (index : Nat) (config : Config World Proc) :
    Prop where
  logged : (logOutline env Anything).Holds config
  numbered : (numberedOutline env).Holds config
  running : ∃ pc, config.procs index = .run pc

/-- The job, when it exists, asks for the given number of rows. -/
def Asks (limit : Nat) (config : Config World Proc) : Prop :=
  ∀ terms, config.shared.terms = some terms →
    terms.requestedRowLimit = limit

/-- A step that is not the queue settling the run keeps it going; a call of
the run lowers its bound, nothing else raises it. -/
theorem going_step {config next : Config World Proc}
    {event : Event Action Change} {index : Nat} (asks : Asks limit config)
    (unsettled : event ≠ .act index .settle)
    (stepEq : (machine env).step config event = some next)
    (going : Going env index config) :
    Going env index next ∧
      (callsOf index event = true →
        (next.procs index).callsLeft env.exportJobId limit <
          (config.procs index).callsLeft env.exportJobId limit) ∧
      (callsOf index event = false →
        (next.procs index).callsLeft env.exportJobId limit ≤
          (config.procs index).callsLeft env.exportJobId limit) := by
  obtain ⟨logged, numbered, pc, here⟩ := going
  have goes : ∀ {later : RunPc}, next.procs index = .run later →
      Going env index next := fun there =>
    { logged := (logOutline env Anything).toProofOutline.step_preserved
        trivial stepEq logged
      numbered := (numberedOutline env).toProofOutline.step_preserved logged
        stepEq numbered
      running := ⟨_, there⟩ }
  cases event with
  | env change =>
      obtain ⟨shared, _, rfl⟩ := Network.step_env_iff.mp stepEq
      exact ⟨goes here, nofun, fun _ => le_refl _⟩
  | act other action =>
      obtain ⟨shared, proc, actEq, rfl⟩ := Network.step_act_iff.mp stepEq
      by_cases same : other = index
      · subst same
        simp only [Function.update_self] at goes ⊢
        have step := actStep_of_act actEq
        rw [here] at step ⊢
        cases step with
        | run fault live =>
            have lowers := callsLeft_runCall fault asks logged.1
              (logged.run here) numbered.1 live
            exact ⟨goes rfl, fun _ => lowers, fun _ => le_of_lt lowers⟩
        | runCrash live => exact ⟨goes rfl, nofun, fun _ => Nat.zero_le _⟩
        | settleReturned held => exact absurd rfl unsettled
        | settleThrew held => exact absurd rfl unsettled
        | stall held => exact ⟨goes rfl, nofun, fun _ => le_refl _⟩
      · have stays : Function.update config.procs other proc index =
            config.procs index := Function.update_of_ne (Ne.symm same) _ _
        simp only [stays] at goes ⊢
        refine ⟨goes here, fun calls => ?_, fun _ => le_refl _⟩
        cases action with
        | call fault => exact absurd (of_decide_eq_true calls) same
        | _ => cases calls

def KeepsTerms (earlier later : Config World Proc) : Prop :=
  ∀ terms, earlier.shared.terms = some terms →
    later.shared.terms = some terms

/-- The job asks for the rows it asks for in the end. -/
theorem asks_exec {permitted : Condition} {source target : Config World Proc}
    {events : List (Event Action Change)}
    (history : (machine env).Exec permitted source events target)
    (asks : Asks limit target) :
    (machine env).Exec (fun config event =>
      (permitted config event ∧ event ∈ events) ∧ Asks limit config)
      source events target := by
  have refl : ∀ config, KeepsTerms config config := fun _ _ same => same
  have trans : ∀ {first second third}, KeepsTerms first second →
      KeepsTerms second third → KeepsTerms first third :=
    fun before after terms same => after terms (before terms same)
  have headed := history.events.heading refl trans
    fun _ stepEq => (extends_step stepEq).terms
  exact headed.mono fun permission =>
    ⟨permission.1, fun terms same => asks terms (permission.2 terms same)⟩

/-- The number of rows that is asked for, as the rows of a job. -/
theorem asks_of_job {config : Config World Proc} {job : ExportJob}
    (found : config.shared.job = some job)
    (positive : 0 < job.requestedRowLimit) :
    Asks job.requestedRowLimit.toNat config := by
  intro terms known
  rw [World.terms, found, Option.map_some, Option.some.injEq] at known
  rw [← known]
  exact (Int.toNat_of_nonneg (le_of_lt positive)).symm

/-- Every delivery ends, under every interleaving with other runs, commands
and sweeps, with crashes and failed calls, and whatever happens to the
records: a run of an export of `n` rows is over at the latest after
`8 n + 18` calls of its own. -/
theorem run_ends {source middle target : Config World Proc}
    {early events : List (Event Action Change)} {index : Nat}
    {job : ExportJob} (initial : Initial env source)
    (before : (machine env).Exec Anything source early middle)
    (begins : middle.procs index = .run .findJob)
    (history : (machine env).Exec Anything middle events target)
    (unsettled : Event.act index Action.settle ∉ events)
    (found : target.shared.job = some job) :
    ∃ pc, target.procs index = .run pc ∧
      events.countP (callsOf index) ≤
        8 * job.requestedRowLimit.toNat + 18 ∧
      (pc.ended = true ∨ events.countP (callsOf index) <
        8 * job.requestedRowLimit.toNat + 18) := by
  have whole := Machine.exec_append.mpr ⟨middle, before, history⟩
  have positive := (rowCoherent_history initial whole _ found).counted.positive
  have asks := asks_of_job found positive
  have loggedBefore := (logOutline env Anything).strengthen before
    (logOutline_initial initial)
  have going : Going env index middle :=
    { logged := (logOutline env Anything).preserved before
        (logOutline_initial initial)
      numbered := (numberedOutline env).preserved
        (loggedBefore.mono fun permission => permission.2)
        (numberedOutline_initial initial)
      running := ⟨_, begins⟩ }
  have asking : (machine env).Exec (fun config event => event ∈ events ∧
      Asks job.requestedRowLimit.toNat config) middle events target :=
    (asks_exec history asks).mono
      fun permission => ⟨permission.1.2, permission.2⟩
  have keeps : ∀ {config event next}, event ∈ events ∧
      Asks job.requestedRowLimit.toNat config →
      (machine env).step config event = some next →
      Going env index config → Going env index next :=
    fun permission stepEq goes => (going_step permission.2
      (fun settles => unsettled (settles ▸ permission.1)) stepEq goes).1
  have lowers : ∀ {config event next}, (event ∈ events ∧
      Asks job.requestedRowLimit.toNat config) ∧ Going env index config →
      (machine env).step config event = some next → _ ∧ _ :=
    fun permission stepEq => (going_step permission.1.2
      (fun settles => unsettled (settles ▸ permission.1.1)) stepEq
      permission.2).2
  obtain ⟨pc, there⟩ := (asking.invariant keeps going).running
  have bounded := (asking.strengthen keeps going).countP_le
    (fun permission stepEq => (lowers permission stepEq).1)
    (fun permission stepEq => (lowers permission stepEq).2)
  rw [begins, there] at bounded
  simp only [Proc.callsLeft, RunPc.callsLeft] at bounded
  refine ⟨pc, there, by omega, ?_⟩
  rcases Nat.eq_zero_or_pos
    (pc.callsLeft env.exportJobId job.requestedRowLimit.toNat) with none | left
  · exact .inl (ended_of_callsLeft none)
  · right
    simp only [RunPc.callsLeft] at left
    omega

theorem deliver_begins {config next : Config World Proc} {index : Nat}
    (stepEq : (machine env).step config (.act index .deliver) = some next) :
    next.procs index = .run .findJob := by
  obtain ⟨shared, proc, actEq, rfl⟩ := Network.step_act_iff.mp stepEq
  have step := actStep_of_act actEq
  generalize config.procs index = before at step
  simp only [Function.update_self]
  cases step with
  | deliver ready => rfl

theorem run_ends_crashedAndResumed :
    ∃ middle target pc,
      (machine smallEnv).Exec Anything middle (calls 2 22) target ∧
        middle.procs 2 = .run .findJob ∧ target.procs 2 = .run pc ∧
        (calls 2 22).countP (callsOf 2) ≤ 8 * 2 + 18 ∧
        (pc.ended = true ∨ (calls 2 22).countP (callsOf 2) < 8 * 2 + 18) := by
  obtain ⟨target, job, history, found, _, _, limit, _⟩ :=
    crashedAndResumed_ends
  have anyhow : (machine smallEnv).Exec Anything (smallStart twoRecords)
      crashedAndResumed target := history.mono fun _ => trivial
  obtain ⟨middle, before, after⟩ := Machine.exec_append.mp anyhow
  have split := before
  rw [show createSteps 2 ++ .act 1 .deliver :: calls 1 14 ++
      [.act 1 .crash, .act 1 .stall, .env (.setRecords threeRecords),
        .env (.tick 60000), .act 2 .deliver] =
    (createSteps 2 ++ .act 1 .deliver :: calls 1 14 ++
      [.act 1 .crash, .act 1 .stall, .env (.setRecords threeRecords),
        .env (.tick 60000)]) ++ [.act 2 .deliver] from rfl] at split
  obtain ⟨waiting, _, _, next, stepEq, rfl⟩ := Machine.exec_append.mp split
  have begins := deliver_begins stepEq
  obtain ⟨pc, there, bound, ended⟩ := run_ends (initial_smallStart _) before
    begins after (by simp [calls]) found
  rw [limit] at bound ended
  exact ⟨next, target, pc, after, begins, there, bound, ended⟩

end ExportVault
