import ExportVault.Vault
import ExportVault.Frames

/-!
# Commands on the vault

What a command of a user does to the vault, whatever the command: it opens the
file of its own export only (`runCommand_withStore`), it ends within the calls
it is given (`runCommand_ends`), it leaves the owner of a row alone
(`onBehalf_runCommand`), and what it does is written back as it is
(`world_command`).
-/

namespace ExportVault

variable {server : Server} {userId exportJobId : String} {vault : Vault}
variable {row : Export} {call : Call}

theorem Vault.find_eq_some_iff :
    vault.find exportJobId = some row ↔
      row ∈ vault.exports ∧ row.id = canonical exportJobId := by
  constructor
  · intro found
    exact ⟨List.mem_of_find?_eq_some found,
      by simpa using List.find?_some found⟩
  · rintro ⟨member, same⟩
    cases found : vault.find exportJobId with
    | none =>
        rw [Vault.find, List.find?_eq_none] at found
        exact absurd same (by simpa using found row member)
    | some other =>
        have otherMember := List.mem_of_find?_eq_some found
        have otherSame : other.id = canonical exportJobId := by
          simpa using List.find?_some found
        exact congrArg some (List.inj_on_of_nodup_map vault.distinct
          otherMember member (otherSame.trans same.symm))

/-- A row with the id that was looked up is the row that was found. -/
theorem Vault.eq_of_find {other : Export}
    (found : vault.find exportJobId = some row)
    (member : other ∈ vault.exports)
    (targeted : other.id = canonical exportJobId) : other = row :=
  Option.some.inj
    ((Vault.find_eq_some_iff.mpr ⟨member, targeted⟩).symm.trans found)

theorem Vault.find_eq_none_iff :
    vault.find exportJobId = none ↔
      ∀ row ∈ vault.exports, row.id ≠ canonical exportJobId := by
  simp [Vault.find, List.find?_eq_none]

@[simp]
theorem Vault.absorb_queue_self {after : World} :
    (vault.absorb call exportJobId after).queue exportJobId = after.entry :=
  Function.update_self ..

theorem Vault.absorb_queue_of_ne {after : World} {other : String}
    (different : other ≠ exportJobId) :
    (vault.absorb call exportJobId after).queue other = vault.queue other :=
  Function.update_of_ne different ..

/-- The object a statement of a command is about to read or to sign a URL
for. -/
def ApiPc.opens : ApiPc → Option String
  | .verifyHead _ fileKey => some fileKey
  | .verifyRead _ fileKey _ => some fileKey
  | .latestForDownload fileKey => some fileKey
  | _ => none

/-- The store agrees with that of the world on the file of the job and on the
object about to be read. -/
structure SameReads (world : World) (store : ObjectStore) (pc : ApiPc) :
    Prop where
  file : ∀ fileKey, world.fileKey = some fileKey →
    store.get? fileKey = world.store.get? fileKey
  opens : ∀ fileKey, pc.opens = some fileKey →
    store.get? fileKey = world.store.get? fileKey

def World.withStore (world : World) (store : ObjectStore) : World :=
  { world with store := store }

variable {env : Env} {world : World} {store : ObjectStore} {pc : ApiPc}

/-- A statement does the same on a store with the same object. -/
theorem apiStep_withStore (same : SameReads world store pc) :
    apiStep env (world.withStore store) pc =
      ((apiStep env world pc).1.withStore store, (apiStep env world pc).2) := by
  cases pc with
  | verifyHead job fileKey =>
      simp only [apiStep, World.withStore, same.opens fileKey rfl]
  | verifyRead job fileKey fileBytes =>
      simp only [apiStep, World.withStore, same.opens fileKey rfl]
  | insertJob userId rowLimit snapshotMaxId =>
      cases found : world.job <;>
        simp [apiStep, World.withStore, found, newExportJob]
  | remove caller =>
      simp only [apiStep, World.withStore]
      split <;> rfl
  | add caller =>
      cases found : world.entry <;>
        simp [apiStep, World.withStore, World.setEntry, found]
  | saveVerification job result =>
      simp only [apiStep, World.withStore]
      split <;> rfl
  | _ => rfl

/-- Only the file of the job is opened. -/
theorem apiStep_opens {fileKey : String}
    (opens : (apiStep env world pc).2.opens = some fileKey) :
    world.fileKey = some fileKey ∨ pc.opens = some fileKey := by
  have owned : ∀ {userId : String} {next : ExportJob → ApiPc},
      (∀ job, (next job).opens = none) →
        (getOwnedExportJob world userId next).opens = none := by
    intro userId next follows
    exact getOwnedExportJob_cases (motive := fun next => next.opens = none)
      userId rfl fun job _ => follows job
  have answered : ∀ {after : World} {next : ExportJob → ApiPc},
      (∀ job, (next job).opens = none) →
        (returnJob after next).opens = none := by
    intro after next follows
    exact returnJob_cases (motive := fun next => next.opens = none)
      (fun _ => rfl) fun job _ => follows job
  have enqueued : ∀ caller, (ApiPc.afterEnqueue caller).opens = none := by
    intro caller
    cases caller <;> rfl
  have never : ∀ {next : ApiPc}, next.opens = none →
      next.opens = some fileKey →
        world.fileKey = some fileKey ∨ pc.opens = some fileKey := by
    intro next none some
    rw [none] at some
    cases some
  cases pc with
  | findForVerify =>
      left
      rw [World.fileKey]
      revert opens
      simp only [apiStep]
      cases world.job with
      | none => exact fun opens => by cases opens
      | some job =>
          simp only [Option.bind_some]
          cases job.fileKey with
          | none => exact fun opens => by cases opens
          | some key =>
              simp only
              split
              · exact fun opens => by cases opens
              · exact id
  | verifyHead job key =>
      right
      revert opens
      simp only [apiStep]
      split
      · exact fun opens => by cases opens
      · exact id
  | verifyRead job key fileBytes =>
      refine never ?_ opens
      simp only [apiStep]
      repeat' split
      all_goals rfl
  | countRecords | insertJob | getJob | remove | saveVerification =>
      refine never ?_ opens
      simp only [apiStep]
      split <;> rfl
  | getState =>
      refine never ?_ opens
      simp only [apiStep]
      split
      · exact enqueued _
      · rfl
  | add => exact never (enqueued _) opens
  | writeQueued => exact never (answered fun _ => rfl) opens
  | writeResuming => exact never (answered fun _ => rfl) opens
  | writeCancel => exact never (answered fun _ => rfl) opens
  | findForVerifyOwner => exact never (owned fun _ => rfl) opens
  | findForResume =>
      refine never (owned fun job => ?_) opens
      simp only [afterFindForResume]
      repeat' split
      all_goals rfl
  | findForCancel =>
      refine never (owned fun job => ?_) opens
      simp only [afterFindForCancel]
      repeat' split
      all_goals rfl
  | findForDownload userId =>
      left
      rw [World.fileKey]
      revert opens
      refine getOwnedExportJob_cases
        (motive := fun next => next.opens = some fileKey →
          (world.job.bind fun row : ExportJob => row.fileKey) = some fileKey)
        userId (fun opens => by cases opens) fun job found => ?_
      rw [found, Option.bind_some, afterFindForDownload]
      split
      · exact fun opens => by cases opens
      · cases job.fileKey with
        | none => exact fun opens => by cases opens
        | some key =>
            simp only
            split
            · exact fun opens => by cases opens
            · exact id
  | latestForDownload =>
      refine never ?_ opens
      simp only [apiStep, afterLatestForDownload]
      repeat' split
      all_goals rfl
  | _ => exact never rfl opens

theorem sameReads_step (same : SameReads world store pc)
    (other : pc.inserts = false ∨ world.job ≠ none) :
    SameReads (apiStep env world pc).1 store (apiStep env world pc).2 := by
  refine ⟨fun fileKey file => ?_, fun fileKey opens => ?_⟩
  · rw [apiStep_store]
    rw [apiStep_fileKey env other] at file
    exact same.file fileKey file
  · rw [apiStep_store]
    rcases apiStep_opens opens with file | before
    · exact same.file fileKey file
    · exact same.opens fileKey before

/-- The job a command has just inserted has no file. -/
theorem sameReads_insert {userId : String} {rowLimit snapshotMaxId : Int}
    (absent : world.job = none) :
    SameReads
      (apiStep env world (.insertJob userId rowLimit snapshotMaxId)).1 store
      (apiStep env world (.insertJob userId rowLimit snapshotMaxId)).2 := by
  refine ⟨fun fileKey file => ?_, fun fileKey opens => ?_⟩
  · simp [apiStep, absent, World.fileKey, newExportJob] at file
  · simp only [apiStep, absent] at opens
    cases opens

/-- A command does the same on a store with the same object. -/
theorem runCommand_withStore (env : Env) (calls : Nat)
    (same : SameReads world store pc) :
    runCommand env calls (world.withStore store) pc =
      ((runCommand env calls world pc).1.withStore store,
        (runCommand env calls world pc).2) := by
  induction calls generalizing world pc with
  | zero => rfl
  | succ calls inductionHypothesis =>
      simp only [runCommand]
      split
      · rfl
      · have next : SameReads (apiStep env world pc).1 store
            (apiStep env world pc).2 := by
          by_cases other : pc.inserts = false ∨ world.job ≠ none
          · exact sameReads_step same other
          · simp only [not_or, not_not, Bool.not_eq_false] at other
            obtain ⟨inserts, absent⟩ := other
            cases pc with
            | insertJob => exact sameReads_insert absent
            | _ => cases inserts
        rw [apiStep_withStore same]
        exact inductionHypothesis next

/-- What every statement of a command keeps, the command keeps. -/
theorem runCommand_keeps (property : World → Prop)
    (kept : ∀ {world} pc, property world →
      property (apiStep env world pc).1)
    (calls : Nat) (pc : ApiPc) (initial : property world) :
    property (runCommand env calls world pc).1 := by
  induction calls generalizing world pc with
  | zero => exact initial
  | succ calls inductionHypothesis =>
      rw [runCommand]
      split
      · exact initial
      · exact inductionHypothesis _ (kept pc initial)

theorem runCommand_store (env : Env) (calls : Nat) (world : World)
    (pc : ApiPc) : (runCommand env calls world pc).1.store = world.store :=
  runCommand_keeps (fun after => after.store = world.store)
    (fun pc same => (apiStep_store env _ pc).trans same) calls pc rfl

/-- A statement of a command leaves fewer calls. -/
theorem callsLeft_apiStep (env : Env) (world : World)
    (live : pc.ended = false) :
    (apiStep env world pc).2.callsLeft < pc.callsLeft := by
  have owned : ∀ {userId : String} {next : ExportJob → ApiPc} {bound : Nat},
      0 < bound → (∀ job, (next job).callsLeft < bound) →
        (getOwnedExportJob world userId next).callsLeft < bound := by
    intro userId next bound positive follows
    exact getOwnedExportJob_cases
      (motive := fun next => next.callsLeft < bound) userId positive
      fun job _ => follows job
  have answered : ∀ {after : World} {next : ExportJob → ApiPc} {bound : Nat},
      0 < bound → (∀ job, (next job).callsLeft < bound) →
        (returnJob after next).callsLeft < bound := by
    intro after next bound positive follows
    exact returnJob_cases (motive := fun next => next.callsLeft < bound)
      (fun _ => positive) fun job _ => follows job
  cases pc with
  | captureSnapshot | countCheckpoints | latestForVerify =>
      exact Nat.lt_succ_self _
  | countRecords | insertJob | verifyHead | saveVerification =>
      simp only [apiStep]
      split <;> simp [ApiPc.callsLeft]
  | findForVerify | verifyRead =>
      simp only [apiStep]
      repeat' split
      all_goals simp [ApiPc.callsLeft]
  | getJob caller | getState caller | remove caller =>
      simp only [apiStep]
      split <;> cases caller <;> simp [ApiPc.callsLeft, ApiPc.afterEnqueue]
  | add caller => cases caller <;> exact Nat.lt_succ_self _
  | writeQueued => exact answered Nat.one_pos fun _ => Nat.one_pos
  | writeResuming =>
      exact answered (Nat.succ_pos _) fun _ => Nat.lt_succ_self _
  | writeCancel => exact answered Nat.one_pos fun _ => Nat.one_pos
  | findForVerifyOwner => exact owned (Nat.succ_pos _) fun _ => by simp [ApiPc.callsLeft]
  | findForResume =>
      refine owned (Nat.succ_pos _) fun job => ?_
      simp only [afterFindForResume]
      repeat' split
      all_goals simp [ApiPc.callsLeft]
  | findForCancel =>
      refine owned (Nat.succ_pos _) fun job => ?_
      simp only [afterFindForCancel]
      repeat' split
      all_goals simp [ApiPc.callsLeft]
  | findForDownload =>
      refine owned (Nat.succ_pos _) fun job => ?_
      simp only [afterFindForDownload]
      repeat' split
      all_goals simp [ApiPc.callsLeft]
  | latestForDownload =>
      simp only [apiStep, afterLatestForDownload]
      repeat' split
      all_goals simp [ApiPc.callsLeft]
  | returned | threw | crashed => cases live

/-- A command has ended when its calls are made. -/
theorem runCommand_ends (env : Env) {calls : Nat}
    (enough : pc.callsLeft ≤ calls) :
    (runCommand env calls world pc).2.ended = true := by
  induction calls generalizing world pc with
  | zero =>
      rw [runCommand]
      by_contra live
      have later := callsLeft_apiStep env world
        (by simpa using live)
      omega
  | succ calls inductionHypothesis =>
      rw [runCommand]
      split
      · assumption
      · next live =>
          have later := callsLeft_apiStep env world
            (by simpa using live)
          exact inductionHypothesis (by omega)

theorem runCommand_ended (ended : pc.ended = true) (calls : Nat) :
    runCommand env calls world pc = (world, pc) := by
  cases calls with
  | zero => rfl
  | succ calls => rw [runCommand, if_pos ended]

/-- The user for whom a command is about to create the job. -/
def ApiPc.creator : ApiPc → Option String
  | .captureSnapshot userId _ => some userId
  | .countRecords userId _ _ => some userId
  | .insertJob userId _ _ => some userId
  | _ => none

/-- A command of the user, begun in a world with a job of the user, or with
none and about to create one. -/
structure OnBehalf (userId : String) (fileKey : Option String)
    (begun world : World) (pc : ApiPc) : Prop where
  job : ∀ job, world.job = some job →
    job.userId = userId ∧ job.fileKey = fileKey
  creator : ∀ user, pc.creator = some user → user = userId
  early : world.job = none → world = begun ∧ fileKey = none ∧
    (pc.creates = true ∨ pc.ended = true)
  stays : begun.job ≠ none → world.job ≠ none

theorem creator_of_not_creates (other : pc.creates = false) :
    pc.creator = none := by
  cases pc <;> first | rfl | cases other

/-- A statement of a command that has found or inserted the job. -/
theorem onBehalf_present {fileKey : Option String} {begun : World}
    (present : world.job ≠ none)
    (command : OnBehalf userId fileKey begun world pc) :
    OnBehalf userId fileKey begun (apiStep env world pc).1
      (apiStep env world pc).2 := by
  have terms : (apiStep env world pc).1.terms = world.terms :=
    apiStep_terms env (.inr present)
  have file : (apiStep env world pc).1.fileKey = world.fileKey :=
    apiStep_fileKey env (.inr present)
  obtain ⟨row, found⟩ := Option.ne_none_iff_exists'.mp present
  have stays : (apiStep env world pc).1.job ≠ none := by
    intro absent
    rw [World.terms, World.terms, absent, found] at terms
    cases terms
  refine ⟨fun job after => ?_, fun user creates => ?_,
    fun absent => absurd absent stays, fun _ => stays⟩
  · obtain ⟨mine, fileEq⟩ := command.job row found
    rw [World.terms, World.terms, after, found] at terms
    rw [World.fileKey, World.fileKey, after, found] at file
    exact ⟨(congrArg Terms.userId (Option.some.inj terms)).trans mine,
      file.trans fileEq⟩
  · rcases apiStep_creates env world pc with
      other | ⟨creator, rowLimit, rfl, next⟩ |
        ⟨creator, rowLimit, snapshotMaxId, rfl, _, next⟩
    · rw [creator_of_not_creates other] at creates
      cases creates
    · rw [next] at creates
      exact command.creator user creates
    · rw [next] at creates
      exact command.creator user creates

/-- A statement of a command that is about to create the job. -/
theorem onBehalf_absent {fileKey : Option String} {begun : World}
    (absent : world.job = none) (live : pc.ended = false)
    (command : OnBehalf userId fileKey begun world pc) :
    OnBehalf userId fileKey begun (apiStep env world pc).1
      (apiStep env world pc).2 := by
  obtain ⟨same, noFile, creates | ended⟩ := command.early absent
  · cases pc with
    | captureSnapshot user rowLimit =>
        exact ⟨command.job, command.creator, fun _ => ⟨same, noFile, .inl rfl⟩,
          command.stays⟩
    | countRecords user rowLimit snapshotMaxId =>
        simp only [apiStep]
        split
        · refine ⟨command.job, fun _ creates => ?_,
            fun _ => ⟨same, noFile, .inr rfl⟩, command.stays⟩
          cases creates
        · exact ⟨command.job, command.creator,
            fun _ => ⟨same, noFile, .inl rfl⟩, command.stays⟩
    | insertJob user rowLimit snapshotMaxId =>
        have mine := command.creator user rfl
        simp only [apiStep, absent]
        refine ⟨fun job inserted => ?_, fun _ creates => ?_, fun lost => ?_,
          fun _ => Option.some_ne_none _⟩
        · obtain rfl := Option.some.inj inserted
          exact ⟨mine, noFile.symm⟩
        · cases creates
        · cases lost
    | _ => cases creates
  · rw [live] at ended
    cases ended

theorem onBehalf_runCommand {fileKey : Option String} {begun : World}
    (env : Env) (calls : Nat) (command : OnBehalf userId fileKey begun world pc) :
    OnBehalf userId fileKey begun (runCommand env calls world pc).1
      (runCommand env calls world pc).2 := by
  induction calls generalizing world pc with
  | zero => exact command
  | succ calls inductionHypothesis =>
      simp only [runCommand]
      split
      · exact command
      · next live =>
          apply inductionHypothesis
          by_cases present : world.job = none
          · exact onBehalf_absent present (by simpa using live) command
          · exact onBehalf_present present command

/-! ## What is written back -/

/-- A row that a command has read and not changed is written back as it is. -/
theorem absorbRow_world (found : vault.find exportJobId = some row) :
    Vault.absorbRow call (vault.world call.now exportJobId) row = row := by
  have length : ((vault.world call.now exportJobId).verifications.drop
      row.verifications.length) = [] := by
    rw [List.drop_eq_nil_iff, Vault.world, found]
    simp [Export.verificationLog, List.length_insertionSort]
  rw [Vault.absorbRow, length, Vault.world, found]
  simp

/-- A command that changes nothing it sees leaves the vault as it is. -/
theorem absorb_world :
    vault.absorb call exportJobId (vault.world call.now exportJobId) =
      vault := by
  have rows : vault.absorbRows call exportJobId
      (vault.world call.now exportJobId) = vault.exports := by
    rw [Vault.absorbRows]
    cases found : vault.find exportJobId with
    | none => rw [Vault.world, found, Option.map_none]
    | some row =>
        refine (List.map_congr_left fun other inside => ?_).trans
          (List.map_id _)
        by_cases targeted : other.id = canonical exportJobId
        · obtain rfl := Vault.eq_of_find found inside targeted
          exact (if_pos targeted).trans (absorbRow_world found)
        · exact if_neg targeted
  have queue : Function.update vault.queue exportJobId
      (vault.queue exportJobId) = vault.queue :=
    Function.update_eq_self ..
  cases vault with
  | mk records exports distinct entries store =>
      simp only [Vault.absorb, Vault.mk.injEq, true_and]
      exact ⟨rows, queue, rfl⟩

structure Commanded (before after : World) : Prop where
  now : after.now = before.now
  records : after.records = before.records
  checkpoints : after.checkpoints = before.checkpoints
  failures : after.failures = before.failures
  verifications : ∃ more, after.verifications = before.verifications ++ more
  job : before.job ≠ none → after.job ≠ none

theorem commanded_step {before : World} (pc : ApiPc)
    (commanded : Commanded before world) :
    Commanded before (apiStep env world pc).1 := by
  refine ⟨(apiStep_now env world pc).trans commanded.now,
    (apiStep_records env world pc).trans commanded.records,
    (apiStep_checkpoints env world pc).trans commanded.checkpoints,
    (apiStep_failures env world pc).trans commanded.failures, ?_,
    fun present => ?_⟩
  · obtain ⟨more, sofar⟩ := commanded.verifications
    cases pc with
    | saveVerification job result =>
        simp only [apiStep]
        split
        · refine ⟨more ++ [result.toRow], ?_⟩
          rw [World.insertVerification, sofar, List.append_assoc]
        · exact ⟨more, sofar⟩
    | _ =>
        exact ⟨more, (apiStep_verifications env world rfl).trans sofar⟩
  · have still := commanded.job present
    have terms : (apiStep env world pc).1.terms = world.terms :=
      apiStep_terms env (.inr still)
    obtain ⟨row, found⟩ := Option.ne_none_iff_exists'.mp still
    intro absent
    rw [World.terms, World.terms, absent, found] at terms
    cases terms

theorem commanded_runCommand (env : Env) (calls : Nat) (world : World)
    (pc : ApiPc) : Commanded world (runCommand env calls world pc).1 :=
  runCommand_keeps (Commanded world) (fun pc => commanded_step pc) calls pc
    ⟨rfl, rfl, rfl, rfl, ⟨[], (List.append_nil _).symm⟩, id⟩

def ApiPc.creating : ApiPc → Bool
  | .captureSnapshot _ _ => true
  | .countRecords _ _ _ => true
  | .insertJob _ _ _ => true
  | .getJob .create => true
  | .getState .create => true
  | .remove .create => true
  | .add .create => true
  | .writeQueued => true
  | .returned _ => true
  | .threw _ => true
  | _ => false

theorem creating_step (creating : pc.creating = true) :
    (apiStep env world pc).2.creating = true := by
  cases pc with
  | captureSnapshot | returned | threw => rfl
  | countRecords | insertJob =>
      simp only [apiStep]
      split <;> rfl
  | getJob caller | getState caller | remove caller =>
      cases caller with
      | create =>
          simp only [apiStep]
          split <;> rfl
      | resume => cases creating
  | add caller =>
      cases caller with
      | create => rfl
      | resume => cases creating
  | writeQueued =>
      exact returnJob_cases (motive := fun next => next.creating = true)
        (fun _ => rfl) fun _ _ => rfl
  | _ => cases creating

theorem runCommand_creating (creating : pc.creating = true) (calls : Nat) :
    (runCommand env calls world pc).1.verifications = world.verifications := by
  induction calls generalizing world pc with
  | zero => rfl
  | succ calls inductionHypothesis =>
      rw [runCommand]
      split
      · rfl
      · rw [inductionHypothesis (creating_step creating)]
        apply apiStep_verifications
        cases pc with
        | saveVerification => cases creating
        | _ => rfl

/-- Without a row nothing is verified. -/
theorem runCommand_absent (absent : world.job = none) (request : Request)
    (calls : Nat) :
    (runCommand env calls world request.begin).1.verifications =
      world.verifications := by
  have checked : ∀ {begun : ApiPc}, begun.ended = false →
      apiStep env world begun = (world, .threw exportNotFound) →
      (runCommand env calls world begun).1.verifications =
        world.verifications := by
    intro begun live step
    cases calls with
    | zero => rfl
    | succ calls =>
        rw [runCommand, live, step, if_neg Bool.false_ne_true,
          runCommand_ended rfl]
  have unowned : ∀ userId next,
      getOwnedExportJob world userId next = .threw exportNotFound := by
    intro userId next
    rw [getOwnedExportJob, absent]
  cases request with
  | create =>
      apply runCommand_creating
      simp only [Request.begin]
      repeat' split
      all_goals rfl
  | resume | cancel | verify | download =>
      exact checked rfl (by
        simp only [Request.begin, apiStep, unowned])

/-- What is not before any of the rows stays behind them. -/
theorem orderedInsert_append {α : Type} {before : α → α → Prop}
    [DecidableRel before] {row : α} {lasts : List α}
    (later : ∀ last ∈ lasts, before row last) (rows : List α) :
    (rows ++ lasts).orderedInsert before row =
      rows.orderedInsert before row ++ lasts := by
  induction rows with
  | nil =>
      cases lasts with
      | nil => rfl
      | cons last lasts => exact if_pos (later last (List.mem_cons_self ..))
  | cons first rows inductionHypothesis =>
      rw [List.cons_append, List.orderedInsert_cons, List.orderedInsert_cons,
        inductionHypothesis]
      split <;> rfl

theorem insertionSort_append {α : Type} {before : α → α → Prop}
    [DecidableRel before] {rows lasts : List α}
    (later : ∀ row ∈ rows, ∀ last ∈ lasts, before row last)
    (sorted : lasts.Pairwise before) :
    (rows ++ lasts).insertionSort before =
      rows.insertionSort before ++ lasts := by
  induction rows with
  | nil => exact sorted.insertionSort_eq
  | cons row rows inductionHypothesis =>
      rw [List.cons_append, List.insertionSort_cons, List.insertionSort_cons,
        inductionHypothesis fun other member =>
          later other (List.mem_cons_of_mem _ member)]
      exact orderedInsert_append (later row (List.mem_cons_self ..)) _

/-- The row after a command is that of the world the command leaves. -/
theorem absorbRow_view {after : World}
    (found : vault.find exportJobId = some row)
    (clock : ∀ verification ∈ row.verifications,
      verification.createdAt ≤ call.now)
    (commanded : Commanded (vault.world call.now exportJobId) after) :
    after.job = some (Vault.absorbRow call after row).job ∧
      after.verifications =
        (Vault.absorbRow call after row).verificationLog.map Stamped.row := by
  constructor
  · have present : (vault.world call.now exportJobId).job ≠ none := by
      rw [Vault.world, found]
      exact Option.some_ne_none _
    obtain ⟨job, there⟩ := Option.ne_none_iff_exists'.mp
      (commanded.job present)
    rw [Vault.absorbRow, there]
    rfl
  · obtain ⟨more, verifications⟩ := commanded.verifications
    have seen : (vault.world call.now exportJobId).verifications =
        row.verificationLog.map Stamped.row := by
      rw [Vault.world, found]
      rfl
    have length : (row.verificationLog.map Stamped.row).length =
        row.verifications.length := by
      rw [List.length_map, Export.verificationLog, List.length_insertionSort]
    have written : (Vault.absorbRow call after row).verifications =
        row.verifications ++ more.map fun verification =>
          ⟨call.newId, call.now, verification⟩ := by
      rw [Vault.absorbRow, verifications, seen, ← length, List.drop_left]
    rw [Export.verificationLog, written, insertionSort_append,
      List.map_append, verifications, seen, List.map_map]
    · rw [show (Stamped.row ∘ fun verification : ExportVerification =>
        (⟨call.newId, call.now, verification⟩ :
          Stamped ExportVerification)) = id from rfl, List.map_id]
      rfl
    · intro earlier member last lastMember
      obtain ⟨_, _, rfl⟩ := List.mem_map.mp lastMember
      exact clock earlier member
    · rw [List.pairwise_map]
      exact List.pairwise_of_forall fun _ _ => le_rfl

/-- What is written back is what the next command sees: nothing that a command
does is lost. -/
theorem world_absorb {after : World}
    (clock : ∀ row, vault.find exportJobId = some row →
      ∀ verification ∈ row.verifications, verification.createdAt ≤ call.now)
    (verified : vault.find exportJobId = none → after.verifications = [])
    (commanded : Commanded (vault.world call.now exportJobId) after) :
    (vault.absorb call exportJobId after).world call.now exportJobId =
      after := by
  have now := commanded.now
  have records := commanded.records
  have checkpoints := commanded.checkpoints
  have failures := commanded.failures
  rw [Vault.world] at now records checkpoints failures
  have viewed : ∀ row : Export,
      (vault.absorb call exportJobId after).find exportJobId = some row →
      after.job = some row.job → after.checkpoints = row.checkpoints →
      after.failures = row.failures.map Stamped.row →
      after.verifications = row.verificationLog.map Stamped.row →
      (vault.absorb call exportJobId after).world call.now exportJobId =
        after := by
    intro row written job checkpoints failures verifications
    show World.mk _ _ _ _ _ _ _ _ = World.mk after.now after.records after.job
      after.checkpoints after.failures after.verifications after.store
      after.entry
    rw [written, World.mk.injEq]
    exact ⟨now.symm, records.symm, job.symm, checkpoints.symm, failures.symm,
      verifications.symm, rfl, Vault.absorb_queue_self⟩
  cases found : vault.find exportJobId with
  | some row =>
      obtain ⟨member, here⟩ := Vault.find_eq_some_iff.mp found
      obtain ⟨job, verifications⟩ := absorbRow_view found (clock row found)
        commanded
      rw [found] at checkpoints failures
      refine viewed (Vault.absorbRow call after row) ?_ job checkpoints
        failures verifications
      refine Vault.find_eq_some_iff.mpr ⟨?_, here⟩
      show Vault.absorbRow call after row ∈
        vault.absorbRows call exportJobId after
      rw [Vault.absorbRows, found]
      exact List.mem_map.mpr ⟨row, member, if_pos here⟩
  | none =>
      have noVerification := verified found
      rw [found] at checkpoints failures
      cases job : after.job with
      | some created =>
          refine viewed ⟨canonical exportJobId, call.now, created, [], [],
            []⟩ ?_ job checkpoints failures noVerification
          refine Vault.find_eq_some_iff.mpr ⟨?_, rfl⟩
          show _ ∈ vault.absorbRows call exportJobId after
          rw [Vault.absorbRows, found, job]
          exact List.mem_append_right _ (List.mem_singleton.mpr rfl)
      | none =>
          have absent : (vault.absorb call exportJobId after).find
              exportJobId = none := by
            show (vault.absorbRows call exportJobId after).find? _ = none
            rw [Vault.absorbRows, found, job]
            exact found
          show World.mk _ _ _ _ _ _ _ _ = World.mk after.now after.records
            after.job after.checkpoints after.failures after.verifications
            after.store after.entry
          rw [absent, World.mk.injEq]
          exact ⟨now.symm, records.symm, job.symm, checkpoints.symm,
            failures.symm, noVerification.symm, rfl, Vault.absorb_queue_self⟩

/-- The vault after a command, as the queries of the next one see it, is the
world the command leaves. -/
theorem world_command (request : Request)
    (clock : ∀ row, vault.find exportJobId = some row →
      ∀ verification ∈ row.verifications,
        verification.createdAt ≤ call.now) :
    (vault.command server call exportJobId request).1.world call.now
        exportJobId =
      (runCommand { server.env with exportJobId := exportJobId }
        request.begin.callsLeft (vault.world call.now exportJobId)
        request.begin).1 := by
  refine world_absorb clock (fun absent => ?_) (commanded_runCommand _ _ _ _)
  have noJob : (vault.world call.now exportJobId).job = none := by
    rw [Vault.world, absent, Option.map_none]
  rw [runCommand_absent noJob, Vault.world, absent]
  rfl

end ExportVault
