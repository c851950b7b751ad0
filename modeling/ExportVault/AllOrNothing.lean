import ExportVault.Assembly

/-!
# Assembly is all or nothing

Every call of `assembleFinalCsv` comes to rest, and whatever it does to the
world and to its run some calls of the run do as well (`assembly_refines`).
It is all or nothing exactly when no chunk read fails, no answer of a completed
upload is lost and an upload that rejects is awaited
(`assembly_all_or_nothing`).
-/

namespace ExportVault

open Interleaving

variable {assembling : Assembling} {state after : AssemblyState}
variable {event : AssemblyEvent}

/-- The calls of a run that meets nobody else, each under a fault. -/
def calling (env : Env) : Machine (World × RunPc) Fault where
  step state fault :=
    if state.2.ended then none else some (runCall env state.1 state.2 fault)

def Calls (env : Env) (source target : World × RunPc) : Prop :=
  (calling env).Reaches (fun _ _ => True) source target

def Assembling.start (assembling : Assembling) : RunPc :=
  .assembleFrom assembling.run assembling.batchCount 1 (utf8 csvHeader)

variable {world : World}

theorem calls_call {env : Env} {pc : RunPc} (live : pc.ended = false)
    (fault : Fault) :
    Calls env (world, pc) (runCall env world pc fault) :=
  ⟨[fault], trivial, _, by simp [calling, live], rfl⟩

theorem calls_of_goesOn {env : Env} {source target : World × RunPc}
    (goesOn : GoesOn env source target) : Calls env source target := by
  obtain ⟨events, execution⟩ := goesOn
  induction events generalizing source with
  | nil =>
      obtain rfl := execution
      exact .refl _
  | cons event rest inductionHypothesis =>
      obtain ⟨_, middle, stepEq, remaining⟩ := execution
      exact .trans ⟨[.none], trivial, middle, stepEq, rfl⟩
        (inductionHypothesis remaining)

/-- The calls of the run read the chunks into the same file. -/
theorem goesOn_assembleFrom {env : Env} (run : Progress) {batchCount : Nat}
    {count : Nat} {file : Bytes} (inside : count ≤ batchCount)
    (whole : assembly env world.store count = some file) :
    GoesOn env (world, .assembleFrom run batchCount 1 (utf8 csvHeader))
      (world, .assembleFrom run batchCount (count + 1) file) := by
  induction count generalizing file with
  | zero =>
      obtain rfl := Option.some.inj whole
      exact .refl _
  | succ count inductionHypothesis =>
      simp only [assembly, Option.bind_eq_some_iff,
        Option.map_eq_some_iff] at whole
      obtain ⟨first, before, chunk, stored, rfl⟩ := whole
      have earlier := inductionHypothesis (by omega) before
      have reads : RunPc.assembleFrom run batchCount (count + 1) first =
          .readChunk run batchCount (count + 1) first :=
        if_pos (by omega)
      rw [reads] at earlier
      have step : runStep env [] world
          (.readChunk run batchCount (count + 1) first) =
            (world, .assembleFrom run batchCount (count + 1 + 1)
              (first ++ chunk)) := by
        simp only [runStep, stored]
      have next : GoesOn env
          (world, .readChunk run batchCount (count + 1) first) _ :=
        goesOn_step rfl
      rw [step] at next
      exact earlier.trans next

/-- The first call of the run can fail with any message. -/
theorem calls_refused (assembling : Assembling) (world : World)
    (message : String) :
    Calls assembling.env (world, assembling.start)
      (world, .caught (callError message)) := by
  have fails : assembling.start.ended = false ∧
      runCall assembling.env world assembling.start (.refused message) =
        (world, .caught (callError message)) := by
    rw [Assembling.start, RunPc.assembleFrom]
    split
    · exact ⟨rfl, rfl⟩
    · exact ⟨rfl, rfl⟩
  rw [← fails.2]
  exact calls_call fails.1 _

theorem calls_missing {count : Nat} {file : Bytes}
    (inside : count + 1 ≤ assembling.batchCount)
    (before : assembly assembling.env world.store count = some file)
    (absent : world.store.get?
      (chunkKey assembling.env.exportJobId ((count + 1 : Nat) : Int)) =
        none) :
    Calls assembling.env (world, assembling.start)
      (world, .caught (noSuchKey
        (chunkKey assembling.env.exportJobId ((count + 1 : Nat) : Int)))) := by
  have reads := goesOn_assembleFrom assembling.run
    (Nat.le_of_succ_le inside) before
  have chunk : RunPc.assembleFrom assembling.run assembling.batchCount
      (count + 1) file = .readChunk assembling.run assembling.batchCount
        ((count + 1 : Nat) : Int) file :=
    if_pos (by omega)
  rw [chunk] at reads
  have step : runStep assembling.env [] world
      (.readChunk assembling.run assembling.batchCount
        ((count + 1 : Nat) : Int) file) =
      (world, .caught (noSuchKey
        (chunkKey assembling.env.exportJobId ((count + 1 : Nat) : Int)))) := by
    simp only [runStep, absent]
  rw [← step]
  exact calls_of_goesOn (reads.trans (goesOn_step rfl))

/-- With all chunks read the run uploads. -/
theorem goesOn_uploadFinal {file : Bytes}
    (whole : assembly assembling.env world.store assembling.batchCount =
      some file) :
    GoesOn assembling.env (world, assembling.start)
      (world, .uploadFinal assembling.run file) := by
  have reads := goesOn_assembleFrom assembling.run le_rfl whole
  have uploads : RunPc.assembleFrom assembling.run assembling.batchCount
      (assembling.batchCount + 1) file = .uploadFinal assembling.run file :=
    if_neg (by omega)
  rwa [uploads] at reads

theorem calls_lost {file : Bytes} (message : String)
    (whole : assembly assembling.env world.store assembling.batchCount =
      some file) :
    Calls assembling.env (world, assembling.start)
      (world.putObject (finalKey assembling.env.exportJobId) file,
        .caught (callError message)) :=
  (calls_of_goesOn (goesOn_uploadFinal whole)).trans
    (calls_call rfl (.lost message))

theorem goesOn_headAssembled {file : Bytes}
    (whole : assembly assembling.env world.store assembling.batchCount =
      some file) :
    GoesOn assembling.env (world, assembling.start)
      (world.putObject (finalKey assembling.env.exportJobId) file,
        .headAssembled assembling.run) :=
  (goesOn_uploadFinal whole).trans (goesOn_step rfl)

/-- The size of a stored assembly is asked for and found. -/
theorem sized {file : Bytes}
    (whole : assembly assembling.env world.store assembling.batchCount =
      some file) :
    runStep assembling.env []
        (world.putObject (finalKey assembling.env.exportJobId) file)
        (.headAssembled assembling.run) =
      (world.putObject (finalKey assembling.env.exportJobId) file,
        .verifyHead assembling.run) := by
  have positive := assembly_size_pos whole
  simp only [runStep, World.putObject_store, ObjectStore.get?_put_self]
  rw [if_neg (by omega)]

theorem goesOn_verifyHead {file : Bytes}
    (whole : assembly assembling.env world.store assembling.batchCount =
      some file) :
    GoesOn assembling.env (world, assembling.start)
      (world.putObject (finalKey assembling.env.exportJobId) file,
        .verifyHead assembling.run) := by
  rw [← sized whole]
  exact (goesOn_headAssembled whole).trans (goesOn_step rfl)

/-- The run gets to the same world, and to where the function has left for. -/
def Assembling.Tracked (assembling : Assembling) (world : World)
    (state : AssemblyState) : Prop :=
  ∃ pc, Calls assembling.env (world, assembling.start) (state.world, pc) ∧
    ∀ next, state.pc = .left next → pc = next

/-! ## The states of a run -/

/-- What is written when the function pumps: the header, the chunks before and
as much of the current one as is not left. -/
def Assembling.Pumped (assembling : Assembling) (store : ObjectStore)
    (written : Bytes) : AssemblyPc → Prop
  | .writeHeader => written = ByteArray.empty
  | .drain batchNumber rest => batchNumber ≤ assembling.batchCount ∧
      assembly assembling.env store batchNumber = some (written ++ concat rest)
  | .openChunk batchNumber => ∃ count, batchNumber = count + 1 ∧
      count ≤ assembling.batchCount ∧
      assembly assembling.env store count = some written
  | .readChunk batchNumber rest => batchNumber ≤ assembling.batchCount ∧
      assembly assembling.env store batchNumber = some (written ++ concat rest)
  | _ => False

/-- Nothing has failed. -/
inductive Intact (assembling : Assembling) (world : World) :
    AssemblyState → Prop
  | pumping {pc : AssemblyPc} {buffered : List Bytes} {received : Bytes} :
      assembling.Pumped world.store (received ++ concat buffered) pc →
      Intact assembling world
        { world := world, pc := pc, buffered := buffered
          upload := .reading received }
  | awaiting {buffered : List Bytes} {received : Bytes} :
      assembly assembling.env world.store assembling.batchCount =
        some (received ++ concat buffered) →
      Intact assembling world
        { world := world, pc := .awaitUpload, buffered := buffered
          ended := true, upload := .reading received }
  | stored {file : Bytes} :
      assembly assembling.env world.store assembling.batchCount = some file →
      Intact assembling world
        { world := world.putObject (finalKey assembling.env.exportJobId) file
          pc := .awaitUpload, ended := true, upload := .resolved }
  | sizing {file : Bytes} :
      assembly assembling.env world.store assembling.batchCount = some file →
      Intact assembling world
        { world := world.putObject (finalKey assembling.env.exportJobId) file
          pc := .left (.headAssembled assembling.run)
          ended := true, upload := .resolved }
  | returned {file : Bytes} :
      assembly assembling.env world.store assembling.batchCount = some file →
      Intact assembling world
        { world := world.putObject (finalKey assembling.env.exportJobId) file
          pc := .left (.verifyHead assembling.run)
          ended := true, upload := .resolved }

/-- Where a function is whose upload has failed before it ended the stream or
while it waited. -/
def Assembling.Placed (assembling : Assembling) (store : ObjectStore)
    (pc : AssemblyPc) : Prop :=
  pc = .hanging ∨ pc = .awaitUpload ∨
    ∃ written, assembling.Pumped store written pc

/-- What the run does about an error of the function: `failJob`. -/
inductive Settling (world : World) : World → RunPc → Prop
  | caught {reached : World} {error : AppError} :
      reached.job = world.job → Settling world reached (.caught error)
  | failed {reached : World} {error : AppError} :
      (reached.status = world.job.map fun _ => .failed) →
      Settling world reached (.recordFailure error (.rethrows error))
  | threw {reached : World} {error : AppError} :
      (reached.status = world.job.map fun _ => .failed) →
      Settling world reached (.threw error)

def Upload.Doomed (errored : Option AppError) : Upload → Prop
  | .reading _ => errored ≠ none
  | .resolved => False
  | _ => True

/-- Something has failed. -/
inductive Broken (assembling : Assembling) (world : World) :
    AssemblyState → Prop
  | placed {pc : AssemblyPc} {buffered : List Bytes} {ended : Bool}
      {message : String} :
      assembling.Placed world.store pc →
      Broken assembling world
        { world := world, pc := pc, buffered := buffered, ended := ended
          errored := some abortError
          upload := .failing (callError message) }
  | lost {file : Bytes} {message : String} :
      assembly assembling.env world.store assembling.batchCount = some file →
      Broken assembling world
        { world := world.putObject (finalKey assembling.env.exportJobId) file
          pc := .awaitUpload, ended := true
          upload := .failing (callError message) }
  | left {reached : World} {next : RunPc} {buffered : List Bytes}
      {ended : Bool} {errored : Option AppError} {upload : Upload} :
      Calls assembling.env (world, assembling.start) (reached, next) →
      Settling world reached next → upload.Doomed errored →
      Broken assembling world
        { world := reached, pc := .left next, buffered := buffered
          ended := ended, errored := errored, upload := upload }
  | terminated {state : AssemblyState} :
      state.terminated = true → assembling.Tracked world state →
      Broken assembling world state

/-- The function has left, and a rejection of the upload that nobody awaits
has come or is coming. -/
def Stray (state : AssemblyState) : Prop :=
  state.terminated = true ∨
    (∃ pc, state.pc = .left pc) ∧ ∃ error, state.upload = .failing error ∨
      state.errored = some error ∧ ∃ received, state.upload = .reading received

/-- No chunk read fails; the last step of the upload is not one whose answer
is lost, unless the same object was there before; and if the upload rejects,
the function awaits it. -/
def Assembling.Observed (assembling : Assembling) (state : AssemblyState) :
    AssemblyEvent → Prop
  | .openChunk => ∀ batchNumber, state.pc = .openChunk batchNumber →
      batchNumber ≤ assembling.batchCount →
        state.world.store.get?
          (chunkKey assembling.env.exportJobId batchNumber) ≠ none
  | .readFails _ => False
  | .completeLost _ => ∀ received, state.upload = .reading received →
      state.world.store.get? (finalKey assembling.env.exportJobId) =
        some received
  | .rejects => state.pc = .awaitUpload
  | _ => True

def SameObjects (world reached : World) : Prop :=
  ∀ key, reached.store.get? key = world.store.get? key

theorem sameObjects_putObject {key : String} {body : Bytes} :
    SameObjects world (world.putObject key body) ↔
      world.store.get? key = some body := by
  constructor
  · intro same
    rw [← same key, World.putObject_store, ObjectStore.get?_put_self]
  · intro there other
    rw [World.putObject_store]
    by_cases here : other = key
    · rw [here, ObjectStore.get?_put_self, there]
    · exact ObjectStore.get?_put_of_ne _ _ here

theorem append_concat_singleton (received buffer : Bytes)
    (buffered : List Bytes) :
    received ++ concat (buffered ++ [buffer]) =
      received ++ concat buffered ++ buffer := by
  rw [concat_append, concat_cons, concat_nil, ByteArray.append_empty,
    ByteArray.append_assoc]

theorem intact_start (assembling : Assembling) (world : World) :
    Intact assembling world { world := world } :=
  .pumping (by
    rw [concat_nil, ByteArray.append_empty]
    rfl)

/-- A write moves the first buffer that is left to what is written. -/
theorem pumped_write {store : ObjectStore} {received buffer : Bytes}
    {buffered rest : List Bytes} {batchNumber : Nat} (accepted : Bool)
    (inside : batchNumber ≤ assembling.batchCount)
    (whole : assembly assembling.env store batchNumber =
      some (received ++ concat buffered ++ buffer ++ concat rest)) :
    assembling.Pumped store (received ++ concat (buffered ++ [buffer]))
      (if accepted then .readChunk batchNumber rest
      else .drain batchNumber rest) := by
  rw [append_concat_singleton]
  cases accepted
  · exact ⟨inside, whole⟩
  · exact ⟨inside, whole⟩

/-- A chunk that is there is read next. -/
theorem pumped_opened {store : ObjectStore} {written body : Bytes}
    {batchNumber : Nat}
    (pumped : assembling.Pumped store written (.openChunk batchNumber))
    (inside : batchNumber ≤ assembling.batchCount)
    (stored : store.get? (chunkKey assembling.env.exportJobId batchNumber) =
      some body) :
    assembling.Pumped store written
      (.readChunk batchNumber (assembling.buffers batchNumber body)) := by
  obtain ⟨count, rfl, _, whole⟩ := pumped
  have chunk : store.get?
      (chunkKey assembling.env.exportJobId (count + 1)) = some body := stored
  refine ⟨inside, ?_⟩
  rw [assembling.concat_buffers, assembly, whole, Option.bind_some, chunk]
  rfl

theorem pumped_endOfChunk {store : ObjectStore} {written : Bytes}
    {batchNumber : Nat}
    (pumped : assembling.Pumped store written (.readChunk batchNumber [])) :
    assembling.Pumped store written (.openChunk (batchNumber + 1)) := by
  obtain ⟨inside, whole⟩ := pumped
  rw [concat_nil, ByteArray.append_empty] at whole
  exact ⟨batchNumber, rfl, inside, whole⟩

/-- The run fails like a function that finds a chunk missing. -/
theorem calls_of_missing {written : Bytes} {batchNumber : Nat}
    (pumped : assembling.Pumped world.store written (.openChunk batchNumber))
    (inside : batchNumber ≤ assembling.batchCount)
    (absent : world.store.get?
      (chunkKey assembling.env.exportJobId batchNumber) = none) :
    Calls assembling.env (world, assembling.start)
      (world, .caught
        (noSuchKey (chunkKey assembling.env.exportJobId batchNumber))) := by
  obtain ⟨count, rfl, _, whole⟩ := pumped
  exact calls_missing inside whole absent

/-- A chunk that is there, or none to be opened. -/
theorem observed_openChunk {batchNumber : Nat}
    (here : state.pc = .openChunk batchNumber)
    (present : batchNumber ≤ assembling.batchCount →
      state.world.store.get?
        (chunkKey assembling.env.exportJobId batchNumber) ≠ none) :
    assembling.Observed state .openChunk := by
  intro other there inside
  obtain rfl := AssemblyPc.openChunk.inj (here.symm.trans there)
  exact present inside

/-- What the first failure of a run does. -/
structure Breaks (assembling : Assembling) (world : World)
    (state : AssemblyState) (event : AssemblyEvent) (after : AssemblyState) :
    Prop where
  broken : Broken assembling world after
  fails : assembling.Observed state event →
    event.fails = true ∧ SameObjects world after.world
  stray : ¬ assembling.Observed state event →
    Stray after ∨ ¬ SameObjects world after.world

/-- What any other event does. -/
structure Proceeds (assembling : Assembling) (world : World)
    (state : AssemblyState) (event : AssemblyEvent) (after : AssemblyState) :
    Prop where
  intact : Intact assembling world after
  passes : event.fails = false
  observed : assembling.Observed state event

/-- The events while the function pumps. -/
theorem pumping_step {pc : AssemblyPc} {buffered : List Bytes}
    {received : Bytes}
    (pumped : assembling.Pumped world.store (received ++ concat buffered) pc)
    (moves : Moved assembling
      { world := world, pc := pc, buffered := buffered
        upload := .reading received } event after) :
    Proceeds assembling world
        { world := world, pc := pc, buffered := buffered
          upload := .reading received } event after ∨
      Breaks assembling world
        { world := world, pc := pc, buffered := buffered
          upload := .reading received } event after := by
  cases moves with
  | header here =>
      obtain rfl : pc = .writeHeader := here
      have nothing : received ++ concat buffered = ByteArray.empty := pumped
      refine .inl ⟨.pumping (pumped_write _ (Nat.zero_le _) ?_), rfl, trivial⟩
      rw [nothing, ByteArray.empty_append, concat_nil, ByteArray.append_empty]
      rfl
  | @wrote accepted batchNumber buffer rest here =>
      obtain rfl : pc = .readChunk batchNumber (buffer :: rest) := here
      obtain ⟨inside, whole⟩ := pumped
      rw [concat_cons, ← ByteArray.append_assoc] at whole
      exact .inl ⟨.pumping (pumped_write _ inside whole), rfl, trivial⟩
  | @drained batchNumber rest here =>
      obtain rfl : pc = .drain batchNumber rest := here
      exact .inl ⟨.pumping pumped, rfl, trivial⟩
  | drainThrew _ errored => cases errored
  | @missing batchNumber here inside absent =>
      obtain rfl : pc = .openChunk batchNumber := here
      refine .inr
        { broken := .left (calls_of_missing pumped inside absent)
            (.caught rfl) (Option.some_ne_none _)
          fails := fun observed => absurd absent (observed _ rfl inside)
          stray := fun _ =>
            .inl (.inr ⟨⟨_, rfl⟩, _, .inr ⟨rfl, received, rfl⟩⟩) }
  | @opened batchNumber body here inside stored =>
      obtain rfl : pc = .openChunk batchNumber := here
      refine .inl ⟨.pumping (pumped_opened pumped inside stored), rfl,
        observed_openChunk rfl fun _ => ?_⟩
      rw [stored]
      exact Option.some_ne_none _
  | @ended batchNumber here beyond =>
      obtain rfl : pc = .openChunk batchNumber := here
      obtain ⟨count, rfl, inside, whole⟩ := pumped
      obtain rfl : count = assembling.batchCount := by omega
      exact .inl ⟨.awaiting whole, rfl,
        observed_openChunk rfl fun within => absurd within (not_le.mpr beyond)⟩
  | @endOfChunk batchNumber here =>
      obtain rfl : pc = .readChunk batchNumber [] := here
      exact .inl ⟨.pumping (pumped_endOfChunk pumped), rfl, trivial⟩
  | @readFailed message =>
      exact .inr
        { broken := .left (calls_refused assembling world message)
            (.caught rfl) (Option.some_ne_none _)
          fails := False.elim
          stray := fun _ =>
            .inl (.inr ⟨⟨_, rfl⟩, _, .inr ⟨rfl, received, rfl⟩⟩) }
  | @read _ buffer rest reading _ unread =>
      obtain rfl := Upload.reading.inj reading
      obtain rfl : buffered = buffer :: rest := unread
      rw [concat_cons, ← ByteArray.append_assoc] at pumped
      exact .inl ⟨.pumping pumped, rfl, trivial⟩
  | completed _ _ _ ended => cases ended
  | completedLost _ _ _ ended => cases ended
  | uploadFailed =>
      exact .inr
        { broken := .placed (.inr (.inr ⟨_, pumped⟩))
          fails := fun _ => ⟨rfl, fun _ => rfl⟩
          stray := absurd trivial }
  | streamFailed _ errored => cases errored
  | rejected failing => cases failing
  | resumed here =>
      obtain rfl : pc = .awaitUpload := here
      exact pumped.elim
  | @called next here =>
      obtain rfl : pc = .left next := here
      exact pumped.elim

/-- A run in which nothing has failed goes on so, or breaks. -/
theorem intact_step (intact : Intact assembling world state)
    (stepEq : assembling.machine.step state event = some after) :
    Proceeds assembling world state event after ∨
      Breaks assembling world state event after := by
  cases intact with
  | pumping pumped => exact pumping_step pumped (moved stepEq).2
  | @awaiting buffered received whole =>
      cases event with
      | read =>
          cases buffered with
          | nil => cases stepEq
          | cons buffer rest =>
              obtain rfl := Option.some.inj stepEq
              rw [concat_cons, ← ByteArray.append_assoc] at whole
              exact .inl ⟨.awaiting whole, rfl, trivial⟩
      | complete =>
          cases buffered with
          | nil =>
              obtain rfl := Option.some.inj stepEq
              rw [concat_nil, ByteArray.append_empty] at whole
              exact .inl ⟨.stored whole, rfl, trivial⟩
          | cons => cases stepEq
      | completeLost message =>
          cases buffered with
          | nil =>
              obtain rfl := Option.some.inj stepEq
              rw [concat_nil, ByteArray.append_empty] at whole
              refine .inr
                { broken := .lost whole
                  fails := fun same => ⟨rfl, ?_⟩
                  stray := fun other => .inr fun same => other ?_ }
              · exact sameObjects_putObject.mpr (same received rfl)
              · rintro _ ⟨⟩
                exact sameObjects_putObject.mp same
          | cons => cases stepEq
      | uploadFails message =>
          obtain rfl := Option.some.inj stepEq
          exact .inr
            { broken := .placed (.inr (.inl rfl))
              fails := fun _ => ⟨rfl, fun _ => rfl⟩
              stray := absurd trivial }
      | _ => cases stepEq
  | stored whole =>
      cases event with
      | resume =>
          obtain rfl := Option.some.inj stepEq
          exact .inl ⟨.sizing whole, rfl, trivial⟩
      | _ => cases stepEq
  | sizing whole =>
      cases event with
      | call =>
          cases (moved stepEq).2 with
          | called here =>
              obtain rfl := AssemblyPc.left.inj here
              simp only [sized whole]
              exact .inl ⟨.returned whole, rfl, trivial⟩
      | _ => cases stepEq
  | returned whole => cases event <;> cases stepEq

/-- A call of `failJob`. -/
theorem settling_call {env : Env} {reached : World} {pc : RunPc}
    (settling : Settling world reached pc) (closes : 0 < pc.closing) :
    Settling world (runStep env [] reached pc).1
        (runStep env [] reached pc).2 ∧
      (runStep env [] reached pc).1.store = reached.store := by
  cases settling with
  | caught same =>
      refine ⟨.failed ?_, rfl⟩
      simp only [World.status, RunPc.caught, runStep, World.updateJob_job,
        same, Option.map_map, Function.comp_def]
  | failed status => exact ⟨.threw status, rfl⟩
  | threw => exact absurd closes (Nat.lt_irrefl 0)

/-- What an event does after a failure. -/
structure StaysBroken (assembling : Assembling) (world : World)
    (state : AssemblyState) (event : AssemblyEvent) (after : AssemblyState) :
    Prop where
  broken : Broken assembling world after
  store : after.world.store = state.world.store
  stray : ¬ assembling.Observed state event → Stray after

theorem reject_elsewhere {error : AppError}
    (elsewhere : state.pc ≠ .awaitUpload) :
    state.reject error =
      { state with upload := .rejected error, terminated := true } := by
  rw [AssemblyState.reject]
  cases here : state.pc with
  | awaitUpload => exact absurd here elsewhere
  | _ => rfl

/-- The function goes on pumping until it finds the stream destroyed. -/
theorem placed_step {pc : AssemblyPc} {buffered : List Bytes} {ended : Bool}
    {message : String} (placed : assembling.Placed world.store pc)
    (moves : Moved assembling
      { world := world, pc := pc, buffered := buffered, ended := ended
        errored := some abortError
        upload := .failing (callError message) } event after) :
    StaysBroken assembling world
      { world := world, pc := pc, buffered := buffered, ended := ended
        errored := some abortError
        upload := .failing (callError message) } event after := by
  have pumped : ∀ {other}, pc = other → other ≠ .hanging →
      other ≠ .awaitUpload →
        ∃ written, assembling.Pumped world.store written other := by
    rintro other rfl notHanging notAwaiting
    exact (placed.resolve_left notHanging).resolve_left notAwaiting
  cases moves with
  | header | wrote => exact ⟨.placed (.inl rfl), rfl, absurd trivial⟩
  | drained _ intact => cases intact
  | drainThrew _ errored =>
      obtain rfl := Option.some.inj errored
      exact ⟨.left (calls_refused assembling world _) (.caught rfl) trivial,
        rfl, absurd trivial⟩
  | @missing batchNumber here inside absent =>
      obtain ⟨written, there⟩ := pumped here (by simp) (by simp)
      exact ⟨.left (calls_of_missing there inside absent) (.caught rfl)
        trivial, rfl, fun _ => .inr ⟨⟨_, rfl⟩, _, .inl rfl⟩⟩
  | @opened batchNumber body here inside stored =>
      obtain ⟨written, there⟩ := pumped here (by simp) (by simp)
      refine ⟨.placed (.inr (.inr ⟨written,
        pumped_opened there inside stored⟩)), rfl,
        absurd (observed_openChunk here fun _ => ?_)⟩
      rw [stored]
      exact Option.some_ne_none _
  | ended here beyond =>
      exact ⟨.placed (.inr (.inl rfl)), rfl,
        absurd (observed_openChunk here fun within =>
          absurd within (not_le.mpr beyond))⟩
  | endOfChunk here =>
      obtain ⟨written, there⟩ := pumped here (by simp) (by simp)
      exact ⟨.placed (.inr (.inr ⟨written, pumped_endOfChunk there⟩)), rfl,
        absurd trivial⟩
  | readFailed =>
      exact ⟨.left (calls_refused assembling world _) (.caught rfl) trivial,
        rfl, fun _ => .inr ⟨⟨_, rfl⟩, _, .inl rfl⟩⟩
  | read reading => cases reading
  | completed reading => cases reading
  | completedLost reading => cases reading
  | uploadFailed reading => cases reading
  | streamFailed reading => cases reading
  | rejected failing =>
      obtain rfl := Upload.failing.inj failing
      by_cases awaited : pc = .awaitUpload
      · obtain rfl := awaited
        exact ⟨.left (calls_refused assembling world _) (.caught rfl) trivial,
          rfl, absurd rfl⟩
      · rw [reject_elsewhere awaited]
        refine ⟨.terminated rfl ⟨assembling.start, .refl _, ?_⟩, rfl,
          fun _ => .inl rfl⟩
        intro next here
        obtain ⟨written, there⟩ := pumped here (by simp) (by simp)
        exact there.elim
  | resumed _ resolved => cases resolved
  | called here =>
      obtain ⟨written, there⟩ := pumped here (by simp) (by simp)
      exact there.elim

/-- The run has been told of an error, the upload has not. -/
theorem left_step {reached : World} {next : RunPc} {buffered : List Bytes}
    {ended : Bool} {errored : Option AppError} {upload : Upload}
    (calls : Calls assembling.env (world, assembling.start) (reached, next))
    (settling : Settling world reached next)
    (doomed : upload.Doomed errored)
    (moves : Moved assembling
      { world := reached, pc := .left next, buffered := buffered
        ended := ended, errored := errored, upload := upload } event after) :
    StaysBroken assembling world
      { world := reached, pc := .left next, buffered := buffered
        ended := ended, errored := errored, upload := upload } event after := by
  cases moves with
  | header here | wrote here | drained here | drainThrew here | missing here
  | opened here | ended here | endOfChunk here | resumed here => cases here
  | readFailed reads => cases reads
  | read reading intact | completed reading intact
  | completedLost reading intact =>
      obtain rfl : upload = _ := reading
      exact absurd intact doomed
  | uploadFailed =>
      exact ⟨.left calls settling trivial, rfl, absurd trivial⟩
  | streamFailed =>
      exact ⟨.left calls settling trivial, rfl, absurd trivial⟩
  | rejected =>
      rw [reject_elsewhere (by simp)]
      refine ⟨.terminated rfl ⟨next, calls, fun other there => ?_⟩, rfl,
        fun _ => .inl rfl⟩
      exact AssemblyPc.left.inj there
  | @called pc here closes =>
      obtain rfl : next = pc := AssemblyPc.left.inj here
      obtain ⟨settles, sameStore⟩ := settling_call settling closes
      have live : next.ended = false := by
        cases settling with
        | caught | failed => rfl
        | threw => exact absurd closes (Nat.lt_irrefl 0)
      exact ⟨.left (calls.trans (calls_call live .none)) settles doomed,
        sameStore, absurd trivial⟩

/-- A broken run stays broken and stores nothing any more. -/
theorem broken_step (broken : Broken assembling world state)
    (stepEq : assembling.machine.step state event = some after) :
    StaysBroken assembling world state event after := by
  obtain ⟨alive, moves⟩ := moved stepEq
  cases broken with
  | placed placed => exact placed_step placed moves
  | lost whole =>
      cases moves with
      | header here | wrote here | drained here | drainThrew here
      | missing here | opened here | ended here | endOfChunk here
      | called here => cases here
      | readFailed reads => cases reads
      | read reading => cases reading
      | completed reading => cases reading
      | completedLost reading => cases reading
      | uploadFailed reading => cases reading
      | streamFailed reading => cases reading
      | resumed _ resolved => cases resolved
      | rejected failing =>
          obtain rfl := Upload.failing.inj failing
          exact ⟨.left (calls_lost _ whole) (.caught rfl) trivial, rfl,
            absurd rfl⟩
  | left calls settling doomed => exact left_step calls settling doomed moves
  | terminated ended =>
      rw [alive] at ended
      cases ended

/-- Every state of a run is of one kind or the other. -/
theorem intact_or_broken {permitted : AssemblyState → AssemblyEvent → Prop}
    {events : List AssemblyEvent}
    (execution : assembling.machine.Exec permitted { world := world } events
      state) :
    Intact assembling world state ∨ Broken assembling world state := by
  have kept : ∀ {before : AssemblyState} {event : AssemblyEvent}
      {after : AssemblyState}, permitted before event →
      assembling.machine.step before event = some after →
      Intact assembling world before ∨ Broken assembling world before →
      Intact assembling world after ∨ Broken assembling world after := by
    rintro before event after _ stepEq (intact | broken)
    · rcases intact_step intact stepEq with proceeds | breaks
      · exact .inl proceeds.intact
      · exact .inr breaks.broken
    · exact .inr (broken_step broken stepEq).broken
  exact execution.invariant kept (.inl (intact_start assembling world))

/-- Whatever happens in a call, and wherever it leaves for: the calls of the
run, one after the other and each under some fault, get to the same world and
to the same place. -/
theorem assembly_refines {permitted : AssemblyState → AssemblyEvent → Prop}
    {events : List AssemblyEvent} {final : AssemblyState}
    (execution : assembling.machine.Exec permitted { world := world } events
      final) :
    assembling.Tracked world final := by
  have nowhere : ∀ {state : AssemblyState}, (∀ next, state.pc ≠ .left next) →
      state.world = world → assembling.Tracked world state := by
    rintro state never rfl
    exact ⟨assembling.start, .refl _, fun next here =>
      absurd here (never next)⟩
  rcases intact_or_broken execution with intact | broken
  · cases intact with
    | pumping pumped =>
        refine nowhere (fun next here => ?_) rfl
        obtain rfl : _ = AssemblyPc.left next := here
        exact pumped.elim
    | awaiting => exact nowhere (by simp) rfl
    | stored whole =>
        exact ⟨_, calls_of_goesOn (goesOn_headAssembled whole), by simp⟩
    | sizing whole =>
        exact ⟨_, calls_of_goesOn (goesOn_headAssembled whole), by simp⟩
    | returned whole =>
        exact ⟨_, calls_of_goesOn (goesOn_verifyHead whole), by simp⟩
  · cases broken with
    | placed placed =>
        refine nowhere (fun next here => ?_) rfl
        obtain rfl : _ = AssemblyPc.left next := here
        rcases placed with hanging | awaiting | ⟨written, pumped⟩
        · cases hanging
        · cases awaiting
        · exact pumped
    | lost whole => exact ⟨_, calls_lost "" whole, by simp⟩
    | left calls => exact ⟨_, calls, fun _ here => AssemblyPc.left.inj here⟩
    | terminated _ tracked => exact tracked

/-- The function has resolved; the final object is the header and the chunks,
and nothing else has changed. -/
structure Assembling.Resolved (assembling : Assembling) (world : World)
    (final : AssemblyState) : Prop where
  returned : final.pc = .left (.verifyHead assembling.run)
  stored : ∃ file, assembly assembling.env world.store assembling.batchCount =
      some file ∧
    final.world = world.putObject (finalKey assembling.env.exportJobId) file

/-- The function has rejected; the objects are as before, and the run has
recorded the job as FAILED. -/
structure Assembling.Rejected (world : World) (final : AssemblyState) :
    Prop where
  threw : ∃ error, final.pc = .left (.threw error)
  unchanged : SameObjects world final.world
  recorded : final.world.status = some .failed

/-- What is promised of a run of the assembly that has come to rest. -/
structure Assembling.AllOrNothing (assembling : Assembling) (world : World)
    (events : List AssemblyEvent) (final : AssemblyState) : Prop where
  observed : final.terminated = false
  all : (∀ event ∈ events, event.fails = false) →
    assembling.Resolved world final
  nothing : (∃ event ∈ events, event.fails = true) →
    Assembling.Rejected world final

/-- A pumping function is never stuck. -/
theorem not_resting_pumping {pc : AssemblyPc} {buffered : List Bytes}
    {received : Bytes}
    (pumped : assembling.Pumped world.store (received ++ concat buffered) pc) :
    ¬ assembling.machine.Resting
      { world := world, pc := pc, buffered := buffered
        upload := .reading received } := by
  intro rests
  cases pc with
  | writeHeader => cases rests (.write true)
  | drain batchNumber rest =>
      cases buffered with
      | nil =>
          have waits := rests .drain
          simp only [Assembling.machine, Assembling.move, concat_nil,
            ByteArray.size_empty, assembling.drains_empty, if_true,
            Bool.false_eq_true, if_false] at waits
          cases waits
      | cons => cases rests .read
  | openChunk batchNumber =>
      have waits := rests .openChunk
      simp only [Assembling.machine, Assembling.move, Bool.false_eq_true,
        if_false] at waits
      split at waits
      · split at waits
        · cases waits
        · cases waits
      · cases waits
  | readChunk batchNumber rest =>
      cases rest with
      | nil => cases rests .endOfChunk
      | cons => cases rests (.write true)
  | hanging | awaitUpload | left => exact pumped.elim

theorem intact_rests (intact : Intact assembling world state)
    (rests : assembling.machine.Resting state) :
    state.terminated = false ∧ assembling.Resolved world state := by
  cases intact with
  | pumping pumped => exact absurd rests (not_resting_pumping pumped)
  | @awaiting buffered =>
      cases buffered with
      | nil => cases rests .complete
      | cons => cases rests .read
  | stored => cases rests .resume
  | sizing => cases rests .call
  | @returned file whole => exact ⟨rfl, rfl, file, whole, rfl⟩

/-- A broken run that rests in a live process has thrown and is recorded. -/
theorem broken_rests {job : ExportJob} (found : world.job = some job)
    (broken : Broken assembling world state)
    (alive : state.terminated = false)
    (rests : assembling.machine.Resting state) :
    (∃ error, state.pc = .left (.threw error)) ∧
      state.world.status = some .failed := by
  cases broken with
  | placed => cases rests .rejects
  | lost => cases rests .rejects
  | left _ settling doomed =>
      cases settling with
      | caught => cases rests .call
      | failed => cases rests .call
      | threw status =>
          refine ⟨⟨_, rfl⟩, status.trans ?_⟩
          rw [found]
          rfl
  | terminated ended =>
      rw [alive] at ended
      cases ended

/-- A rejection that nobody awaits still comes after any other event. -/
theorem stray_step (stray : Stray state)
    (stepEq : assembling.machine.step state event = some after) :
    Stray after := by
  obtain ⟨alive, moves⟩ := moved stepEq
  rcases stray with ended | ⟨⟨pc, here⟩, error, coming⟩
  · rw [alive] at ended
    cases ended
  have left : ∀ {other : AssemblyPc}, state.pc = other →
      (∀ pc, other ≠ .left pc) → Stray after := by
    intro other there never
    exact absurd (there.symm.trans here) (never pc)
  have unread : ∀ {received : Bytes}, state.upload = .reading received →
      state.errored = none → Stray after := by
    intro received reading intact
    rcases coming with failing | ⟨errored, _⟩
    · rw [reading] at failing
      cases failing
    · rw [intact] at errored
      cases errored
  cases moves with
  | header there | wrote there | drained there | drainThrew there
  | missing there | opened there | ended there | endOfChunk there
  | resumed there =>
      exact left there fun _ => by simp
  | readFailed reads =>
      rw [here] at reads
      cases reads
  | read reading intact => exact unread reading intact
  | completed reading intact => exact unread reading intact
  | completedLost reading intact => exact unread reading intact
  | uploadFailed => exact .inr ⟨⟨pc, here⟩, _, .inl rfl⟩
  | streamFailed => exact .inr ⟨⟨pc, here⟩, _, .inl rfl⟩
  | rejected =>
      rw [reject_elsewhere (by rw [here]; simp)]
      exact .inl rfl
  | called => exact .inr ⟨⟨_, rfl⟩, error, coming⟩

/-- At rest it has come. -/
theorem stray_rests (stray : Stray state)
    (rests : assembling.machine.Resting state) : state.terminated = true := by
  rcases stray with ended | ⟨_, error, failing | ⟨errored, received, reading⟩⟩
  · exact ended
  · by_contra alive
    have waits := rests .rejects
    simp only [Assembling.machine, if_neg alive, Assembling.move, failing]
      at waits
    cases waits
  · by_contra alive
    have waits := rests .streamFails
    simp only [Assembling.machine, if_neg alive, Assembling.move, reading,
      errored] at waits
    cases waits

/-- An awaited rejection does not end the process. -/
theorem alive_step (observed : assembling.Observed state event)
    (stepEq : assembling.machine.step state event = some after) :
    after.terminated = false := by
  obtain ⟨alive, moves⟩ := moved stepEq
  cases moves with
  | header | wrote =>
      rw [AssemblyState.write]
      split
      · exact alive
      · exact alive
  | rejected =>
      have awaited : state.pc = .awaitUpload := observed
      simp only [AssemblyState.reject, awaited]
      exact alive
  | _ => exact alive

/-- The process lives; and nothing has failed, or something has and the
objects are as before. -/
def Assembling.Heeded (assembling : Assembling) (world : World)
    (events : List AssemblyEvent) (state : AssemblyState) : Prop :=
  state.terminated = false ∧
    ((∀ event ∈ events, event.fails = false) ∧
        Intact assembling world state ∨
      (∃ event ∈ events, event.fails = true) ∧
        Broken assembling world state ∧ SameObjects world state.world)

theorem heeded_step {early : List AssemblyEvent}
    (heeded : assembling.Heeded world early state)
    (observed : assembling.Observed state event)
    (stepEq : assembling.machine.step state event = some after) :
    assembling.Heeded world (early ++ [event]) after := by
  refine ⟨alive_step observed stepEq, ?_⟩
  rcases heeded.2 with ⟨spared, intact⟩ | ⟨⟨other, member, fails⟩, broken, same⟩
  · rcases intact_step intact stepEq with proceeds | breaks
    · refine .inl ⟨fun other member => ?_, proceeds.intact⟩
      rcases List.mem_append.mp member with earlier | last
      · exact spared other earlier
      · obtain rfl := List.mem_singleton.mp last
        exact proceeds.passes
    · obtain ⟨fails, same⟩ := breaks.fails observed
      exact .inr ⟨⟨event, List.mem_append_right _ List.mem_cons_self, fails⟩,
        breaks.broken, same⟩
  · have stays := broken_step broken stepEq
    refine .inr ⟨⟨other, List.mem_append_left _ member, fails⟩, stays.broken,
      fun key => ?_⟩
    rw [stays.store]
    exact same key

/-- A run whose rejections are all awaited. -/
theorem heeded_run {events : List AssemblyEvent}
    (execution : assembling.machine.Exec assembling.Observed
      { world := world } events state) :
    assembling.Heeded world events state := by
  have kept : ∀ {early : List AssemblyEvent} {before : AssemblyState}
      {event : AssemblyEvent} {after : AssemblyState},
      assembling.machine.Exec assembling.Observed { world := world } early
        before →
      assembling.Observed before event →
      assembling.machine.step before event = some after →
      assembling.Heeded world early before →
      assembling.Heeded world (early ++ [event]) after := by
    intro early before event after _ observed stepEq heeded
    exact heeded_step heeded observed stepEq
  exact execution.history kept
    ⟨rfl, .inl ⟨by simp, intact_start assembling world⟩⟩

/-- What becomes of a step of another kind. -/
theorem breach_run {events : List AssemblyEvent} {final : AssemblyState}
    (known : Intact assembling world state ∨ Broken assembling world state)
    (breach : ¬ assembling.Observed state event)
    (stepEq : assembling.machine.step state event = some after)
    (onward : assembling.machine.Exec (fun _ _ => True) after events final) :
    Stray final ∨
      Broken assembling world final ∧ ¬ SameObjects world final.world := by
  have strays : Stray after → Stray final := fun stray =>
    onward.invariant (fun _ nextEq strays => stray_step strays nextEq) stray
  have kept : ∀ {before : AssemblyState} {event : AssemblyEvent}
      {next : AssemblyState}, True →
      assembling.machine.step before event = some next →
      Broken assembling world before ∧ ¬ SameObjects world before.world →
      Broken assembling world next ∧ ¬ SameObjects world next.world := by
    rintro before event next _ nextEq ⟨broken, differ⟩
    have stays := broken_step broken nextEq
    refine ⟨stays.broken, fun same => differ fun key => ?_⟩
    rw [← stays.store]
    exact same key
  rcases known with intact | broken
  · rcases intact_step intact stepEq with proceeds | breaks
    · exact absurd proceeds.observed breach
    · rcases breaks.stray breach with stray | differ
      · exact .inl (strays stray)
      · exact .inr (onward.invariant kept ⟨breaks.broken, differ⟩)
  · exact .inl (strays ((broken_step broken stepEq).stray breach))

/-- Assembly always settles; it is all or nothing, with every rejection
observed, exactly when no chunk read fails, no answer of a completed upload is
lost and an upload that rejects is awaited. -/
theorem assembly_all_or_nothing {job : ExportJob}
    (found : world.job = some job) {events : List AssemblyEvent}
    {final : AssemblyState}
    (execution : assembling.machine.Exec (fun _ _ => True)
      { world := world } events final) :
    events.length ≤ assembling.stepsLeft { world := world } ∧
      (∃ later rest, assembling.machine.Exec (fun _ _ => True) final later
        rest ∧ assembling.machine.Resting rest) ∧
      (assembling.machine.Resting final →
        (assembling.AllOrNothing world events final ↔
          assembling.machine.Exec assembling.Observed { world := world } events
            final)) := by
  refine ⟨?_, Machine.exists_resting stepsLeft_lt final, fun rests => ?_⟩
  · have bounded := execution.length_le stepsLeft_lt
    omega
  constructor
  · intro promised
    rcases execution.keeps_or_breaks assembling.Observed with
      always | ⟨early, event, late, before, after, rfl, run, breach, stepEq,
        onward⟩
    · exact always
    rcases breach_run (intact_or_broken run) breach stepEq onward with
      stray | ⟨broken, differ⟩
    · have ended := stray_rests stray rests
      rw [promised.observed] at ended
      cases ended
    · by_cases failure :
          ∃ other ∈ early ++ event :: late, other.fails = true
      · exact absurd (promised.nothing failure).unchanged differ
      · obtain ⟨⟨error, threw⟩, _⟩ :=
          broken_rests found broken promised.observed rests
        have returned := (promised.all (by simpa using failure)).returned
        rw [threw] at returned
        cases returned
  · intro run
    obtain ⟨alive, ⟨spared, intact⟩ | ⟨failure, broken, same⟩⟩ :=
      heeded_run run
    · refine ⟨alive, fun _ => (intact_rests intact rests).2, ?_⟩
      rintro ⟨event, member, fails⟩
      rw [spared event member] at fails
      cases fails
    · obtain ⟨threw, recorded⟩ := broken_rests found broken alive rests
      refine ⟨alive, fun spared => ?_, fun _ => ⟨threw, same, recorded⟩⟩
      obtain ⟨event, member, fails⟩ := failure
      rw [spared event member] at fails
      cases fails

/-- No chunk read fails, and the upload fails only while the function awaits
it, without having stored anything else. -/
def Assembling.Awaited (assembling : Assembling) (state : AssemblyState) :
    AssemblyEvent → Prop
  | .uploadFails _ => state.pc = .awaitUpload
  | .completeLost message => state.pc = .awaitUpload ∧
      assembling.Observed state (.completeLost message)
  | .rejects => True
  | event => assembling.Observed state event

/-- An upload that goes on reads an intact stream, and one that fails is
awaited. -/
structure AwaitsFailure (state : AssemblyState) : Prop where
  intact : ∀ received, state.upload = .reading received → state.errored = none
  awaited : ∀ error, state.upload = .failing error → state.pc = .awaitUpload

theorem awaitsFailure_step (attended : AwaitsFailure state)
    (awaited : assembling.Awaited state event)
    (stepEq : assembling.machine.step state event = some after) :
    assembling.Observed state event ∧ AwaitsFailure after := by
  obtain ⟨_, moves⟩ := moved stepEq
  have elsewhere : ∀ {other : AssemblyPc} {error : AppError},
      state.pc = other → other ≠ .awaitUpload →
        state.upload ≠ .failing error := by
    rintro other error here notAwaiting failing
    exact notAwaiting (here.symm.trans (attended.awaited error failing))
  cases moves with
  | header here | wrote here =>
      refine ⟨trivial, ?_⟩
      rw [AssemblyState.write]
      split
      · exact ⟨attended.intact, fun error failing =>
          absurd failing (elsewhere here (by simp))⟩
      · exact ⟨attended.intact, fun error failing =>
          absurd failing (elsewhere here (by simp))⟩
  | drained here | endOfChunk here =>
      exact ⟨trivial, attended.intact, fun error failing =>
        absurd failing (elsewhere here (by simp))⟩
  | drainThrew here errored =>
      refine ⟨trivial, fun received reading => ?_, fun error failing =>
        absurd failing (elsewhere here (by simp))⟩
      have intact := attended.intact received reading
      rw [errored] at intact
      cases intact
  | missing here inside absent => exact absurd absent (awaited _ here inside)
  | opened here | ended here =>
      exact ⟨awaited, attended.intact, fun error failing =>
        absurd failing (elsewhere here (by simp))⟩
  | readFailed => exact awaited.elim
  | read reading intact =>
      exact ⟨trivial, fun _ _ => intact, by simp⟩
  | completed => exact ⟨trivial, by simp, by simp⟩
  | completedLost => exact ⟨awaited.2, by simp, fun _ _ => awaited.1⟩
  | uploadFailed => exact ⟨trivial, by simp, fun _ _ => awaited⟩
  | streamFailed reading errored =>
      have intact := attended.intact _ reading
      rw [errored] at intact
      cases intact
  | rejected failing =>
      have here := attended.awaited _ failing
      refine ⟨here, ?_⟩
      simp only [AssemblyState.reject, here]
      exact ⟨by simp, by simp⟩
  | resumed _ resolved =>
      exact ⟨trivial, attended.intact, by simp [resolved]⟩
  | called here =>
      exact ⟨trivial, attended.intact, fun error failing =>
        absurd failing (elsewhere here (by simp))⟩

theorem exec_observed {events : List AssemblyEvent} {final : AssemblyState}
    (attended : AwaitsFailure state)
    (execution : assembling.machine.Exec assembling.Awaited state events
      final) :
    assembling.machine.Exec assembling.Observed state events final := by
  induction events generalizing state with
  | nil => exact execution
  | cons event rest inductionHypothesis =>
      obtain ⟨awaited, middle, stepEq, remaining⟩ := execution
      obtain ⟨observed, attends⟩ := awaitsFailure_step attended awaited stepEq
      exact ⟨observed, middle, stepEq,
        inductionHypothesis attends remaining⟩

/-- It is enough that nothing fails before the function awaits the upload. -/
theorem observed_of_awaited {events : List AssemblyEvent}
    {final : AssemblyState}
    (execution : assembling.machine.Exec assembling.Awaited
      { world := world } events final) :
    assembling.machine.Exec assembling.Observed { world := world } events
      final :=
  exec_observed ⟨fun _ _ => rfl, by simp⟩ execution

def verifyingJob : ExportJob :=
  { userId := "ada", status := .verifying, snapshotMaxId := 1,
    requestedRowLimit := 1, lastExportedId := some 1, exportedRowCount := 1,
    batchSize := 1, updatedAt := 0 }

def oneChunkWorld : World where
  now := 1
  records := oneRecord
  job := some verifyingJob
  store := ⟨[(chunkKey smallEnv.exportJobId 1, utf8 "1,r\n")]⟩

/-- The chunk arrives in one buffer, and 'drain' comes when all is read. -/
def smallAssembling : Assembling where
  env := smallEnv
  run := ⟨verifyingJob, 1, 1, 2⟩
  batchCount := 1
  buffers _ body := [body]
  concat_buffers _ _ := ByteArray.append_empty
  drains unread := unread = 0
  drains_empty := rfl

def refusedPart : List AssemblyEvent :=
  [.write true, .endOfChunk, .openChunk, .write false, .read, .read, .drain,
    .endOfChunk, .openChunk, .uploadFails "SlowDown", .rejects, .call, .call]

theorem assembly_all_or_nothing_refusedPart :
    ∃ final, smallAssembling.machine.Exec smallAssembling.Observed
        { world := oneChunkWorld } refusedPart final ∧
      smallAssembling.AllOrNothing oneChunkWorld refusedPart final := by
  have present : ∀ number, AssemblyPc.openChunk 1 = .openChunk number →
      number ≤ 1 → oneChunkWorld.store.get?
        (chunkKey smallEnv.exportJobId number) ≠ none := by
    rintro number ⟨⟩ _
    decide
  have beyond : ∀ number, AssemblyPc.openChunk 2 = .openChunk number →
      number ≤ 1 → oneChunkWorld.store.get?
        (chunkKey smallEnv.exportJobId number) ≠ none := by
    rintro number ⟨⟩ inside
    exact absurd inside (by decide)
  have run : ∃ final, smallAssembling.machine.Exec smallAssembling.Observed
      { world := oneChunkWorld } refusedPart final ∧
        smallAssembling.machine.Resting final :=
    ⟨_, ⟨trivial, _, rfl, trivial, _, rfl, present, _, rfl, trivial, _, rfl,
      trivial, _, rfl, trivial, _, rfl, trivial, _, rfl, trivial, _, rfl,
      beyond, _, rfl, trivial, _, rfl, rfl, _, rfl, trivial, _, rfl, trivial,
      _, rfl, rfl⟩,
      fun event => by cases event <;> rfl⟩
  obtain ⟨final, execution, rests⟩ := run
  exact ⟨final, execution,
    ((assembly_all_or_nothing rfl
      (execution.mono fun _ => trivial)).2.2 rests).mpr execution⟩

def brokenRead : List AssemblyEvent :=
  [.write true, .endOfChunk, .openChunk, .readFails "socket hang up",
    .call, .call, .streamFails, .rejects]

def earlyRefusal : List AssemblyEvent :=
  [.write false, .uploadFails "SlowDown", .drain, .call, .call, .rejects]

def EndsProcess (events : List AssemblyEvent) : Prop :=
  ∃ final, smallAssembling.machine.Exec (fun _ _ => True)
      { world := oneChunkWorld } events final ∧
    smallAssembling.machine.Resting final ∧
    ¬ smallAssembling.AllOrNothing oneChunkWorld events final ∧
    final.terminated = true ∧ final.world.status = some .failed

/-- Either failure has that effect. -/
theorem failure_ends_process :
    EndsProcess brokenRead ∧ EndsProcess earlyRefusal := by
  constructor
  · refine ⟨_, ⟨trivial, _, rfl, trivial, _, rfl, trivial, _, rfl, trivial, _,
      rfl, trivial, _, rfl, trivial, _, rfl, trivial, _, rfl, trivial, _, rfl,
      rfl⟩, fun event => rfl, fun promised => ?_, rfl, rfl⟩
    cases promised.observed
  · refine ⟨_, ⟨trivial, _, rfl, trivial, _, rfl, trivial, _, rfl, trivial, _,
      rfl, trivial, _, rfl, trivial, _, rfl, rfl⟩, fun event => rfl,
      fun promised => ?_, rfl, rfl⟩
    cases promised.observed

end ExportVault
