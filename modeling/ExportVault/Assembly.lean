import ExportVault.Completion
import ExportVault.Proven

/-!
# Pumping the chunks into the upload

`assembleFinalCsv` of `server/src/services/exportRunner.service.ts` and the
upload it starts, `uploadStream` of `storage.service.ts`.  The function writes
the header and the chunks into a `PassThrough`, buffer by buffer; the upload
reads what is written and stores it when the stream has ended.  The two
activities take turns in any order.

Of Node and the S3 helper only this is used: the upload stops reading when a
part fails or the stream errors, and rejects some time later; a failed upload
destroys the stream it reads; waiting for 'drain' ends on 'drain' or on an
error of the stream; a promise that rejects while nobody awaits it ends the
process.
-/

namespace ExportVault

open Interleaving

/-- `Buffer.concat`. -/
def concat (buffers : List Bytes) : Bytes :=
  buffers.foldr (· ++ ·) ByteArray.empty

@[simp]
theorem concat_nil : concat [] = ByteArray.empty :=
  rfl

@[simp]
theorem concat_cons (buffer : Bytes) (buffers : List Bytes) :
    concat (buffer :: buffers) = buffer ++ concat buffers :=
  rfl

theorem concat_append (first second : List Bytes) :
    concat (first ++ second) = concat first ++ concat second := by
  induction first with
  | nil => exact ByteArray.empty_append.symm
  | cons buffer rest inductionHypothesis =>
      rw [List.cons_append, concat_cons, concat_cons, inductionHypothesis,
        ByteArray.append_assoc]

/-- The header is there. -/
theorem assembly_size_pos {env : Env} {store : ObjectStore} {count : Nat}
    {file : Bytes} (whole : assembly env store count = some file) :
    0 < file.size := by
  induction count generalizing file with
  | zero =>
      obtain rfl := Option.some.inj whole
      decide
  | succ count inductionHypothesis =>
      simp only [assembly, Option.bind_eq_some_iff,
        Option.map_eq_some_iff] at whole
      obtain ⟨first, before, chunk, _, rfl⟩ := whole
      rw [ByteArray.size_append]
      exact Nat.add_pos_left (inductionHypothesis before) _

/-- One call of `assembleFinalCsv`, with what Node decides: the buffers in
which a chunk arrives, and with how many unread bytes 'drain' may come. -/
structure Assembling where
  env : Env
  run : Progress
  batchCount : Nat
  buffers : Nat → Bytes → List Bytes
  concat_buffers : ∀ batchNumber body, concat (buffers batchNumber body) = body
  drains : Nat → Bool
  drains_empty : drains 0 = true

/-- The next step of the function.  The header counts as a source that has
ended, before the first chunk. -/
inductive AssemblyPc where
  | writeHeader
  | drain (batchNumber : Nat) (rest : List Bytes)
  | openChunk (batchNumber : Nat)
  | readChunk (batchNumber : Nat) (rest : List Bytes)
  /-- After a write to the destroyed stream no 'drain' will come. -/
  | hanging
  | awaitUpload
  /-- The function has settled, or asks for the size of the upload; what
  follows is the run. -/
  | left (pc : RunPc)

/-- The promise of `uploadStream`. -/
inductive Upload where
  | reading (received : Bytes)
  /-- It has failed and is about to reject. -/
  | failing (error : AppError)
  | resolved
  | rejected (error : AppError)

structure AssemblyState where
  world : World
  pc : AssemblyPc := .writeHeader
  /-- What is written and not yet read. -/
  buffered : List Bytes := []
  ended : Bool := false
  errored : Option AppError := none
  upload : Upload := .reading ByteArray.empty
  /-- The process has ended on a rejection nobody awaited. -/
  terminated : Bool := false

inductive AssemblyEvent where
  /-- A write, and whether the stream takes more at once. -/
  | write (accepted : Bool)
  | drain
  | openChunk
  | endOfChunk
  | readFails (message : String)
  | read
  | complete
  /-- The last step takes effect, but its answer is lost. -/
  | completeLost (message : String)
  | uploadFails (message : String)
  | streamFails
  | rejects
  | resume
  | call
  deriving DecidableEq, Repr

def AssemblyEvent.fails : AssemblyEvent → Bool
  | .readFails _ => true
  | .completeLost _ => true
  | .uploadFails _ => true
  | _ => false

def AssemblyPc.reads (batchCount : Nat) : AssemblyPc → Bool
  | .openChunk batchNumber => decide (batchNumber ≤ batchCount)
  | .readChunk batchNumber _ => decide (0 < batchNumber)
  | _ => false

/-- The calls of the run that belong to the assembly: the size of the upload,
and `failJob`. -/
def RunPc.closing : RunPc → Nat
  | .headAssembled _ => 3
  | .failJob _ _ _ => 2
  | .recordFailure _ _ => 1
  | _ => 0

def abortError : AppError :=
  callError "The operation was aborted"

namespace AssemblyState

/-- `passthrough.write`, and the wait for 'drain' if the stream asks for
one. -/
def write (state : AssemblyState) (accepted : Bool) (buffer : Bytes)
    (batchNumber : Nat) (rest : List Bytes) : AssemblyState :=
  match state.errored with
  | some _ => { state with pc := .hanging }
  | none =>
      { state with
        pc :=
          if accepted then .readChunk batchNumber rest
          else .drain batchNumber rest
        buffered := state.buffered ++ [buffer] }

/-- `passthrough.destroy`; a second call has no effect. -/
def destroy (state : AssemblyState) (error : AppError) : AssemblyState :=
  { state with errored := some (state.errored.getD error) }

/-- The `catch` block destroys the stream and rethrows. -/
def throw (state : AssemblyState) (error : AppError) : AssemblyState :=
  { state.destroy error with pc := .left (.caught error) }

def reject (state : AssemblyState) (error : AppError) : AssemblyState :=
  match state.pc with
  | .awaitUpload =>
      { state with pc := .left (.caught error), upload := .rejected error }
  | _ => { state with upload := .rejected error, terminated := true }

end AssemblyState

namespace Assembling

/-- One event of a live process. -/
def move (assembling : Assembling) (state : AssemblyState) :
    AssemblyEvent → Option AssemblyState
  | .write accepted =>
      match state.pc with
      | .writeHeader => some (state.write accepted (utf8 csvHeader) 0 [])
      | .readChunk batchNumber (buffer :: rest) =>
          some (state.write accepted buffer batchNumber rest)
      | _ => none
  | .drain =>
      match state.pc with
      | .drain batchNumber rest =>
          match state.errored with
          | some error => some (state.throw error)
          | none =>
              if assembling.drains (concat state.buffered).size then
                some { state with pc := .readChunk batchNumber rest }
              else none
      | _ => none
  | .openChunk =>
      match state.pc with
      | .openChunk batchNumber =>
          if batchNumber ≤ assembling.batchCount then
            let key := chunkKey assembling.env.exportJobId batchNumber
            match state.world.store.get? key with
            | none => some (state.throw (noSuchKey key))
            | some body =>
                some
                  { state with
                    pc := .readChunk batchNumber
                      (assembling.buffers batchNumber body) }
          else some { state with pc := .awaitUpload, ended := true }
      | _ => none
  | .endOfChunk =>
      match state.pc with
      | .readChunk batchNumber [] =>
          some { state with pc := .openChunk (batchNumber + 1) }
      | _ => none
  | .readFails message =>
      if state.pc.reads assembling.batchCount then
        some (state.throw (callError message))
      else none
  | .read =>
      match state.upload, state.errored, state.buffered with
      | .reading received, none, buffer :: rest =>
          some
            { state with
              buffered := rest
              upload := .reading (received ++ buffer) }
      | _, _, _ => none
  | .complete =>
      match state.upload, state.errored, state.buffered with
      | .reading received, none, [] =>
          if state.ended then
            some
              { state with
                world := state.world.putObject
                  (finalKey assembling.env.exportJobId) received
                upload := .resolved }
          else none
      | _, _, _ => none
  | .completeLost message =>
      match state.upload, state.errored, state.buffered with
      | .reading received, none, [] =>
          if state.ended then
            some
              { state with
                world := state.world.putObject
                  (finalKey assembling.env.exportJobId) received
                upload := .failing (callError message) }
          else none
      | _, _, _ => none
  | .uploadFails message =>
      match state.upload with
      | .reading _ =>
          some
            { state.destroy abortError with
              upload := .failing (callError message) }
      | _ => none
  | .streamFails =>
      match state.upload, state.errored with
      | .reading _, some error =>
          some { state with upload := .failing error }
      | _, _ => none
  | .rejects =>
      match state.upload with
      | .failing error => some (state.reject error)
      | _ => none
  | .resume =>
      match state.pc, state.upload with
      | .awaitUpload, .resolved =>
          some { state with pc := .left (.headAssembled assembling.run) }
      | _, _ => none
  | .call =>
      match state.pc with
      | .left pc =>
          if 0 < pc.closing then
            match runStep assembling.env [] state.world pc with
            | (world, next) =>
                some { state with world := world, pc := .left next }
          else none
      | _ => none

/-- The events of a process that has ended are none. -/
def machine (assembling : Assembling) :
    Machine AssemblyState AssemblyEvent where
  step state event :=
    if state.terminated then none else assembling.move state event

end Assembling

/-- The events, one by one. -/
inductive Moved (assembling : Assembling) (state : AssemblyState) :
    AssemblyEvent → AssemblyState → Prop
  | header {accepted : Bool} :
      state.pc = .writeHeader →
      Moved assembling state (.write accepted)
        (state.write accepted (utf8 csvHeader) 0 [])
  | wrote {accepted : Bool} {batchNumber : Nat} {buffer : Bytes}
      {rest : List Bytes} :
      state.pc = .readChunk batchNumber (buffer :: rest) →
      Moved assembling state (.write accepted)
        (state.write accepted buffer batchNumber rest)
  | drained {batchNumber : Nat} {rest : List Bytes} :
      state.pc = .drain batchNumber rest → state.errored = none →
      Moved assembling state .drain
        { state with pc := .readChunk batchNumber rest }
  | drainThrew {batchNumber : Nat} {rest : List Bytes} {error : AppError} :
      state.pc = .drain batchNumber rest → state.errored = some error →
      Moved assembling state .drain (state.throw error)
  | missing {batchNumber : Nat} :
      state.pc = .openChunk batchNumber →
      batchNumber ≤ assembling.batchCount →
      state.world.store.get?
        (chunkKey assembling.env.exportJobId batchNumber) = none →
      Moved assembling state .openChunk
        (state.throw
          (noSuchKey (chunkKey assembling.env.exportJobId batchNumber)))
  | opened {batchNumber : Nat} {body : Bytes} :
      state.pc = .openChunk batchNumber →
      batchNumber ≤ assembling.batchCount →
      state.world.store.get?
        (chunkKey assembling.env.exportJobId batchNumber) = some body →
      Moved assembling state .openChunk
        { state with
          pc := .readChunk batchNumber (assembling.buffers batchNumber body) }
  | ended {batchNumber : Nat} :
      state.pc = .openChunk batchNumber →
      assembling.batchCount < batchNumber →
      Moved assembling state .openChunk
        { state with pc := .awaitUpload, ended := true }
  | endOfChunk {batchNumber : Nat} :
      state.pc = .readChunk batchNumber [] →
      Moved assembling state .endOfChunk
        { state with pc := .openChunk (batchNumber + 1) }
  | readFailed {message : String} :
      state.pc.reads assembling.batchCount = true →
      Moved assembling state (.readFails message)
        (state.throw (callError message))
  | read {received buffer : Bytes} {rest : List Bytes} :
      state.upload = .reading received → state.errored = none →
      state.buffered = buffer :: rest →
      Moved assembling state .read
        { state with
          buffered := rest
          upload := .reading (received ++ buffer) }
  | completed {received : Bytes} :
      state.upload = .reading received → state.errored = none →
      state.buffered = [] → state.ended = true →
      Moved assembling state .complete
        { state with
          world := state.world.putObject
            (finalKey assembling.env.exportJobId) received
          upload := .resolved }
  | completedLost {received : Bytes} {message : String} :
      state.upload = .reading received → state.errored = none →
      state.buffered = [] → state.ended = true →
      Moved assembling state (.completeLost message)
        { state with
          world := state.world.putObject
            (finalKey assembling.env.exportJobId) received
          upload := .failing (callError message) }
  | uploadFailed {received : Bytes} {message : String} :
      state.upload = .reading received →
      Moved assembling state (.uploadFails message)
        { state.destroy abortError with
          upload := .failing (callError message) }
  | streamFailed {received : Bytes} {error : AppError} :
      state.upload = .reading received → state.errored = some error →
      Moved assembling state .streamFails
        { state with upload := .failing error }
  | rejected {error : AppError} :
      state.upload = .failing error →
      Moved assembling state .rejects (state.reject error)
  | resumed :
      state.pc = .awaitUpload → state.upload = .resolved →
      Moved assembling state .resume
        { state with pc := .left (.headAssembled assembling.run) }
  | called {pc : RunPc} :
      state.pc = .left pc → 0 < pc.closing →
      Moved assembling state .call
        { state with
          world := (runStep assembling.env [] state.world pc).1
          pc := .left (runStep assembling.env [] state.world pc).2 }

variable {assembling : Assembling} {state after : AssemblyState}
variable {event : AssemblyEvent}

/-- Nothing else happens. -/
theorem moved (stepEq : assembling.machine.step state event = some after) :
    state.terminated = false ∧ Moved assembling state event after := by
  simp only [Assembling.machine, Option.ite_none_left_eq_some,
    Bool.not_eq_true] at stepEq
  obtain ⟨alive, moves⟩ := stepEq
  refine ⟨alive, ?_⟩
  cases event with
  | write accepted =>
      simp only [Assembling.move] at moves
      split at moves
      · next here =>
          obtain rfl := Option.some.inj moves
          exact .header here
      · next here =>
          obtain rfl := Option.some.inj moves
          exact .wrote here
      · cases moves
  | drain =>
      simp only [Assembling.move] at moves
      split at moves
      · next here =>
          split at moves
          · next errored =>
              obtain rfl := Option.some.inj moves
              exact .drainThrew here errored
          · next errored =>
              split at moves
              · obtain rfl := Option.some.inj moves
                exact .drained here errored
              · cases moves
      · cases moves
  | openChunk =>
      simp only [Assembling.move] at moves
      split at moves
      · next here =>
          split at moves
          · next inside =>
              split at moves
              · next absent =>
                  obtain rfl := Option.some.inj moves
                  exact .missing here inside absent
              · next stored =>
                  obtain rfl := Option.some.inj moves
                  exact .opened here inside stored
          · next beyond =>
              obtain rfl := Option.some.inj moves
              exact .ended here (not_le.mp beyond)
      · cases moves
  | endOfChunk =>
      simp only [Assembling.move] at moves
      split at moves
      · next here =>
          obtain rfl := Option.some.inj moves
          exact .endOfChunk here
      · cases moves
  | readFails message =>
      simp only [Assembling.move] at moves
      split at moves
      · next reads =>
          obtain rfl := Option.some.inj moves
          exact .readFailed reads
      · cases moves
  | read =>
      simp only [Assembling.move] at moves
      split at moves
      · next reading intact unread =>
          obtain rfl := Option.some.inj moves
          exact .read reading intact unread
      · cases moves
  | complete =>
      simp only [Assembling.move] at moves
      split at moves
      · next reading intact unread =>
          split at moves
          · next ended =>
              obtain rfl := Option.some.inj moves
              exact .completed reading intact unread ended
          · cases moves
      · cases moves
  | completeLost message =>
      simp only [Assembling.move] at moves
      split at moves
      · next reading intact unread =>
          split at moves
          · next ended =>
              obtain rfl := Option.some.inj moves
              exact .completedLost reading intact unread ended
          · cases moves
      · cases moves
  | uploadFails message =>
      simp only [Assembling.move] at moves
      split at moves
      · next reading =>
          obtain rfl := Option.some.inj moves
          exact .uploadFailed reading
      · cases moves
  | streamFails =>
      simp only [Assembling.move] at moves
      split at moves
      · next reading errored =>
          obtain rfl := Option.some.inj moves
          exact .streamFailed reading errored
      · cases moves
  | rejects =>
      simp only [Assembling.move] at moves
      split at moves
      · next failing =>
          obtain rfl := Option.some.inj moves
          exact .rejected failing
      · cases moves
  | resume =>
      simp only [Assembling.move] at moves
      split at moves
      · next here resolved =>
          obtain rfl := Option.some.inj moves
          exact .resumed here resolved
      · cases moves
  | call =>
      simp only [Assembling.move] at moves
      split at moves
      · next here =>
          split at moves
          · next closing =>
              obtain rfl := Option.some.inj moves
              exact .called here closing
          · cases moves
      · cases moves

def Upload.steps : Upload → Nat
  | .reading _ => 2
  | .failing _ => 1
  | _ => 0

namespace Assembling

/-- A bound on the steps for the buffers of a chunk: each is written, may have
to wait, and is read. -/
def chunkSteps (assembling : Assembling) (store : ObjectStore)
    (batchNumber : Nat) : Nat :=
  match store.get? (chunkKey assembling.env.exportJobId batchNumber) with
  | none => 0
  | some body => 3 * (assembling.buffers batchNumber body).length

def stepsFrom (assembling : Assembling) (store : ObjectStore)
    (batchNumber : Nat) : Nat :=
  ((List.range' batchNumber (assembling.batchCount + 1 - batchNumber)).map
    fun number => 2 + assembling.chunkSteps store number).sum + 5

def pcSteps (assembling : Assembling) (store : ObjectStore) :
    AssemblyPc → Nat
  | .writeHeader => 4 + assembling.stepsFrom store 1
  | .drain batchNumber rest =>
      3 * rest.length + 2 + assembling.stepsFrom store (batchNumber + 1)
  | .openChunk batchNumber => assembling.stepsFrom store batchNumber
  | .readChunk batchNumber rest =>
      3 * rest.length + 1 + assembling.stepsFrom store (batchNumber + 1)
  | .hanging => 0
  | .awaitUpload => 4
  | .left pc => pc.closing

def stepsLeft (assembling : Assembling) (state : AssemblyState) : Nat :=
  if state.terminated then 0
  else
    assembling.pcSteps state.world.store state.pc + state.buffered.length +
      state.upload.steps

end Assembling

theorem five_le_stepsFrom (assembling : Assembling) (store : ObjectStore)
    (batchNumber : Nat) : 5 ≤ assembling.stepsFrom store batchNumber :=
  Nat.le_add_left _ _

theorem stepsFrom_inside {store : ObjectStore} {batchNumber : Nat}
    (inside : batchNumber ≤ assembling.batchCount) :
    assembling.stepsFrom store batchNumber =
      2 + assembling.chunkSteps store batchNumber +
        assembling.stepsFrom store (batchNumber + 1) := by
  have count : assembling.batchCount + 1 - batchNumber =
      assembling.batchCount + 1 - (batchNumber + 1) + 1 := by omega
  rw [Assembling.stepsFrom, count, List.range'_succ, List.map_cons,
    List.sum_cons, Assembling.stepsFrom]
  omega

/-- The final object is none of the chunks. -/
theorem pcSteps_put (assembling : Assembling) (store : ObjectStore)
    (body : Bytes) (pc : AssemblyPc) :
    assembling.pcSteps
        (store.put (finalKey assembling.env.exportJobId) body) pc =
      assembling.pcSteps store pc := by
  have chunk : ∀ number : Nat, assembling.chunkSteps
      (store.put (finalKey assembling.env.exportJobId) body) number =
        assembling.chunkSteps store number := by
    intro number
    rw [Assembling.chunkSteps, Assembling.chunkSteps,
      ObjectStore.get?_put_of_ne _ _ (chunkKey_ne_finalKey _ _)]
  have from_ : ∀ number, assembling.stepsFrom
      (store.put (finalKey assembling.env.exportJobId) body) number =
        assembling.stepsFrom store number := by
    intro number
    simp only [Assembling.stepsFrom, chunk]
  cases pc <;> simp only [Assembling.pcSteps, from_]

theorem closing_runStep (env : Env) (world : World) {pc : RunPc}
    (closes : 0 < pc.closing) :
    (runStep env [] world pc).2.closing < pc.closing := by
  cases pc with
  | headAssembled run =>
      simp only [runStep]
      repeat' split
      all_goals simp [RunPc.closing, RunPc.caught]
  | failJob => exact Nat.lt_succ_self _
  | recordFailure error exit =>
      cases exit <;> exact Nat.lt_succ_self _
  | _ => exact absurd closes (Nat.lt_irrefl 0)

theorem stepsLeft_lt_of_alive (alive : state.terminated = false)
    (stillAlive : after.terminated = false)
    (less : assembling.pcSteps after.world.store after.pc +
        after.buffered.length + after.upload.steps <
      assembling.pcSteps state.world.store state.pc + state.buffered.length +
        state.upload.steps) :
    assembling.stepsLeft after < assembling.stepsLeft state := by
  rw [Assembling.stepsLeft, Assembling.stepsLeft, alive, stillAlive]
  exact less

theorem stepsLeft_throw (alive : state.terminated = false) (error : AppError)
    (more : 2 < assembling.pcSteps state.world.store state.pc) :
    assembling.stepsLeft (state.throw error) < assembling.stepsLeft state :=
  stepsLeft_lt_of_alive alive alive
    (Nat.add_lt_add_right (Nat.add_lt_add_right more _) _)

theorem stepsLeft_reject {error : AppError} (alive : state.terminated = false)
    (failing : state.upload = .failing error) :
    assembling.stepsLeft (state.reject error) < assembling.stepsLeft state := by
  rw [AssemblyState.reject]
  cases here : state.pc with
  | awaitUpload =>
      refine stepsLeft_lt_of_alive alive alive ?_
      rw [here, failing]
      exact Nat.add_lt_add_of_le_of_lt
        (Nat.add_le_add_right (show 2 ≤ 4 by decide) _) Nat.one_pos
  | _ =>
      rw [Assembling.stepsLeft, Assembling.stepsLeft, alive, failing]
      exact Nat.succ_pos _

theorem stepsLeft_write {accepted : Bool} {buffer : Bytes} {batchNumber : Nat}
    {rest : List Bytes} (alive : state.terminated = false)
    (more : assembling.pcSteps state.world.store
      (.readChunk batchNumber rest) + 3 ≤
        assembling.pcSteps state.world.store state.pc) :
    assembling.stepsLeft (state.write accepted buffer batchNumber rest) <
      assembling.stepsLeft state := by
  simp only [Assembling.pcSteps] at more
  rw [AssemblyState.write]
  cases state.errored with
  | some error =>
      refine stepsLeft_lt_of_alive alive alive ?_
      simp only [Assembling.pcSteps]
      omega
  | none =>
      refine stepsLeft_lt_of_alive alive alive ?_
      simp only [List.length_append, List.length_singleton]
      cases accepted
      · simp only [Assembling.pcSteps, Bool.false_eq_true, if_false]
        omega
      · simp only [Assembling.pcSteps, if_true]
        omega

/-- Every event uses up a step. -/
theorem stepsLeft_lt (stepEq :
    assembling.machine.step state event = some after) :
    assembling.stepsLeft after < assembling.stepsLeft state := by
  obtain ⟨alive, moves⟩ := moved stepEq
  have five := five_le_stepsFrom assembling state.world.store
  cases moves with
  | header here =>
      refine stepsLeft_write alive ?_
      rw [here]
      simp only [Assembling.pcSteps, List.length_nil, Nat.zero_add]
      omega
  | wrote here =>
      refine stepsLeft_write alive ?_
      rw [here]
      simp only [Assembling.pcSteps, List.length_cons]
      omega
  | drained here =>
      refine stepsLeft_lt_of_alive alive alive ?_
      rw [here]
      simp only [Assembling.pcSteps]
      omega
  | @drainThrew batchNumber rest error here =>
      refine stepsLeft_throw alive error ?_
      have := five (batchNumber + 1)
      rw [here]
      simp only [Assembling.pcSteps]
      omega
  | @missing batchNumber here =>
      refine stepsLeft_throw alive _ ?_
      have := five batchNumber
      rw [here]
      simp only [Assembling.pcSteps]
      omega
  | opened here inside stored =>
      refine stepsLeft_lt_of_alive alive alive ?_
      rw [here]
      simp only [Assembling.pcSteps, stepsFrom_inside inside,
        Assembling.chunkSteps, stored]
      omega
  | @ended batchNumber here =>
      have := five batchNumber
      refine stepsLeft_lt_of_alive alive alive ?_
      rw [here]
      simp only [Assembling.pcSteps]
      omega
  | endOfChunk here =>
      refine stepsLeft_lt_of_alive alive alive ?_
      rw [here]
      simp only [Assembling.pcSteps, List.length_nil]
      omega
  | readFailed reads =>
      refine stepsLeft_throw alive _ ?_
      cases here : state.pc with
      | openChunk batchNumber =>
          have := five batchNumber
          simp only [Assembling.pcSteps]
          omega
      | readChunk batchNumber rest =>
          have := five (batchNumber + 1)
          simp only [Assembling.pcSteps]
          omega
      | _ =>
          rw [here] at reads
          cases reads
  | read reading intact unread =>
      refine stepsLeft_lt_of_alive alive alive ?_
      rw [unread, reading]
      simp only [List.length_cons, Upload.steps]
      omega
  | completed reading =>
      refine stepsLeft_lt_of_alive alive alive ?_
      rw [reading]
      simp only [World.putObject_store, pcSteps_put, Upload.steps]
      omega
  | completedLost reading =>
      refine stepsLeft_lt_of_alive alive alive ?_
      rw [reading]
      simp only [World.putObject_store, pcSteps_put, Upload.steps]
      omega
  | uploadFailed reading =>
      refine stepsLeft_lt_of_alive alive alive ?_
      rw [reading]
      exact Nat.lt_succ_self _
  | streamFailed reading =>
      refine stepsLeft_lt_of_alive alive alive ?_
      rw [reading]
      exact Nat.lt_succ_self _
  | rejected failing => exact stepsLeft_reject alive failing
  | resumed here =>
      refine stepsLeft_lt_of_alive alive alive ?_
      rw [here]
      simp only [Assembling.pcSteps, RunPc.closing]
      omega
  | called here closes =>
      have less := closing_runStep assembling.env state.world closes
      refine stepsLeft_lt_of_alive alive alive ?_
      rw [here]
      simp only [Assembling.pcSteps]
      omega

end ExportVault
