import ExportVault.Records
import Mathlib.Data.List.Sort
import Mathlib.Tactic.Ring

/-!
# Export jobs and their checkpoint log

The rows of `server/prisma/schema.prisma` the program reads and writes, and
`server/src/services/exportResume.service.ts`, which derives the resume
position from the checkpoint log.
-/

namespace ExportVault

inductive ExportStatus where
  | pending
  | queued
  | running
  | interrupted
  | resuming
  | verifying
  | completed
  | failed
  | cancelled
  deriving DecidableEq, Repr

def ExportStatus.name : ExportStatus → String
  | .pending => "PENDING"
  | .queued => "QUEUED"
  | .running => "RUNNING"
  | .interrupted => "INTERRUPTED"
  | .resuming => "RESUMING"
  | .verifying => "VERIFYING"
  | .completed => "COMPLETED"
  | .failed => "FAILED"
  | .cancelled => "CANCELLED"

def ExportStatus.terminal (status : ExportStatus) : Bool :=
  status = .completed || status = .cancelled

/-- A row of `export_jobs`; dates are milliseconds. -/
structure ExportJob where
  userId : String
  status : ExportStatus
  snapshotMaxId : Int
  requestedRowLimit : Int
  lastExportedId : Option Int := none
  exportedRowCount : Int := 0
  batchSize : Int
  fileKey : Option String := none
  fileUrl : Option String := none
  startedAt : Option Int := none
  completedAt : Option Int := none
  failedAt : Option Int := none
  errorMessage : Option String := none
  cancelRequested : Bool := false
  updatedAt : Int
  deriving DecidableEq, Repr

/-- A row of `export_checkpoints`. -/
structure ExportCheckpoint where
  batchNumber : Int
  lastRecordId : Int
  rowsWritten : Int
  deriving DecidableEq, Repr

/-- A row of `export_failures`. -/
structure ExportFailure where
  exportJobId : Option String
  errorType : String
  errorMessage : String
  deriving DecidableEq, Repr

structure FieldIssue where
  field : String
  message : String
  deriving DecidableEq, Repr

inductive Detail where
  | num (value : Int)
  | str (value : String)
  deriving DecidableEq, Repr

inductive ErrorDetails where
  | fields (fields : List (String × Detail))
  | issues (issues : List FieldIssue)
  deriving DecidableEq, Repr

/-- The errors of `server/src/utils/errors.ts`. -/
structure AppError where
  message : String
  statusCode : Nat := 500
  code : String := "INTERNAL_ERROR"
  details : Option ErrorDetails := none
  deriving DecidableEq, Repr

def validationError (message : String)
    (details : Option ErrorDetails := none) : AppError :=
  ⟨message, 400, "VALIDATION_ERROR", details⟩

def forbiddenError (message : String) : AppError :=
  ⟨message, 403, "FORBIDDEN", none⟩

def notFoundError (message : String) : AppError :=
  ⟨message, 404, "NOT_FOUND", none⟩

def conflictError (message : String)
    (details : Option ErrorDetails := none) : AppError :=
  ⟨message, 409, "CONFLICT", details⟩

def exportIntegrityError (message : String) : AppError :=
  ⟨message, 500, "EXPORT_INTEGRITY_ERROR", none⟩

structure ResumeState where
  nextBatchNumber : Int
  lastExportedId : Int
  rowsWritten : Int
  checkpointCount : Int
  deriving DecidableEq, Repr

/-- The validating loop of `loadResumeState`, from index `i` on; it returns
the accumulated number of rows. -/
def resumeLoop (exportJobId : String) :
    List ExportCheckpoint → (i rowsWritten previousLastId : Int) →
      Except AppError Int
  | [], _, rowsWritten, _ => .ok rowsWritten
  | checkpoint :: rest, i, rowsWritten, previousLastId =>
      let expectedBatchNumber := i + 1
      if checkpoint.batchNumber ≠ expectedBatchNumber then
        .error <| exportIntegrityError <|
          "Checkpoint log for export " ++ exportJobId ++
            " has a gap: expected batch " ++ toString expectedBatchNumber ++
            ", found " ++ toString checkpoint.batchNumber ++
            ". Refusing to resume because rows would be skipped."
      else if checkpoint.lastRecordId ≤ previousLastId then
        .error <| exportIntegrityError <|
          "Checkpoint log for export " ++ exportJobId ++
            " is not strictly increasing at batch " ++
            toString checkpoint.batchNumber ++ " (" ++
            toString checkpoint.lastRecordId ++ " <= " ++
            toString previousLastId ++ ")."
      else
        resumeLoop exportJobId rest (i + 1)
          (rowsWritten + checkpoint.rowsWritten) checkpoint.lastRecordId

/-- Derives the resume position from the checkpoint log, in batch order. -/
def loadResumeState (exportJobId : String)
    (stored : List ExportCheckpoint) : Except AppError ResumeState :=
  let checkpoints := stored.insertionSort fun first second =>
    first.batchNumber ≤ second.batchNumber
  match checkpoints.getLast? with
  | none =>
      .ok
        { nextBatchNumber := 1
          lastExportedId := 0
          rowsWritten := 0
          checkpointCount := 0 }
  | some last =>
      match resumeLoop exportJobId checkpoints 0 0 0 with
      | .error error => .error error
      | .ok rowsWritten =>
          .ok
            { nextBatchNumber := last.batchNumber + 1
              lastExportedId := last.lastRecordId
              rowsWritten := rowsWritten
              checkpointCount := checkpoints.length }

/-- The batch numbers count up from `first`. -/
def Numbered : (first : Int) → List ExportCheckpoint → Prop
  | _, [] => True
  | first, checkpoint :: rest =>
      checkpoint.batchNumber = first ∧ Numbered (first + 1) rest

/-- The cursors rise strictly, from above `floor`. -/
def Rising : (floor : Int) → List ExportCheckpoint → Prop
  | _, [] => True
  | floor, checkpoint :: rest =>
      floor < checkpoint.lastRecordId ∧ Rising checkpoint.lastRecordId rest

def rowsOf (checkpoints : List ExportCheckpoint) : Int :=
  (checkpoints.map ExportCheckpoint.rowsWritten).sum

/-- The record id a log has reached; zero for an empty log. -/
def cursorOf (checkpoints : List ExportCheckpoint) : Int :=
  Keyset.cursor ExportCheckpoint.lastRecordId 0 checkpoints

@[simp]
theorem rowsOf_nil : rowsOf [] = 0 :=
  rfl

@[simp]
theorem rowsOf_append (first second : List ExportCheckpoint) :
    rowsOf (first ++ second) = rowsOf first + rowsOf second := by
  simp [rowsOf]

@[simp]
theorem rowsOf_cons (checkpoint : ExportCheckpoint)
    (rest : List ExportCheckpoint) :
    rowsOf (checkpoint :: rest) = checkpoint.rowsWritten + rowsOf rest := by
  simp [rowsOf]

@[simp]
theorem cursorOf_nil : cursorOf [] = 0 :=
  rfl

@[simp]
theorem cursorOf_concat (checkpoints : List ExportCheckpoint)
    (checkpoint : ExportCheckpoint) :
    cursorOf (checkpoints ++ [checkpoint]) = checkpoint.lastRecordId :=
  Keyset.cursor_concat checkpoint

theorem numbered_append {first : Int} {left right : List ExportCheckpoint} :
    Numbered first (left ++ right) ↔
      Numbered first left ∧ Numbered (first + left.length) right := by
  induction left generalizing first with
  | nil => simp [Numbered]
  | cons checkpoint rest inductionHypothesis =>
      simp only [List.cons_append, Numbered, inductionHypothesis,
        List.length_cons, Nat.cast_add, Nat.cast_one, and_assoc]
      rw [show first + 1 + (rest.length : Int) =
        first + ((rest.length : Int) + 1) by ring]

theorem rising_append {floor : Int} {left right : List ExportCheckpoint} :
    Rising floor (left ++ right) ↔
      Rising floor left ∧
        Rising (Keyset.cursor ExportCheckpoint.lastRecordId floor left)
          right := by
  induction left generalizing floor with
  | nil => simp [Rising]
  | cons checkpoint rest inductionHypothesis =>
      have cursorEq :
          Keyset.cursor ExportCheckpoint.lastRecordId floor
              (checkpoint :: rest) =
            Keyset.cursor ExportCheckpoint.lastRecordId
              checkpoint.lastRecordId rest :=
        Keyset.cursor_append [checkpoint] rest
      simp only [List.cons_append, Rising, inductionHypothesis, cursorEq,
        and_assoc]

theorem numbered_batchNumber_mem {first : Int}
    {checkpoints : List ExportCheckpoint} (numbered : Numbered first checkpoints)
    {checkpoint : ExportCheckpoint} (member : checkpoint ∈ checkpoints) :
    first ≤ checkpoint.batchNumber ∧
      checkpoint.batchNumber < first + checkpoints.length := by
  induction checkpoints generalizing first with
  | nil => exact absurd member List.not_mem_nil
  | cons head rest inductionHypothesis =>
      obtain ⟨headNumber, restNumbered⟩ := numbered
      simp only [List.length_cons, Nat.cast_add, Nat.cast_one]
      rcases List.mem_cons.mp member with rfl | later
      · omega
      · have bounds := inductionHypothesis restNumbered later
        omega

/-- In a numbered log every number in the range occurs. -/
theorem numbered_exists {first number : Int}
    {checkpoints : List ExportCheckpoint} (numbered : Numbered first checkpoints)
    (low : first ≤ number) (high : number < first + checkpoints.length) :
    ∃ before checkpoint after,
      checkpoints = before ++ checkpoint :: after ∧
        checkpoint.batchNumber = number ∧
        first + before.length = number := by
  induction checkpoints generalizing first with
  | nil => simp at high; omega
  | cons head rest inductionHypothesis =>
      obtain ⟨headNumber, restNumbered⟩ := numbered
      simp only [List.length_cons, Nat.cast_add, Nat.cast_one] at high
      by_cases here : number = first
      · exact ⟨[], head, rest, rfl, by omega, by simp [here]⟩
      · obtain ⟨before, checkpoint, after, rfl, numberEq, position⟩ :=
          inductionHypothesis restNumbered (by omega) (by omega)
        refine ⟨head :: before, checkpoint, after, rfl, numberEq, ?_⟩
        simp only [List.length_cons, Nat.cast_add, Nat.cast_one]
        omega

theorem numbered_pairwise {first : Int} {checkpoints : List ExportCheckpoint}
    (numbered : Numbered first checkpoints) :
    checkpoints.Pairwise fun earlier later =>
      earlier.batchNumber ≤ later.batchNumber := by
  induction checkpoints generalizing first with
  | nil => exact List.Pairwise.nil
  | cons head rest inductionHypothesis =>
      obtain ⟨headNumber, restNumbered⟩ := numbered
      refine List.pairwise_cons.mpr ⟨fun later member => ?_,
        inductionHypothesis restNumbered⟩
      have bounds := numbered_batchNumber_mem restNumbered member
      omega

theorem resumeLoop_of_wellFormed (exportJobId : String)
    {checkpoints : List ExportCheckpoint} {i rowsWritten previousLastId : Int}
    (numbered : Numbered (i + 1) checkpoints)
    (rising : Rising previousLastId checkpoints) :
    resumeLoop exportJobId checkpoints i rowsWritten previousLastId =
      .ok (rowsWritten + rowsOf checkpoints) := by
  induction checkpoints generalizing i rowsWritten previousLastId with
  | nil => simp [resumeLoop]
  | cons checkpoint rest inductionHypothesis =>
      obtain ⟨number, restNumbered⟩ := numbered
      obtain ⟨above, restRising⟩ := rising
      rw [resumeLoop, if_neg (by simpa using number),
        if_neg (not_le.mpr above), inductionHypothesis restNumbered restRising]
      simp [add_assoc]

/-- The resume position a well-formed log stands for. -/
def resumeStateOf (checkpoints : List ExportCheckpoint) : ResumeState where
  nextBatchNumber := checkpoints.length + 1
  lastExportedId := cursorOf checkpoints
  rowsWritten := rowsOf checkpoints
  checkpointCount := checkpoints.length

/-- A well-formed log is loaded exactly. -/
theorem loadResumeState_of_wellFormed (exportJobId : String)
    {checkpoints : List ExportCheckpoint}
    (numbered : Numbered 1 checkpoints) (rising : Rising 0 checkpoints) :
    loadResumeState exportJobId checkpoints =
      .ok (resumeStateOf checkpoints) := by
  have sorted :
      checkpoints.insertionSort
          (fun first second => first.batchNumber ≤ second.batchNumber) =
        checkpoints :=
    List.Pairwise.insertionSort_eq (numbered_pairwise numbered)
  rw [loadResumeState, sorted]
  rcases List.eq_nil_or_concat checkpoints with rfl | ⟨initial, last, rfl⟩
  · simp [resumeStateOf]
  · rw [List.concat_eq_append] at numbered rising ⊢
    have lastNumber : last.batchNumber = 1 + initial.length :=
      ((numbered_append.mp numbered).2).1
    simp only [List.getLast?_concat,
      resumeLoop_of_wellFormed exportJobId (i := 0) (by simpa using numbered)
        rising,
      resumeStateOf, cursorOf_concat, zero_add, List.length_append,
      List.length_singleton, Nat.cast_add, Nat.cast_one, lastNumber]
    rw [add_comm (1 : Int)]

end ExportVault
