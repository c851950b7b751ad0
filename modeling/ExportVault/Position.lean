import ExportVault.System
import Mathlib.Algebra.BigOperators.Group.List.Basic

/-!
# The resume position

`loadResumeState` on any log whose batch numbers are pairwise distinct, in
whatever order it is stored: it succeeds exactly when the batch numbers are
`1, …, N` and the cursors rise from above zero in batch order, and then gives
the position after the last batch (`loadResumeState_ok_iff`).  The progress
`reconcileJobProgress` leaves behind is that position
(`resumePosition_exact`).
-/

namespace ExportVault

open Interleaving

variable {stored : List ExportCheckpoint} {exportJobId : String}

/-- The batch numbers are `1, …, N`, where `N` is the number of rows, and in
batch order the cursors rise strictly from above zero. -/
structure InBatchOrder (stored : List ExportCheckpoint) : Prop where
  numbers : ∀ number : Int,
    (∃ checkpoint ∈ stored, checkpoint.batchNumber = number) ↔
      1 ≤ number ∧ number ≤ stored.length
  positive : ∀ checkpoint ∈ stored, 0 < checkpoint.lastRecordId
  rising : ∀ earlier ∈ stored, ∀ later ∈ stored,
    earlier.batchNumber < later.batchNumber →
      earlier.lastRecordId < later.lastRecordId

structure PositionAfter (stored : List ExportCheckpoint)
    (resume : ResumeState) : Prop where
  next : resume.nextBatchNumber = stored.length + 1
  count : resume.checkpointCount = stored.length
  rows : resume.rowsWritten = (stored.map ExportCheckpoint.rowsWritten).sum
  start : stored = [] → resume.lastExportedId = 0
  cursor : ∀ checkpoint ∈ stored,
    checkpoint.batchNumber = stored.length →
      resume.lastExportedId = checkpoint.lastRecordId

/-- The loop runs to its end on the logs that are numbered and rise, and on no
others. -/
theorem resumeLoop_ok_iff {checkpoints : List ExportCheckpoint}
    {i rowsWritten previousLastId total : Int} :
    resumeLoop exportJobId checkpoints i rowsWritten previousLastId =
        .ok total ↔
      Numbered (i + 1) checkpoints ∧ Rising previousLastId checkpoints ∧
        total = rowsWritten + rowsOf checkpoints := by
  constructor
  · intro ends
    induction checkpoints generalizing i rowsWritten previousLastId with
    | nil => exact ⟨trivial, trivial, by simpa using (Except.ok.inj ends).symm⟩
    | cons checkpoint rest inductionHypothesis =>
        rw [resumeLoop] at ends
        split at ends
        · cases ends
        · next number =>
            split at ends
            · cases ends
            · next above =>
                obtain ⟨numbered, rising, rfl⟩ := inductionHypothesis ends
                refine ⟨⟨not_not.mp number, numbered⟩,
                  ⟨not_le.mp above, rising⟩, ?_⟩
                rw [rowsOf_cons]
                ring
  · rintro ⟨numbered, rising, rfl⟩
    exact resumeLoop_of_wellFormed exportJobId numbered rising

/-- A log is loaded when it is numbered and rises once it is sorted, and not
otherwise. -/
theorem loadResumeState_sorted {resume : ResumeState}
    {sorted : List ExportCheckpoint}
    (sortedEq : (stored.insertionSort fun first second =>
      first.batchNumber ≤ second.batchNumber) = sorted) :
    loadResumeState exportJobId stored = .ok resume ↔
      Numbered 1 sorted ∧ Rising 0 sorted ∧ resume = resumeStateOf sorted := by
  constructor
  · intro loaded
    have checked : Numbered 1 sorted ∧ Rising 0 sorted := by
      simp only [loadResumeState, sortedEq] at loaded
      split at loaded
      · next none =>
          rw [List.getLast?_eq_none_iff.mp none]
          exact ⟨trivial, trivial⟩
      · split at loaded
        · cases loaded
        · next ends =>
            obtain ⟨numbered, rising, _⟩ := resumeLoop_ok_iff.mp ends
            exact ⟨numbered, rising⟩
    obtain ⟨numbered, rising⟩ := checked
    have again := loadResumeState_of_wellFormed exportJobId numbered rising
    have same : loadResumeState exportJobId sorted =
        loadResumeState exportJobId stored := by
      simp only [loadResumeState, sortedEq,
        List.Pairwise.insertionSort_eq (numbered_pairwise numbered)]
    rw [same, loaded] at again
    exact ⟨numbered, rising, Except.ok.inj again⟩
  · rintro ⟨numbered, rising, rfl⟩
    have same : loadResumeState exportJobId stored =
        loadResumeState exportJobId sorted := by
      simp only [loadResumeState, sortedEq,
        List.Pairwise.insertionSort_eq (numbered_pairwise numbered)]
    rw [same]
    exact loadResumeState_of_wellFormed exportJobId numbered rising

/-- Strictly rising integers that fit in a range of their number fill it. -/
theorem numbered_of_rising {first : Int} {checkpoints : List ExportCheckpoint}
    (rising : checkpoints.Pairwise fun earlier later =>
      earlier.batchNumber < later.batchNumber)
    (within : ∀ checkpoint ∈ checkpoints, first ≤ checkpoint.batchNumber ∧
      checkpoint.batchNumber < first + checkpoints.length) :
    Numbered first checkpoints := by
  induction checkpoints generalizing first with
  | nil => trivial
  | cons head rest inductionHypothesis =>
      obtain ⟨above, restRising⟩ := List.pairwise_cons.mp rising
      have headWithin := within head List.mem_cons_self
      have restNumbered : Numbered (first + 1) rest := by
        refine inductionHypothesis restRising fun later member => ?_
        have larger := above later member
        have laterWithin := within later (List.mem_cons_of_mem _ member)
        simp only [List.length_cons, Nat.cast_add, Nat.cast_one]
          at laterWithin
        omega
      refine ⟨?_, restNumbered⟩
      cases rest with
      | nil =>
          simp only [List.length_cons, List.length_nil] at headWithin
          omega
      | cons second others =>
          have next : second.batchNumber = first + 1 := restNumbered.1
          have larger := above second List.mem_cons_self
          omega

theorem numbered_iff {checkpoints : List ExportCheckpoint}
    (rising : checkpoints.Pairwise fun earlier later =>
      earlier.batchNumber < later.batchNumber) :
    Numbered 1 checkpoints ↔ ∀ number : Int,
      (∃ checkpoint ∈ checkpoints, checkpoint.batchNumber = number) ↔
        1 ≤ number ∧ number ≤ checkpoints.length := by
  constructor
  · intro numbered number
    constructor
    · rintro ⟨checkpoint, member, rfl⟩
      have bounds := numbered_batchNumber_mem numbered member
      omega
    · rintro ⟨low, high⟩
      obtain ⟨before, checkpoint, after, rfl, numberEq, _⟩ :=
        numbered_exists numbered low (by omega)
      exact ⟨checkpoint, by simp, numberEq⟩
  · intro numbers
    apply numbered_of_rising rising
    intro checkpoint member
    have bounds := (numbers checkpoint.batchNumber).mp ⟨checkpoint, member, rfl⟩
    omega

theorem rising_iff {floor : Int} {checkpoints : List ExportCheckpoint} :
    Rising floor checkpoints ↔
      (∀ checkpoint ∈ checkpoints, floor < checkpoint.lastRecordId) ∧
        checkpoints.Pairwise fun earlier later =>
          earlier.lastRecordId < later.lastRecordId := by
  induction checkpoints generalizing floor with
  | nil =>
      exact ⟨fun _ => ⟨fun _ none => absurd none List.not_mem_nil, .nil⟩,
        fun _ => trivial⟩
  | cons head rest inductionHypothesis =>
      rw [Rising, inductionHypothesis, List.pairwise_cons,
        List.forall_mem_cons]
      constructor
      · rintro ⟨above, restAbove, restRising⟩
        exact ⟨⟨above, fun later member =>
          lt_trans above (restAbove later member)⟩, restAbove, restRising⟩
      · rintro ⟨⟨above, _⟩, restAbove, restRising⟩
        exact ⟨above, restAbove, restRising⟩

/-- Along a list that is sorted by batch number the cursors rise exactly when
they do so in batch order. -/
theorem rising_batches_iff {checkpoints : List ExportCheckpoint}
    (sorted : checkpoints.Pairwise fun earlier later =>
      earlier.batchNumber < later.batchNumber) :
    (checkpoints.Pairwise fun earlier later =>
        earlier.lastRecordId < later.lastRecordId) ↔
      ∀ earlier ∈ checkpoints, ∀ later ∈ checkpoints,
        earlier.batchNumber < later.batchNumber →
          earlier.lastRecordId < later.lastRecordId := by
  constructor
  · intro rising earlier first later second
    refine List.Pairwise.forall_of_forall_of_flip
      (R := fun earlier later : ExportCheckpoint =>
        earlier.batchNumber < later.batchNumber →
          earlier.lastRecordId < later.lastRecordId) ?_ ?_ ?_ first second
    · exact fun _ _ same => absurd same (lt_irrefl _)
    · exact rising.imp (S := fun earlier later : ExportCheckpoint =>
        earlier.batchNumber < later.batchNumber →
          earlier.lastRecordId < later.lastRecordId) fun below _ => below
    · exact sorted.imp fun below back => absurd below (lt_asymm back)
  · intro order
    exact sorted.imp_of_mem fun first second => order _ first _ second

/-- The cursor of a numbered log is that of its last batch. -/
theorem cursorOf_eq_of_number {checkpoints : List ExportCheckpoint}
    (numbered : Numbered 1 checkpoints) {checkpoint : ExportCheckpoint}
    (member : checkpoint ∈ checkpoints)
    (last : checkpoint.batchNumber = checkpoints.length) :
    cursorOf checkpoints = checkpoint.lastRecordId := by
  rcases List.eq_nil_or_concat checkpoints with rfl | ⟨initial, final, rfl⟩
  · exact absurd member List.not_mem_nil
  · rw [List.concat_eq_append] at numbered member last ⊢
    rw [cursorOf_concat]
    rcases List.mem_append.mp member with before | here
    · have bounds := numbered_batchNumber_mem (numbered_append.mp numbered).1
        before
      simp only [List.length_append, List.length_singleton] at last
      omega
    · rw [List.mem_singleton.mp here]

/-- A numbered log stands for one position. -/
theorem resumeStateOf_iff {checkpoints : List ExportCheckpoint}
    {resume : ResumeState} (perm : checkpoints.Perm stored)
    (numbered : Numbered 1 checkpoints) :
    resume = resumeStateOf checkpoints ↔ PositionAfter stored resume := by
  have sameLength := perm.length_eq
  have sameRows : rowsOf checkpoints =
      (stored.map ExportCheckpoint.rowsWritten).sum :=
    (perm.map ExportCheckpoint.rowsWritten).sum_eq
  constructor
  · rintro rfl
    refine ⟨by simp [resumeStateOf, sameLength],
      by simp [resumeStateOf, sameLength], sameRows, fun empty => ?_,
      fun checkpoint member last => ?_⟩
    · rw [empty] at perm
      rw [perm.eq_nil]
      rfl
    · exact cursorOf_eq_of_number numbered (perm.mem_iff.mpr member)
        (by rw [last, sameLength])
  · rintro ⟨next, count, rows, start, cursor⟩
    have position : resume.lastExportedId = cursorOf checkpoints := by
      rcases List.eq_nil_or_concat checkpoints with rfl | ⟨initial, final, rfl⟩
      · exact start perm.symm.eq_nil
      · rw [List.concat_eq_append] at *
        have number := ((numbered_append.mp numbered).2).1
        rw [cursorOf_concat]
        apply cursor final (perm.mem_iff.mp (by simp))
        rw [number, ← sameLength, List.length_append, List.length_singleton]
        push_cast
        ring
    cases resume
    simp only at next count rows position
    simp only [resumeStateOf, next, count, rows, position, sameLength,
      sameRows]

/-- Sorting brings a log in batch order. -/
theorem inBatchOrder_iff_sorted {sorted : List ExportCheckpoint}
    (distinct : (stored.map ExportCheckpoint.batchNumber).Nodup)
    (sortedEq : (stored.insertionSort fun first second =>
      first.batchNumber ≤ second.batchNumber) = sorted) :
    sorted.Perm stored ∧
      (InBatchOrder stored ↔ Numbered 1 sorted ∧ Rising 0 sorted) := by
  have perm : sorted.Perm stored :=
    sortedEq ▸ List.perm_insertionSort _ stored
  have rising : sorted.Pairwise fun earlier later =>
      earlier.batchNumber < later.batchNumber := by
    have weakly : sorted.Pairwise fun earlier later =>
        earlier.batchNumber ≤ later.batchNumber :=
      sortedEq ▸ List.pairwise_insertionSort _ stored
    have different := List.pairwise_map.mp
      ((perm.map ExportCheckpoint.batchNumber).nodup_iff.mpr distinct)
    exact (weakly.and different).imp fun both => lt_of_le_of_ne both.1 both.2
  refine ⟨perm, ?_⟩
  rw [numbered_iff rising, rising_iff, rising_batches_iff rising]
  simp only [perm.mem_iff, perm.length_eq]
  exact ⟨fun order => ⟨order.numbers, order.positive, order.rising⟩,
    fun order => ⟨order.1, order.2.1, order.2.2⟩⟩

/-- A log that is loaded is in batch order, and the position is the one after
its last batch. -/
theorem loadResumeState_ok_iff {resume : ResumeState}
    (distinct : (stored.map ExportCheckpoint.batchNumber).Nodup) :
    loadResumeState exportJobId stored = .ok resume ↔
      InBatchOrder stored ∧ PositionAfter stored resume := by
  obtain ⟨perm, order⟩ := inBatchOrder_iff_sorted distinct rfl
  rw [loadResumeState_sorted rfl, order, and_assoc, and_congr_right_iff]
  intro numbered
  rw [and_congr_right_iff]
  exact fun _ => resumeStateOf_iff perm numbered

/-- Every log in batch order is loaded. -/
theorem exists_position (order : InBatchOrder stored)
    (distinct : (stored.map ExportCheckpoint.batchNumber).Nodup) :
    ∃ resume, loadResumeState exportJobId stored = .ok resume := by
  obtain ⟨numbered, rising⟩ :=
    (inBatchOrder_iff_sorted distinct rfl).2.mp order
  exact ⟨_, (loadResumeState_sorted rfl).mpr ⟨numbered, rising, rfl⟩⟩

/-- The row shows the position, and is otherwise as it was. -/
structure Reconciled (resume : ResumeState) (row after : ExportJob) :
    Prop where
  cursor : after.lastExportedId.getD 0 = resume.lastExportedId
  rows : after.exportedRowCount = resume.rowsWritten
  others : { after with
    lastExportedId := row.lastExportedId
    exportedRowCount := row.exportedRowCount
    updatedAt := row.updatedAt } = row

variable {env : Env} {world : World} {job row : ExportJob}

/-- The two statements of `reconcileJobProgress`. -/
theorem solo_reconcile (index : Nat) (resume : ResumeState)
    (found : world.job = some row) :
    ∃ count after, (network env).solo index world
        (.run (.readProgress job resume))
        (List.replicate count (.call .none)) =
      some ({ world with job := some after },
        .run (.loopTop (.start job resume))) ∧
      Reconciled resume row after := by
  by_cases agrees : row.lastExportedId.getD 0 = resume.lastExportedId ∧
      row.exportedRowCount = resume.rowsWritten
  · refine ⟨1, row, ?_, agrees.1, agrees.2, rfl⟩
    rw [List.replicate_one, solo_run rfl, Network.solo_nil]
    simp only [runStep, found, Option.any_some, agrees.1, agrees.2,
      decide_true, Bool.and_true, if_true]
    rw [← found]
  · refine ⟨2, { row with
      lastExportedId :=
        if resume.lastExportedId = 0 then none
        else some resume.lastExportedId
      exportedRowCount := resume.rowsWritten
      updatedAt := world.now }, ?_, ?_, rfl, rfl⟩
    · have disagrees : (decide (row.lastExportedId.getD 0 =
            resume.lastExportedId) &&
          decide (row.exportedRowCount = resume.rowsWritten)) = false := by
        simpa using agrees
      have read : runStep env [] world (.readProgress job resume) =
          (world, .reconcile job resume) := by
        simp only [runStep, found, Option.any_some, disagrees,
          Bool.false_eq_true, if_false]
      rw [List.replicate_succ, List.replicate_one, solo_run rfl, read,
        solo_run rfl, Network.solo_nil]
      simp only [runStep, World.updateJob, found, Option.map_some]
    · -- zero is written as null
      by_cases zero : resume.lastExportedId = 0 <;> simp [zero]

/-- On any log with distinct batch numbers a run that has claimed the job
either loads the position after the last batch, when the log is in batch
order, and enters the loop with a row that shows it; or its load throws and
has written nothing. -/
theorem resumePosition_exact (index : Nat) (found : world.job = some row)
    (distinct :
      (world.checkpoints.map ExportCheckpoint.batchNumber).Nodup) :
    ((∃ resume, loadResumeState env.exportJobId world.checkpoints =
        .ok resume) ↔ InBatchOrder world.checkpoints) ∧
      (∀ resume, loadResumeState env.exportJobId world.checkpoints =
          .ok resume →
        PositionAfter world.checkpoints resume ∧
          ∃ count after, (network env).solo index world
              (.run (.loadResume job))
              (List.replicate count (.call .none)) =
            some ({ world with job := some after },
              .run (.loopTop (.start job resume))) ∧
            Reconciled resume row after) ∧
      ∀ error, loadResumeState env.exportJobId world.checkpoints =
          .error error →
        (network env).solo index world (.run (.loadResume job))
          [.call .none] = some (world, .run (.caught error)) := by
  refine ⟨?_, fun resume loaded => ⟨?_, ?_⟩, fun error refused => ?_⟩
  · constructor
    · rintro ⟨resume, loaded⟩
      exact ((loadResumeState_ok_iff distinct).mp loaded).1
    · exact fun order => exists_position order distinct
  · exact ((loadResumeState_ok_iff distinct).mp loaded).2
  · obtain ⟨count, after, reconciles, reconciled⟩ :=
      @solo_reconcile env world job row index resume found
    refine ⟨count + 1, after, ?_, reconciled⟩
    rw [List.replicate_succ, solo_run rfl]
    simp only [runStep, loaded]
    exact reconciles
  · rw [solo_run rfl, Network.solo_nil]
    simp only [runStep, refused]

/-- Two batches, the second stored before the first. -/
def storedBackwards : World where
  now := 7
  records := twoRecords
  job := some
    { userId := "u"
      status := .running
      snapshotMaxId := 3
      requestedRowLimit := 2
      batchSize := 1
      updatedAt := 0 }
  checkpoints := [⟨2, 3, 1⟩, ⟨1, 1, 1⟩]

theorem resumePosition_exact_storedBackwards :
    ∃ count after, (network smallEnv).solo 0 storedBackwards
        (.run (.loadResume (newExportJob smallEnv storedBackwards "u" 2 3)))
        (List.replicate count (.call .none)) =
      some (after, .run (.loopTop
        (.start (newExportJob smallEnv storedBackwards "u" 2 3)
          ⟨3, 3, 2, 2⟩))) := by
  obtain ⟨_, loads, _⟩ := @resumePosition_exact smallEnv storedBackwards
    (newExportJob smallEnv storedBackwards "u" 2 3) _ 0 rfl (by decide)
  obtain ⟨_, count, after, reaches, _⟩ := loads ⟨3, 3, 2, 2⟩ rfl
  exact ⟨count, _, reaches⟩

end ExportVault
