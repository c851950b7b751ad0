import ExportVault.System

/-!
# The snapshot boundary and inserting transactions

The rows of the `records` table come from transactions of other programs: an
insert draws its id from the `BIGSERIAL` sequence when it executes, and its row
is visible to others from the commit of its transaction on.  The order of ids
is the order of the inserts, not that of the commits.  So the boundary
`SELECT MAX(id)` shuts out every row that becomes visible later exactly when no
transaction in progress has drawn an id up to it.
-/

namespace ExportVault

open Interleaving

structure RowVersion where
  row : RawRecordRow
  transaction : Nat
  deriving DecidableEq

inductive TransactionStatus where
  | inProgress
  | committed
  | aborted
  deriving DecidableEq, Repr

/-- The heap of `records` with its sequence. -/
structure RecordsHeap where
  versions : List RowVersion
  status : Nat → TransactionStatus
  nextval : Int
  ascending : Keyset.Ascending (fun version => version.row.id) versions
  drawn : ∀ version ∈ versions,
    isBigSerial version.row.id ∧ version.row.id < nextval
  begun : 1 ≤ nextval

inductive HeapEvent where
  | insert (transaction : Nat) (row : RawRecordRow)
  | commit (transaction : Nat)
  | rollback (transaction : Nat)

namespace RecordsHeap

/-- The table as a statement of another connection sees it. -/
def visible (heap : RecordsHeap) : RecordTable where
  rows := (heap.versions.filter fun version =>
    heap.status version.transaction = .committed).map RowVersion.row
  ascending := List.pairwise_map.mpr (heap.ascending.filter _)
  drawn row member := by
    obtain ⟨version, versionMember, rfl⟩ := List.mem_map.mp member
    exact (heap.drawn version (List.mem_filter.mp versionMember).1).1

/-- An insert draws the next id, whatever id the row came with. -/
def insert (heap : RecordsHeap) (transaction : Nat) (row : RawRecordRow)
    (left : isBigSerial heap.nextval) : RecordsHeap where
  versions := heap.versions ++
    [⟨{ row with id := heap.nextval }, transaction⟩]
  status := heap.status
  nextval := heap.nextval + 1
  ascending := List.pairwise_append.mpr
    ⟨heap.ascending, List.pairwise_singleton _ _,
      fun version member new newMember => by
        rw [List.mem_singleton.mp newMember]
        exact (heap.drawn version member).2⟩
  drawn version member := by
    rcases List.mem_append.mp member with old | new
    · exact ⟨(heap.drawn version old).1,
        lt_trans (heap.drawn version old).2 (lt_add_one _)⟩
    · rw [List.mem_singleton.mp new]
      exact ⟨left, lt_add_one _⟩
  begun := le_trans heap.begun (le_of_lt (lt_add_one _))

/-- A transaction in progress ends. -/
def finish (heap : RecordsHeap) (transaction : Nat)
    (outcome : TransactionStatus) : RecordsHeap :=
  { heap with status := Function.update heap.status transaction outcome }

def step (heap : RecordsHeap) : HeapEvent → Option RecordsHeap
  | .insert transaction row =>
      if left : heap.status transaction = .inProgress ∧
          isBigSerial heap.nextval then
        some (heap.insert transaction row left.2)
      else none
  | .commit transaction =>
      if heap.status transaction = .inProgress then
        some (heap.finish transaction .committed)
      else none
  | .rollback transaction =>
      if heap.status transaction = .inProgress then
        some (heap.finish transaction .aborted)
      else none

/-- Inserting transactions in any interleaving. -/
def machine : Machine RecordsHeap HeapEvent where
  step := step

@[simp]
theorem mem_visible {heap : RecordsHeap} {row : RawRecordRow} :
    row ∈ heap.visible.rows ↔
      ∃ version ∈ heap.versions,
        heap.status version.transaction = .committed ∧ version.row = row := by
  simp [visible, and_assoc]

/-- What holds between the heap at one moment and at a later one. -/
structure Extends (before after : RecordsHeap) : Prop where
  old : ∀ version ∈ before.versions, version ∈ after.versions
  fresh : ∀ version ∈ after.versions,
    version ∈ before.versions ∨ before.nextval ≤ version.row.id
  ended : ∀ transaction, before.status transaction ≠ .inProgress →
    after.status transaction = before.status transaction
  nextval : before.nextval ≤ after.nextval

theorem Extends.refl (heap : RecordsHeap) : heap.Extends heap :=
  ⟨fun _ member => member, fun _ member => .inl member, fun _ _ => rfl,
    le_refl _⟩

theorem Extends.trans {first second third : RecordsHeap}
    (early : first.Extends second) (late : second.Extends third) :
    first.Extends third where
  old version member := late.old version (early.old version member)
  fresh version member := by
    rcases late.fresh version member with older | newer
    · exact early.fresh version older
    · exact .inr (le_trans early.nextval newer)
  ended transaction finished := by
    have same := early.ended transaction finished
    rw [late.ended transaction (by rwa [same]), same]
  nextval := le_trans early.nextval late.nextval

theorem extends_insert (heap : RecordsHeap) {transaction : Nat}
    {row : RawRecordRow} (left : isBigSerial heap.nextval) :
    heap.Extends (heap.insert transaction row left) where
  old _ member := List.mem_append_left _ member
  fresh version member := by
    rcases List.mem_append.mp member with old | new
    · exact .inl old
    · rw [List.mem_singleton.mp new]
      exact .inr (le_refl _)
  ended _ _ := rfl
  nextval := le_of_lt (lt_add_one _)

theorem extends_finish {heap : RecordsHeap} {transaction : Nat}
    {outcome : TransactionStatus}
    (inProgress : heap.status transaction = .inProgress) :
    heap.Extends (heap.finish transaction outcome) where
  old _ member := member
  fresh _ member := .inl member
  ended other finished := by
    apply Function.update_of_ne
    rintro rfl
    exact finished inProgress
  nextval := le_refl _

theorem extends_step {before after : RecordsHeap} {event : HeapEvent}
    (stepEq : before.step event = some after) : before.Extends after := by
  cases event with
  | insert transaction row =>
      simp only [step, Option.dite_none_right_eq_some,
        Option.some.injEq] at stepEq
      obtain ⟨left, rfl⟩ := stepEq
      exact extends_insert before left.2
  | commit transaction =>
      simp only [step, Option.ite_none_right_eq_some,
        Option.some.injEq] at stepEq
      obtain ⟨inProgress, rfl⟩ := stepEq
      exact extends_finish inProgress
  | rollback transaction =>
      simp only [step, Option.ite_none_right_eq_some,
        Option.some.injEq] at stepEq
      obtain ⟨inProgress, rfl⟩ := stepEq
      exact extends_finish inProgress

theorem extends_exec {before after : RecordsHeap} {events : List HeapEvent}
    (history : machine.Exec (fun _ _ => True) before events after) :
    before.Extends after :=
  history.invariant (fun _ stepEq known => known.trans (extends_step stepEq))
    (.refl before)

/-- The boundary lies below the next id. -/
theorem captureSnapshotMaxId_lt_nextval (heap : RecordsHeap) :
    captureSnapshotMaxId heap.visible < heap.nextval := by
  rw [captureSnapshotMaxId]
  cases maximum : (heap.visible.rows.map RawRecordRow.id).max? with
  | none => exact lt_of_lt_of_le zero_lt_one heap.begun
  | some value =>
      obtain ⟨row, member, rfl⟩ :=
        List.mem_map.mp (List.max?_mem maximum)
      obtain ⟨version, versionMember, _, rfl⟩ := mem_visible.mp member
      exact (heap.drawn version versionMember).2

def NoOpenIdBelow (heap : RecordsHeap) (boundary : Int) : Prop :=
  ∀ version ∈ heap.versions,
    heap.status version.transaction = .inProgress →
    boundary < version.row.id

/-- No batch bounded by the boundary ever holds a row that became visible
after this moment. -/
def ShutsOut (captured : RecordsHeap) (boundary : Int) : Prop :=
  ∀ events later, machine.Exec (fun _ _ => True) captured events later →
    ∀ row ∈ later.visible.rows, row ∉ captured.visible.rows →
      ∀ afterId limit,
        normaliseRecord row ∉
          fetchRecordBatch later.visible afterId boundary limit

theorem id_of_normaliseRecord {first second : RawRecordRow}
    (same : normaliseRecord first = normaliseRecord second) :
    first.id = second.id :=
  toString_int_injective (congrArg ExportableRow.id same)

/-- A batch reaches no further than its boundary. -/
theorem id_le_of_mem_fetchRecordBatch {table : RecordTable}
    {row : RawRecordRow} {afterId boundary limit : Int}
    (member : normaliseRecord row ∈
      fetchRecordBatch table afterId boundary limit) :
    row.id ≤ boundary := by
  obtain ⟨raw, rawMember, same⟩ := List.mem_map.mp member
  rw [← id_of_normaliseRecord same]
  exact (Keyset.mem_of_mem_page rawMember).2.2

/-- A row with an id drawn below the boundary that becomes visible later comes
from a transaction that is in progress now. -/
theorem inProgress_of_late {captured later : RecordsHeap}
    (extended : captured.Extends later) {row : RawRecordRow}
    (visibleLater : row ∈ later.visible.rows)
    (hidden : row ∉ captured.visible.rows) (low : row.id < captured.nextval) :
    ∃ version ∈ captured.versions, version.row = row ∧
      captured.status version.transaction = .inProgress := by
  obtain ⟨version, member, committed, rfl⟩ := mem_visible.mp visibleLater
  have old : version ∈ captured.versions :=
    (extended.fresh version member).resolve_right (not_le.mpr low)
  refine ⟨version, old, rfl, ?_⟩
  by_contra finished
  have same := extended.ended _ finished
  rw [committed] at same
  exact hidden (mem_visible.mpr ⟨version, old, same.symm, rfl⟩)

/-- The only row with an id is hidden while its transaction is in
progress. -/
theorem not_visible_of_inProgress {heap : RecordsHeap} {version : RowVersion}
    (member : version ∈ heap.versions)
    (inProgress : heap.status version.transaction = .inProgress) :
    version.row ∉ heap.visible.rows := by
  intro visibleNow
  obtain ⟨other, otherMember, committed, same⟩ := mem_visible.mp visibleNow
  obtain rfl : other = version :=
    Keyset.eq_of_key_eq heap.ascending otherMember member
      (congrArg RawRecordRow.id same)
  rw [inProgress] at committed
  cases committed

/-- A batch from the start with room for the whole table holds every row up
to its boundary. -/
theorem mem_fetchRecordBatch {table : RecordTable} {row : RawRecordRow}
    {boundary : Int} (member : row ∈ table.rows) (low : row.id ≤ boundary) :
    normaliseRecord row ∈
      fetchRecordBatch table 0 boundary table.rows.length := by
  refine List.mem_map_of_mem ?_
  have positive := (table.drawn row member).1
  rw [selectRecordBatch, Int.toNat_natCast,
    Keyset.page_of_length_le (le_refl _)]
  exact Keyset.mem_window.mpr ⟨member, by omega, low⟩

/-- The boundary a command captures shuts out every row that becomes visible
later if and only if no transaction in progress has drawn an id up to it. -/
theorem boundary_shutsOut_iff (captured : RecordsHeap) :
    captured.ShutsOut (captureSnapshotMaxId captured.visible) ↔
      captured.NoOpenIdBelow (captureSnapshotMaxId captured.visible) := by
  constructor
  · intro shutsOut version member inProgress
    by_contra low
    have commit : captured.step (.commit version.transaction) =
        some (captured.finish version.transaction .committed) :=
      if_pos inProgress
    have visibleLater : version.row ∈
        (captured.finish version.transaction .committed).visible.rows :=
      mem_visible.mpr ⟨version, member, Function.update_self _ _ _, rfl⟩
    exact shutsOut [.commit version.transaction] _ ⟨trivial, _, commit, rfl⟩
      version.row visibleLater (not_visible_of_inProgress member inProgress)
      0 _ (mem_fetchRecordBatch visibleLater (not_lt.mp low))
  · intro noneOpen events later history row visibleLater hidden afterId limit
      fetched
    have low := id_le_of_mem_fetchRecordBatch fetched
    obtain ⟨version, member, rfl, inProgress⟩ :=
      inProgress_of_late (extends_exec history) visibleLater hidden
        (lt_of_le_of_lt low (captureSnapshotMaxId_lt_nextval captured))
    exact absurd low (not_le.mpr (noneOpen version member inProgress))

def empty : RecordsHeap where
  versions := []
  status _ := .inProgress
  nextval := 1
  ascending := List.Pairwise.nil
  drawn _ member := absurd member List.not_mem_nil
  begun := le_refl 1

def overlappingInserts : List HeapEvent :=
  [.insert 1 (smallRecord 0), .insert 2 (smallRecord 0), .commit 2]

/-- A row that becomes visible after the capture is in a batch bounded by the
captured id. -/
theorem late_row_fetched :
    ∃ captured later,
      machine.Exec (fun _ _ => True) empty overlappingInserts captured ∧
      machine.Exec (fun _ _ => True) captured [.commit 1] later ∧
      captureSnapshotMaxId captured.visible = 2 ∧
      smallRecord 1 ∉ captured.visible.rows ∧
      fetchRecordBatch later.visible 0 2 1 =
        [normaliseRecord (smallRecord 1)] := by
  have accepted : (machine.runChecked (fun _ _ => true) empty
      overlappingInserts).any (fun captured =>
        decide (captureSnapshotMaxId captured.visible = 2) &&
          decide (smallRecord 1 ∉ captured.visible.rows) &&
          (machine.runChecked (fun _ _ => true) captured [.commit 1]).any
            fun later =>
              decide (fetchRecordBatch later.visible 0 2 1 =
                [normaliseRecord (smallRecord 1)])) = true := by
    decide +kernel
  obtain ⟨captured, before, ends⟩ := Machine.exists_of_any_runChecked accepted
  simp only [Bool.and_eq_true, decide_eq_true_eq, Option.any_eq_true] at ends
  obtain ⟨⟨boundary, hidden⟩, later, after, fetched⟩ := ends
  exact ⟨captured, later,
    Machine.exec_of_runChecked (fun _ => True) (fun _ _ => trivial)
      (fun _ _ _ => trivial) trivial before,
    Machine.exec_of_runChecked (fun _ => True) (fun _ _ => trivial)
      (fun _ _ _ => trivial) trivial after, boundary, hidden, fetched⟩

end RecordsHeap

end ExportVault
