import Mathlib.Order.Basic
import Mathlib.Order.Lattice
import Mathlib.Order.Defs.LinearOrder
import Mathlib.Data.List.Nodup
import Mathlib.Data.List.Perm.Subperm

/-!
# Keyset pagination

Rows of a table are kept in ascending order of a key.  A `page` is the first
`limit` rows whose key lies beyond a cursor and not beyond a bound.  Nothing
here depends on what a row is.

Two facts carry the applications.  Against one fixed table the pages read from
consecutive cursors are consecutive segments of the eligible rows
(`page_cursor_take`).  Against any table, a page leaves out no row between
the cursor it starts from and the cursor it ends with (`mem_page_of_le`).
-/

namespace Keyset

universe u v

variable {Row : Type u} {Key : Type v}

/-- The key of the last row, or `floor` when there is none. -/
def cursor (key : Row → Key) (floor : Key) (rows : List Row) : Key :=
  (rows.getLast?.map key).getD floor

section Cursor

variable {key : Row → Key} {rows : List Row} {floor : Key}

@[simp]
theorem cursor_nil : cursor key floor [] = floor :=
  rfl

@[simp]
theorem cursor_concat (row : Row) :
    cursor key floor (rows ++ [row]) = key row := by
  simp [cursor]

/-- The cursor after more rows is the cursor of those rows, started from the
cursor before them. -/
theorem cursor_append (rows more : List Row) :
    cursor key floor (rows ++ more) =
      cursor key (cursor key floor rows) more := by
  rcases List.eq_nil_or_concat more with rfl | ⟨initial, last, rfl⟩
  · simp
  · rw [List.concat_eq_append, ← List.append_assoc, cursor_concat,
      cursor_concat]

theorem exists_mem_cursor (key : Row → Key) (floor : Key)
    (nonempty : rows ≠ []) :
    ∃ row ∈ rows, cursor key floor rows = key row :=
  ⟨rows.getLast nonempty, List.getLast_mem nonempty, by
    simp [cursor, List.getLast?_eq_getLast_of_ne_nil nonempty]⟩

end Cursor

variable [LinearOrder Key]

/-- The rows are in strictly ascending order of their keys. -/
def Ascending (key : Row → Key) (rows : List Row) : Prop :=
  rows.Pairwise fun earlier later => key earlier < key later

instance (key : Row → Key) (rows : List Row) :
    Decidable (Ascending key rows) :=
  inferInstanceAs (Decidable (List.Pairwise _ rows))

/-- The rows with a key beyond `floor` and not beyond `bound`. -/
def window (key : Row → Key) (rows : List Row) (floor bound : Key) :
    List Row :=
  rows.filter fun row => decide (floor < key row ∧ key row ≤ bound)

/-- The first `limit` rows of the window. -/
def page (key : Row → Key) (rows : List Row) (floor bound : Key)
    (limit : Nat) : List Row :=
  (window key rows floor bound).take limit

variable {key : Row → Key} {rows : List Row} {floor bound : Key}

@[simp]
theorem mem_window {row : Row} :
    row ∈ window key rows floor bound ↔
      row ∈ rows ∧ floor < key row ∧ key row ≤ bound := by
  simp [window]

theorem mem_of_mem_page {row : Row} {limit : Nat}
    (member : row ∈ page key rows floor bound limit) :
    row ∈ rows ∧ floor < key row ∧ key row ≤ bound :=
  mem_window.mp (List.mem_of_mem_take member)

theorem window_ascending (ascending : Ascending key rows) :
    Ascending key (window key rows floor bound) :=
  List.Pairwise.filter _ ascending

theorem page_ascending (ascending : Ascending key rows) {limit : Nat} :
    Ascending key (page key rows floor bound limit) :=
  (window_ascending ascending).sublist (List.take_sublist _ _)

theorem length_page_le {limit : Nat} :
    (page key rows floor bound limit).length ≤ limit :=
  List.length_take_le _ _

/-- A page with room for all rows is the whole window. -/
theorem page_of_length_le {limit : Nat} (room : rows.length ≤ limit) :
    page key rows floor bound limit = window key rows floor bound :=
  List.take_of_length_le (le_trans (List.length_filter_le _ _) room)

/-- In ascending rows no key lies beyond the cursor. -/
theorem le_cursor (ascending : Ascending key rows) {row : Row}
    (member : row ∈ rows) : key row ≤ cursor key floor rows := by
  rcases List.eq_nil_or_concat rows with rfl | ⟨initial, last, rfl⟩
  · exact absurd member List.not_mem_nil
  · rw [List.concat_eq_append] at member ascending ⊢
    rw [cursor_concat]
    rcases List.mem_append.mp member with inInitial | isLast
    · exact le_of_lt <|
        (List.pairwise_append.mp ascending).2.2 row inInitial last
          (List.mem_singleton.mpr rfl)
    · rw [List.mem_singleton.mp isLast]

/-- In ascending rows a key belongs to one row. -/
theorem eq_of_key_eq (ascending : Ascending key rows) {first second : Row}
    (inFirst : first ∈ rows) (inSecond : second ∈ rows)
    (same : key first = key second) : first = second := by
  have distinct : (rows.map key).Nodup :=
    List.pairwise_map.mpr (ascending.imp ne_of_lt)
  exact List.inj_on_of_nodup_map distinct inFirst inSecond same

/-! ## Pages -/

/-- A page that is not empty moves the cursor forward and not past the
bound. -/
theorem page_cursor_bounds {limit : Nat}
    (nonempty : page key rows floor bound limit ≠ []) :
    floor < cursor key floor (page key rows floor bound limit) ∧
      cursor key floor (page key rows floor bound limit) ≤ bound := by
  obtain ⟨row, member, cursorEq⟩ :=
    exists_mem_cursor key floor nonempty
  rw [cursorEq]
  exact (mem_of_mem_page member).2

/-- A page leaves out no row between the cursor it starts from and the cursor
it ends with. -/
theorem mem_page_of_le (ascending : Ascending key rows) {limit : Nat}
    {row : Row} (member : row ∈ rows) (beyond : floor < key row)
    (within : key row ≤ cursor key floor (page key rows floor bound limit)) :
    row ∈ page key rows floor bound limit := by
  have nonempty : page key rows floor bound limit ≠ [] := by
    intro empty
    rw [empty, cursor_nil] at within
    exact absurd beyond (not_lt.mpr within)
  have eligible : row ∈ window key rows floor bound :=
    mem_window.mpr ⟨member, beyond,
      le_trans within (page_cursor_bounds nonempty).2⟩
  rw [← List.take_append_drop limit (window key rows floor bound)] at eligible
  rcases List.mem_append.mp eligible with taken | dropped
  · exact taken
  · -- a row left for the next page lies beyond every row of this one
    obtain ⟨last, lastMember, cursorEq⟩ :=
      exists_mem_cursor key floor nonempty
    have split : Ascending key (window key rows floor bound) :=
      window_ascending ascending
    rw [← List.take_append_drop limit (window key rows floor bound),
      Ascending, List.pairwise_append] at split
    have later : key last < key row := split.2.2 last lastMember row dropped
    rw [cursorEq] at within
    exact absurd later (not_lt.mpr within)

/-- Raising the floor of a window drops the rows up to the new floor. -/
theorem window_raise {after : Key} (raised : floor ≤ after) :
    window key rows after bound =
      (window key rows floor bound).filter fun row =>
        decide (after < key row) := by
  unfold window
  rw [List.filter_filter]
  apply List.filter_congr
  intro row _
  by_cases beyond : after < key row
  · simp [beyond, lt_of_le_of_lt raised beyond]
  · simp [beyond]

/-- Beyond the cursor of a prefix of ascending rows lies exactly the rest. -/
theorem filter_cursor_append (floor : Key) {first second : List Row}
    (ascending : Ascending key (first ++ second))
    (positive : ∀ row ∈ second, floor < key row) :
    (first ++ second).filter (fun row =>
      decide (cursor key floor first < key row)) = second := by
  obtain ⟨firstAscending, _, across⟩ := List.pairwise_append.mp ascending
  have noneKept :
      first.filter (fun row =>
        decide (cursor key floor first < key row)) = [] := by
    apply List.filter_eq_nil_iff.mpr
    intro row member
    have bounded : key row ≤ cursor key floor first :=
      le_cursor firstAscending member
    simpa using bounded
  have allKept :
      second.filter (fun row =>
        decide (cursor key floor first < key row)) = second := by
    apply List.filter_eq_self.mpr
    intro row member
    simp only [decide_eq_true_eq]
    by_cases empty : first = []
    · rw [empty, cursor_nil]
      exact positive row member
    · obtain ⟨last, lastMember, cursorEq⟩ :=
        exists_mem_cursor key floor empty
      rw [cursorEq]
      exact across last lastMember row member
  rw [List.filter_append, noneKept, allKept, List.nil_append]

/-- Beyond the cursor of the first `count` eligible rows lie exactly the
eligible rows that remain. -/
theorem window_cursor_take (ascending : Ascending key rows) (count : Nat) :
    window key rows
        (cursor key floor ((window key rows floor bound).take count)) bound =
      (window key rows floor bound).drop count := by
  have sorted : Ascending key (window key rows floor bound) :=
    window_ascending ascending
  have positive : ∀ row ∈ window key rows floor bound, floor < key row :=
    fun row member => (mem_window.mp member).2.1
  have raised :
      floor ≤ cursor key floor ((window key rows floor bound).take count) := by
    by_cases empty : (window key rows floor bound).take count = []
    · rw [empty, cursor_nil]
    · obtain ⟨last, lastMember, cursorEq⟩ :=
        exists_mem_cursor key floor empty
      rw [cursorEq]
      exact le_of_lt (positive last (List.mem_of_mem_take lastMember))
  rw [window_raise raised]
  generalize window key rows floor bound = eligible at sorted positive
  have regrouped :
      Ascending key (eligible.take count ++ eligible.drop count) := by
    rwa [List.take_append_drop]
  have split := filter_cursor_append floor regrouped
    fun row member => positive row (List.mem_of_mem_drop member)
  rwa [List.take_append_drop] at split

/-- Against one fixed table, the page read from the cursor of the first
`count` eligible rows holds the next eligible rows. -/
theorem page_cursor_take (ascending : Ascending key rows)
    (count limit : Nat) :
    page key rows
        (cursor key floor ((window key rows floor bound).take count))
        bound limit =
      ((window key rows floor bound).drop count).take limit := by
  rw [page, window_cursor_take ascending]

/-- Beyond a page lie the rows of the window that it has left. -/
theorem length_window_beyond_page (ascending : Ascending key rows)
    (limit : Nat) :
    (window key rows
        (cursor key floor (page key rows floor bound limit)) bound).length +
      (page key rows floor bound limit).length =
        (window key rows floor bound).length := by
  rw [page, window_cursor_take ascending, List.length_drop, List.length_take]
  omega

/-- A window holds at least as many rows after a change of the table that
keeps its keys. -/
theorem length_window_le {others : List Row} (ascending : Ascending key rows)
    (kept : ∀ row ∈ rows, key row ≤ bound →
      ∃ other ∈ others, key other = key row) :
    (window key rows floor bound).length ≤
      (window key others floor bound).length := by
  have distinct : ((window key rows floor bound).map key).Nodup :=
    List.pairwise_map.mpr ((window_ascending ascending).imp ne_of_lt)
  have among : (window key rows floor bound).map key ⊆
      (window key others floor bound).map key := by
    intro value member
    obtain ⟨row, inWindow, rfl⟩ := List.mem_map.mp member
    obtain ⟨inRows, beyond, within⟩ := mem_window.mp inWindow
    obtain ⟨other, inOthers, same⟩ := kept row inRows within
    exact List.mem_map.mpr ⟨other,
      mem_window.mpr ⟨inOthers, same ▸ beyond, same ▸ within⟩, same⟩
  simpa using (distinct.subperm among).length_le

/-- Rows read from a table that changes between the reads: they ascend from
beyond `floor` up to `last`, each of them was seen in the table, and every key
in between that was kept throughout has a row. -/
structure Segment (key : Row → Key) (seen : Row → Prop) (kept : Key → Prop)
    (floor last : Key) (rows : List Row) : Prop where
  forward : floor ≤ last
  ascending : Ascending key rows
  beyond : ∀ row ∈ rows, floor < key row
  upTo : ∀ row ∈ rows, key row ≤ last
  seen : ∀ row ∈ rows, seen row
  complete : ∀ value, kept value → floor < value → value ≤ last →
    ∃ row ∈ rows, key row = value

section Segment

variable {seen : Row → Prop} {kept : Key → Prop} {middle last : Key}

theorem segment_nil : Segment key seen kept floor floor [] where
  forward := le_refl floor
  ascending := List.Pairwise.nil
  beyond _ member := absurd member List.not_mem_nil
  upTo _ member := absurd member List.not_mem_nil
  seen _ member := absurd member List.not_mem_nil
  complete _ _ beyond upTo := absurd beyond (not_lt.mpr upTo)

/-- Consecutive segments make one segment. -/
theorem Segment.append {first second : List Row}
    (early : Segment key seen kept floor middle first)
    (late : Segment key seen kept middle last second) :
    Segment key seen kept floor last (first ++ second) where
  forward := le_trans early.forward late.forward
  ascending := List.pairwise_append.mpr
    ⟨early.ascending, late.ascending, fun _ inFirst _ inSecond =>
      lt_of_le_of_lt (early.upTo _ inFirst) (late.beyond _ inSecond)⟩
  beyond row member := by
    rcases List.mem_append.mp member with inFirst | inSecond
    · exact early.beyond row inFirst
    · exact lt_of_le_of_lt early.forward (late.beyond row inSecond)
  upTo row member := by
    rcases List.mem_append.mp member with inFirst | inSecond
    · exact le_trans (early.upTo row inFirst) late.forward
    · exact late.upTo row inSecond
  seen row member := by
    rcases List.mem_append.mp member with inFirst | inSecond
    · exact early.seen row inFirst
    · exact late.seen row inSecond
  complete value keptValue above below := by
    rcases le_or_gt value middle with inFirst | inSecond
    · obtain ⟨row, member, keyEq⟩ :=
        early.complete value keptValue above inFirst
      exact ⟨row, List.mem_append_left second member, keyEq⟩
    · obtain ⟨row, member, keyEq⟩ :=
        late.complete value keptValue inSecond below
      exact ⟨row, List.mem_append_right first member, keyEq⟩

/-- A page of the table as it is now is a segment. -/
theorem segment_page (ascending : Ascending key rows) {limit : Nat}
    (nonempty : page key rows floor bound limit ≠ [])
    (allSeen : ∀ row ∈ rows, seen row)
    (keptPresent : ∀ value, kept value → ∃ row ∈ rows, key row = value) :
    Segment key seen kept floor
      (cursor key floor (page key rows floor bound limit))
      (page key rows floor bound limit) where
  forward := le_of_lt (page_cursor_bounds nonempty).1
  ascending := page_ascending ascending
  beyond row member := (mem_of_mem_page member).2.1
  upTo row member := le_cursor (page_ascending ascending) member
  seen row member := allSeen row (mem_of_mem_page member).1
  complete value keptValue above below := by
    obtain ⟨row, member, rfl⟩ := keptPresent value keptValue
    exact ⟨row, mem_page_of_le ascending member above below, rfl⟩

end Segment

end Keyset
