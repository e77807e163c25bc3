import RowStream.Collector.GroupTable
import RowStream.Collector.SortBuffer
import RowStream.Collector.TopBuffer
import RowStream.Collector.Totals

/-!
# Collectors

A collector takes all rows of its source before it hands out rows of its own. Its `size` bounds
how many these will be; taking a row adds at most one to it.
-/

namespace RowStream

/-- What takes rows until there are no more. -/
inductive Collector where
  | sort (buffer : SortBuffer)
  | top (buffer : TopBuffer)
  | totals (totals : Totals)
  | group (table : GroupTable)

namespace Collector

/-- Takes a row. -/
def accumulate (row : Row) : Metered.Op Collector Unit
  | (sort s, b) => StepResult.within sort (SortBuffer.accumulate row (s, b))
  | (top t, b) => StepResult.within top (TopBuffer.accumulate row (t, b))
  | (totals t, b) => StepResult.within totals (Totals.accumulate row (t, b))
  | (group t, b) => StepResult.within group (GroupTable.accumulate row (t, b))

/-- Hands out its rows. -/
def finish : Metered.Op Collector (List Row)
  | (sort s, b) => StepResult.within sort (SortBuffer.finish (s, b))
  | (top t, b) => StepResult.within top (TopBuffer.finish (t, b))
  | (totals t, b) => StepResult.within totals (Totals.finish (t, b))
  | (group t, b) => StepResult.within group (GroupTable.finish (t, b))

/-- Drops what it has taken and gives everything back. -/
def release (c : Collector) (b : Budget) : Collector × Budget :=
  match c with
  | sort s => (s.release b).map sort id
  | top t => (t.release b).map top id
  | totals t => (t.release b).map totals id
  | group t => (t.release b).map group id

/-- How many rows it hands out at most. -/
def size : Collector → Nat
  | sort s => s.rows.size
  | top t => t.worstFirst.length
  | totals _ => 1
  | group t => t.groups.length

theorem size_of_accumulate {row : Row} {c d : Collector} {b b' : Budget}
    (h : accumulate row (c, b) = .ok () (d, b')) : d.size ≤ c.size + 1 := by
  cases c with
  | sort s =>
    obtain ⟨t, ht, rfl⟩ := StepResult.within_eq_ok h
    exact Nat.le_of_eq (SortBuffer.size_of_accumulate ht)
  | top s =>
    obtain ⟨t, ht, rfl⟩ := StepResult.within_eq_ok h
    exact TopBuffer.length_of_accumulate ht
  | totals s =>
    obtain ⟨t, ht, rfl⟩ := StepResult.within_eq_ok h
    exact Nat.le_succ _
  | group s =>
    obtain ⟨t, ht, rfl⟩ := StepResult.within_eq_ok h
    exact GroupTable.length_of_accumulate ht

theorem length_of_finish {rows : List Row} {c d : Collector} {b b' : Budget}
    (h : finish (c, b) = .ok rows (d, b')) : rows.length ≤ c.size := by
  cases c with
  | sort s =>
    obtain ⟨t, ht, rfl⟩ := StepResult.within_eq_ok h
    exact SortBuffer.length_of_finish ht
  | top s =>
    obtain ⟨t, ht, rfl⟩ := StepResult.within_eq_ok h
    exact TopBuffer.length_of_finish ht
  | totals s =>
    obtain ⟨t, ht, rfl⟩ : ∃ t, Totals.finish (s, b) = .ok rows (t, b') ∧ d = totals t :=
      StepResult.within_eq_ok h
    exact Nat.le_of_eq (Totals.length_of_finish ht)
  | group s =>
    obtain ⟨t, ht, rfl⟩ : ∃ t, GroupTable.finish (s, b) = .ok rows (t, b') ∧ d = group t :=
      StepResult.within_eq_ok h
    exact Nat.le_of_eq (GroupTable.length_of_finish ht)

end Collector

end RowStream
