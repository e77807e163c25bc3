import RowStream.Expr.Outputs
import RowStream.Row.Bucket
import RowStream.Row.Order

/-!
# Sort buffers

A sort buffer takes all rows, sorts them at the end, skips some and projects the rest. Rows that
compare equal stay in the order in which they came.
-/

namespace RowStream

/-- Rows to sort. -/
structure SortBuffer where
  order : RowOrder
  offset : Nat
  footprint : Footprint
  outputs : Outputs
  scope : Scope
  rows : Bucket

namespace SortBuffer

def new (order : RowOrder) (offset : Nat) (outputs : List Expr) (footprint : Footprint) :
    SortBuffer :=
  ⟨order, offset, footprint, .new outputs "sort_output", .new "sort", .empty⟩

/-- Accounts a row and keeps it. -/
def accumulate (row : Row) : Metered.Op SortBuffer Unit := do
  let bytes ← Metered.read fun s => s.footprint.row row
  Metered.zoom scope (fun s scope => { s with scope }) (Scope.charge bytes)
  Metered.modifyState fun s => { s with rows := s.rows.push row }

/-- The rows that come out, before they are projected. -/
def sorted (s : SortBuffer) : List Row := (s.rows.toList.mergeSort s.order.le).drop s.offset

/-- Hands out the sorted rows; what was accounted for them stays so. -/
def finish : Metered.Op SortBuffer (List Row) := do
  let rows ← Metered.read sorted
  Metered.modifyState fun s => { s with rows := .empty }
  Metered.zoom outputs (fun s outputs => { s with outputs }) (Outputs.projectAll rows)

/-- Drops the rows and gives everything back. -/
def release (s : SortBuffer) (b : Budget) : SortBuffer × Budget :=
  let (outputs, b) := s.outputs.release b
  let (scope, b) := s.scope.release b
  ({ s with outputs, scope, rows := .empty }, b)

/-! ### How many rows there are -/

theorem size_of_accumulate {row : Row} {s t : SortBuffer} {b b' : Budget}
    (h : accumulate row (s, b) = .ok () (t, b')) : t.rows.size = s.rows.size + 1 := by
  obtain ⟨bytes, r, hbytes, h⟩ := Metered.bind_eq_ok.1 h
  obtain ⟨-, rfl⟩ := Metered.read_eq_ok.1 hbytes
  obtain ⟨⟨⟩, r, hcharge, h⟩ := Metered.bind_eq_ok.1 h
  obtain ⟨scope, -, hr⟩ := Metered.zoom_eq_ok.1 hcharge
  cases Metered.modifyState_eq_ok.1 h
  simp [hr, Bucket.size, Bucket.push]

theorem length_of_finish {rows : List Row} {s t : SortBuffer} {b b' : Budget}
    (h : finish (s, b) = .ok rows (t, b')) : rows.length ≤ s.rows.size := by
  obtain ⟨sorted, r, hread, h⟩ := Metered.bind_eq_ok.1 h
  obtain ⟨rfl, rfl⟩ := Metered.read_eq_ok.1 hread
  obtain ⟨-, r, -, h⟩ := Metered.bind_eq_ok.1 h
  obtain ⟨outputs, hproject, -⟩ := Metered.zoom_eq_ok.1 h
  rw [Outputs.length_of_projectAll hproject]
  simp [SortBuffer.sorted, Bucket.toList, Bucket.size, List.length_mergeSort]

end SortBuffer

end RowStream
