import RowStream.Expr.Outputs
import RowStream.Row.Order

/-!
# Top buffers

A top buffer keeps only the rows that can still come out of a sort with an offset and a limit: the
first `offset + limit` of those seen so far. Rows are numbered as they come, and of rows that compare
equal the one with the lesser number comes first, so that the result is the same as that of sorting all
rows. Each kept row has the bytes beside it that were accounted for it, which are given back when it has
to go.

The kept rows are in a list, in order. What matters of it are the worst entry, the insertion of one and
the sequence from the first to the last, as of a heap.
-/

namespace RowStream

/-- A kept row, with the number of its arrival and the bytes that were accounted for it. -/
structure HeapEntry where
  row : Row
  seq : Nat
  bytes : Nat

/-- Compares rows, and the numbers of rows that compare equal. -/
def HeapEntry.compare (order : RowOrder) (a b : HeapEntry) : Ordering :=
  (order.order a.row b.row).then (Ord.compare a.seq b.seq)

/-- The first rows of a sort. -/
structure TopBuffer where
  order : RowOrder
  limit : Nat
  offset : Nat
  footprint : Footprint
  outputs : Outputs
  scope : Scope
  /-- The kept rows, the last one in front. -/
  worstFirst : List HeapEntry
  /-- How many rows have come so far, kept or not. The number has no greatest value; one of 64 bits would
  go round after `2 ^ 64` rows. -/
  seq : Nat

namespace TopBuffer

def new (order : RowOrder) (limit offset : Nat) (outputs : List Expr) (footprint : Footprint) :
    TopBuffer :=
  ⟨order, limit, offset, footprint, .new outputs "sort_topn_output", .new "sort_topn", [], 0⟩

/-- The greatest number of rows to keep. -/
def capacity (t : TopBuffer) : Nat := addSizes t.limit t.offset

def isFull (t : TopBuffer) : Bool := t.capacity ≤ t.worstFirst.length

/-- Whether a row that comes now is kept: there is room, or it stands before the worst row. Its number
is the greatest so far, so that rows alone decide. -/
def admits (t : TopBuffer) (row : Row) : Bool :=
  !t.isFull ||
    match t.worstFirst with
    | [] => false
    | worst :: _ => t.order.order worst.row row == .gt

/-- Puts an entry behind those it does not stand before, the list having its last entry in front. -/
def insert (order : RowOrder) (entry : HeapEntry) : List HeapEntry → List HeapEntry
  | [] => [entry]
  | worst :: rest =>
    if worst.compare order entry = .gt then worst :: insert order entry rest
    else entry :: worst :: rest

/-- Drops the worst row and gives back what was accounted for it. -/
def evict (t : TopBuffer) (b : Budget) : TopBuffer × Budget :=
  match t.worstFirst with
  | [] => (t, b)
  | worst :: rest =>
    let (scope, b) := t.scope.sub worst.bytes b
    ({ t with scope, worstFirst := rest }, b)

/-- Puts an accounted entry in its place, for which the worst row may have to go. -/
def place (entry : HeapEntry) (t : TopBuffer) (b : Budget) : TopBuffer × Budget :=
  let (t, b) := if t.isFull then t.evict b else (t, b)
  ({ t with worstFirst := insert t.order entry t.worstFirst }, b)

/-- Numbers a row, and accounts and keeps it, if it is to be kept. -/
def accumulate (row : Row) : Metered.Op TopBuffer Unit := do
  let seq ← Metered.read TopBuffer.seq
  Metered.modifyState fun t => { t with seq := t.seq + 1 }
  if ← Metered.read fun t => t.admits row then
    let bytes ← Metered.read fun t => t.footprint.row row
    Metered.zoom scope (fun t scope => { t with scope }) (Scope.charge bytes)
    Metered.update (place ⟨row, seq, bytes⟩)

/-- The kept rows, the last one in front. -/
def rows (t : TopBuffer) : List Row := t.worstFirst.map (·.row)

/-- The rows that come out, before they are projected. -/
def leading (t : TopBuffer) : List Row := (t.rows.reverse.drop t.offset).take t.limit

/-- Hands out the kept rows; what was accounted for them stays so. -/
def finish : Metered.Op TopBuffer (List Row) := do
  let rows ← Metered.read leading
  Metered.modifyState fun t => { t with worstFirst := [] }
  Metered.zoom outputs (fun t outputs => { t with outputs }) (Outputs.projectAll rows)

/-- Drops the rows and gives everything back. -/
def release (t : TopBuffer) (b : Budget) : TopBuffer × Budget :=
  let (outputs, b) := t.outputs.release b
  let (scope, b) := t.scope.release b
  ({ t with outputs, scope, worstFirst := [] }, b)

/-! ### How many rows there are -/

theorem length_insert (order : RowOrder) (entry : HeapEntry) (entries : List HeapEntry) :
    (insert order entry entries).length = entries.length + 1 := by
  induction entries with
  | nil => rfl
  | cons worst rest ih =>
    unfold insert
    split <;> simp [ih]

theorem length_evict_le (t : TopBuffer) (b : Budget) :
    (t.evict b).1.worstFirst.length ≤ t.worstFirst.length := by
  unfold evict
  split <;> simp [*]

theorem length_place_le (entry : HeapEntry) (t : TopBuffer) (b : Budget) :
    (place entry t b).1.worstFirst.length ≤ t.worstFirst.length + 1 := by
  unfold place
  split
  · rename_i heq
    split at heq
    · have := length_evict_le t b
      simp_all [length_insert]
    · cases heq
      simp [length_insert]

theorem length_of_accumulate {row : Row} {t u : TopBuffer} {b b' : Budget}
    (h : accumulate row (t, b) = .ok () (u, b')) :
    u.worstFirst.length ≤ t.worstFirst.length + 1 := by
  obtain ⟨seq, r, hseq, h⟩ := Metered.bind_eq_ok.1 h
  obtain ⟨-, rfl⟩ := Metered.read_eq_ok.1 hseq
  obtain ⟨⟨⟩, r, hnumbered, h⟩ := Metered.bind_eq_ok.1 h
  obtain rfl := Metered.modifyState_eq_ok.1 hnumbered
  obtain ⟨admitted, r, hread, h⟩ := Metered.bind_eq_ok.1 h
  obtain ⟨rfl, rfl⟩ := Metered.read_eq_ok.1 hread
  split at h
  · obtain ⟨bytes, r, hbytes, h⟩ := Metered.bind_eq_ok.1 h
    obtain ⟨-, rfl⟩ := Metered.read_eq_ok.1 hbytes
    obtain ⟨⟨⟩, r, hcharge, h⟩ := Metered.bind_eq_ok.1 h
    obtain ⟨scope, -, hr⟩ := Metered.zoom_eq_ok.1 hcharge
    have hu := congrArg Prod.fst (Metered.update_eq_ok.1 h)
    have := length_place_le ⟨row, seq, bytes⟩ r.1 r.2
    simp_all
  · obtain ⟨-, hp⟩ := Metered.pure_eq_ok.1 h
    cases hp
    exact Nat.le_succ _

theorem length_of_finish {rows : List Row} {t u : TopBuffer} {b b' : Budget}
    (h : finish (t, b) = .ok rows (u, b')) : rows.length ≤ t.worstFirst.length := by
  obtain ⟨leading, r, hread, h⟩ := Metered.bind_eq_ok.1 h
  obtain ⟨rfl, rfl⟩ := Metered.read_eq_ok.1 hread
  obtain ⟨-, r, -, h⟩ := Metered.bind_eq_ok.1 h
  obtain ⟨outputs, hproject, -⟩ := Metered.zoom_eq_ok.1 h
  rw [Outputs.length_of_projectAll hproject]
  simp only [TopBuffer.leading, TopBuffer.rows, List.length_take, List.length_drop, List.length_reverse,
    List.length_map]
  omega

end TopBuffer

end RowStream
