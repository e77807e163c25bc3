import RowStream.Proofs.Aggregate.Fold
import RowStream.Proofs.Aggregate.Summary

/-!
# Aggregates over pieces of the rows

Rows can be aggregated piece by piece: the states of the pieces are written into rows, and these are
merged by aggregates that read the columns in which the states stand.

* `Aggregation.Fits` — the rows on which an aggregate comes to its summary.
* `Aggregates.fold_rows` — the states after rows of input values.
* `Aggregates.mergers`, `Aggregates.fold_pieces` — the states after rows of written states.
* `Aggregates.Agree`, `Aggregates.agree_of_cells` — how the two compare.
-/

namespace RowStream

namespace Aggregation

/-- The value that a row shows to an aggregate, a null if it reads no column. -/
def shown (a : Aggregation) (row : Row) : Scalar :=
  match a.input? with
  | none => .null
  | some i => row[i]?.getD .null

/-- The values that rows show to an aggregate. -/
def column (a : Aggregation) (rows : List Row) : List Scalar := rows.map a.shown

/-- The rows have the column that an aggregate reads, and in it values that the aggregate takes in
whatever pieces they come. -/
structure Fits (a : Aggregation) (rows : List Row) : Prop where
  bounds : ∀ i ∈ a.input?, ∀ row ∈ rows, i < row.length
  input : a.kind = .sum → a.input? ≠ none
  accepts : a.kind.Accepts (a.column rows)

instance (a : Aggregation) (rows : List Row) : Decidable (a.Fits rows) :=
  decidable_of_iff ((∀ i ∈ a.input?, ∀ row ∈ rows, i < row.length) ∧
      (a.kind = .sum → a.input? ≠ none) ∧ a.kind.Accepts (a.column rows))
    ⟨fun h => ⟨h.1, h.2.1, h.2.2⟩, fun h => ⟨h.bounds, h.input, h.accepts⟩⟩

variable {a : Aggregation} {mode : AggregateMode} {rows : List Row} {row : Row}

theorem column_append (a : Aggregation) (xs ys : List Row) :
    a.column (xs ++ ys) = a.column xs ++ a.column ys :=
  List.map_append

theorem column_flatten (a : Aggregation) (pieces : List (List Row)) :
    a.column pieces.flatten = (pieces.map a.column).flatten :=
  List.map_flatten

theorem Fits.mono {part : List Row} (h : a.Fits rows) (hpart : part <:+: rows) :
    a.Fits part where
  bounds i hi row hrow := h.bounds i hi row (hpart.subset hrow)
  input := h.input
  accepts := h.accepts.mono (hpart.map a.shown)

/-! ## Input values

The first phase: rows with input values. A row does to the state of an aggregate what the value in
its column does, so that the state after all rows is the summary of the column. -/

/-- **One row.** -/
theorem absorb_row (hmode : mode.consumesPartial = false) (h : a.Fits (rows ++ [row])) :
    a.absorb mode row (a.kind.summary (a.column rows)) =
      .ok (a.kind.summary (a.column (rows ++ [row]))) := by
  have haccepts : a.kind.Accepts (a.column rows ++ [a.shown row]) := by
    have := h.accepts
    rwa [column_append] at this
  have hiterate := AggregateKind.iterate_summary haccepts
  have hcolumn : a.column (rows ++ [row]) = a.column rows ++ [a.shown row] := column_append _ _ _
  rw [hcolumn]
  unfold absorb value
  -- without an input column the row counts as a null; only sums could tell, and these have one
  cases hinput : a.input? with
  | none =>
    have hkind : a.kind ≠ .sum := fun hsum => h.input hsum hinput
    have hshown : a.shown row = .null := by rw [shown, hinput]
    simp only [hmode, Bool.false_eq_true, if_false, AggregateKind.iterate_none hkind]
    rw [← hshown]
    exact hiterate
  | some i =>
    have hlt := h.bounds i hinput row (List.mem_append_right _ List.mem_cons_self)
    have hget : row[i]? = some (a.shown row) := by
      simp [shown, hinput, List.getElem?_eq_getElem hlt]
    simp only [hget, hmode, Bool.false_eq_true, if_false]
    exact hiterate

/-- **All rows.** -/
theorem fold_rows (hmode : mode.consumesPartial = false) (rows : List Row) {more : List Row}
    (h : a.Fits (rows ++ more)) :
    a.fold mode (a.kind.summary (a.column rows)) more =
      .ok (a.kind.summary (a.column (rows ++ more))) := by
  induction more generalizing rows with
  | nil => rw [List.append_nil]; rfl
  | cons row more ih =>
    have hnext : rows ++ row :: more = (rows ++ [row]) ++ more := by simp
    rw [hnext] at h ⊢
    rw [fold, absorb_row hmode (h.mono (List.prefix_append _ _).isInfix)]
    exact ih _ h

/-! ## Written states

The second phase: rows with the written states of pieces. The aggregate that merges them reads one
column only, whatever else stands in the rows, and comes to what its pieces come to. -/

/-- An aggregate that reads the written states of another from a column. -/
def merger (a : Aggregation) (column : Nat) : Aggregation := ⟨a.kind, [column]⟩

/-- The state of an aggregate after rows, as it is written. -/
def written (a : Aggregation) (rows : List Row) : Scalar :=
  a.kind.toPartial (a.kind.summary (a.column rows))

theorem absorb_written {column : Nat} {v : Scalar} {state : AggState}
    (h : row[column]? = some v) :
    (a.merger column).absorb .partialFinal row state = a.kind.merge state v := by
  simp [absorb, value, input?, merger, h, AggregateMode.consumesPartial]

/-- **Written states one after the other**, each in its row. -/
theorem fold_written {column : Nat} (done : List (List Row)) {pieces : List (List Row)}
    (hrows : rows.map (·[column]?) = pieces.map fun piece => some (a.written piece))
    (h : a.kind.Accepts (a.column (done ++ pieces).flatten)) :
    (a.merger column).fold .partialFinal (a.kind.merged (done.map a.column)) rows =
      .ok (a.kind.merged ((done ++ pieces).map a.column)) := by
  -- by induction on the pieces to come, with those that were merged already in front
  induction pieces generalizing done rows with
  | nil =>
    rw [List.map_nil, List.map_eq_nil_iff] at hrows
    rw [hrows, List.append_nil]
    rfl
  | cons piece pieces ih =>
    cases rows with
    | nil => cases hrows
    | cons row rows =>
      obtain ⟨hrow, hrest⟩ := List.cons.inj hrows
      have hnext : done ++ piece :: pieces = (done ++ [piece]) ++ pieces := by simp
      rw [hnext] at h ⊢
      have haccepts : a.kind.Accepts (done.map a.column ++ [a.column piece]).flatten := by
        rw [List.flatten_append, column_append, column_flatten, List.map_append] at h
        exact h.mono (List.prefix_append _ _).isInfix
      have hstep := AggregateKind.merge_merged haccepts
      rw [fold, absorb_written hrow, written, hstep]
      have hmap : done.map a.column ++ [a.column piece] = (done ++ [piece]).map a.column := by simp
      rw [hmap]
      exact ih _ hrest h

end Aggregation

namespace Aggregates

variable {rows : List Row}

/-! ## Side by side

Both phases for all aggregates at once. The written states of a piece stand next to each other,
behind the key if there is one; the aggregates that merge them read one column each, from the first
such column on, which is the induction on the list of aggregates. -/

/-- **The states after rows** are the summaries of the columns. -/
theorem fold_rows (as : List Aggregation) {mode : AggregateMode}
    (hmode : mode.consumesPartial = false) (h : ∀ a ∈ as, a.Fits rows) :
    fold ⟨as, mode⟩ (init ⟨as, mode⟩) rows =
      .ok (as.map fun a => a.kind.summary (a.column rows)) := by
  induction as with
  | nil => exact fold_nil mode [] rows
  | cons a as ih =>
    have hfirst := Aggregation.fold_rows hmode [] (h a List.mem_cons_self)
    have hinit : a.kind.init = a.kind.summary (a.column []) := AggregateKind.init_eq_summary a.kind
    rw [List.nil_append, ← hinit] at hfirst
    exact fold_cons hfirst (ih fun b hb => h b (List.mem_cons_of_mem _ hb))

/-- Aggregates that read the written states of others, from some column on. -/
def mergers (first : Nat) (as : List Aggregation) : List Aggregation :=
  as.mapIdx fun j a => a.merger (first + j)

theorem mergers_cons (first : Nat) (a : Aggregation) (as : List Aggregation) :
    mergers first (a :: as) = a.merger first :: mergers (first + 1) as := by
  rw [mergers, List.mapIdx_cons]
  congr 1
  refine congrArg (as.mapIdx ·) ?_
  funext j b
  rw [Nat.add_right_comm, Nat.add_assoc]

/-- **The states after written states**, which stand behind other columns of the rows. -/
theorem fold_pieces {first : Nat} (as : List Aggregation) {cells : List (Row × List Row)}
    (hfirst : ∀ c ∈ cells, c.1.length = first)
    (h : ∀ a ∈ as, a.kind.Accepts (a.column (cells.map (·.2)).flatten)) :
    fold ⟨mergers first as, .partialFinal⟩ (init ⟨mergers first as, .partialFinal⟩)
        (cells.map fun c => c.1 ++ as.map (·.written c.2)) =
      .ok (as.map fun a => a.kind.merged (cells.map fun c => a.column c.2)) := by
  -- the state of the first aggregate moves over to the columns before the others
  induction as generalizing first cells with
  | nil => exact fold_nil _ _ _
  | cons a as ih =>
    let shift (c : Row × List Row) : Row × List Row := (c.1 ++ [a.written c.2], c.2)
    have hshift : ∀ c ∈ cells.map shift, c.1.length = first + 1 := fun c hc => by
      obtain ⟨d, hd, rfl⟩ := List.mem_map.1 hc
      simp [shift, hfirst d hd]
    have hpieces : (cells.map shift).map (·.2) = cells.map (·.2) := List.map_map
    have hrest := ih hshift (by
      rw [hpieces]
      exact fun b hb => h b (List.mem_cons_of_mem _ hb))
    simp only [shift, List.map_map, Function.comp_def, List.append_assoc, List.singleton_append]
      at hrest
    have hcolumn : (cells.map fun c => c.1 ++ (a :: as).map (·.written c.2)).map (·[first]?) =
        (cells.map (·.2)).map fun piece => some (a.written piece) := by
      rw [List.map_map, List.map_map]
      refine List.map_congr_left fun c hc => ?_
      simp [← hfirst c hc]
    have hmerged := Aggregation.fold_written [] hcolumn (h a List.mem_cons_self)
    have hinit : a.kind.init = a.kind.merged (([] : List (List Row)).map a.column) :=
      AggregateKind.init_eq_merged a.kind
    rw [List.nil_append, List.map_map, ← hinit] at hmerged
    rw [mergers_cons]
    exact fold_cons hmerged hrest

/-- What is emitted depends on the kinds of the aggregates. -/
theorem emit_map (as : List Aggregation) (mode : AggregateMode) (f : Aggregation → AggState) :
    emit ⟨as, mode⟩ (as.map f) = as.map fun a => a.emit mode (f a) := by
  rw [emit, List.zipWith_map_right, List.zipWith_self]

theorem emit_mergers (first : Nat) (as : List Aggregation) (f : Aggregation → AggState) :
    emit ⟨mergers first as, .partialFinal⟩ (as.map f) = as.map fun a => a.kind.finalize (f a) := by
  induction as generalizing first with
  | nil => rfl
  | cons a as ih =>
    rw [mergers_cons, List.map_cons, List.map_cons, ← ih (first + 1)]
    rfl

/-- How states that were merged from the rows of pieces compare with the states after all rows: each
as its aggregate merges the written states in its column. So the values are the same, but for
averages. -/
structure Agree (first : Nat) (as : List Aggregation) (written : List Row)
    (states whole : List AggState) : Prop where
  merges : ∀ (j : Nat) (a : Aggregation), as[j]? = some a → ∃ column state one,
    written.map (·[first + j]?) = column.map some ∧ states[j]? = some state ∧
      whole[j]? = some one ∧ a.kind.Merges column state one
  values : ∀ (j : Nat) (a : Aggregation), as[j]? = some a → a.kind ≠ .avg →
    (emit ⟨mergers first as, .partialFinal⟩ states)[j]? = (emit ⟨as, .iterFinal⟩ whole)[j]?

theorem agree_of_cells {first : Nat} (as : List Aggregation) {cells : List (Row × List Row)}
    (hfirst : ∀ c ∈ cells, c.1.length = first) (hrows : (cells.map (·.2)).flatten = rows) :
    Agree first as (cells.map fun c => c.1 ++ as.map (·.written c.2))
      (as.map fun a => a.kind.merged (cells.map fun c => a.column c.2))
      (as.map fun a => a.kind.summary (a.column rows)) := by
  have hwhole (a : Aggregation) :
      a.column rows = (cells.map fun c => a.column c.2).flatten := by
    rw [← hrows, Aggregation.column_flatten, List.map_map]
    rfl
  constructor
  · intro j a hj
    have hmerges := AggregateKind.merges_merged a.kind (cells.map fun c => a.column c.2)
    rw [← hwhole] at hmerges
    refine ⟨_, _, _, ?_, by rw [List.getElem?_map, hj]; rfl, by rw [List.getElem?_map, hj]; rfl,
      hmerges⟩
    -- the column of the states is behind those of the keys
    rw [List.map_map, List.map_map, List.map_map]
    refine List.map_congr_left fun c hc => ?_
    rw [Function.comp_apply, ← hfirst c hc, List.getElem?_append_right (Nat.le_add_right _ _),
      Nat.add_sub_cancel_left, List.getElem?_map, hj]
    rfl
  · intro j a hj hkind
    have hmerged := AggregateKind.merged_of_ne hkind (cells.map fun c => a.column c.2)
    rw [← hwhole] at hmerged
    rw [emit_mergers, emit_map, List.getElem?_map, List.getElem?_map, hj, Option.map_some, hmerged]
    rfl

end Aggregates

end RowStream
