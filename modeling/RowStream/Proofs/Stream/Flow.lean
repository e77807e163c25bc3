import RowStream.Proofs.Collector.Trace
import RowStream.Projection

/-!
# Flows

A flow is all that a source of rows will ever hand out: its rows in order, and how they end. This
module reads every plan as a function from flows to flows, with no pages, no waiting and no memory
limit in it.

* `Flow.filter` — the rows that pass a predicate, replaced by their outputs.
* `Flow.slice` — the rows behind an offset, up to a limit. Once the limit is reached the flow has
  ended, whatever the input would still have done.
* `Flow.collect` — all rows are taken before the first comes out.
* `Projection.meaning` — what a plan makes of a flow; `Projection.meanings` folds it over the plans
  of a pipeline.
-/

namespace RowStream

/-- Rows, and the failure that comes after them if there is one. -/
structure Flow where
  rows : List Row
  failure : Option OpError

/-- The outputs of a row if it passes a predicate. They are evaluated only then. -/
def Expr.valuesIf (predicate : Expr) (outputs : List Expr) (row : Row) :
    Except EvalError (Option Row) := do
  let passes ← holds row predicate
  if passes then (values row outputs).map some else .ok none

namespace Flow

/-- No row and no failure. -/
def ended : Flow := ⟨[], none⟩

/-- No row and a failure. -/
def failed (e : OpError) : Flow := ⟨[], some e⟩

/-- A row before a flow. -/
def cons (row : Row) (f : Flow) : Flow := { f with rows := row :: f.rows }

/-- Rows before a flow. -/
def prepend (rows : List Row) (f : Flow) : Flow := { f with rows := rows ++ f.rows }

/-- The flow as the result of a run: the rows count only if no failure comes after them. -/
def result (f : Flow) : Except OpError Bucket :=
  match f.failure with
  | none => .ok (.ofList f.rows)
  | some e => .error e

theorem eq_of_result {f : Flow} {rows : List Row} (h : f.result = .ok (.ofList rows)) :
    f = ⟨rows, none⟩ := by
  obtain ⟨own, failure⟩ := f
  cases failure with
  | none =>
    injection h with h
    rw [show own = rows from congrArg Bucket.toList h]
  | some e => cases h

@[simp] theorem rows_cons (row : Row) (f : Flow) : (f.cons row).rows = row :: f.rows := rfl

@[simp] theorem failure_cons (row : Row) (f : Flow) : (f.cons row).failure = f.failure := rfl

@[simp] theorem prepend_nil (f : Flow) : f.prepend [] = f := rfl

theorem prepend_cons (row : Row) (rows : List Row) (f : Flow) :
    f.prepend (row :: rows) = (f.prepend rows).cons row := rfl

theorem prepend_prepend (rows more : List Row) (f : Flow) :
    (f.prepend more).prepend rows = f.prepend (rows ++ more) := by
  simp [prepend, List.append_assoc]

/-! ## Row by row

Operators that handle rows one by one map a flow row by row, and end it at the first error. A limit
may end it sooner, so that a failure behind the limit does not come out. -/

/-- Replaces rows or leaves them out, up to the first for which there is an error. -/
def filterMapRows (g : Row → Except EvalError (Option Row)) (failure : Option OpError) :
    List Row → Flow
  | [] => ⟨[], failure⟩
  | row :: rows =>
    match g row with
    | .error e => failed (.evaluation e)
    | .ok none => filterMapRows g failure rows
    | .ok (some out) => (filterMapRows g failure rows).cons out

/-- The outputs of the rows that pass a predicate. -/
def filter (predicate : Expr) (outputs : List Expr) (f : Flow) : Flow :=
  filterMapRows (Expr.valuesIf predicate outputs) f.failure f.rows

/-- The outputs of rows, all of which are kept. -/
def project (outputs : List Expr) (f : Flow) : Flow :=
  filterMapRows (fun row => (Expr.values row outputs).map some) f.failure f.rows

/-- The rows behind an offset, up to a limit. A limit that is reached ends the flow. -/
def slice (offset : Nat) (limit : Option Nat) (outputs : List Expr) (f : Flow) : Flow :=
  match limit with
  | none => project outputs ⟨f.rows.drop offset, f.failure⟩
  | some n =>
    let kept := (f.rows.drop offset).take n
    project outputs ⟨kept, if kept.length = n then none else f.failure⟩

theorem filter_cons (predicate : Expr) (outputs : List Expr) (row : Row) (f : Flow) :
    filter predicate outputs (f.cons row) =
      match Expr.valuesIf predicate outputs row with
      | .error e => failed (.evaluation e)
      | .ok none => filter predicate outputs f
      | .ok (some out) => (filter predicate outputs f).cons out := rfl

theorem project_cons (outputs : List Expr) (row : Row) (f : Flow) :
    project outputs (f.cons row) =
      match Expr.values row outputs with
      | .error e => failed (.evaluation e)
      | .ok out => (project outputs f).cons out := by
  unfold project
  simp only [rows_cons, failure_cons, filterMapRows]
  cases Expr.values row outputs <;> rfl

theorem slice_cons_skip (offset : Nat) (limit : Option Nat) (outputs : List Expr) (row : Row)
    (f : Flow) : slice (offset + 1) limit outputs (f.cons row) = slice offset limit outputs f := by
  cases limit <;> rfl

/-- A first row that is shown, the limit not being reached yet. -/
theorem slice_cons_show {limit : Option Nat} (hlimit : limit ≠ some 0) (outputs : List Expr)
    (row : Row) (f : Flow) :
    slice 0 limit outputs (f.cons row) =
      match Expr.values row outputs with
      | .error e => failed (.evaluation e)
      | .ok out => (slice 0 (limit.map (· - 1)) outputs f).cons out := by
  match limit with
  | none => exact project_cons outputs row ⟨f.rows, f.failure⟩
  | some 0 => exact absurd rfl hlimit
  | some (n + 1) =>
    simp only [slice, rows_cons, failure_cons, List.drop_zero, List.take_succ_cons,
      List.length_cons, Nat.add_right_cancel_iff, Option.map_some, Nat.add_sub_cancel]
    exact project_cons outputs row ⟨f.rows.take n, _⟩

/-- A limit of no rows lets nothing pass, not even a failure. -/
theorem slice_zero (offset : Nat) (outputs : List Expr) (f : Flow) :
    slice offset (some 0) outputs f = ended := rfl

theorem slice_failed {limit : Option Nat} (hlimit : limit ≠ some 0) (offset : Nat)
    (outputs : List Expr) (e : OpError) : slice offset limit outputs (failed e) = failed e := by
  match limit with
  | none => simp [slice, failed, project, filterMapRows]
  | some 0 => exact absurd rfl hlimit
  | some (n + 1) => simp [slice, failed, project, filterMapRows]

theorem slice_ended (offset : Nat) (limit : Option Nat) (outputs : List Expr) :
    slice offset limit outputs ended = ended := by
  cases limit <;> simp [slice, ended, project, filterMapRows]

end Flow

/-! ## All rows at once

A collector takes all rows of a flow before it hands out any. A failure of the flow is all that
comes out then. -/

namespace Collector

/-- Takes rows in order where memory is not limited, up to the first that fails. -/
def takeAll (c : Collector) : List Row → Except OpError Collector
  | [] => .ok c
  | row :: rows =>
    match (accumulate row).free c with
    | (.ok (), c) => takeAll c rows
    | (.error e, _) => .error e

end Collector

/-- The rows of a collector that has taken all rows of the input. -/
def Flow.collect (c : Collector) (f : Flow) : Flow :=
  match c.takeAll f.rows with
  | .error e => failed e
  | .ok c =>
    match f.failure with
    | some e => failed e
    | none =>
      match (Collector.finish.free c).1 with
      | .ok rows => ⟨rows, none⟩
      | .error e => failed e

/-! ## Plans

The meaning of a plan is that of its operator, and plans in a row compose. -/

/-- The collector of an ordered top-N: with a limit, only the rows that can come out are kept. -/
def OrderedTopNPlan.collector (footprint : Footprint) (p : OrderedTopNPlan) : Collector :=
  let order := RowOrder.ofColumns p.orderBy p.descending p.nullsFirst
  match p.limit with
  | none => .sort (.new order p.offset p.outputs footprint)
  | some limit => .top (.new order limit p.offset p.outputs footprint)

namespace Projection

/-- **What a plan makes of a flow.** -/
def meaning (footprint : Footprint) : Projection → Flow → Flow
  | filter p => Flow.filter p.predicate p.outputs
  | topN p => Flow.slice p.offset p.limit p.outputs
  | orderedTopN p => Flow.collect (p.collector footprint)
  | aggregation p => Flow.collect (.totals (.new ⟨p.aggregations, p.mode⟩))
  | group p => Flow.collect (.group (.new p.keys ⟨p.aggregations, p.mode⟩ footprint))

/-- What plans make of a flow, the first of them working on the flow itself. -/
def meanings (footprint : Footprint) (plans : List Projection) (f : Flow) : Flow :=
  plans.foldl (fun f p => p.meaning footprint f) f

end Projection

end RowStream
