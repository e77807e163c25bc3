import RowStream.Aggregate.Set
import RowStream.Expr.Basic

/-!
# Projections

A projection is the plan of one stage: what it does with the rows of the stage before it. Plans
are data; `Projection.check` finds what makes a plan meaningless whatever the rows are.
-/

namespace RowStream

/-- The part of the data that the rows of a job stand for. -/
inductive Granularity where
  | doc
  | shard
  | node
  | cluster
  deriving DecidableEq, Repr

/-- Keeps the rows that pass a predicate. -/
structure FilterPlan where
  predicate : Expr
  outputs : List Expr
  deriving Inhabited

/-- Skips rows and keeps at most so many of the following. -/
structure TopNPlan where
  limit : Option Nat
  offset : Nat
  outputs : List Expr
  deriving Inhabited

/-- The same, of the sorted rows. -/
structure OrderedTopNPlan where
  limit : Option Nat
  offset : Nat
  outputs : List Expr
  orderBy : List Nat
  descending : List Bool
  nullsFirst : List (Option Bool)
  deriving Inhabited

/-- Aggregates all rows into one. -/
structure AggregationPlan where
  aggregations : List Aggregation
  mode : AggregateMode
  granularity : Granularity

/-- Aggregates the rows of each distinct key into one. -/
structure GroupPlan where
  keys : List Nat
  aggregations : List Aggregation
  mode : AggregateMode
  granularity : Granularity

/-- The plan of one stage. -/
inductive Projection where
  | filter (plan : FilterPlan)
  | topN (plan : TopNPlan)
  | orderedTopN (plan : OrderedTopNPlan)
  | aggregation (plan : AggregationPlan)
  | group (plan : GroupPlan)
  deriving Inhabited

/-- What makes a plan meaningless. -/
inductive PlanFault where
  | noOrderColumns
  | directionCount (columns directions : Nat)
  | nullsFirstCount (columns settings : Nat)
  | noKeyColumns
  | noInputColumn (kind : AggregateKind) (mode : AggregateMode)
  deriving DecidableEq

/-- The word for an aggregate in plans. -/
def AggregateKind.word : AggregateKind → String
  | count => "Count"
  | countStar => "CountStar"
  | sum => "Sum"
  | avg => "Avg"
  | min => "Min"
  | max => "Max"
  | arbitrary => "Arbitrary"

/-- The word for a mode in plans. -/
def AggregateMode.word : AggregateMode → String
  | iterFinal => "IterFinal"
  | iterPartial => "IterPartial"
  | partialFinal => "PartialFinal"

/-- The word for a granularity in plans. -/
def Granularity.word : Granularity → String
  | doc => "Doc"
  | shard => "Shard"
  | node => "Node"
  | cluster => "Cluster"

namespace PlanFault

def message : PlanFault → String
  | noOrderColumns => "ordered topn requires order by columns"
  | directionCount columns directions =>
    s!"ordered topn has {columns} order by columns but {directions} reverse flags"
  | nullsFirstCount columns settings =>
    s!"ordered topn has {columns} order by columns but {settings} nulls first flags"
  | noKeyColumns => "group projection requires key columns"
  | noInputColumn kind mode =>
    "aggregate " ++ kind.word ++ " in mode " ++ mode.word ++ " requires an input column"

end PlanFault

/-- Whether an aggregate reads a column in a mode. -/
def Aggregation.needsInput (a : Aggregation) (mode : AggregateMode) : Bool :=
  mode.consumesPartial || a.kind != .countStar

/-- The first aggregate that lacks a column it needs. -/
def checkAggregations (mode : AggregateMode) : List Aggregation → Except PlanFault Unit
  | [] => .ok ()
  | a :: as =>
    if a.needsInput mode && a.inputs.isEmpty then .error (.noInputColumn a.kind mode)
    else checkAggregations mode as

namespace Projection

def name : Projection → String
  | filter _ => "filter"
  | topN _ => "topn"
  | orderedTopN _ => "ordered_topn"
  | aggregation _ => "aggregation"
  | group _ => "group"

/-- Finds the first fault of a plan. -/
def check : Projection → Except PlanFault Unit
  | filter _ | topN _ => .ok ()
  | orderedTopN p =>
    if p.orderBy.isEmpty then .error .noOrderColumns
    else if p.descending.length ≠ p.orderBy.length then
      .error (.directionCount p.orderBy.length p.descending.length)
    else if p.nullsFirst.length ≠ p.orderBy.length then
      .error (.nullsFirstCount p.orderBy.length p.nullsFirst.length)
    else .ok ()
  | aggregation p => checkAggregations p.mode p.aggregations
  | group p =>
    if p.keys.isEmpty then .error .noKeyColumns else checkAggregations p.mode p.aggregations

end Projection

end RowStream
