import RowStream.Aggregate.InPlace
import RowStream.Scalar.Size

/-!
# Sets of aggregates

The aggregates of a stage run side by side over the same rows. In which mode they run decides
whether rows hold input values or written states, and whether results or states are emitted.
-/

namespace RowStream

/-- What aggregates consume and produce. -/
inductive AggregateMode where
  | iterFinal
  | iterPartial
  | partialFinal
  deriving DecidableEq, Repr

namespace AggregateMode

/-- Whether rows hold written states. -/
def consumesPartial : AggregateMode → Bool
  | partialFinal => true
  | _ => false

/-- Whether results are emitted. -/
def producesFinal : AggregateMode → Bool
  | iterPartial => false
  | _ => true

end AggregateMode

/-- An aggregate over a column: the first of its inputs, if it has any. -/
structure Aggregation where
  kind : AggregateKind
  inputs : List Nat
  deriving DecidableEq

namespace Aggregation

def input? (a : Aggregation) : Option Nat := a.inputs.head?

/-- What a row shows to an aggregate. -/
def value (a : Aggregation) (row : Row) : Except OpError (Option Scalar) :=
  match a.input? with
  | none => .ok none
  | some i =>
    match row[i]? with
    | some v => .ok (some v)
    | none => .error (.evaluation (.inputOutOfBounds a.kind.name i row.length))

/-- Folds a row into the state of an aggregate. -/
def absorb (a : Aggregation) (mode : AggregateMode) (row : Row) (state : AggState) :
    Except OpError AggState :=
  match a.value row with
  | .error e => .error e
  | .ok value =>
    if mode.consumesPartial then
      match value with
      | some v => a.kind.merge state v
      | none => .error (.contract (.missingPartialColumn a.kind.name))
    else a.kind.iterate state value

/-- Folds a row into the state of an aggregate in place. -/
def absorbInPlace (a : Aggregation) (mode : AggregateMode) (row : Row) : Updating Unit :=
  match a.value row with
  | .error e => throw e
  | .ok value =>
    if mode.consumesPartial then
      match value with
      | some v => a.kind.mergeInPlace v
      | none => throw (.contract (.missingPartialColumn a.kind.name))
    else a.kind.iterateInPlace value

/-- What is emitted for a state. -/
def emit (a : Aggregation) (mode : AggregateMode) (state : AggState) : Scalar :=
  if mode.producesFinal then a.kind.finalize state else a.kind.toPartial state

end Aggregation

/-- Aggregates that run side by side. -/
structure Aggregates where
  aggregations : List Aggregation
  mode : AggregateMode
  deriving DecidableEq

namespace Aggregates

def size (s : Aggregates) : Nat := s.aggregations.length

def isEmpty (s : Aggregates) : Bool := s.aggregations.isEmpty

/-- The states before the first row. -/
def init (s : Aggregates) : List AggState := s.aggregations.map (·.kind.init)

/-- Folds a row into the states of a list of aggregates in order. The first that fails ends the
round: the states before it are updated, its own is left as the failure left it, and those after it
are not touched. -/
def updateAll (mode : AggregateMode) (row : Row) :
    List Aggregation → List AggState → Except OpError Unit × List AggState
  | a :: as, s :: ss =>
    match a.absorbInPlace mode row s with
    | .error e s => (.error e, s :: ss)
    | .ok () t =>
      let (r, ts) := updateAll mode row as ss
      (r, t :: ts)
  | _, ss => (.ok (), ss)

/-- Folds a row into the states. -/
def update (s : Aggregates) (states : List AggState) (row : Row) :
    Except OpError Unit × List AggState :=
  updateAll s.mode row s.aggregations states

/-- One value per aggregate. -/
def emit (s : Aggregates) (states : List AggState) : Row :=
  List.zipWith (fun a state => a.emit s.mode state) s.aggregations states

end Aggregates

end RowStream
