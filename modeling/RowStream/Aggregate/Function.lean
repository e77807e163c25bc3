import RowStream.Aggregate.State
import RowStream.Error

/-!
# Aggregate functions

Every aggregate folds input values into its state with `iterate`, writes the state as a scalar
with `toPartial`, folds such a scalar into another state with `merge`, and ends with `finalize`.
Nulls do not count, except for `countStar`. A state of another aggregate is refused.
-/

namespace RowStream

inductive AggregateKind where
  | count
  | countStar
  | sum
  | avg
  | min
  | max
  | arbitrary
  deriving DecidableEq, Repr

namespace AggregateKind

/-- The name of an aggregate in messages. -/
def name : AggregateKind → String
  | count => "count"
  | countStar => "count(*)"
  | sum => "sum"
  | avg => "avg"
  | min => "min"
  | max => "max"
  | arbitrary => "arbitrary"

/-- The state before the first value. -/
def init : AggregateKind → AggState
  | count | countStar => .count 0
  | sum => .sum none
  | avg => .avg .zero 0
  | min | max | arbitrary => .value none

/-- The error of meeting a state of another aggregate. -/
def foreign (kind : AggregateKind) (state : AggState) : OpError :=
  .contract (.foreignState kind.name state.diagnostic)

/-- The error of meeting a scalar that is no written state. -/
def notMergeable (kind : AggregateKind) (v : Scalar) : OpError :=
  .evaluation (.notMergeable kind.name v.shown)

/-- Adds one value to a sum. -/
def addToSum (state : AggState) (v : Scalar) : Except OpError AggState :=
  match state with
  | .sum total =>
    if v.isNull then .ok state
    else
      match Total.ofScalar? v with
      | none => .error (.evaluation (.notSummable sum.name v.dataType))
      | some summand =>
        match total with
        | none => .ok (.sum (some summand))
        | some t =>
          match t.add? summand with
          | some t => .ok (.sum (some t))
          | none => .error (.evaluation .sumOutOfRange)
  | _ => .error (foreign sum state)

/-- Replaces the remembered value by one that compares to it as wanted; the first value of equal
ones stays. -/
def addToExtreme (kind : AggregateKind) (wanted : Ordering) (state : AggState) (v : Scalar) :
    Except OpError AggState :=
  match state with
  | .value best =>
    if v.isNull then .ok state
    else
      match best with
      | none => .ok (.value (some v))
      | some b => .ok (if v.order b == wanted then .value (some v) else state)
  | _ => .error (kind.foreign state)

/-- Remembers the first value that is not null. -/
def addToArbitrary (state : AggState) (v : Scalar) : Except OpError AggState :=
  match state with
  | .value none => .ok (if v.isNull then state else .value (some v))
  | .value (some _) => .ok state
  | _ => .error (foreign arbitrary state)

/-- Folds an input value into a state; an aggregate without input column has no value. -/
def iterate (kind : AggregateKind) (state : AggState) (value : Option Scalar) :
    Except OpError AggState :=
  match kind with
  | count =>
    match state with
    | .count n => .ok (if (value.getD .null).isNull then state else .count (n + 1))
    | _ => .error (kind.foreign state)
  | countStar =>
    match state with
    | .count n => .ok (.count (n + 1))
    | _ => .error (kind.foreign state)
  | sum =>
    match value with
    | some v => addToSum state v
    | none => .error (.contract (.missingInput kind.name))
  | avg =>
    match state with
    | .avg total n =>
      let v := value.getD .null
      if v.isNull then .ok state
      else
        match v.number? with
        | some x => .ok (.avg (total + x) (n + 1))
        | none => .error (.evaluation (.notSummable kind.name v.dataType))
    | _ => .error (kind.foreign state)
  | min => addToExtreme kind .lt state (value.getD .null)
  | max => addToExtreme kind .gt state (value.getD .null)
  | arbitrary => addToArbitrary state (value.getD .null)

/-- Folds a written state into a state. -/
def merge (kind : AggregateKind) (state : AggState) (v : Scalar) : Except OpError AggState :=
  match kind with
  | count | countStar =>
    match state with
    | .count n =>
      match v.integer? with
      | some m => .ok (.count (n + m))
      | none => .error (kind.notMergeable v)
    | _ => .error (kind.foreign state)
  | sum =>
    if !v.isNull && (Total.ofScalar? v).isNone then .error (kind.notMergeable v)
    else addToSum state v
  | avg =>
    match state with
    | .avg total n =>
      match v with
      | .array (s :: c :: _) =>
        match s.number?, c.integer? with
        | some x, some m => .ok (.avg (total + x) (n + m))
        | _, _ => .error (kind.notMergeable v)
      | _ => .error (kind.notMergeable v)
    | _ => .error (kind.foreign state)
  | min => addToExtreme kind .lt state v
  | max => addToExtreme kind .gt state v
  | arbitrary => addToArbitrary state v

/-- Writes a state as a scalar that `merge` understands; a foreign state is written as null. -/
def toPartial (kind : AggregateKind) (state : AggState) : Scalar :=
  match kind, state with
  | count, .count n | countStar, .count n => .int64 n
  | sum, .sum (some total) => total.toScalar
  | avg, .avg total n => .array [.float64 total, .int64 n]
  | min, .value (some v) | max, .value (some v) | arbitrary, .value (some v) => v
  | _, _ => .null

/-- The result of an aggregate. Only the average differs from the written state. -/
def finalize (kind : AggregateKind) (state : AggState) : Scalar :=
  match kind, state with
  | avg, .avg total n =>
    if 0 < n then .float64 (total / .ofInt n.toInt) else .null
  | avg, _ => .null
  | _, _ => kind.toPartial state

end AggregateKind

end RowStream
