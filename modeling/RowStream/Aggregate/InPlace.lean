import RowStream.Aggregate.Function

/-!
# Folding in place

States are updated in place, so that an update that fails leaves behind what it wrote before. The steps here
make their checks and their writes in the order in which `iterate` and `merge` are carried out.
-/

namespace RowStream

/-- A step on a state in place. -/
abbrev Updating := EStateM OpError AggState

namespace AggregateKind

/-- Adds one value to a sum in place. -/
def addToSumInPlace (v : Scalar) : Updating Unit := do
  match ← get with
  | .sum total =>
    unless v.isNull do
      match Total.ofScalar? v with
      | none => throw (.evaluation (.notSummable sum.name v.dataType))
      | some summand =>
        match total with
        | none => set (AggState.sum (some summand))
        | some t =>
          match t.add? summand with
          | some t => set (AggState.sum (some t))
          | none => throw (.evaluation .sumOutOfRange)
  | state => throw (foreign sum state)

/-- Adds to the sum and to the number of values of an average, one after the other. -/
def addToAverageInPlace (x : Binary64) (m : Int64) : Updating Unit := do
  modify fun
    | .avg total n => .avg (total + x) n
    | state => state
  modify fun
    | .avg total n => .avg total (n + m)
    | state => state

/-- Replaces the remembered value in place by one that compares to it as wanted. -/
def addToExtremeInPlace (kind : AggregateKind) (wanted : Ordering) (v : Scalar) : Updating Unit := do
  match ← get with
  | .value best =>
    unless v.isNull do
      let replace := match best with
        | some b => v.order b == wanted
        | none => true
      if replace then set (AggState.value (some v))
  | state => throw (kind.foreign state)

/-- Remembers in place the first value that is not null. -/
def addToArbitraryInPlace (v : Scalar) : Updating Unit := do
  match ← get with
  | .value slot =>
    if slot.isNone then set (AggState.value (if v.isNull then none else some v))
  | state => throw (foreign arbitrary state)

/-- Folds an input value into a state in place. -/
def iterateInPlace (kind : AggregateKind) (value : Option Scalar) : Updating Unit :=
  match kind with
  | count | countStar => do
    match ← get with
    | .count n =>
      if kind = countStar || !(value.getD .null).isNull then set (AggState.count (n + 1))
    | state => throw (kind.foreign state)
  | sum =>
    match value with
    | some v => addToSumInPlace v
    | none => throw (.contract (.missingInput kind.name))
  | avg => do
    match ← get with
    | .avg _ _ =>
      let v := value.getD .null
      unless v.isNull do
        match v.number? with
        | some x => addToAverageInPlace x 1
        | none => throw (.evaluation (.notSummable kind.name v.dataType))
    | state => throw (kind.foreign state)
  | min => addToExtremeInPlace kind .lt (value.getD .null)
  | max => addToExtremeInPlace kind .gt (value.getD .null)
  | arbitrary => addToArbitraryInPlace (value.getD .null)

/-- Folds a written state into a state in place. -/
def mergeInPlace (kind : AggregateKind) (v : Scalar) : Updating Unit :=
  match kind with
  | count | countStar => do
    match ← get with
    | .count n =>
      match v.integer? with
      | some m => set (AggState.count (n + m))
      | none => throw (kind.notMergeable v)
    | state => throw (kind.foreign state)
  | sum =>
    if !v.isNull && (Total.ofScalar? v).isNone then throw (kind.notMergeable v)
    else addToSumInPlace v
  | avg => do
    match ← get with
    | .avg _ _ =>
      match v with
      | .array (s :: c :: _) =>
        match s.number?, c.integer? with
        | some x, some m => addToAverageInPlace x m
        | _, _ => throw (kind.notMergeable v)
      | _ => throw (kind.notMergeable v)
    | state => throw (kind.foreign state)
  | min => addToExtremeInPlace kind .lt v
  | max => addToExtremeInPlace kind .gt v
  | arbitrary => addToArbitraryInPlace v

end AggregateKind

end RowStream
