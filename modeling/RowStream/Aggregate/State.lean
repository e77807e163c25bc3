import RowStream.Scalar.Order
import RowStream.Scalar.Written

/-!
# Aggregate states

An aggregate has a state per group, which can be written as a scalar, shipped and merged into
another state. Totals are exact as long as all summands are integers.
-/

namespace RowStream

/-- A total: exact for integers, in double precision from the first floating-point summand on. -/
inductive Total where
  | integer (n : Int64)
  | float (x : Binary64)
  deriving DecidableEq

namespace Total

def ofScalar? : Scalar → Option Total
  | .int32 n => some (integer n.toInt64)
  | .int64 n => some (integer n)
  | .float32 x => some (float (.ofBinary32 x))
  | .float64 x => some (float x)
  | _ => none

def toScalar : Total → Scalar
  | integer n => .int64 n
  | float x => .float64 x

def toBinary64 : Total → Binary64
  | integer n => .ofInt n.toInt
  | float x => x

/-- The sum of two integers, if it is one. -/
def addIntegers? (a b : Int64) : Option Int64 :=
  let sum := a.toInt + b.toInt
  if Int64.minValue.toInt ≤ sum ∧ sum ≤ Int64.maxValue.toInt then some (.ofInt sum) else none

/-- The sum of two totals, unless both are integers and their sum is out of range. -/
def add? : Total → Total → Option Total
  | integer a, integer b => (addIntegers? a b).map integer
  | a, b => some (float (a.toBinary64 + b.toBinary64))

def diagnostic : Total → String
  | integer n => "Int(" ++ toString n.toInt ++ ")"
  | float x => "Float(" ++ x.write .diagnostic ++ ")"

end Total

/-- What an aggregate remembers of the values it has seen. -/
inductive AggState where
  | count (n : Int64)
  | sum (total : Option Total)
  | avg (sum : Binary64) (count : Int64)
  | value (v : Option Scalar)
  deriving DecidableEq

namespace AggState

/-- The form of a state in reports of internal faults. -/
def diagnostic : AggState → String
  | count n => "Count(" ++ toString n.toInt ++ ")"
  | sum total => "Sum(" ++ Text.optional (total.map Total.diagnostic) ++ ")"
  | avg total n =>
    Text.record "Avg" [("sum", total.write .diagnostic), ("count", toString n.toInt)]
  | value v => "Value(" ++ Text.optional (v.map Scalar.diagnostic) ++ ")"

end AggState

end RowStream
