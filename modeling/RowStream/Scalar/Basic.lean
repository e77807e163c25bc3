import RowStream.Numeric.Binary

/-!
# Scalars

A scalar is one value of a row: a null, a truth value, an integer of two widths, a
floating-point number of two widths, a text, a byte string or an array of scalars. Every scalar
carries its data type; a null has the type `undefined`.
-/

namespace RowStream

/-- The type of a scalar. -/
inductive DataType where
  | undefined
  | boolean
  | int32
  | int64
  | float32
  | float64
  | utf8
  | binary
  | array
  deriving DecidableEq, Repr

namespace DataType

/-- The name of a type in messages. -/
def name : DataType → String
  | undefined => "undefined"
  | boolean => "boolean"
  | int32 => "integer"
  | int64 => "bigint"
  | float32 => "real"
  | float64 => "double precision"
  | utf8 => "text"
  | binary => "bytea"
  | array => "array"

def isIntegral : DataType → Bool
  | int32 | int64 => true
  | _ => false

def isNumeric : DataType → Bool
  | int32 | int64 | float32 | float64 => true
  | _ => false

end DataType

/-- One value of a row. -/
inductive Scalar where
  | null
  | bool (b : Bool)
  | int32 (n : Int32)
  | int64 (n : Int64)
  | float32 (x : Binary32)
  | float64 (x : Binary64)
  | text (s : String)
  | bytes (b : List UInt8)
  | array (items : List Scalar)
  deriving Inhabited

namespace Scalar

def dataType : Scalar → DataType
  | null => .undefined
  | bool _ => .boolean
  | int32 _ => .int32
  | int64 _ => .int64
  | float32 _ => .float32
  | float64 _ => .float64
  | text _ => .utf8
  | bytes _ => .binary
  | array _ => .array

def isNull : Scalar → Bool
  | null => true
  | _ => false

/-- The value of an integer scalar of either width. -/
def integer? : Scalar → Option Int64
  | int32 n => some n.toInt64
  | int64 n => some n
  | _ => none

/-- The value of a numeric scalar in double precision, rounded where it has to be. -/
def number? : Scalar → Option Binary64
  | int32 n => some (.ofInt n.toInt)
  | int64 n => some (.ofInt n.toInt)
  | float32 x => some (.ofBinary32 x)
  | float64 x => some x
  | _ => none

def text? : Scalar → Option String
  | text s => some s
  | _ => none

/-! ## Equality

Scalars are decidably equal as data. `equal` is the equality of values: floating-point numbers
compare as numbers, so that a NaN differs from itself and the two zeros are the same. -/

mutual

/-- Equality as data: floating-point numbers are equal when their bits are. -/
def same : Scalar → Scalar → Bool
  | null, null => true
  | bool a, bool b => a == b
  | int32 a, int32 b => a == b
  | int64 a, int64 b => a == b
  | float32 a, float32 b => a == b
  | float64 a, float64 b => a == b
  | text a, text b => a == b
  | bytes a, bytes b => a == b
  | array a, array b => sameItems a b
  | _, _ => false

/-- Equality as data, item by item. -/
def sameItems : List Scalar → List Scalar → Bool
  | [], [] => true
  | a :: as, b :: bs => same a b && sameItems as bs
  | _, _ => false

end

mutual

theorem same_iff : (a b : Scalar) → (same a b = true ↔ a = b)
  | array a, b => by cases b <;> simp [same, sameItems_iff a]
  | null, b | bool _, b | int32 _, b | int64 _, b | float32 _, b | float64 _, b
  | text _, b | bytes _, b => by cases b <;> simp [same]

theorem sameItems_iff : (a b : List Scalar) → (sameItems a b = true ↔ a = b)
  | [], b => by cases b <;> simp [sameItems]
  | a :: as, b => by cases b <;> simp [sameItems, same_iff a, sameItems_iff as]

end

instance : DecidableEq Scalar := fun a b => decidable_of_iff _ (same_iff a b)

mutual

/-- Equality of values of the same type. -/
def equal : Scalar → Scalar → Bool
  | null, null => true
  | bool a, bool b => a == b
  | int32 a, int32 b => a == b
  | int64 a, int64 b => a == b
  | float32 a, float32 b => a.equals b
  | float64 a, float64 b => a.equals b
  | text a, text b => a == b
  | bytes a, bytes b => a == b
  | array a, array b => equalItems a b
  | _, _ => false

/-- Equality of values, item by item. -/
def equalItems : List Scalar → List Scalar → Bool
  | [], [] => true
  | a :: as, b :: bs => equal a b && equalItems as bs
  | _, _ => false

end

end Scalar

end RowStream
