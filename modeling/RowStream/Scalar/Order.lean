import RowStream.Scalar.Basic

/-!
# Grouping equality and ordering of scalars

`Scalar.sameKey` decides whether two scalars belong to one group: nulls belong together, and so
do all NaNs and the two zeros, but scalars of different types never do. `Scalar.order` compares
scalars of any types: a null comes first, numbers compare by value whatever their types, and
other values of different types compare by the rank of the type.
-/

namespace RowStream.Scalar

/-- Equality of keys among single precision numbers. -/
def sameKey32 (x y : Binary32) : Bool := (x.isNaN && y.isNaN) || x.equals y

/-- Equality of keys among double precision numbers. -/
def sameKey64 (x y : Binary64) : Bool := (x.isNaN && y.isNaN) || x.equals y

mutual

/-- Whether two scalars belong to the same group. -/
def sameKey : Scalar → Scalar → Bool
  | null, null => true
  | bool a, bool b => a == b
  | int32 a, int32 b => a == b
  | int64 a, int64 b => a == b
  | float32 a, float32 b => sameKey32 a b
  | float64 a, float64 b => sameKey64 a b
  | text a, text b => a == b
  | bytes a, bytes b => a == b
  | array a, array b => sameKeys a b
  | _, _ => false

/-- Whether two lists of scalars belong to the same group, position by position. -/
def sameKeys : List Scalar → List Scalar → Bool
  | [], [] => true
  | a :: as, b :: bs => sameKey a b && sameKeys as bs
  | _, _ => false

end

/-- The place of a type among the types. -/
def rank : Scalar → Nat
  | null => 0
  | bool _ => 1
  | int32 _ => 2
  | int64 _ => 3
  | float32 _ => 4
  | float64 _ => 5
  | text _ => 6
  | bytes _ => 7
  | array _ => 8

/-- Lexicographic order of byte strings. -/
def orderBytes : List UInt8 → List UInt8 → Ordering
  | [], [] => .eq
  | [], _ :: _ => .lt
  | _ :: _, [] => .gt
  | a :: as, b :: bs => (compare a b).then (orderBytes as bs)

/-- Integers compare exactly; where a floating-point number takes part, both sides are read in
double precision; what is not a number on one side compares by rank. -/
def orderMixed (a b : Scalar) : Ordering :=
  match a.integer?, b.integer? with
  | some m, some n => compare m.toInt n.toInt
  | _, _ =>
    match a.number?, b.number? with
    | some x, some y => x.order y
    | _, _ => compare a.rank b.rank

mutual

/-- The order of scalars. -/
def order : Scalar → Scalar → Ordering
  | null, null => .eq
  | null, _ => .lt
  | _, null => .gt
  | bool a, bool b => compare a b
  | text a, text b => compare a b
  | bytes a, bytes b => orderBytes a b
  | array a, array b => orderItems a b
  | a, b => orderMixed a b

/-- Lexicographic order of arrays. -/
def orderItems : List Scalar → List Scalar → Ordering
  | [], [] => .eq
  | [], _ :: _ => .lt
  | _ :: _, [] => .gt
  | a :: as, b :: bs => (order a b).then (orderItems as bs)

end

end RowStream.Scalar
