import RowStream.Scalar.Order
import RowStream.Scalar.Size

/-!
# Orders of rows

A row order is a list of sort keys, compared one after the other until one of them decides.
Descending keys turn the order of values around, but not the place of nulls, which each key
fixes for itself. A column that a row does not have counts as null.
-/

namespace RowStream

/-- One column to sort by. -/
structure SortKey where
  column : Nat
  descending : Bool
  nullsFirst : Bool
  deriving DecidableEq

namespace SortKey

/-- What a row shows to a key. -/
def value (key : SortKey) (row : Row) : Scalar := row[key.column]?.getD .null

/-- Where a null stands relative to a value that is not null. -/
def nullSide (key : SortKey) : Ordering := if key.nullsFirst then .lt else .gt

/-- The order of two values under a key. -/
def orderValues (key : SortKey) (a b : Scalar) : Ordering :=
  match a.isNull, b.isNull with
  | true, true => .eq
  | true, false => key.nullSide
  | false, true => key.nullSide.swap
  | false, false => if key.descending then (a.order b).swap else a.order b

def order (key : SortKey) (a b : Row) : Ordering := key.orderValues (key.value a) (key.value b)

end SortKey

/-- Sort keys, the most significant first. -/
abbrev RowOrder := List SortKey

namespace RowOrder

/-- The order given column by column. Where the place of nulls is left open, they come last
ascending and first descending. Surplus entries of a longer list are not used. -/
def ofColumns (columns : List Nat) (descending : List Bool) (nullsFirst : List (Option Bool)) :
    RowOrder :=
  ((columns.zip descending).zip nullsFirst).map fun ((column, descending), nullsFirst) =>
    ⟨column, descending, nullsFirst.getD descending⟩

/-- The lexicographic order of the keys. -/
def order : RowOrder → Row → Row → Ordering
  | [], _, _ => .eq
  | key :: keys, a, b => (key.order a b).then (order keys a b)

/-- Whether the first row may stand before the second. -/
def le (keys : RowOrder) (a b : Row) : Bool := (keys.order a b).isLE

end RowOrder

end RowStream
