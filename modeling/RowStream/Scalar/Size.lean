import RowStream.Scalar.Basic

/-!
# Memory model of scalars and rows

A scalar counts a fixed number of bytes plus its payload, and a row a fixed header plus its
scalars. A footprint adds what the container of a buffered row or of a group takes.
-/

namespace RowStream

/-- A row: its scalars by position. -/
abbrev Row := List Scalar

namespace Scalar

/-- What every scalar counts, whatever its type. -/
def inlineBytes : Nat := 32

mutual

/-- The bytes that a scalar counts. -/
def size : Scalar → Nat
  | text s => inlineBytes + s.utf8ByteSize
  | bytes b => inlineBytes + b.length
  | array items => inlineBytes + sizes items
  | _ => inlineBytes

/-- The bytes that several scalars count together. -/
def sizes : List Scalar → Nat
  | [] => 0
  | a :: as => size a + sizes as

end

end Scalar

namespace Row

/-- What every row counts, whatever its arity. -/
def headerBytes : Nat := 24

/-- The bytes that a row counts. -/
def size (row : Row) : Nat := headerBytes + Scalar.sizes row

end Row

/-- The bytes that containers add to what they hold. -/
structure Footprint where
  bytesPerRow : Nat
  bytesPerState : Nat
  deriving DecidableEq

namespace Footprint

-- What a row or a group costs is the exact sum. It stands for a number of 64 bits as long as it is a
-- size, which is so for every footprint and row that fit into memory together, but not by definition.

/-- A row costs a header and a counter more, a group two headers. -/
def standard : Footprint := ⟨Row.headerBytes + 8, 2 * Row.headerBytes⟩

/-- The bytes to account before a row is buffered. -/
def row (f : Footprint) (r : Row) : Nat := f.bytesPerRow + Row.size r

/-- The bytes to account before a group with this key and that many aggregates is opened. -/
def group (f : Footprint) (key : Row) (aggregates : Nat) : Nat :=
  f.bytesPerState + Row.size key + aggregates * Row.headerBytes

end Footprint

end RowStream
