import RowStream.Scalar.Size

/-!
# Buckets

A bucket holds the rows of a result in the order in which they arrived.
-/

namespace RowStream

/-- Rows in order of arrival. -/
structure Bucket where
  rows : Array Row
  deriving DecidableEq, Inhabited

namespace Bucket

def empty : Bucket := ⟨#[]⟩

def ofList (rows : List Row) : Bucket := ⟨rows.toArray⟩

def toList (b : Bucket) : List Row := b.rows.toList

def size (b : Bucket) : Nat := b.rows.size

def isEmpty (b : Bucket) : Bool := b.rows.isEmpty

def push (b : Bucket) (row : Row) : Bucket := ⟨b.rows.push row⟩

def get? (b : Bucket) (i : Nat) : Option Row := b.rows[i]?

def filter (keep : Row → Bool) (b : Bucket) : Bucket := ⟨b.rows.filter keep⟩

/-- Equality of values, row by row. -/
def equal (a b : Bucket) : Bool :=
  a.size == b.size && (a.toList.zip b.toList).all fun (x, y) => Scalar.equalItems x y

@[simp] theorem toList_empty : empty.toList = [] := rfl

@[simp] theorem toList_ofList (rows : List Row) : (ofList rows).toList = rows := rfl

@[simp] theorem toList_push (b : Bucket) (row : Row) :
    (b.push row).toList = b.toList ++ [row] := by
  simp [push, toList]

end Bucket

end RowStream
