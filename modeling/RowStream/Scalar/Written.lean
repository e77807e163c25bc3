import RowStream.Numeric.Layout
import RowStream.Scalar.Basic
import RowStream.Text.Hex
import RowStream.Text.Quoted

/-!
# Written forms of scalars

`Scalar.shown` is the form that string functions and messages use. `Scalar.diagnostic` also
names the type and is used where an internal fault is reported.
-/

namespace RowStream.Scalar

/-- The word of a truth value. -/
def boolWord (b : Bool) : String := if b then "true" else "false"

/-- Texts in brackets with a comma and a blank between them. -/
def bracketed (items : List String) : String := "[" ++ String.intercalate ", " items ++ "]"

mutual

/-- The form shown to users. -/
def shown : Scalar → String
  | null => "NULL"
  | bool b => boolWord b
  | int32 n => toString n.toInt
  | int64 n => toString n.toInt
  | float32 x => x.write .shown
  | float64 x => x.write .shown
  | text s => s
  | bytes b => "\\x" ++ Text.hex b
  | array items => bracketed (shownItems items)

def shownItems : List Scalar → List String
  | [] => []
  | a :: as => shown a :: shownItems as

end

mutual

/-- The form in reports of internal faults. -/
def diagnostic : Scalar → String
  | null => "Null"
  | bool b => "Bool(" ++ boolWord b ++ ")"
  | int32 n => "I32(" ++ toString n.toInt ++ ")"
  | int64 n => "I64(" ++ toString n.toInt ++ ")"
  | float32 x => "F32(" ++ x.write .diagnostic ++ ")"
  | float64 x => "F64(" ++ x.write .diagnostic ++ ")"
  | text s => "Str(" ++ Text.quoted s ++ ")"
  | bytes b => "Bin(" ++ bracketed (b.map fun byte => toString byte.toNat) ++ ")"
  | array items => "Array(" ++ bracketed (diagnosticItems items) ++ ")"

def diagnosticItems : List Scalar → List String
  | [] => []
  | a :: as => diagnostic a :: diagnosticItems as

end

end RowStream.Scalar
