import RowStream.Scalar.Basic

/-!
# Expressions

Expressions are evaluated against one row. They have three truth values, compare scalars and
call a few functions on texts and numbers.
-/

namespace RowStream

inductive CompareOp where
  | eq
  | notEq
  | lt
  | ltEq
  | gt
  | gtEq
  deriving DecidableEq, Repr

/-- Whether a comparison with this outcome passes. -/
def CompareOp.accepts : CompareOp → Ordering → Bool
  | eq, o => o == .eq
  | notEq, o => o != .eq
  | lt, o => o == .lt
  | ltEq, o => o != .gt
  | gt, o => o == .gt
  | gtEq, o => o != .lt

inductive ScalarFunction where
  | concat
  | concatWs
  | exp
  | quoteIdent
  deriving DecidableEq, Repr

/-- The name of a function in messages. -/
def ScalarFunction.name : ScalarFunction → String
  | concat => "concat"
  | concatWs => "concat_ws"
  | exp => "exp"
  | quoteIdent => "quote_ident"

inductive Expr where
  | column (index : Nat)
  | literal (value : Scalar)
  | compare (op : CompareOp) (left right : Expr)
  | and (left right : Expr)
  | or (left right : Expr)
  | not (inner : Expr)
  | isNull (inner : Expr)
  | call (function : ScalarFunction) (args : List Expr)
  deriving Inhabited

namespace Expr

/-- The first `n` columns, as they are. -/
def identity (n : Nat) : List Expr := (List.range n).map column

/-- Whether the expressions are the columns from `first` on, as they are. -/
def isIdentityFrom (first : Nat) : List Expr → Bool
  | [] => true
  | column i :: rest => i == first && isIdentityFrom (first + 1) rest
  | _ :: _ => false

/-- Whether a list of outputs gives back the columns in order. -/
def isIdentity (outputs : List Expr) : Bool := isIdentityFrom 0 outputs

end Expr

end RowStream
