import RowStream.Expr.Basic
import RowStream.Expr.Identifier
import RowStream.Memory.Scratch
import RowStream.Scalar.Order
import RowStream.Scalar.Size
import RowStream.Scalar.Written

/-!
# Evaluation of expressions

Logic has three values: a comparison with a null is null, `AND` and `OR` do not look at the right
operand when the left one decides, and only `true` passes a predicate. Functions evaluate all
arguments first and then build texts in the scratch buffer of the evaluator, which is all the
state that an evaluation has.
-/

namespace RowStream

namespace Scalar

/-- A scalar as a truth value, `none` standing for unknown. -/
def truth (operator : String) : Scalar → Except EvalError (Option Bool)
  | null => .ok none
  | bool b => .ok (some b)
  | v => .error (.notBoolean operator v.dataType)

/-- A truth value as a scalar. -/
def ofTruth : Option Bool → Scalar
  | none => null
  | some b => bool b

/-- Comparison under an operator. Scalars that are not null must be of one type or both numbers. -/
def compareBy (op : CompareOp) (a b : Scalar) : Except EvalError Scalar :=
  if a.isNull || b.isNull then .ok null
  else if a.dataType ≠ b.dataType ∧ ¬(a.dataType.isNumeric ∧ b.dataType.isNumeric) then
    .error (.incomparable a.dataType b.dataType)
  else .ok (bool (op.accepts (a.order b)))

end Scalar

/-- Conjunction of truth values. -/
def truthAnd : Option Bool → Option Bool → Option Bool
  | some false, _ | _, some false => some false
  | some true, some true => some true
  | _, _ => none

/-- Disjunction of truth values. -/
def truthOr : Option Bool → Option Bool → Option Bool
  | some true, _ | _, some true => some true
  | some false, some false => some false
  | _, _ => none

namespace Scratch

/-- Fails with an evaluation error or goes on. -/
def liftEval {α : Type} (r : Except EvalError α) : Metered.Op Scratch α := fun s =>
  match r with
  | .ok a => .ok a s
  | .error e => .error (.evaluation e) s

/-- Appends a text, a refusal being an error of the operator. -/
def append (t : String) : Metered.Op Scratch Unit := Metered.mapError .memory (push t)

/-- Appends a character, a refusal being an error of the operator. -/
def appendChar (c : Char) : Metered.Op Scratch Unit := Metered.mapError .memory (pushChar c)

def appendAll : List String → Metered.Op Scratch Unit
  | [] => pure ()
  | t :: ts => do
    append t
    appendAll ts

def appendChars : List Char → Metered.Op Scratch Unit
  | [] => pure ()
  | c :: cs => do
    appendChar c
    appendChars cs

end Scratch

namespace ScalarFunction

/-- The texts that are appended one after the other to join values: nulls are left out, and a
separator stands before every value but the first. -/
def joinPieces (separator : String) (values : List Scalar) : List String :=
  match values.filter (!·.isNull) with
  | [] => []
  | v :: rest => v.shown :: rest.flatMap fun v => [separator, v.shown]

/-- Joins the shown forms of the values. -/
def join (separator : String) (values : List Scalar) : Metered.Op Scratch Scalar := do
  Metered.modifyState Scratch.clear
  Scratch.appendAll (joinPieces separator values)
  Metered.read fun s => .text s.text

/-- Writes a name as an identifier. A plain name does not need the buffer. -/
def quoteIdentifier (name : String) : Metered.Op Scratch Scalar := do
  if Identifier.isPlain name then pure (.text name)
  else
    Metered.modifyState Scratch.clear
    Scratch.appendChars (Identifier.quotedChars name)
    Metered.read fun s => .text s.text

/-- Applies a function to its arguments. -/
def apply (f : ScalarFunction) (args : List Scalar) : Metered.Op Scratch Scalar :=
  match f, args with
  | concat, values => join "" values
  | concatWs, [] => Scratch.liftEval (.error (.wrongArgumentCount f.name 1))
  | concatWs, .null :: _ => pure .null
  | concatWs, .text separator :: values => join separator values
  | concatWs, other :: _ => Scratch.liftEval (.error (.separatorNotText other.dataType))
  | exp, [.null] => pure .null
  | exp, [v] =>
    match v.number? with
    | some x => pure (.float64 x.exp)
    | none => Scratch.liftEval (.error (.exponentNotNumber v.dataType))
  | exp, _ => Scratch.liftEval (.error (.wrongArgumentCount f.name 1))
  | quoteIdent, [.null] => pure .null
  | quoteIdent, [.text name] => quoteIdentifier name
  | quoteIdent, [v] => Scratch.liftEval (.error (.identifierNotText v.dataType))
  | quoteIdent, _ => Scratch.liftEval (.error (.wrongArgumentCount f.name 1))

end ScalarFunction

namespace Expr

mutual

/-- The value of an expression on a row. -/
def eval (row : Row) : Expr → Metered.Op Scratch Scalar
  | column i =>
    match row[i]? with
    | some v => pure v
    | none => Scratch.liftEval (.error (.columnOutOfBounds i row.length))
  | literal v => pure v
  | compare op l r => do
    let a ← eval row l
    let b ← eval row r
    Scratch.liftEval (a.compareBy op b)
  | and l r => do
    let a ← Scratch.liftEval ((← eval row l).truth "AND")
    if a = some false then pure (.bool false)
    else
      let b ← Scratch.liftEval ((← eval row r).truth "AND")
      pure (.ofTruth (truthAnd a b))
  | or l r => do
    let a ← Scratch.liftEval ((← eval row l).truth "OR")
    if a = some true then pure (.bool true)
    else
      let b ← Scratch.liftEval ((← eval row r).truth "OR")
      pure (.ofTruth (truthOr a b))
  | not e => do
    let a ← Scratch.liftEval ((← eval row e).truth "NOT")
    pure (.ofTruth (a.map Bool.not))
  | isNull e => do
    let a ← eval row e
    pure (.bool a.isNull)
  | call f args => do
    let values ← evalAll row args
    f.apply values

/-- The values of expressions, up to the first that fails. -/
def evalAll (row : Row) : List Expr → Metered.Op Scratch (List Scalar)
  | [] => pure []
  | e :: es => do
    let v ← eval row e
    let vs ← evalAll row es
    pure (v :: vs)

end

/-- Whether a row passes a predicate: unknown does not pass. -/
def passes (row : Row) (predicate : Expr) : Metered.Op Scratch Bool := do
  let v ← eval row predicate
  let truth ← Scratch.liftEval (v.truth "WHERE")
  pure (truth == some true)

end Expr

end RowStream
