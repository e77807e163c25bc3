import RowStream.Memory.Error
import RowStream.Scalar.Basic

/-!
# Errors of operators

An operator fails because memory was refused, because an expression or aggregate has no value on
a row, because its source failed, because the job was killed, because it is closed, or because a
caller broke the contract of an iterator. Each cause is data; its wording is given once, by the
`message` functions.
-/

namespace RowStream

/-- Why an expression, a key or an aggregate has no value on a row. -/
inductive EvalError where
  | columnOutOfBounds (column arity : Nat)
  | keyOutOfBounds (column arity : Nat)
  | inputOutOfBounds (function : String) (column arity : Nat)
  | notBoolean (operator : String) (type : DataType)
  | incomparable (left right : DataType)
  | wrongArgumentCount (function : String) (expected : Nat)
  | separatorNotText (type : DataType)
  | exponentNotNumber (type : DataType)
  | identifierNotText (type : DataType)
  | notSummable (function : String) (type : DataType)
  | sumOutOfRange
  | notMergeable (function : String) (shown : String)
  /-- A cause that is only known by its wording. -/
  | worded (text : String)
  deriving DecidableEq

namespace EvalError

def message : EvalError → String
  | columnOutOfBounds column arity =>
    s!"input column {column} out of bounds for row of arity {arity}"
  | keyOutOfBounds column arity =>
    s!"group key column {column} out of bounds for row of arity {arity}"
  | inputOutOfBounds function column arity =>
    s!"{function} input column {column} out of bounds for row of arity {arity}"
  | notBoolean operator type => s!"{operator} operand must be boolean, got " ++ type.name
  | incomparable left right => "cannot compare " ++ left.name ++ " with " ++ right.name
  | wrongArgumentCount function expected => s!"{function} expects {expected} argument(s)"
  | separatorNotText type => "concat_ws separator must be text, got " ++ type.name
  | exponentNotNumber type => "exp expects a number, got " ++ type.name
  | identifierNotText type => "quote_ident expects text, got " ++ type.name
  | notSummable function type => s!"{function} expects a number, got " ++ type.name
  | sumOutOfRange => "bigint out of range in sum"
  | notMergeable function shown => s!"{function} cannot merge partial state {shown}"
  | worded text => text

end EvalError

/-- How a caller broke a contract inside the engine. -/
inductive ContractError where
  /-- A row was asked from something that has failed. -/
  | pulledAfterFailure (what : String)
  | limitReached
  | allLoaded
  | missingInput (function : String)
  | missingPartialColumn (function : String)
  | foreignState (function : String) (state : String)
  /-- A cause that is only known by its wording. -/
  | worded (text : String)
  deriving DecidableEq

namespace ContractError

def message : ContractError → String
  | pulledAfterFailure what => s!"move_next on failed {what}"
  | limitReached => "limit already reached"
  | allLoaded => "all batches already loaded"
  | missingInput function => s!"{function} requires an input column"
  | missingPartialColumn function => s!"{function} has no partial state column"
  | foreignState function state => s!"{function} got foreign state {state}"
  | worded text => text

end ContractError

/-- Why an operator failed. -/
inductive OpError where
  | memory (cause : MemoryError)
  | evaluation (cause : EvalError)
  | sourceFailed (reason : String)
  | jobKilled (reason : String)
  | closed
  | contract (cause : ContractError)
  deriving DecidableEq

namespace OpError

def message : OpError → String
  | memory cause => cause.message
  | evaluation cause => "evaluation error: " ++ cause.message
  | sourceFailed reason => "upstream error: " ++ reason
  | jobKilled reason => "job killed: " ++ reason
  | closed => "iterator is closed"
  | contract cause => "internal invariant failed: " ++ cause.message

def isResourceExhaustion : OpError → Bool
  | memory _ => true
  | _ => false

def isKilled : OpError → Bool
  | jobKilled _ => true
  | _ => false

end OpError

end RowStream
