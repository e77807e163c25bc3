import RowStream.Error

/-!
# Run summaries

A summary reports how a run ended and what it took.
-/

namespace RowStream

/-- How a run ended. -/
inductive Outcome where
  | completed
  | failed
  | killed
  deriving DecidableEq, Repr

namespace Outcome

def ofResult {α : Type} : Except OpError α → Outcome
  | .ok _ => completed
  | .error (.jobKilled _) => killed
  | .error _ => failed

/-- The word for an outcome in summaries. -/
def word : Outcome → String
  | completed => "completed"
  | failed => "failed"
  | killed => "killed"

end Outcome

/-- Whether a run ended because the breaker refused memory. -/
def trippedBreaker {α : Type} : Except OpError α → Bool
  | .error (.memory cause) => cause.isBreaker
  | _ => false

/-- A span of time: whole seconds and less than one more. -/
structure Elapsed where
  seconds : Nat
  nanoseconds : Nat
  nanoseconds_lt : nanoseconds < 1000000000
  deriving DecidableEq

/-- The span of so many seconds and nanoseconds, in which full seconds are carried over. -/
def Elapsed.ofParts (seconds nanoseconds : Nat) : Elapsed where
  seconds := seconds + nanoseconds / 1000000000
  nanoseconds := nanoseconds % 1000000000
  nanoseconds_lt := Nat.mod_lt _ (by decide)

/-- The report on a run. -/
structure Summary where
  job : JobId
  stages : Nat
  rows : Nat
  peakBytes : Nat
  breakerTripped : Bool
  elapsed : Elapsed
  outcome : Outcome
  deriving DecidableEq

end RowStream
