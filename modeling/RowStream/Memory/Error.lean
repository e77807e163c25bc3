import RowStream.Job.Id

/-!
# Memory errors

A request for bytes is refused either by the quota of its job or by the breaker that all jobs
share. The error carries the figures that led to the refusal.
-/

namespace RowStream

/-- A refused request for bytes. -/
inductive MemoryError where
  | circuitBreaking (breaker label : String) (requested limit used : Nat)
  | quotaExceeded (job : JobId) (label : String) (requested quota used : Nat)
  deriving DecidableEq

namespace MemoryError

def message : MemoryError → String
  | circuitBreaking breaker label requested limit used =>
    s!"circuit breaker '{breaker}' tripped for '{label}': requested {requested} bytes, limit {limit}, used {used}"
  | quotaExceeded job label requested quota used =>
    let id := job.toText
    s!"job {id} exceeded its quota for '{label}': requested {requested} bytes, quota {quota}, used {used}"

def isBreaker : MemoryError → Bool
  | circuitBreaking .. => true
  | quotaExceeded .. => false

end MemoryError

end RowStream
