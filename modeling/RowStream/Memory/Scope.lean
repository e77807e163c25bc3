import RowStream.Memory.Metered

/-!
# Scopes

A scope is one labelled holding of a job. `Scope.add` asks the quota of the account first and the
breaker second, and either changes the counters of all three or none of them. What a scope holds is the exact
sum of what it was granted, and stands for a counter of 64 bits as long as that sum is a size. It always
is where a counter of the budget is exact, as no such counter is below it.
-/

namespace RowStream

/-- A labelled holding of bytes. -/
structure Scope where
  label : String
  held : Nat
  deriving DecidableEq

namespace Scope

/-- A scope that holds nothing yet. -/
def new (label : String) : Scope := ⟨label, 0⟩

/-- Asks for more bytes. When the breaker refuses, the account gives back what it counted. -/
def add (bytes : Nat) : Metered MemoryError Scope Unit := fun (s, b) =>
  if bytes = 0 then .ok () (s, b)
  else
    match b.account.reserve s.label bytes with
    | .error e => .error e (s, b)
    | .ok account =>
      match b.breaker.acquire? bytes with
      | some breaker => .ok () ({ s with held := s.held + bytes }, ⟨breaker, account⟩)
      | none =>
        .error (.circuitBreaking b.breaker.name s.label bytes b.breaker.limit b.breaker.used)
          (s, ⟨b.breaker.trip, account.release bytes⟩)

/-- Asks for more bytes, a refusal being an error of the operator. -/
def charge (bytes : Nat) : Metered.Op Scope Unit := Metered.mapError .memory (add bytes)

/-- Gives bytes back, but never more than the scope holds. -/
def sub (s : Scope) (bytes : Nat) (b : Budget) : Scope × Budget :=
  let released := min bytes s.held
  ({ s with held := s.held - released }, ⟨b.breaker.release released, b.account.release released⟩)

/-- Gives everything back. -/
def release (s : Scope) (b : Budget) : Scope × Budget := s.sub s.held b

end Scope

end RowStream
