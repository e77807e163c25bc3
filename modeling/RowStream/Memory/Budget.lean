import RowStream.Memory.Error

/-!
# Breakers and accounts

Bytes are counted by a `Breaker`, for all jobs together and with a hard limit, and by an `Account`
for each job, which may have a quota. Counters of bytes stay below `2 ^ 64`: a sum that does not
fit counts as the greatest number that does, and a counter that gives back more than it counts, as
it may after such a sum, goes round. The total of an account without a quota is the exception. It is
kept as the exact sum, so that it stands for a counter of 64 bits only as long as no sum is beyond the
sizes; what is said of such totals asks for that.
-/

namespace RowStream

/-- The greatest size. -/
def maxSize : Nat := UInt64.size - 1

/-- The sum of two sizes, or the greatest size if it does not fit. -/
def addSizes (a b : Nat) : Nat := min (a + b) maxSize

/-- The difference of two sizes, counted round from `2 ^ 64` if the second is the greater. -/
def subSizes (a b : Nat) : Nat := if b ≤ a then a - b else a + UInt64.size - b

theorem subSizes_of_le {a b : Nat} (h : b ≤ a) : subSizes a b = a - b := if_pos h

/-- The byte counter that all jobs share. The count of its refusals has no greatest value: one of 64 bits
would go round after `2 ^ 64` of them, which no run comes to. -/
structure Breaker where
  name : String
  limit : Nat
  used : Nat
  peak : Nat
  trips : Nat
  deriving DecidableEq

namespace Breaker

def new (name : String) (limit : Nat) : Breaker := ⟨name, limit, 0, 0, 0⟩

def unlimited (name : String) : Breaker := new name maxSize

/-- Counts more bytes if they stay within the limit. -/
def acquire? (b : Breaker) (bytes : Nat) : Option Breaker :=
  let next := addSizes b.used bytes
  if next ≤ b.limit then some { b with used := next, peak := max b.peak next } else none

def release (b : Breaker) (bytes : Nat) : Breaker := { b with used := subSizes b.used bytes }

/-- Notes a refusal. -/
def trip (b : Breaker) : Breaker := { b with trips := b.trips + 1 }

end Breaker

/-- The byte counter of one job. -/
structure Account where
  job : JobId
  quota : Option Nat
  used : Nat
  peak : Nat
  deriving DecidableEq

namespace Account

def new (job : JobId) (quota : Option Nat) : Account := ⟨job, quota, 0, 0⟩

/-- What the account would count with more bytes. A quota has the sum cut off at the greatest size;
without one it is the exact sum, which stands for the counter as long as it is a size. -/
def next (a : Account) (bytes : Nat) : Nat :=
  if a.quota.isSome then addSizes a.used bytes else a.used + bytes

/-- Counts more bytes if they stay within the quota. The peak takes note at once, also of bytes
that the breaker goes on to refuse. -/
def reserve (a : Account) (label : String) (bytes : Nat) : Except MemoryError Account :=
  match a.quota with
  | some quota =>
    if a.next bytes ≤ quota then
      .ok { a with used := a.next bytes, peak := max a.peak (a.next bytes) }
    else .error (.quotaExceeded a.job label bytes quota a.used)
  | none => .ok { a with used := a.next bytes, peak := max a.peak (a.next bytes) }

def release (a : Account) (bytes : Nat) : Account := { a with used := subSizes a.used bytes }

end Account

/-- The counters that a job's requests go through. -/
structure Budget where
  breaker : Breaker
  account : Account
  deriving DecidableEq

end RowStream
