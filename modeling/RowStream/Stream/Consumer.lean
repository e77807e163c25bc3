import RowStream.Memory.Scope
import RowStream.Row.Bucket
import RowStream.Stream.Iterator

/-!
# Consumers

A consumer takes the rows that come out of a chain. A `ResultSet` accounts every row and keeps it;
a `Recorder` keeps rows without accounting them and can kill the job when it has seen enough.
-/

namespace RowStream

/-- Something that takes rows. -/
class RowConsumer (κ : Type) where
  /-- Takes a row, or fails and leaves it. -/
  accept : Row → Running κ Unit
  /-- The rows taken so far. -/
  rows : κ → Bucket
  /-- Gives everything back. -/
  release : κ → Job → κ × Job

/-- Rows that are accounted one by one. -/
structure ResultSet where
  footprint : Footprint
  scope : Scope
  bucket : Bucket

namespace ResultSet

def new : ResultSet := ⟨.standard, .new "result", .empty⟩

/-- Accounts a row and keeps it. -/
def add (row : Row) : Metered.Op ResultSet Unit := do
  let bytes ← Metered.read fun r => r.footprint.row row
  Metered.zoom scope (fun r scope => { r with scope }) (Scope.charge bytes)
  Metered.modifyState fun r => { r with bucket := r.bucket.push row }

def release (r : ResultSet) (b : Budget) : ResultSet × Budget :=
  let (scope, b) := r.scope.release b
  ({ r with scope }, b)

instance : RowConsumer ResultSet where
  accept row := Running.spend (add row)
  rows := bucket
  release r job := job.giveBack release r

end ResultSet

/-- Rows that are kept without being accounted. -/
structure Recorder where
  bucket : Bucket
  /-- After so many rows the job is killed, for the given reason. -/
  killAfter : Option (Nat × String)

namespace Recorder

/-- A recorder that takes all rows. -/
def new : Recorder := ⟨.empty, none⟩

def accept (row : Row) : Running Recorder Unit := fun (r, job) =>
  let bucket := r.bucket.push row
  let kill := match r.killAfter with
    | some (count, reason) => if bucket.size = count then job.kill.kill reason else job.kill
    | none => job.kill
  .ok () ({ r with bucket }, { job with kill })

instance : RowConsumer Recorder where
  accept := accept
  rows := bucket
  release r job := (r, job)

end Recorder

end RowStream
