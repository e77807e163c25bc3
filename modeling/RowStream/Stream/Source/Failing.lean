import RowStream.Stream.Iterator

/-!
# Failing sources

A failing source hands out rows and then fails instead of loading a page.
-/

namespace RowStream

/-- Rows before a failure. -/
structure FailingSource where
  rows : List Row
  reason : String
  current : Row
  state : IteratorState

namespace FailingSource

def new (rows : List Row) (reason : String) : FailingSource := ⟨rows, reason, [], .notStarted⟩

def moveNext : Running FailingSource Bool := fun (s, job) =>
  if s.state = .closed then .error .closed (s, job)
  else
    match s.rows with
    | row :: rows => .ok true ({ s with rows, current := row, state := .hasNext }, job)
    | [] => .ok false ({ s with current := [], state := .awaitingMoreData }, job)

def load : Running FailingSource Load := fun (s, job) =>
  if s.state = .closed then .error .closed (s, job)
  else .error (.sourceFailed s.reason) ({ s with current := [], state := .failed }, job)

def close (s : FailingSource) (job : Job) : FailingSource × Job :=
  ({ s with current := [], state := .closed }, job)

theorem ready_of_moveNext {s t : FailingSource} {job job' : Job} {b : Bool}
    (h : moveNext (s, job) = .ok b (t, job')) : t.rows.length + b.toNat ≤ s.rows.length := by
  unfold moveNext at h
  grind

theorem load_ne_ready (s t : FailingSource) (job job' : Job) :
    load (s, job) ≠ .ok .ready (t, job') := by
  unfold load
  grind

instance : BatchIterator FailingSource where
  moveNext := moveNext
  current := current
  allLoaded _ := false
  load := load
  close := close
  discard s job := (s, job)
  state := state
  ready s := s.rows.length
  pages _ := 0
  ready_of_moveNext := ready_of_moveNext
  pages_of_moveNext _ := Nat.le_refl 0
  pages_of_load h := absurd h (load_ne_ready _ _ _ _)

end FailingSource

end RowStream
