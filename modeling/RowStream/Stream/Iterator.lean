import RowStream.Error
import RowStream.Job.KillSwitch
import RowStream.Memory.Metered
import RowStream.Scalar.Size

/-!
# Batch iterators

A batch iterator hands out rows page by page. `moveNext` steps to the next row of the loaded pages
and says whether there is one; when there is none and not all is loaded, `load` fetches the next
page or says that it has to wait. An iterator is closed once, in any state, and then holds nothing.

Every step makes an iterator smaller: a row handed out leaves fewer of them `ready`, and a page
loaded leaves fewer `pages`. So whoever pulls rows in a loop comes to an end.
-/

namespace RowStream

/-- Where an iterator stands between two steps. -/
inductive IteratorState where
  | notStarted
  | hasNext
  | exhausted
  | awaitingMoreData
  | failed
  | closed
  deriving DecidableEq, Repr

namespace IteratorState

/-- The word for a state in reports. -/
def word : IteratorState → String
  | notStarted => "NotStarted"
  | hasNext => "HasNext"
  | exhausted => "Exhausted"
  | awaitingMoreData => "AwaitingMoreData"
  | failed => "Failed"
  | closed => "Closed"

/-- Whether no step leads out of a state. -/
def isTerminal (s : IteratorState) : Bool := s == closed

/-- The state after a step that found no row. -/
def idle (allLoaded : Bool) : IteratorState := if allLoaded then exhausted else awaitingMoreData

end IteratorState

/-- How a request for a page went. -/
inductive Load where
  | ready
  | pending
  deriving DecidableEq, Repr

/-- What all parts of a running job share. -/
structure Job where
  budget : Budget
  kill : KillSwitch
  deriving DecidableEq

namespace Job

/-- A job that holds nothing and is not killed. -/
def new (budget : Budget) : Job := ⟨budget, .new⟩

/-- Gives memory back to the budget of the job. -/
def giveBack {σ : Type} (release : σ → Budget → σ × Budget) (s : σ) (job : Job) : σ × Job :=
  let (s, budget) := release s job.budget
  (s, { job with budget })

end Job

/-- Steps of a part of a running job, which may work on the job as well. -/
abbrev Running (σ : Type) := EStateM OpError (σ × Job)

namespace Running

variable {σ α : Type}

/-- Runs a computation under the budget of the job. -/
def spend (m : Metered.Op σ α) : Running σ α := fun (s, job) =>
  match m (s, job.budget) with
  | .ok a (s, budget) => .ok a (s, { job with budget })
  | .error e (s, budget) => .error e (s, { job with budget })

theorem spend_eq_ok {m : Metered.Op σ α} {a : α} {s t : σ} {job job' : Job}
    (h : spend m (s, job) = .ok a (t, job')) : m (s, job.budget) = .ok a (t, job'.budget) := by
  unfold spend at h
  simp only at h
  split at h
  · cases h
    assumption
  · cases h

end Running

/-- Something that hands out rows page by page. -/
class BatchIterator (σ : Type) where
  /-- Steps to the next row of the loaded pages, if there is one. -/
  moveNext : Running σ Bool
  /-- The row that the last step came to. -/
  current : σ → Row
  /-- Whether no page is left to load. -/
  allLoaded : σ → Bool
  /-- Fetches the next page, if it is there already. -/
  load : Running σ Load
  /-- Ends the iteration and gives back what it holds. -/
  close : σ → Job → σ × Job
  /-- Gives back what it holds without ending the iteration in order. -/
  discard : σ → Job → σ × Job
  state : σ → IteratorState
  /-- At most so many rows come before a step that finds none. -/
  ready : σ → Nat
  /-- At most so many pages can be loaded. -/
  pages : σ → Nat
  ready_of_moveNext {s t : σ} {job job' : Job} {b : Bool} :
    moveNext (s, job) = .ok b (t, job') → ready t + b.toNat ≤ ready s
  pages_of_moveNext {s t : σ} {job job' : Job} {b : Bool} :
    moveNext (s, job) = .ok b (t, job') → pages t ≤ pages s
  pages_of_load {s t : σ} {job job' : Job} :
    load (s, job) = .ok .ready (t, job') → pages t < pages s

theorem BatchIterator.ready_lt_of_moveNext {σ : Type} [BatchIterator σ] {s t : σ} {job job' : Job}
    (h : moveNext (s, job) = .ok true (t, job')) : ready t < ready s :=
  ready_of_moveNext h

end RowStream
