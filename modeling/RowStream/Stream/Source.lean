import RowStream.Stream.Source.Channel
import RowStream.Stream.Source.Failing
import RowStream.Stream.Source.Memory

/-!
# Sources

The rows of a job come from memory, from a channel, or from a source that fails.
-/

namespace RowStream

/-- Where rows come from. -/
inductive Source where
  | memory (s : MemorySource)
  | failing (s : FailingSource)
  | channel (s : ChannelSource)

namespace Source

/-- The channel at whose end the source is, if there is one. -/
def channel? : Source → Option Channel
  | channel s => some s.channel
  | _ => none

/-- Works on the channel from the side of its producers. -/
def modifyChannel (f : Channel → Channel) : Source → Source
  | channel s => channel { s with channel := f s.channel }
  | other => other

def moveNext : Running Source Bool
  | (memory s, job) => StepResult.within memory (BatchIterator.moveNext (s, job))
  | (failing s, job) => StepResult.within failing (BatchIterator.moveNext (s, job))
  | (channel s, job) => StepResult.within channel (BatchIterator.moveNext (s, job))

def current : Source → Row
  | memory s => BatchIterator.current s
  | failing s => BatchIterator.current s
  | channel s => BatchIterator.current s

def allLoaded : Source → Bool
  | memory s => BatchIterator.allLoaded s
  | failing s => BatchIterator.allLoaded s
  | channel s => BatchIterator.allLoaded s

def load : Running Source Load
  | (memory s, job) => StepResult.within memory (BatchIterator.load (s, job))
  | (failing s, job) => StepResult.within failing (BatchIterator.load (s, job))
  | (channel s, job) => StepResult.within channel (BatchIterator.load (s, job))

def close (s : Source) (job : Job) : Source × Job :=
  match s with
  | memory s => (BatchIterator.close s job).map memory id
  | failing s => (BatchIterator.close s job).map failing id
  | channel s => (BatchIterator.close s job).map channel id

def discard (s : Source) (job : Job) : Source × Job :=
  match s with
  | memory s => (BatchIterator.discard s job).map memory id
  | failing s => (BatchIterator.discard s job).map failing id
  | channel s => (BatchIterator.discard s job).map channel id

def state : Source → IteratorState
  | memory s => BatchIterator.state s
  | failing s => BatchIterator.state s
  | channel s => BatchIterator.state s

def ready : Source → Nat
  | memory s => BatchIterator.ready s
  | failing s => BatchIterator.ready s
  | channel s => BatchIterator.ready s

def pages : Source → Nat
  | memory s => BatchIterator.pages s
  | failing s => BatchIterator.pages s
  | channel s => BatchIterator.pages s

instance : BatchIterator Source where
  moveNext := moveNext
  current := current
  allLoaded := allLoaded
  load := load
  close := close
  discard := discard
  state := state
  ready := ready
  pages := pages
  ready_of_moveNext {s t job job' b} h := by
    cases s <;>
    · obtain ⟨s', hs, rfl⟩ := StepResult.within_eq_ok h
      exact BatchIterator.ready_of_moveNext hs
  pages_of_moveNext {s t job job' b} h := by
    cases s <;>
    · obtain ⟨s', hs, rfl⟩ := StepResult.within_eq_ok h
      exact BatchIterator.pages_of_moveNext hs
  pages_of_load {s t job job'} h := by
    cases s <;>
    · obtain ⟨s', hs, rfl⟩ := StepResult.within_eq_ok h
      exact BatchIterator.pages_of_load hs

end Source

end RowStream
