import RowStream.Stream.Iterator

/-!
# Counted sources

A counted source is a source that keeps count of the rows, pages and closes that were asked of it.
-/

namespace RowStream

/-- A source with counters. -/
structure Counted (σ : Type) where
  source : σ
  /-- The rows handed out. -/
  rows : Nat
  /-- The pages asked for. -/
  loads : Nat
  /-- The times it was closed. -/
  closes : Nat

namespace Counted

variable {σ : Type}

def new (source : σ) : Counted σ := ⟨source, 0, 0, 0⟩

variable [BatchIterator σ]

def moveNext : Running (Counted σ) Bool := fun (s, job) =>
  match BatchIterator.moveNext (s.source, job) with
  | .ok b (source, job) => .ok b ({ s with source, rows := s.rows + b.toNat }, job)
  | .error e (source, job) => .error e ({ s with source }, job)

def load : Running (Counted σ) Load := fun (s, job) =>
  StepResult.within (fun source => { s with source, loads := s.loads + 1 })
    (BatchIterator.load (s.source, job))

def close (s : Counted σ) (job : Job) : Counted σ × Job :=
  let (source, job) := BatchIterator.close s.source job
  ({ s with source, closes := s.closes + 1 }, job)

def discard (s : Counted σ) (job : Job) : Counted σ × Job :=
  let (source, job) := BatchIterator.discard s.source job
  ({ s with source }, job)

instance : BatchIterator (Counted σ) where
  moveNext := moveNext
  current s := BatchIterator.current s.source
  allLoaded s := BatchIterator.allLoaded s.source
  load := load
  close := close
  discard := discard
  state s := BatchIterator.state s.source
  ready s := BatchIterator.ready s.source
  pages s := BatchIterator.pages s.source
  ready_of_moveNext {s t job job' b} h := by
    rcases hm : BatchIterator.moveNext (s.source, job) with ⟨c, source, job₁⟩ | _
    · obtain ⟨rfl, rfl, rfl⟩ : c = b ∧ _ = t ∧ job₁ = job' := by simpa [moveNext, hm] using h
      exact BatchIterator.ready_of_moveNext hm
    · simp [moveNext, hm] at h
  pages_of_moveNext {s t job job' b} h := by
    rcases hm : BatchIterator.moveNext (s.source, job) with ⟨c, source, job₁⟩ | _
    · obtain ⟨rfl, rfl, rfl⟩ : c = b ∧ _ = t ∧ job₁ = job' := by simpa [moveNext, hm] using h
      exact BatchIterator.pages_of_moveNext hm
    · simp [moveNext, hm] at h
  pages_of_load {s t job job'} h := by
    obtain ⟨source, hs, rfl⟩ := StepResult.within_eq_ok h
    exact BatchIterator.pages_of_load hs

end Counted

end RowStream
