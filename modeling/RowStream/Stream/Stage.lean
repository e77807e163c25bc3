import RowStream.Stream.Iterator
import RowStream.Stream.Operator

/-!
# Stages

A stage is an operator over a source, and is itself a source of rows. All stages have one
lifecycle: after a failure a stage gives back what its operator holds and can only be closed;
after it is closed, nothing but `closed` is answered.
-/

namespace RowStream

/-- An operator and where it stands. -/
structure Stage where
  operator : Operator
  state : IteratorState

namespace Stage

variable {σ : Type} [BatchIterator σ]

def new (operator : Operator) : Stage := ⟨operator, .notStarted⟩

/-- Gives the rows of the source to an operator, until it shows one or there are none. -/
def feed (op : Operator) (s : σ) (job : Job) : StepResult OpError Job (Operator × σ) Bool :=
  match _ : BatchIterator.moveNext (s, job) with
  | .error e (s, job) => .error e ((op, s), job)
  | .ok false (s, job) => .ok false ((op, s), job)
  | .ok true (s, job) =>
    match Running.spend (Operator.take (BatchIterator.current s)) (op, job) with
    | .error e (op, job) => .error e ((op, s), job)
    | .ok true (op, job) => .ok true ((op, s), job)
    | .ok false (op, job) => feed op s job
termination_by BatchIterator.ready s
decreasing_by exact BatchIterator.ready_lt_of_moveNext ‹_›

/-- Shows the next row: one that is left, or the next one for which the source has rows. -/
def advance (op : Operator) (s : σ) (job : Job) : StepResult OpError Job (Operator × σ) Bool :=
  if op.isComplete then
    StepResult.within (·, s) (Running.spend Operator.showNext (op, job))
  else
    match feed op s job with
    | .ok false ((op, s), job) =>
      if BatchIterator.allLoaded s then
        StepResult.within (·, s) (Running.spend Operator.conclude (op, job))
      else .ok false ((op, s), job)
    | result => result

/-- Fails, giving back what the operator holds. -/
def fail (op : Operator) (job : Job) : Stage × Job :=
  let (operator, job) := job.giveBack Operator.release op
  (⟨operator, .failed⟩, job)

def allLoaded (op : Operator) (s : σ) : Bool := op.allLoaded (BatchIterator.allLoaded s)

def moveNext : Running (Stage × σ) Bool := fun ((stage, s), job) =>
  match stage.state with
  | .closed => .error .closed ((stage, s), job)
  | .failed =>
    .error (.contract (.pulledAfterFailure stage.operator.word)) ((stage, s), job)
  | _ =>
    match advance stage.operator s job with
    | .ok true ((op, s), job) => .ok true ((⟨op, .hasNext⟩, s), job)
    | .ok false ((op, s), job) => .ok false ((⟨op, .idle (allLoaded op s)⟩, s), job)
    | .error e ((op, s), job) =>
      let (stage, job) := fail op job
      .error e ((stage, s), job)

/-- A page for a stage is a page for its source. -/
def load : Running (Stage × σ) Load := fun ((stage, s), job) =>
  if stage.state = .closed then .error .closed ((stage, s), job)
  else if stage.operator.isComplete then
    .error (.contract stage.operator.loadFault) ((stage, s), job)
  else
    match BatchIterator.load (s, job) with
    | .ok progress (s, job) => .ok progress ((stage, s), job)
    | .error e (s, job) =>
      let (stage, job) := fail stage.operator job
      .error e ((stage, s), job)

/-- Gives back what the operator holds and closes the source, once. -/
def close : Stage × σ → Job → (Stage × σ) × Job := fun (stage, s) job =>
  if stage.state = .closed then ((stage, s), job)
  else
    let (operator, job) := job.giveBack Operator.release stage.operator
    let (s, job) := BatchIterator.close s job
    ((⟨operator, .closed⟩, s), job)

def discard : Stage × σ → Job → (Stage × σ) × Job := fun (stage, s) job =>
  let (operator, job) := job.giveBack Operator.release stage.operator
  let (s, job) := BatchIterator.discard s job
  (({ stage with operator }, s), job)

/-- The rows that a stage can show before it needs another page. -/
def ready : Stage × σ → Nat := fun (stage, s) => stage.operator.backlog + BatchIterator.ready s

def pages : Stage × σ → Nat := fun (_, s) => BatchIterator.pages s

/-! ## Every step makes a stage smaller -/

theorem ready_of_feed {op op' : Operator} {s t : σ} {job job' : Job} {shown : Bool}
    (h : feed op s job = .ok shown ((op', t), job')) :
    op'.backlog + BatchIterator.ready t + shown.toNat ≤ op.backlog + BatchIterator.ready s ∧
      BatchIterator.pages t ≤ BatchIterator.pages s ∧
      (shown = false → op'.isComplete = op.isComplete) := by
  fun_induction feed op s job with
  | case1 => cases h
  | case2 op s job s' job₁ hm =>
    cases h
    exact ⟨by simpa using BatchIterator.ready_of_moveNext hm, BatchIterator.pages_of_moveNext hm,
      fun _ => rfl⟩
  | case3 => cases h
  | case4 op s job s' job₁ hm op₁ job₂ htake =>
    cases h
    have := BatchIterator.ready_lt_of_moveNext hm
    have := Operator.backlog_of_take (Running.spend_eq_ok htake)
    refine ⟨?_, BatchIterator.pages_of_moveNext hm, nofun⟩
    simp only [Bool.toNat_true] at *
    omega
  | case5 op s job s' job₁ hm op₁ job₂ htake ih =>
    have := BatchIterator.ready_lt_of_moveNext hm
    have := BatchIterator.pages_of_moveNext hm
    have htaken := Operator.backlog_of_take (Running.spend_eq_ok htake)
    simp only [Bool.toNat_false] at htaken
    obtain ⟨hready, hpages, hcomplete⟩ := ih h
    refine ⟨by omega, by omega, fun hshown => ?_⟩
    rw [hcomplete hshown, Operator.isComplete_of_take (Running.spend_eq_ok htake)]

theorem ready_of_advance {op op' : Operator} {s t : σ} {job job' : Job} {shown : Bool}
    (h : advance op s job = .ok shown ((op', t), job')) :
    op'.backlog + BatchIterator.ready t + shown.toNat ≤ op.backlog + BatchIterator.ready s ∧
      BatchIterator.pages t ≤ BatchIterator.pages s := by
  unfold advance at h
  split at h
  · rename_i hop
    obtain ⟨op₁, hnext, heq⟩ := StepResult.within_eq_ok h
    cases heq
    have := Operator.backlog_of_showNext hop (Running.spend_eq_ok hnext)
    exact ⟨by omega, Nat.le_refl _⟩
  · rename_i hop
    split at h
    · rename_i op₁ s₁ job₁ hfeed
      obtain ⟨hready, hpages, hcomplete⟩ := ready_of_feed hfeed
      simp only [Bool.toNat_false] at hready
      split at h
      · obtain ⟨op₂, hconclude, heq⟩ := StepResult.within_eq_ok h
        cases heq
        have hop₁ : op₁.isComplete = false := by simpa [hcomplete rfl] using hop
        have := Operator.backlog_of_conclude hop₁ (Running.spend_eq_ok hconclude)
        exact ⟨by omega, hpages⟩
      · cases h
        exact ⟨by simpa using hready, hpages⟩
    · obtain ⟨hready, hpages, -⟩ := ready_of_feed h
      exact ⟨hready, hpages⟩

theorem ready_of_moveNext {s t : Stage × σ} {job job' : Job} {shown : Bool}
    (h : moveNext (s, job) = .ok shown (t, job')) :
    ready t + shown.toNat ≤ ready s ∧ pages t ≤ pages s := by
  obtain ⟨stage, s⟩ := s
  unfold moveNext at h
  simp only at h
  split at h
  · cases h
  · cases h
  · split at h
    · rename_i hadvance
      cases h
      exact ready_of_advance hadvance
    · rename_i hadvance
      cases h
      exact ready_of_advance hadvance
    · cases h

theorem pages_of_load {s t : Stage × σ} {job job' : Job}
    (h : load (s, job) = .ok .ready (t, job')) : pages t < pages s := by
  obtain ⟨stage, s⟩ := s
  unfold load at h
  simp only at h
  split at h
  · cases h
  · split at h
    · cases h
    · split at h
      · rename_i hload
        cases h
        exact BatchIterator.pages_of_load hload
      · cases h

instance : BatchIterator (Stage × σ) where
  moveNext := moveNext
  current := fun (stage, s) => stage.operator.current (BatchIterator.current s)
  allLoaded := fun (stage, s) => allLoaded stage.operator s
  load := load
  close := close
  discard := discard
  state := fun (stage, _) => stage.state
  ready := ready
  pages := pages
  ready_of_moveNext h := (ready_of_moveNext h).1
  pages_of_moveNext h := (ready_of_moveNext h).2
  pages_of_load := pages_of_load

end Stage

end RowStream
