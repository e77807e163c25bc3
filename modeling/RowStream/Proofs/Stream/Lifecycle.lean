import RowStream.Proofs.Stream.Custody
import RowStream.Proofs.Stream.Simulation

/-!
# The life of a stage

A stage may be used in any order: it may be asked for rows and pages before and after it failed, be
closed at any time and more than once, and between two calls its source and the job may become
anything. Its state is always what the last call says it is, a failure is only ended by closing, and
closing is the end. An operator that failed or was closed holds nothing, and the source is closed
once if the stage ever is.

* `Stage.moves_moveNext`, `Stage.loads_load` — how the calls can end.
* `Stage.Event`, `Stage.after` — histories of calls and of changes from outside.
* `Stage.Step` — all that an event can do; `Stage.step_happen` has one case for each event.
* `Stage.Settled`, `Stage.closed_after_iff` — what every event keeps, and so every history.
* `Stage.lifecycle_after` — the life of any stage over any source.
-/

namespace RowStream

namespace Stage

section Calls

variable {σ : Type} [BatchIterator σ]

/-- How asking a stage for a row can end. -/
inductive Moves (stage : Stage) (s : σ) (job : Job) :
    StepResult OpError Job (Stage × σ) Bool → Prop where
  | closed (h : stage.state = .closed) : Moves stage s job (.error .closed ((stage, s), job))
  | failed (h : stage.state = .failed) : Moves stage s job
      (.error (.contract (.pulledAfterFailure stage.operator.word)) ((stage, s), job))
  | row (op : Operator) (t : σ) (job' : Job) (h : stage.IsOpen) :
      Moves stage s job (.ok true ((⟨op, .hasNext⟩, t), job'))
  | idle (op : Operator) (t : σ) (job' : Job) (h : stage.IsOpen) :
      Moves stage s job (.ok false ((⟨op, .idle (allLoaded op t)⟩, t), job'))
  | fails (e : OpError) (op : Operator) (t : σ) (job' : Job) (h : stage.IsOpen)
      (hheld : op.held = 0) : Moves stage s job (.error e ((⟨op, .failed⟩, t), job'))

omit [BatchIterator σ] in
theorem held_fail (op : Operator) (job : Job) : (fail op job).1.operator.held = 0 :=
  (op.clears_release job.budget).2

theorem moves_moveNext (stage : Stage) (s : σ) (job : Job) :
    Moves stage s job (moveNext ((stage, s), job)) := by
  unfold moveNext
  simp only
  split
  · exact .closed ‹_›
  · exact .failed ‹_›
  · rename_i hclosed hfailed
    have hopen : stage.IsOpen := ⟨hclosed, hfailed⟩
    split
    · exact .row _ _ _ hopen
    · exact .idle _ _ _ hopen
    · exact .fails _ _ _ _ hopen (held_fail ..)

/-- How asking a stage for a page can end. -/
inductive Loads (stage : Stage) (s : σ) (job : Job) :
    StepResult OpError Job (Stage × σ) Load → Prop where
  | closed (h : stage.state = .closed) : Loads stage s job (.error .closed ((stage, s), job))
  | refused (h : stage.state ≠ .closed) :
      Loads stage s job (.error (.contract stage.operator.loadFault) ((stage, s), job))
  | loaded {progress : Load} {t : σ} {job' : Job} (h : stage.state ≠ .closed)
      (hload : BatchIterator.load (s, job) = .ok progress (t, job')) :
      Loads stage s job (.ok progress ((stage, t), job'))
  | fails {e : OpError} {t : σ} {job' : Job} (op : Operator) (job'' : Job)
      (h : stage.state ≠ .closed) (hload : BatchIterator.load (s, job) = .error e (t, job'))
      (hheld : op.held = 0) : Loads stage s job (.error e ((⟨op, .failed⟩, t), job''))

theorem loads_load (stage : Stage) (s : σ) (job : Job) :
    Loads stage s job (load ((stage, s), job)) := by
  unfold load
  simp only
  split
  · exact .closed ‹_›
  · rename_i hclosed
    split
    · exact .refused hclosed
    · split
      · exact .loaded hclosed ‹_›
      · exact .fails _ _ hclosed ‹_› (held_fail ..)

theorem moveNext_of_closed {stage : Stage} (h : stage.state = .closed) (s : σ) (job : Job) :
    moveNext ((stage, s), job) = .error .closed ((stage, s), job) := by
  simp [moveNext, h]

theorem load_of_closed {stage : Stage} (h : stage.state = .closed) (s : σ) (job : Job) :
    load ((stage, s), job) = .error .closed ((stage, s), job) := by
  simp [load, h]

theorem close_of_closed {stage : Stage} (h : stage.state = .closed) (s : σ) (job : Job) :
    close (stage, s) job = ((stage, s), job) := by
  simp [close, h]

theorem moveNext_of_failed {stage : Stage} (h : stage.state = .failed) (s : σ) (job : Job) :
    moveNext ((stage, s), job) =
      .error (.contract (.pulledAfterFailure stage.operator.word)) ((stage, s), job) := by
  simp [moveNext, h]

theorem close_of_not_closed {stage : Stage} (h : stage.state ≠ .closed) (s : σ) (job : Job) :
    close (stage, s) job =
      ((⟨(stage.operator.release job.budget).1, .closed⟩,
        (BatchIterator.close s { job with budget := (stage.operator.release job.budget).2 }).1),
        (BatchIterator.close s { job with budget := (stage.operator.release job.budget).2 }).2) := by
  simp [close, h, Job.giveBack]

end Calls

/-! ## Closes of the source

No call of a stage closes its source but the close of the stage itself. -/

section Closes

variable {σ : Type} [BatchIterator σ]

theorem closes_source_moveNext {s t : Counted σ} {job job' : Job}
    (h : StepResult.left (BatchIterator.moveNext (s, job)) = (t, job')) : t.closes = s.closes := by
  replace h : StepResult.left (Counted.moveNext (s, job)) = (t, job') := h
  unfold Counted.moveNext at h
  rcases hrun : BatchIterator.moveNext (s.source, job) with ⟨b, source, job₁⟩ | ⟨e, source, job₁⟩ <;>
  · simp only [hrun] at h
    cases h
    rfl

theorem closes_source_load {s t : Counted σ} {job job' : Job}
    (h : StepResult.left (BatchIterator.load (s, job)) = (t, job')) : t.closes = s.closes := by
  replace h : StepResult.left (Counted.load (s, job)) = (t, job') := h
  rw [Counted.load, StepResult.left_within] at h
  cases h
  rfl

theorem closes_feed (op : Operator) (s : Counted σ) (job : Job) :
    (StepResult.left (feed op s job)).1.2.closes = s.closes := by
  fun_induction feed op s job with
  | case1 op s job e t job' hmove | case2 op s job t job' hmove
  | case3 op s job t job' hmove | case4 op s job t job' hmove =>
    exact closes_source_moveNext (congrArg StepResult.left hmove)
  | case5 op s job t job' hmove op' job'' htake ih =>
    exact ih.trans (closes_source_moveNext (congrArg StepResult.left hmove))

theorem closes_advance (op : Operator) (s : Counted σ) (job : Job) :
    (StepResult.left (advance op s job)).1.2.closes = s.closes := by
  unfold advance
  split
  · rw [StepResult.left_within]
  · have hfeed := closes_feed op s job
    split
    · rename_i op' t job' hrun
      rw [hrun] at hfeed
      split
      · rw [StepResult.left_within]
        exact hfeed
      · exact hfeed
    · exact hfeed

theorem closes_moveNext (stage : Stage) (s : Counted σ) (job : Job) :
    (StepResult.left (moveNext ((stage, s), job))).1.2.closes = s.closes := by
  have hadvance := closes_advance stage.operator s job
  unfold moveNext
  simp only
  split
  · rfl
  · rfl
  · split <;> rename_i hrun <;> rw [hrun] at hadvance <;> exact hadvance

theorem closes_load (stage : Stage) (s : Counted σ) (job : Job) :
    (StepResult.left (load ((stage, s), job))).1.2.closes = s.closes := by
  have hends := loads_load stage s job
  generalize load ((stage, s), job) = result at hends ⊢
  cases hends with
  | closed | refused => rfl
  | loaded _ hload | fails _ _ _ hload =>
    exact closes_source_load (congrArg StepResult.left hload)

end Closes

/-! ## Histories

The step: one event, which is a call or a change from outside. All that it can do to the stage and
to the count of closes is said in four cases, and the invariant is read off these. -/

/-- What may happen to a stage: a call, or a change of its source and of the job from outside. -/
inductive Event (σ : Type) where
  | moveNext
  | load
  | close
  | outside (change : σ × Job → σ × Job)

/-- A stage over a source, and their job. -/
abbrev Setting (σ : Type) := (Stage × Counted σ) × Job

section Steps

variable {σ : Type}

/-- All that an event can do to a stage and to the count of closes. -/
inductive Step (p q : Setting σ) : Event σ → Prop where
  | stays {event : Event σ} (hclose : event = .close → p.1.1.state = .closed)
      (hstage : q.1.1 = p.1.1) (hcloses : q.1.2.closes = p.1.2.closes) : Step p q event
  | runs {event : Event σ} (hclose : event ≠ .close) (hopen : p.1.1.IsOpen)
      (hstage : q.1.1.IsOpen) (hcloses : q.1.2.closes = p.1.2.closes) : Step p q event
  | fails {event : Event σ} (hclose : event ≠ .close) (hopen : p.1.1.state ≠ .closed)
      (hstate : q.1.1.state = .failed) (hheld : q.1.1.operator.held = 0)
      (hcloses : q.1.2.closes = p.1.2.closes) : Step p q event
  | closes (hopen : p.1.1.state ≠ .closed) (hstate : q.1.1.state = .closed)
      (hheld : q.1.1.operator.held = 0) (hcloses : q.1.2.closes = p.1.2.closes + 1) :
      Step p q .close

variable {p q : Setting σ} {event : Event σ}

/-- **Closing is the end**, and nothing else is. -/
theorem Step.closed_iff (h : Step p q event) :
    q.1.1.state = .closed ↔ p.1.1.state = .closed ∨ event = .close := by
  cases h with
  | stays hclose hstage =>
    rw [hstage]
    exact ⟨.inl, fun h => h.elim id hclose⟩
  | runs hclose hopen hstage => simp [hclose, hopen.1, hstage.1]
  | fails hclose hopen hstate => simp [hclose, hopen, hstate]
  | closes _ hstate => simp [hstate]

/-- A failure is ended by closing only. -/
theorem Step.failed (h : Step p q event) (hfailed : p.1.1.state = .failed)
    (hclose : event ≠ .close) : q.1.1.state = .failed := by
  cases h with
  | stays _ hstage => rwa [hstage]
  | runs _ hopen => exact absurd hfailed hopen.2
  | fails _ _ hstate => exact hstate
  | closes => exact absurd rfl hclose

/-- **What is true of a stage at any time**: it holds nothing once it has failed or was closed, and
its source was closed once if the stage was, else never. -/
structure Settled (p : Setting σ) : Prop where
  held : p.1.1.state = .failed ∨ p.1.1.state = .closed → p.1.1.operator.held = 0
  closes : p.1.2.closes = if p.1.1.state = .closed then 1 else 0

theorem Settled.step (hp : Settled p) (h : Step p q event) : Settled q := by
  obtain ⟨hheld, hcount⟩ := hp
  cases h with
  | stays _ hstage hcloses =>
    -- the whole stage is as it was, and so is what is said of it
    rw [← hstage] at hheld hcount
    exact ⟨hheld, hcloses.trans hcount⟩
  | runs _ hopen hstage hcloses =>
    rw [if_neg hopen.1] at hcount
    refine ⟨fun hend => ?_, by rw [hcloses, hcount, if_neg hstage.1]⟩
    exact absurd hend (not_or.2 ⟨hstage.2, hstage.1⟩)
  | fails _ hopen hstate hnone hcloses =>
    rw [if_neg hopen] at hcount
    exact ⟨fun _ => hnone, by simp [hcloses, hcount, hstate]⟩
  | closes hopen hstate hnone hcloses =>
    rw [if_neg hopen] at hcount
    exact ⟨fun _ => hnone, by simp [hcloses, hcount, hstate]⟩

end Steps

/-! ## Whole histories

Induction on the history. Source and job may have become anything between two events, so that they
are given with the event. -/

section Histories

variable {σ : Type} [BatchIterator σ]

/-- What an event makes of a setting. The source and the job are changed from outside, but not the
counts of what was asked of the source. -/
def happen : Setting σ → Event σ → Setting σ
  | p, .moveNext => StepResult.left (BatchIterator.moveNext p)
  | p, .load => StepResult.left (BatchIterator.load p)
  | p, .close => BatchIterator.close p.1 p.2
  | ((stage, s), job), .outside change =>
    let (source, job) := change (s.source, job)
    ((stage, { s with source }), job)

/-- What a history makes of a setting. -/
def after (p : Setting σ) (history : List (Event σ)) : Setting σ := history.foldl happen p

theorem step_moveNext (stage : Stage) (s : Counted σ) (job : Job) :
    Step ((stage, s), job) (StepResult.left (moveNext ((stage, s), job))) .moveNext := by
  have hcloses := closes_moveNext stage s job
  have hends := moves_moveNext stage s job
  generalize moveNext ((stage, s), job) = result at hcloses hends ⊢
  cases hends with
  | closed | failed => exact .stays nofun rfl rfl
  | row op t job' hopen => exact .runs nofun hopen IteratorState.hasNext_ne hcloses
  | idle op t job' hopen => exact .runs nofun hopen (isOpen_idle op _) hcloses
  | fails e op t job' hopen hheld => exact .fails nofun hopen.1 rfl hheld hcloses

theorem step_load (stage : Stage) (s : Counted σ) (job : Job) :
    Step ((stage, s), job) (StepResult.left (load ((stage, s), job))) .load := by
  have hcloses := closes_load stage s job
  have hends := loads_load stage s job
  generalize load ((stage, s), job) = result at hcloses hends ⊢
  cases hends with
  | closed | refused | loaded => exact .stays nofun rfl hcloses
  | fails op job'' hopen hload hheld => exact .fails nofun hopen rfl hheld hcloses

theorem step_close (stage : Stage) (s : Counted σ) (job : Job) :
    Step ((stage, s), job) (close (stage, s) job) .close := by
  by_cases h : stage.state = .closed
  · rw [close_of_closed h]
    exact .stays (fun _ => h) rfl rfl
  · rw [close_of_not_closed h]
    exact .closes h rfl (stage.operator.clears_release job.budget).2 rfl

theorem step_happen (p : Setting σ) (event : Event σ) : Step p (happen p event) event := by
  obtain ⟨⟨stage, s⟩, job⟩ := p
  cases event with
  | moveNext => exact step_moveNext stage s job
  | load => exact step_load stage s job
  | close => exact step_close stage s job
  | outside change => exact .stays nofun rfl rfl

variable {p : Setting σ} {history : List (Event σ)}

theorem closed_after_iff (p : Setting σ) (history : List (Event σ)) :
    (after p history).1.1.state = .closed ↔ p.1.1.state = .closed ∨ .close ∈ history := by
  induction history generalizing p with
  | nil => simp [after]
  | cons event later ih =>
    have hhead := (step_happen p event).closed_iff
    rw [List.mem_cons, ← or_assoc, eq_comm (a := Event.close), ← hhead]
    exact ih (happen p event)

theorem failed_after (hfailed : p.1.1.state = .failed) (hclose : .close ∉ history) :
    (after p history).1.1.state = .failed := by
  induction history generalizing p with
  | nil => exact hfailed
  | cons event later ih =>
    rw [List.mem_cons, not_or] at hclose
    exact ih ((step_happen p event).failed hfailed (Ne.symm hclose.1)) hclose.2

theorem settled_after (hp : Settled p) (history : List (Event σ)) : Settled (after p history) := by
  induction history generalizing p with
  | nil => exact hp
  | cons event later ih => exact ih (hp.step (step_happen p event))

section Answers

variable {q : Setting σ} {e : OpError}

theorem state_of_shown (h : moveNext p = .ok true q) : q.1.1.state = .hasNext := by
  have hends := moves_moveNext p.1.1 p.1.2 p.2
  rw [h] at hends
  cases hends
  rfl

theorem state_of_idle (h : moveNext p = .ok false q) :
    q.1.1.state = .idle (BatchIterator.allLoaded q.1) := by
  have hends := moves_moveNext p.1.1 p.1.2 p.2
  rw [h] at hends
  cases hends
  rfl

theorem state_of_error (h : moveNext p = .error e q) (hopen : e ≠ .closed ∨ p.1.1.state ≠ .closed) :
    q.1.1.state = .failed := by
  have hends := moves_moveNext p.1.1 p.1.2 p.2
  rw [h] at hends
  cases hends with
  | closed hclosed => exact absurd hclosed (hopen.resolve_left (absurd rfl))
  | failed hfailed => exact hfailed
  | fails => rfl

theorem state_of_load_error (h : load p = .error e q) (hreached : q.1.2.loads ≠ p.1.2.loads) :
    q.1.1.state = .failed := by
  have hends := loads_load p.1.1 p.1.2 p.2
  rw [h] at hends
  cases hends with
  | closed | refused => exact absurd rfl hreached
  | fails => rfl

end Answers

/-- **The life of a stage** at a time before which `history` happened. -/
structure Lifecycle (p : Setting σ) (history : List (Event σ)) : Prop where
  /-- Asked for a row, a stage is where the answer says. -/
  shown {q : Setting σ} : BatchIterator.moveNext p = .ok true q →
    BatchIterator.state q.1 = .hasNext
  idle {q : Setting σ} : BatchIterator.moveNext p = .ok false q →
    BatchIterator.state q.1 =
      if BatchIterator.allLoaded q.1 then .exhausted else .awaitingMoreData
  /-- Errors are failures: those of rows unless the stage was closed, those of pages if the source
  was asked. -/
  row_fails {e : OpError} {q : Setting σ} : BatchIterator.moveNext p = .error e q →
    e ≠ .closed ∨ BatchIterator.state p.1 ≠ .closed → BatchIterator.state q.1 = .failed
  page_fails {e : OpError} {q : Setting σ} : BatchIterator.load p = .error e q →
    q.1.2.loads ≠ p.1.2.loads → BatchIterator.state q.1 = .failed
  /-- A failure lasts until the stage is closed. -/
  failed : BatchIterator.state p.1 = .failed → ∀ later : List (Event σ), .close ∉ later →
    BatchIterator.state (after p later).1 = .failed ∧
    ∃ e, BatchIterator.moveNext (after p later) = .error e (after p later)
  /-- A closed stage answers nothing else for ever. -/
  closed : BatchIterator.state p.1 = .closed → ∀ later : List (Event σ),
    BatchIterator.state (after p later).1 = .closed ∧
    BatchIterator.moveNext (after p later) = .error .closed (after p later) ∧
    BatchIterator.load (after p later) = .error .closed (after p later) ∧
    BatchIterator.close (after p later).1 (after p later).2 = after p later
  held : BatchIterator.state p.1 = .failed ∨ BatchIterator.state p.1 = .closed →
    p.1.1.operator.held = 0
  closes_once : .close ∈ history → p.1.2.closes = 1
  closes_never : .close ∉ history → p.1.2.closes = 0

/-- **The life of any operator over any source**: whatever is asked of it and in which order. -/
theorem lifecycle_after (op : Operator) (source : σ) (job : Job) (history : List (Event σ)) :
    Lifecycle (after ((Stage.new op, Counted.new source), job) history) history := by
  have hsettled : Settled (after ((Stage.new op, Counted.new source), job) history) :=
    settled_after ⟨by simp [Stage.new], rfl⟩ history
  have hclosed := closed_after_iff ((Stage.new op, Counted.new source), job) history
  simp only [Stage.new, reduceCtorEq, false_or] at hclosed
  exact
    { shown := state_of_shown
      idle := state_of_idle
      row_fails := state_of_error
      page_fails := state_of_load_error
      failed := fun hfailed later hclose =>
        have hstill := failed_after hfailed hclose
        ⟨hstill, _, moveNext_of_failed hstill _ _⟩
      closed := fun hend later =>
        have hstill := (closed_after_iff _ later).2 (.inl hend)
        ⟨hstill, moveNext_of_closed hstill _ _, load_of_closed hstill _ _,
          close_of_closed hstill _ _⟩
      held := hsettled.held
      closes_once := fun h => hsettled.closes.trans (if_pos (hclosed.2 h))
      closes_never := fun h => hsettled.closes.trans (if_neg (h ∘ hclosed.1)) }

end Histories

end Stage

end RowStream
