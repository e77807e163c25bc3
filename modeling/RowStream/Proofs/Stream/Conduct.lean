import RowStream.Proofs.Collector.Conduct
import RowStream.Proofs.Stream.Simulation
import RowStream.Stream.Source
import RowStream.Stream.Source.Counted

/-!
# How iterators may fail

An iterator is asked for rows only while it may have some, and for a page only after it has said that
there is one: then it never has to answer that its caller broke the contract. Which questions an
iterator may be asked is said by two predicates on its states, whatever the job is: `live`, a row may
be asked for, and `waiting`, a page may be. A stage asks its source no other questions than these, as
long as nobody asks the stage others.

* `Conduct` — the two predicates and how the steps behave.
* `Conduct.feed_spec`, `Conduct.advance_spec`, `Conduct.stage` — a stage over an iterator.
* `Chain.conduct` — chains of any length, by recursion on the length.
* `Source.conduct`, `Conduct.counted`, `Conduct.disturbed` — sources.
-/

namespace RowStream

theorem Metered.Behaves.spend {σ α : Type} {m : Metered.Op σ α} {s : σ} {post : α → σ → Prop}
    (h : m.Behaves s post) (job : Job) : StepResult.Behaves (Running.spend m (s, job)) post := by
  have hresult := h job.budget
  unfold Running.spend
  rcases hrun : m (s, job.budget) with ⟨a, t, b⟩ | ⟨e, t, b⟩ <;>
  · rw [hrun] at hresult
    simp only [hrun]
    exact hresult

theorem StepResult.Behaves.within {κ σ τ α : Type} {r : StepResult OpError κ σ α}
    {post : α → σ → Prop} {post' : α → τ → Prop} {whole : σ → τ} (hr : r.Behaves post)
    (h : ∀ a t, post a t → post' a (whole t)) :
    StepResult.Behaves (StepResult.within whole r) post' := by
  rcases r with ⟨a, t, k⟩ | ⟨e, t, k⟩
  · exact h a t hr
  · exact hr

/-- Which questions an iterator may be asked. -/
structure Conduct (σ : Type) [BatchIterator σ] where
  /-- A row may be asked for. -/
  live : σ → Prop
  /-- A page may be asked for. -/
  waiting : σ → Prop
  moveNext_spec {s : σ} : live s → ∀ job,
    StepResult.Behaves (BatchIterator.moveNext (s, job)) fun more t =>
      if more then live t else BatchIterator.allLoaded t = false → waiting t
  load_spec {s : σ} : waiting s → ∀ job,
    StepResult.Behaves (BatchIterator.load (s, job)) fun progress t =>
      match progress with
      | .ready => live t
      | .pending => waiting t

namespace Conduct

variable {σ : Type} [BatchIterator σ] (C : Conduct σ)

/-! ## Stages

A stage asks its source for a row only while it may have some: it stops at the first time that there
is none, and loads a page only after that. Its operator may fail in a foreseen way, and then the
stage has failed and asks nothing. -/

/-- How feeding an operator may end well. -/
def Fed (more : Bool) : Operator × σ → Prop
  | (op, t) => op.Sound ∧
      if more then C.live t
      else op.isComplete = false ∧ (BatchIterator.allLoaded t = false → C.waiting t)

/-- **A stage takes rows until it shows one**, and asks its source for none that it may not. -/
theorem feed_spec {op : Operator} {s : σ} (hsound : op.Sound) (hop : op.isComplete = false)
    (hlive : C.live s) (job : Job) : StepResult.Behaves (Stage.feed op s job) C.Fed := by
  fun_induction Stage.feed op s job with
  | case1 op s job e s' job' hmove =>
    -- the source fails
    have hstep := C.moveNext_spec hlive job
    rw [hmove] at hstep
    exact hstep
  | case2 op s job s' job' hmove =>
    -- the source has no row to give
    have hstep := C.moveNext_spec hlive job
    rw [hmove] at hstep
    exact ⟨hsound, hop, hstep⟩
  | case3 op s job s' job' hmove e op' job'' htake =>
    -- the operator fails on the row
    have hrow := (Operator.take_behaves (BatchIterator.current s') hsound).spend job'
    rw [htake] at hrow
    exact hrow
  | case4 op s job s' job' hmove op' job'' htake =>
    -- the operator has a row to show
    have hstep := C.moveNext_spec hlive job
    have hrow := (Operator.take_behaves (BatchIterator.current s') hsound).spend job'
    rw [hmove] at hstep
    rw [htake] at hrow
    exact ⟨hrow, hstep⟩
  | case5 op s job s' job' hmove op' job'' htake ih =>
    -- the operator swallowed the row and is as incomplete as before, so the next one is asked for
    have hstep := C.moveNext_spec hlive job
    have hrow := (Operator.take_behaves (BatchIterator.current s') hsound).spend job'
    rw [hmove] at hstep
    rw [htake] at hrow
    exact ih hrow ((Operator.isComplete_of_take (Running.spend_eq_ok htake)).trans hop) hstep

/-- How advancing a stage may end well. -/
def Advanced (more : Bool) : Operator × σ → Prop
  | (op, t) => op.Sound ∧
      if more then op.isComplete = false → C.live t
      else op.allLoaded (BatchIterator.allLoaded t) = false → op.isComplete = false ∧ C.waiting t

theorem advance_spec {op : Operator} {s : σ} (hsound : op.Sound)
    (hlive : op.isComplete = false → C.live s) (job : Job) :
    StepResult.Behaves (Stage.advance op s job) C.Advanced := by
  unfold Stage.advance
  cases hop : op.isComplete with
  | true =>
    -- what is left is shown; once nothing is, no page is needed any more
    have hnext := Operator.next_spec hop
    refine ⟨Operator.sound_next hsound, ?_⟩
    cases hshown : op.next.1 with
    | true =>
      rw [hshown] at hnext
      exact fun hincomplete => absurd (hnext.1.symm.trans hincomplete) nofun
    | false =>
      rw [hshown] at hnext
      exact fun hmore => absurd ((hnext.2 _).symm.trans hmore) nofun
  | false =>
    have hfeed := C.feed_spec hsound hop (hlive hop) job
    rw [if_neg Bool.false_ne_true]
    rcases hrun : Stage.feed op s job with ⟨_ | _, ⟨op', t⟩, job'⟩ | ⟨e, p, job'⟩ <;>
      rw [hrun] at hfeed
    · obtain ⟨hsound', hop', hwaiting⟩ := hfeed
      simp only
      cases hloaded : BatchIterator.allLoaded t with
      | true =>
        rw [if_pos rfl]
        refine ((Operator.conclude_behaves hsound' hop').spend job').within ?_
        rintro shown op'' ⟨hsound'', hconcluded⟩
        refine ⟨hsound'', ?_⟩
        cases shown with
        | true => exact fun hincomplete => absurd (hconcluded.1.symm.trans hincomplete) nofun
        | false =>
          rw [hloaded]
          exact fun hmore => absurd (hconcluded.2.symm.trans hmore) nofun
      | false =>
        rw [if_neg Bool.false_ne_true]
        exact ⟨hsound', fun _ => ⟨hop', hwaiting hloaded⟩⟩
    · exact ⟨hfeed.1, fun _ => hfeed.2⟩
    · exact hfeed

/-- A stage that has not failed may be asked for a row if its operator has some left or its source may
be asked for one. -/
def StageLive : Stage × σ → Prop
  | (stage, s) => stage.IsOpen ∧ stage.operator.Sound ∧
      (stage.operator.isComplete = false → C.live s)

def StageWaiting : Stage × σ → Prop
  | (stage, s) => stage.IsOpen ∧ stage.operator.Sound ∧ stage.operator.isComplete = false ∧
      C.waiting s

/-- **A stage over an iterator with good conduct** has good conduct. -/
def stage : Conduct (Stage × σ) where
  live := C.StageLive
  waiting := C.StageWaiting
  moveNext_spec := by
    rintro ⟨stage, s⟩ ⟨hopen, hsound, hlive⟩ job
    have hadvance := C.advance_spec hsound hlive job
    have heq : Stage.moveNext ((stage, s), job) = _ := congrFun (Stage.moveNext_eq hopen s) job
    show StepResult.Behaves (Stage.moveNext ((stage, s), job)) _
    rw [heq]
    rcases hrun : Stage.advance stage.operator s job with ⟨_ | _, ⟨op, t⟩, job'⟩ | ⟨e, p, job'⟩ <;>
      rw [hrun] at hadvance
    · refine fun hmore => ⟨Stage.isOpen_idle op _, hadvance.1, hadvance.2 hmore⟩
    · exact ⟨IteratorState.hasNext_ne, hadvance⟩
    · exact hadvance
  load_spec := by
    rintro ⟨stage, s⟩ ⟨hopen, hsound, hop, hwaiting⟩ job
    have hload := C.load_spec hwaiting job
    have heq : Stage.load ((stage, s), job) = _ := congrFun (Stage.load_eq hopen hop s) job
    show StepResult.Behaves (Stage.load ((stage, s), job)) _
    rw [heq]
    rcases hrun : BatchIterator.load (s, job) with ⟨_ | _, t, job'⟩ | ⟨e, t, job'⟩ <;>
      rw [hrun] at hload
    · exact ⟨hopen, hsound, fun _ => hload⟩
    · exact ⟨hopen, hsound, hop, hload⟩
    · exact hload

end Conduct

/-! ## Chains

Induction on the number of stages. -/

namespace Chain

variable {β : Type} [BatchIterator β]

/-- **A chain over a source with good conduct** has good conduct, stage by stage. -/
def conduct (C : Conduct β) : (n : Nat) → Conduct (Chain β n)
  | 0 => C
  | n + 1 => (conduct C n).stage

/-- Fresh stages of sound operators may be asked for a row if their source may. -/
theorem live_conduct_build (C : Conduct β) {source : β} (hlive : C.live source)
    {ops : List Operator} (hops : ∀ op ∈ ops, op.Sound) :
    (conduct C ops.length).live (build source ops) := by
  induction ops with
  | nil => exact hlive
  | cons op ops ih =>
    obtain ⟨hop, hops⟩ := List.forall_mem_cons.1 hops
    exact ⟨⟨nofun, nofun⟩, hop, fun _ => ih hops⟩

/-- What reaches a source that waits leaves the chain waiting. -/
theorem waiting_modifySource (C : Conduct β) {f : β → β}
    (hf : ∀ s, C.waiting s → C.waiting (f s)) {n : Nat} {c : Chain β n}
    (h : (conduct C n).waiting c) : (conduct C n).waiting (c.modifySource f) := by
  induction n with
  | zero => exact hf c h
  | succ n ih =>
    obtain ⟨stage, inner⟩ := c
    obtain ⟨hopen, hsound, hop, hwaiting⟩ := h
    exact ⟨hopen, hsound, hop, ih hwaiting⟩

end Chain

/-! ## Sources

What each source answers to the questions it may be asked, and where that leaves it. -/

/-- Rows in memory are loaded until there are none left. -/
def MemorySource.conduct : Conduct MemorySource where
  live s := s.state ≠ .closed
  waiting s := s.state ≠ .closed ∧ s.allLoaded = false
  moveNext_spec {s} hopen job := by
    show StepResult.Behaves (moveNext (s, job)) _
    simp only [moveNext, if_neg hopen]
    cases s.page with
    | nil => exact fun hmore => ⟨(IteratorState.idle_ne _).1, hmore⟩
    | cons row page => exact nofun
  load_spec {s} hwaiting job := by
    show StepResult.Behaves (load (s, job)) _
    simp only [load, if_neg hwaiting.1, hwaiting.2]
    exact hwaiting.1

/-- A failing source has a page until it is asked for it. -/
def FailingSource.conduct : Conduct FailingSource where
  live s := s.state ≠ .closed
  waiting s := s.state ≠ .closed
  moveNext_spec {s} hopen job := by
    show StepResult.Behaves (moveNext (s, job)) _
    simp only [moveNext, if_neg hopen]
    cases s.rows with
    | nil => exact fun _ => nofun
    | cons row rows => exact nofun
  load_spec {s} hopen job := by
    show StepResult.Behaves (load (s, job)) _
    simp only [load, if_neg hopen]
    exact .sourceFailed s.reason

/-- A channel is waited for until all producers have left. -/
def ChannelSource.conduct : Conduct ChannelSource where
  live s := s.state ≠ .closed ∧ s.state ≠ .failed
  waiting s := s.state ≠ .closed ∧ s.state ≠ .failed ∧ s.finished = false
  moveNext_spec {s} hlive job := by
    obtain ⟨hclosed, hfailed⟩ := hlive
    show StepResult.Behaves (MailboxSource.moveNext (s, job)) _
    unfold MailboxSource.moveNext
    cases hstate : s.state with
    | closed => exact absurd hstate hclosed
    | failed => exact absurd hstate hfailed
    | _ =>
      cases hpage : s.page with
      | nil =>
        simp only [hstate, hpage]
        obtain ⟨hstill, hwell⟩ := IteratorState.idle_ne s.finished
        exact fun hmore => ⟨hstill, hwell, hmore⟩
      | cons row page =>
        simp only [hstate, hpage]
        exact IteratorState.hasNext_ne
  load_spec {s} hwaiting job := by
    obtain ⟨hclosed, hfailed, hmore⟩ := hwaiting
    show StepResult.Behaves (MailboxSource.load (s, job)) _
    simp only [MailboxSource.load, if_neg hclosed, hmore, ChannelSource.receive_eq]
    cases hqueue : s.channel.queue with
    | nil =>
      by_cases hleft : s.channel.producers = 0
      · rw [if_pos hleft]
        exact ⟨hclosed, hfailed⟩
      · rw [if_neg hleft]
        exact ⟨hclosed, hfailed, hmore⟩
    | cons message queue =>
      cases message with
      | batch rows => exact ⟨hclosed, hfailed⟩
      | failure reason => exact .sourceFailed reason

/-- **The sources of the engine** have good conduct. -/
def Source.conduct : Conduct Source where
  live
    | memory s => MemorySource.conduct.live s
    | failing s => FailingSource.conduct.live s
    | channel s => ChannelSource.conduct.live s
  waiting
    | memory s => MemorySource.conduct.waiting s
    | failing s => FailingSource.conduct.waiting s
    | channel s => ChannelSource.conduct.waiting s
  moveNext_spec := by
    rintro (s | s | s) hlive job
    · exact (MemorySource.conduct.moveNext_spec hlive job).within fun _ _ => id
    · exact (FailingSource.conduct.moveNext_spec hlive job).within fun _ _ => id
    · exact (ChannelSource.conduct.moveNext_spec hlive job).within fun _ _ => id
  load_spec := by
    rintro (s | s | s) hwaiting job
    · exact (MemorySource.conduct.load_spec hwaiting job).within fun _ _ => id
    · exact (FailingSource.conduct.load_spec hwaiting job).within fun _ _ => id
    · exact (ChannelSource.conduct.load_spec hwaiting job).within fun _ _ => id

/-- A counted source has the conduct of its source. -/
def Conduct.counted {β : Type} [BatchIterator β] (C : Conduct β) : Conduct (Counted β) where
  live s := C.live s.source
  waiting s := C.waiting s.source
  moveNext_spec {s} hlive job := by
    have hstep := C.moveNext_spec hlive job
    show StepResult.Behaves (Counted.moveNext (s, job)) _
    unfold Counted.moveNext
    rcases hrun : BatchIterator.moveNext (s.source, job) with ⟨more, t, job'⟩ | ⟨e, t, job'⟩ <;>
    · rw [hrun] at hstep
      simp only [hrun]
      exact hstep
  load_spec hwaiting job := (C.load_spec hwaiting job).within fun _ _ => id

/-! ## Disturbances

Conduct is about the questions and not about the job. So what happens to the job from outside
changes nothing, and runs that are killed or share a breaker are covered. -/

/-- A source, and what happens to the job from outside while the source is asked for something: it is
killed, or others take memory and give it back. -/
structure Disturbed (β : Type) where
  source : β
  /-- For each question that is to come. -/
  changes : List (Job → Job)

namespace Disturbed

variable {β : Type}

/-- Works on the source from outside. -/
def modify (f : β → β) (s : Disturbed β) : Disturbed β := { s with source := f s.source }

variable [BatchIterator β]

def moveNext : Running (Disturbed β) Bool := fun (s, job) =>
  StepResult.within (fun source => ⟨source, s.changes.tail⟩)
    (BatchIterator.moveNext (s.source, s.changes.headD id job))

def load : Running (Disturbed β) Load := fun (s, job) =>
  StepResult.within (fun source => ⟨source, s.changes.tail⟩)
    (BatchIterator.load (s.source, s.changes.headD id job))

instance : BatchIterator (Disturbed β) where
  moveNext := moveNext
  current s := BatchIterator.current s.source
  allLoaded s := BatchIterator.allLoaded s.source
  load := load
  close s job := (BatchIterator.close s.source job).map (fun source => { s with source }) id
  discard s job := (BatchIterator.discard s.source job).map (fun source => { s with source }) id
  state s := BatchIterator.state s.source
  ready s := BatchIterator.ready s.source
  pages s := BatchIterator.pages s.source
  ready_of_moveNext h := by
    obtain ⟨source, hs, rfl⟩ := StepResult.within_eq_ok h
    exact BatchIterator.ready_of_moveNext hs
  pages_of_moveNext h := by
    obtain ⟨source, hs, rfl⟩ := StepResult.within_eq_ok h
    exact BatchIterator.pages_of_moveNext hs
  pages_of_load h := by
    obtain ⟨source, hs, rfl⟩ := StepResult.within_eq_ok h
    exact BatchIterator.pages_of_load hs

end Disturbed

/-- Disturbances of the job do not disturb the conduct of a source. -/
def Conduct.disturbed {β : Type} [BatchIterator β] (C : Conduct β) : Conduct (Disturbed β) where
  live s := C.live s.source
  waiting s := C.waiting s.source
  moveNext_spec hlive _ := (C.moveNext_spec hlive _).within fun _ _ => id
  load_spec hwaiting _ := (C.load_spec hwaiting _).within fun _ _ => id

end RowStream
