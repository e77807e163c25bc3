import RowStream.Proofs.Collector.Custody
import RowStream.Stream.Chain
import RowStream.Stream.Pull
import RowStream.Stream.Source
import RowStream.Stream.Source.Counted

/-!
# What iterators hold

Each stage of a chain holds memory of its own, and an error in one of them leaves the others still
holding theirs. So it is said of an iterator in any state how much it holds; steps, good or bad, move
the budget by what is held more or less, and closing gives all of it back. Along with that goes how
often the source at the bottom was closed: never by a step, and once by closing a chain in which no
stage is closed yet.

* `Watch` — what is held and what was closed; `Watch.Step` is what a step may do to it.
* `Custody` — iterators whose steps are such steps, and which are closed once.
* `Custody.stage`, `Chain.custody` — stages over an iterator, and chains of any length.
* `Custody.pull_spec`, `Custody.resume_spec` — pulling, wherever it ends.
-/

namespace RowStream

/-! ## Watching a part of a job

A part of a job is watched by three things: what it holds, how often its source was closed, and
whether it can still be closed. Steps of parts inside of a whole are steps of the whole, and what is
beside them stays. -/

/-- What a part of a job holds, how often what is at its bottom was closed, and whether it can still
be closed. -/
structure Watch (σ : Type) where
  held : σ → Nat
  closes : σ → Nat
  isOpen : σ → Prop

namespace Watch

variable {σ τ : Type} {w : Watch σ}

/-- What a step of the part may do, from `s` to the states that it leaves. -/
structure Step (w : Watch σ) (s : σ) (job : Job) (p : σ × Job) : Prop where
  moves : Budget.Moves job.budget (w.held s) p.2.budget (w.held p.1)
  closes : w.closes p.1 = w.closes s
  isOpen : w.isOpen s → w.isOpen p.1

theorem Step.refl (w : Watch σ) (s : σ) (job : Job) : w.Step s job (s, job) :=
  ⟨.refl job.budget (w.held s), rfl, id⟩

theorem Step.trans {s : σ} {job : Job} {p q : σ × Job} (h : w.Step s job p)
    (h' : w.Step p.1 p.2 q) : w.Step s job q :=
  ⟨h.moves.trans h'.moves, h'.closes.trans h.closes, h'.isOpen ∘ h.isOpen⟩

/-- A part inside of a whole that holds more than the part. -/
def along (w : Watch σ) (get : τ → σ) (more : τ → Nat) : Watch τ where
  held t := more t + w.held (get t)
  closes t := w.closes (get t)
  isOpen t := w.isOpen (get t)

variable {get : τ → σ} {more : τ → Nat} {t t' : τ} {job job' : Job}

/-- The part takes a step. -/
theorem Step.inner (h : w.Step (get t) job (get t', job')) (hmore : more t' = more t) :
    (w.along get more).Step t job (t', job') where
  moves := by
    have hmoves := h.moves.frame (more t)
    rw [← hmore] at hmoves
    simp only [hmore] at hmoves
    show Budget.Moves _ (more t + w.held (get t)) _ (more t' + w.held (get t'))
    rw [hmore]
    exact hmoves
  closes := h.closes
  isOpen := h.isOpen

/-- What is held beside the part moves. -/
theorem Step.outer (h : Budget.Moves job.budget (more t) job'.budget (more t'))
    (hget : get t' = get t) : (w.along get more).Step t job (t', job') where
  moves := by
    have hmoves := h.frame (w.held (get t))
    show Budget.Moves _ (more t + w.held (get t)) _ (more t' + w.held (get t'))
    rw [hget, Nat.add_comm (more t), Nat.add_comm (more t')]
    exact hmoves
  closes := congrArg w.closes hget
  isOpen := (congrArg w.isOpen hget).mpr

end Watch

/-- A computation under the budget of a job. -/
theorem Metered.Keeps.spend {σ α : Type} {held : σ → Nat} {m : Metered.Op σ α} (h : m.Keeps held)
    (s : σ) (job : Job) : Budget.Moves job.budget (held s)
      (StepResult.left (Running.spend m (s, job))).2.budget
      (held (StepResult.left (Running.spend m (s, job))).1) := by
  have hmoves := h s job.budget
  unfold Running.spend
  rcases hrun : m (s, job.budget) with ⟨a, t, b⟩ | ⟨e, t, b⟩ <;>
  · rw [hrun] at hmoves
    simp only [hrun]
    exact hmoves

/-- An iterator that can be trusted with memory: its steps move what it holds and close nothing, and
closing it gives everything back. -/
structure Custody (σ : Type) [BatchIterator σ] extends Watch σ where
  moveNext_spec (s : σ) (job : Job) :
    toWatch.Step s job (StepResult.left (BatchIterator.moveNext (s, job)))
  load_spec (s : σ) (job : Job) :
    toWatch.Step s job (StepResult.left (BatchIterator.load (s, job)))
  close_spec (s : σ) (job : Job) : isOpen s →
    Budget.Moves job.budget (held s) (BatchIterator.close s job).2.budget 0 ∧
      closes (BatchIterator.close s job).1 = closes s + 1

/-! ## Stages

A stage holds what its operator and its source hold. An error of either is handed on after the
operator was released, and the source is left holding what it holds, until it is closed. -/

namespace Custody

variable {σ : Type} [BatchIterator σ] (C : Custody σ)

/-- An operator beside its source. -/
def feeding : Watch (Operator × σ) := C.toWatch.along Prod.snd fun p => p.1.held

theorem step_moveNext (op : Operator) {s s' : σ} {job job' : Job}
    (h : StepResult.left (BatchIterator.moveNext (s, job)) = (s', job')) :
    C.feeding.Step (op, s) job ((op, s'), job') := by
  have hstep := C.moveNext_spec s job
  rw [h] at hstep
  refine Watch.Step.inner ?_ rfl
  exact hstep

theorem step_load (op : Operator) {s s' : σ} {job job' : Job}
    (h : StepResult.left (BatchIterator.load (s, job)) = (s', job')) :
    C.feeding.Step (op, s) job ((op, s'), job') := by
  have hstep := C.load_spec s job
  rw [h] at hstep
  refine Watch.Step.inner ?_ rfl
  exact hstep

/-- The source steps to a row and the operator takes it. -/
theorem step_take {row : Row} {op op' : Operator} {s s' : σ} {job job' job'' : Job}
    (hmove : StepResult.left (BatchIterator.moveNext (s, job)) = (s', job'))
    (htake : StepResult.left (Running.spend (Operator.take row) (op, job')) = (op', job'')) :
    C.feeding.Step (op, s) job ((op', s'), job'') := by
  have htaken := (Operator.keeps_take row).spend op job'
  rw [htake] at htaken
  exact (C.step_moveNext op hmove).trans (Watch.Step.outer htaken rfl)

/-- **Rows are taken** from the source until the operator shows one, or either of them fails. -/
theorem feed_spec (op : Operator) (s : σ) (job : Job) :
    C.feeding.Step (op, s) job (StepResult.left (Stage.feed op s job)) := by
  -- on the rows that are left in the source: it fails or has none, or the operator fails, shows one,
  -- or keeps it and goes on
  fun_induction Stage.feed op s job with
  | case1 op s job e s' job' hmove => exact C.step_moveNext op (congrArg StepResult.left hmove)
  | case2 op s job s' job' hmove => exact C.step_moveNext op (congrArg StepResult.left hmove)
  | case3 op s job s' job' hmove e op' job'' htake =>
    exact C.step_take (congrArg StepResult.left hmove) (congrArg StepResult.left htake)
  | case4 op s job s' job' hmove op' job'' htake =>
    exact C.step_take (congrArg StepResult.left hmove) (congrArg StepResult.left htake)
  | case5 op s job s' job' hmove op' job'' htake ih =>
    exact (C.step_take (congrArg StepResult.left hmove) (congrArg StepResult.left htake)).trans ih

/-- An operator that works on its own. -/
theorem step_within {m : Metered.Op Operator Bool} (hm : m.Keeps Operator.held) (op : Operator)
    (s : σ) (job : Job) : C.feeding.Step (op, s) job
      (StepResult.left (StepResult.within (·, s) (Running.spend m (op, job)))) := by
  rw [StepResult.left_within]
  exact Watch.Step.outer (hm.spend op job) rfl

theorem advance_spec (op : Operator) (s : σ) (job : Job) :
    C.feeding.Step (op, s) job (StepResult.left (Stage.advance op s job)) := by
  unfold Stage.advance
  split
  · exact C.step_within Operator.keeps_showNext op s job
  · have hfeed := C.feed_spec op s job
    split
    · rename_i op' s' job' hrun
      rw [hrun] at hfeed
      split
      · exact hfeed.trans (C.step_within Operator.keeps_conclude op' s' job')
      · exact hfeed
    · exact hfeed

/-- A stage beside its source. It can be closed as long as no stage is closed. -/
def staged : Watch (Stage × σ) where
  held p := p.1.operator.held + C.held p.2
  closes p := C.closes p.2
  isOpen p := p.1.state ≠ .closed ∧ C.isOpen p.2

/-- What an operator and its source did is what the stage did, whose state is not closed by it. -/
theorem step_staged {stage : Stage} {s t : σ} {job job' : Job} {op : Operator}
    (h : C.feeding.Step (stage.operator, s) job ((op, t), job')) {state : IteratorState}
    (hstate : state ≠ .closed) : C.staged.Step (stage, s) job ((⟨op, state⟩, t), job') :=
  ⟨h.moves, h.closes, fun hopen => ⟨hstate, h.isOpen hopen.2⟩⟩

theorem step_release (op : Operator) (s : σ) (job : Job) :
    C.feeding.Step (op, s) job (((job.giveBack Operator.release op).1, s),
      (job.giveBack Operator.release op).2) := by
  obtain ⟨hmoves, hnone⟩ := Operator.clears_release op job.budget
  have hreleased : (job.giveBack Operator.release op).1.held = 0 := hnone
  refine Watch.Step.outer ?_ rfl
  show Budget.Moves job.budget op.held (op.release job.budget).2
    (job.giveBack Operator.release op).1.held
  rw [hreleased]
  exact hmoves

theorem stage_moveNext (stage : Stage) (s : σ) (job : Job) :
    C.staged.Step (stage, s) job (StepResult.left (Stage.moveNext ((stage, s), job))) := by
  unfold Stage.moveNext
  simp only
  split
  · exact .refl C.staged (stage, s) job
  · exact .refl C.staged (stage, s) job
  · have hadvance := C.advance_spec stage.operator s job
    split <;> rename_i hrun <;> rw [hrun] at hadvance
    · exact C.step_staged hadvance nofun
    · rename_i op t job'
      refine C.step_staged hadvance ?_
      cases Stage.allLoaded op t <;> exact nofun
    · exact C.step_staged (hadvance.trans (C.step_release _ _ _)) nofun

theorem stage_load (stage : Stage) (s : σ) (job : Job) :
    C.staged.Step (stage, s) job (StepResult.left (Stage.load ((stage, s), job))) := by
  unfold Stage.load
  simp only
  split
  · exact .refl C.staged (stage, s) job
  · rename_i hopen
    split
    · exact .refl C.staged (stage, s) job
    · -- the operator is released as soon as its source fails, and the stage can still be closed
      split <;> rename_i hrun <;>
        have hload := C.step_load stage.operator (congrArg StepResult.left hrun)
      · exact C.step_staged hload hopen
      · exact C.step_staged (hload.trans (C.step_release _ _ _)) nofun

/-- A stage gives back what its operator holds before its source is closed. -/
theorem stage_close (stage : Stage) (s : σ) (job : Job) (hopen : C.staged.isOpen (stage, s)) :
    Budget.Moves job.budget (C.staged.held (stage, s)) (Stage.close (stage, s) job).2.budget 0 ∧
      C.staged.closes (Stage.close (stage, s) job).1 = C.staged.closes (stage, s) + 1 := by
  obtain ⟨hstate, hopen⟩ := hopen
  obtain ⟨-, hnone⟩ := Operator.clears_release stage.operator job.budget
  have hreleased := (C.step_release stage.operator s job).moves
  have hheld : C.feeding.held ((job.giveBack Operator.release stage.operator).1, s) = C.held s := by
    show (stage.operator.release job.budget).1.held + C.held s = C.held s
    rw [hnone, Nat.zero_add]
  rw [hheld] at hreleased
  obtain ⟨hmoves, hcloses⟩ :=
    C.close_spec s (job.giveBack Operator.release stage.operator).2 hopen
  simp only [Stage.close, hstate, if_false]
  exact ⟨hreleased.trans hmoves, hcloses⟩

/-- **A stage over an iterator with custody has custody** of what both hold. -/
def stage : Custody (Stage × σ) where
  toWatch := C.staged
  moveNext_spec := fun (stage, s) => C.stage_moveNext stage s
  load_spec := fun (stage, s) => C.stage_load stage s
  close_spec := fun (stage, s) => C.stage_close stage s

end Custody

/-! ## Sources

Sources of the engine account nothing. Their closes are counted one layer above. -/

/-- A source that gives back what it accounts when it is closed. Nothing is said of how often that
is. -/
structure SourceCustody (β : Type) [BatchIterator β] where
  held : β → Nat
  moveNext_spec (s : β) (job : Job) :
    let p := StepResult.left (BatchIterator.moveNext (s, job))
    Budget.Moves job.budget (held s) p.2.budget (held p.1)
  load_spec (s : β) (job : Job) :
    let p := StepResult.left (BatchIterator.load (s, job))
    Budget.Moves job.budget (held s) p.2.budget (held p.1)
  close_spec (s : β) (job : Job) :
    Budget.Moves job.budget (held s) (BatchIterator.close s job).2.budget 0

namespace Source

theorem job_moveNext (s : Source) (job : Job) :
    (StepResult.left (BatchIterator.moveNext (s, job))).2 = job := by
  show (StepResult.left (moveNext (s, job))).2 = job
  cases s with
  | memory s =>
    simp only [moveNext, StepResult.left_within, BatchIterator.moveNext, MemorySource.moveNext]
    split
    · rfl
    · split <;> rfl
  | failing s =>
    simp only [moveNext, StepResult.left_within, BatchIterator.moveNext, FailingSource.moveNext]
    split
    · rfl
    · split <;> rfl
  | channel s =>
    simp only [moveNext, StepResult.left_within, BatchIterator.moveNext, MailboxSource.moveNext]
    split
    · rfl
    · rfl
    · split <;> rfl

theorem job_load (s : Source) (job : Job) :
    (StepResult.left (BatchIterator.load (s, job))).2 = job := by
  show (StepResult.left (load (s, job))).2 = job
  cases s with
  | memory s =>
    simp only [load, StepResult.left_within, BatchIterator.load, MemorySource.load]
    split
    · rfl
    · split <;> rfl
  | failing s =>
    simp only [load, StepResult.left_within, BatchIterator.load, FailingSource.load]
    split <;> rfl
  | channel s =>
    simp only [load, StepResult.left_within, BatchIterator.load, MailboxSource.load]
    split
    · rfl
    · split
      · rfl
      · rw [ChannelSource.receive_eq]
        split
        · rfl
        · rfl
        · split <;> rfl

/-- The sources of the engine account nothing. -/
def custody : SourceCustody Source where
  held _ := 0
  moveNext_spec s job := by
    show Budget.Moves job.budget 0 (StepResult.left (BatchIterator.moveNext (s, job))).2.budget 0
    rw [job_moveNext]
    exact .refl job.budget 0
  load_spec s job := by
    show Budget.Moves job.budget 0 (StepResult.left (BatchIterator.load (s, job))).2.budget 0
    rw [job_load]
    exact .refl job.budget 0
  close_spec s job := by
    cases s <;> exact .refl job.budget 0

end Source

namespace SourceCustody

variable {β : Type} [BatchIterator β] (A : SourceCustody β)

/-- A counted source can be closed at any time, and counts that. -/
def watch : Watch (Counted β) where
  held s := A.held s.source
  closes s := s.closes
  isOpen _ := True

/-- **A counted source has custody** of what its source holds. -/
def counted : Custody (Counted β) where
  toWatch := A.watch
  moveNext_spec s job := by
    have hmoves := A.moveNext_spec s.source job
    show A.watch.Step s job (StepResult.left (Counted.moveNext (s, job)))
    unfold Counted.moveNext
    rcases hrun : BatchIterator.moveNext (s.source, job) with ⟨b, t, job'⟩ | ⟨e, t, job'⟩ <;>
    · rw [hrun] at hmoves
      simp only [hrun]
      exact ⟨hmoves, rfl, id⟩
  load_spec s job := by
    have hmoves := A.load_spec s.source job
    show A.watch.Step s job (StepResult.left (Counted.load (s, job)))
    rw [Counted.load, StepResult.left_within]
    exact ⟨hmoves, rfl, id⟩
  close_spec s job _ := ⟨A.close_spec s.source job, rfl⟩

end SourceCustody

/-! ## Chains

Induction on the number of stages. Closing goes down to the source once, through stages that are
open. -/

namespace Chain

variable {β : Type} [BatchIterator β]

/-- **A chain over an iterator with custody has custody**, stage by stage. -/
def custody (C : Custody β) : (n : Nat) → Custody (Chain β n)
  | 0 => C
  | n + 1 => (custody C n).stage

theorem closes_custody (C : Custody β) {n : Nat} (c : Chain β n) :
    (custody C n).closes c = C.closes c.source := by
  induction n with
  | zero => rfl
  | succ n ih => exact ih c.2

/-- What reaches the source from outside moves nothing in the stages. -/
theorem custody_modifySource (C : Custody β) {f : β → β} (hheld : ∀ s, C.held (f s) = C.held s)
    (hcloses : ∀ s, C.closes (f s) = C.closes s) (hopen : ∀ s, C.isOpen s → C.isOpen (f s)) {n : Nat}
    (c : Chain β n) : (custody C n).held (c.modifySource f) = (custody C n).held c ∧
      (custody C n).closes (c.modifySource f) = (custody C n).closes c ∧
      ((custody C n).isOpen c → (custody C n).isOpen (c.modifySource f)) := by
  induction n with
  | zero => exact ⟨hheld c, hcloses c, hopen c⟩
  | succ n ih =>
    obtain ⟨stage, inner⟩ := c
    obtain ⟨hinner, hcount, hstill⟩ := ih inner
    exact ⟨congrArg (stage.operator.held + ·) hinner, hcount, fun h => ⟨h.1, hstill h.2⟩⟩

/-- Fresh stages of operators that hold nothing can be closed and hold nothing more than their
source. -/
theorem custody_build (C : Custody β) (source : β) (hopen : C.isOpen source) {ops : List Operator}
    (hops : ∀ op ∈ ops, op.held = 0) :
    (custody C ops.length).held (build source ops) = C.held source ∧
      (custody C ops.length).isOpen (build source ops) := by
  induction ops with
  | nil => exact ⟨rfl, hopen⟩
  | cons op ops ih =>
    obtain ⟨hheld, hstill⟩ := ih fun op hop => hops op (List.mem_cons_of_mem _ hop)
    refine ⟨?_, nofun, hstill⟩
    show op.held + (custody C ops.length).held (build source ops) = C.held source
    rw [hops op List.mem_cons_self, hheld, Nat.zero_add]

end Chain

/-! ## Pulling

The chain and the consumer are watched side by side while rows go from one to the other. By
induction on the rows of a page, and then on the pages. -/

/-- A consumer that gives back what it accounts. -/
structure ConsumerCustody (κ : Type) [RowConsumer κ] where
  held : κ → Nat
  accept_spec (row : Row) (k : κ) (job : Job) :
    let p := StepResult.left (RowConsumer.accept row (k, job))
    Budget.Moves job.budget (held k) p.2.budget (held p.1)
  release_spec (k : κ) (job : Job) :
    Budget.Moves job.budget (held k) (RowConsumer.release k job).2.budget 0

namespace ResultSet

def held (r : ResultSet) : Nat := r.scope.held

theorem keeps_add (row : Row) : (add row).Keeps held := by
  refine Metered.Keeps.bind (Metered.keeps_read held _) fun bytes => ?_
  refine Metered.Keeps.bind ?_ fun _ => Metered.keeps_modifyState fun _ => rfl
  exact (Scope.keeps_charge bytes).zoom_all (fun _ => rfl) fun _ _ => rfl

def custody : ConsumerCustody ResultSet where
  held := held
  accept_spec row k job := (keeps_add row).spend k job
  release_spec k job := (k.scope.clears_release job.budget).1

end ResultSet

namespace Custody

variable {σ κ : Type} [BatchIterator σ] [RowConsumer κ] (C : Custody σ) (K : ConsumerCustody κ)

/-- An iterator beside the consumer of its rows. -/
def pulling : Watch (σ × κ) := C.toWatch.along Prod.fst fun p => K.held p.2

theorem pull_moveNext {s s' : σ} (k : κ) {job job' : Job}
    (h : StepResult.left (BatchIterator.moveNext (s, job)) = (s', job')) :
    (C.pulling K).Step (s, k) job ((s', k), job') := by
  have hstep := C.moveNext_spec s job
  rw [h] at hstep
  refine Watch.Step.inner ?_ rfl
  exact hstep

/-- The iterator steps to a row and the consumer takes it. -/
theorem pull_accept {row : Row} {s s' : σ} {k k' : κ} {job job' job'' : Job}
    (hmove : StepResult.left (BatchIterator.moveNext (s, job)) = (s', job'))
    (haccept : StepResult.left (RowConsumer.accept row (k, job')) = (k', job'')) :
    (C.pulling K).Step (s, k) job ((s', k'), job'') := by
  have haccepted := K.accept_spec row k job'
  rw [haccept] at haccepted
  exact (C.pull_moveNext K k hmove).trans (Watch.Step.outer haccepted rfl)

theorem pullPage_spec (s : σ) (k : κ) (job : Job) :
    (C.pulling K).Step (s, k) job (StepResult.left (pullPage s k job)) := by
  -- on the rows of the page: the job is killed, the iterator fails or has none, or the consumer fails
  -- or goes on
  fun_induction pullPage s k job with
  | case1 s k job e hkill => exact .refl _ (s, k) job
  | case2 s k job hkill e s' job' hmove =>
    exact C.pull_moveNext K k (congrArg StepResult.left hmove)
  | case3 s k job hkill s' job' hmove =>
    exact C.pull_moveNext K k (congrArg StepResult.left hmove)
  | case4 s k job hkill s' job' hmove e k' job'' haccept =>
    exact C.pull_accept K (congrArg StepResult.left hmove) (congrArg StepResult.left haccept)
  | case5 s k job hkill s' job' hmove k' job'' haccept ih =>
    exact (C.pull_accept K (congrArg StepResult.left hmove)
      (congrArg StepResult.left haccept)).trans ih

theorem request_spec {s s' : σ} (k : κ) {job job' : Job}
    (h : StepResult.left (request (s, job)) = (s', job')) :
    (C.pulling K).Step (s, k) job ((s', k), job') := by
  have hstep : C.Step s job (StepResult.left (request (s, job))) := by
    unfold request
    simp only
    split
    · exact .refl _ s job
    · exact C.load_spec s job
  rw [h] at hstep
  refine Watch.Step.inner ?_ rfl
  exact hstep

theorem pull_page {s s' : σ} {k k' : κ} {job job' : Job}
    (h : StepResult.left (pullPage s k job) = ((s', k'), job')) :
    (C.pulling K).Step (s, k) job ((s', k'), job') := by
  have hstep := C.pullPage_spec K s k job
  rw [h] at hstep
  exact hstep

/-- **Rows are pulled** until there are none, or somebody has to wait or fails, or the job is
killed. -/
theorem pull_spec (s : σ) (k : κ) (job : Job) :
    (C.pulling K).Step (s, k) job (StepResult.left (pull s k job)) := by
  fun_induction pull s k job with
  | case1 s k job e t l job' hpage => exact C.pull_page K (congrArg StepResult.left hpage)
  | case2 s k job t l job' hpage => exact C.pull_page K (congrArg StepResult.left hpage)
  | case3 s k job t l job' hpage _ e t' job'' hload =>
    exact (C.pull_page K (congrArg StepResult.left hpage)).trans
      (C.request_spec K l (congrArg StepResult.left hload))
  | case4 s k job t l job' hpage _ t' job'' hload =>
    exact (C.pull_page K (congrArg StepResult.left hpage)).trans
      (C.request_spec K l (congrArg StepResult.left hload))
  | case5 s k job t l job' hpage _ t' job'' hload ih =>
    exact ((C.pull_page K (congrArg StepResult.left hpage)).trans
      (C.request_spec K l (congrArg StepResult.left hload))).trans ih

theorem resume_spec (s : σ) (k : κ) (job : Job) :
    (C.pulling K).Step (s, k) job (StepResult.left (resume s k job)) := by
  unfold resume
  split <;> rename_i hload
  · exact C.request_spec K k (congrArg StepResult.left hload)
  · exact C.request_spec K k (congrArg StepResult.left hload)
  · exact (C.request_spec K k (congrArg StepResult.left hload)).trans (C.pull_spec K _ k _)

end Custody

end RowStream
