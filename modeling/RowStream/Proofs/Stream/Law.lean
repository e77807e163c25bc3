import RowStream.Proofs.Memory.Refusal
import RowStream.Proofs.Stream.Pull
import RowStream.Proofs.Stream.Release
import RowStream.Stream.Chain
import RowStream.Stream.Source
import RowStream.Stream.Source.Counted

/-!
# Laws of steps

All that stages, chains and drives do of themselves is to look at the kill switch, to go on after a row,
and to give back memory after an error. A property of steps that is kept by these is kept by all of
them: it holds of a whole chain once it holds of the source and of the operators.

* `StepLaw` — such a property, with the rules that make it one.
* `LawfulIterator` — iterators all of whose steps have the property: `LawfulIterator.stage` for stages,
  `Chain.lawful` for chains of any length.
* `LawfulIterator.pull`, `resume` — pulling, wherever it ends.
* `StillIterator` — iterators that leave the job alone, and so keep every law: `Source.still` for the
  sources of the engine.
-/

namespace RowStream

/-! ## Laws

A law is a property of steps that is kept by what stages, chains and drives add to the steps of
their parts. What is done on the way out has a property of its own, as it cannot fail. -/

/-- A property of the steps of a job, and one of what is done on the way out, which does not fail. -/
structure StepLaw where
  Step : {σ α : Type} → JobStep σ α → Prop
  Exit : {τ : Type} → (Job → τ × Job) → Prop
  /-- Steps that leave the job alone. -/
  still {σ α : Type} {m : JobStep σ α} {r : Except OpError α} {t : σ} (hr : Unrefused r)
    (h : ∀ job, m job = StepResult.of r t job) : Step m
  within {σ τ α : Type} {m : JobStep σ α} (hm : Step m) (whole : σ → τ) :
    Step fun job => StepResult.within whole (m job)
  /-- Going on and cleaning up. Only what the first step can come to counts. -/
  andThen {σ τ α β : Type} {m : JobStep σ α} {next : α → σ → JobStep τ β}
    {fail : OpError → σ → Job → τ × Job} (hm : Step m)
    (hnext : ∀ {a t job job'}, m job = .ok a (t, job') → Step (next a t))
    (hfail : ∀ e s, Exit (fail e s)) :
    Step fun job => (m job).andThen next fun e s job => .error e (fail e s job)
  unlessKilled {σ α : Type} {m : JobStep σ α} (hm : Step m) (s : σ) : Step fun job =>
    match job.kill.check with
    | .error e => .error e (s, job)
    | .ok () => m job
  killed {σ α : Type} {m : JobStep σ α} (hm : Step m) (reason : String) :
    Step fun job => m { job with kill := job.kill.kill reason }
  take (row : Row) (op : Operator) : Step fun job => Running.spend (Operator.take row) (op, job)
  showNext (op : Operator) : Step fun job => Running.spend Operator.showNext (op, job)
  conclude (op : Operator) : Step fun job => Running.spend Operator.conclude (op, job)
  stay {τ : Type} (t : τ) : Exit fun job => (t, job)
  giveBack {σ : Type} {release : σ → Budget → σ × Budget} {s : σ} (h : GivesBack (release s)) :
    Exit fun job => job.giveBack release s
  exitThen {σ τ : Type} {f : Job → σ × Job} {g : σ → Job → τ × Job} (hf : Exit f)
    (hg : ∀ s, Exit (g s)) : Exit fun job => g (f job).1 (f job).2
  exitOk {τ α : Type} {f : Job → τ × Job} (hf : Exit f) (a : α) : Step fun job => .ok a (f job)

namespace StepLaw

variable (L : StepLaw) {σ τ α : Type}

theorem ok (a : α) (s : σ) : L.Step fun job => .ok a (s, job) :=
  L.still (unrefused_ok a) fun _ => rfl

theorem exitMap {f : Job → σ × Job} (hf : L.Exit f) (whole : σ → τ) :
    L.Exit fun job => (whole (f job).1, (f job).2) :=
  L.exitThen hf fun s => L.stay (whole s)

end StepLaw

/-! ## Iterators

A law goes from a source to a chain over it and to pulling. It is proved once here, and once for
each law that it is one. -/

/-- The rows of a counted source are counted when they are handed out. -/
theorem Counted.moveNext_eq {σ : Type} [BatchIterator σ] (s : Counted σ) :
    (fun job => BatchIterator.moveNext (s, job)) = fun job =>
      StepResult.andThen (BatchIterator.moveNext (s.source, job))
        (fun more source job => .ok more ({ s with source, rows := s.rows + more.toNat }, job))
        fun e source job => .error e ({ s with source }, job) := by
  funext job
  show Counted.moveNext (s, job) = _
  simp only [Counted.moveNext]
  rcases BatchIterator.moveNext (s.source, job) with ⟨more, t, job'⟩ | ⟨e, t, job'⟩ <;> rfl

/-- An iterator whose steps keep a law. -/
structure LawfulIterator (L : StepLaw) (σ : Type) [BatchIterator σ] : Prop where
  moveNext (s : σ) : L.Step fun job => BatchIterator.moveNext (s, job)
  load (s : σ) : L.Step fun job => BatchIterator.load (s, job)
  close (s : σ) : L.Exit (BatchIterator.close s)

/-- A consumer that keeps a law. -/
structure LawfulConsumer (L : StepLaw) (κ : Type) [RowConsumer κ] : Prop where
  accept (row : Row) (k : κ) : L.Step fun job => RowConsumer.accept row (k, job)
  release (k : κ) : L.Exit (RowConsumer.release k)

namespace LawfulIterator

variable {L : StepLaw} {σ κ : Type} [BatchIterator σ] [RowConsumer κ] (S : LawfulIterator L σ)

/-! ### Stages

The induction is on the rows that the source still has ready, as the stage takes rows. -/

include S in
/-- **Rows are taken** from the source until the operator shows one, or either of them fails. -/
theorem step_feed (op : Operator) (s : σ) : L.Step (Stage.feed op s) := by
  -- induction on the rows that are left in the source
  induction hn : BatchIterator.ready s using Nat.strongRecOn generalizing op s with
  | ind n ih =>
    rw [Stage.feed_eq]
    refine L.andThen (S.moveNext s) (fun {more t job job'} hmove => ?_) fun _ t => L.stay (op, t)
    cases more with
    | false => exact L.ok false (op, t)
    | true =>
      refine L.andThen (L.take (BatchIterator.current t) op) (fun {shown op' _ _} _ => ?_)
        fun _ op' => L.stay (op', t)
      cases shown with
      | true => exact L.ok true (op', t)
      | false => exact ih _ (hn ▸ BatchIterator.ready_lt_of_moveNext hmove) op' t rfl

include S in
theorem step_advance (op : Operator) (s : σ) : L.Step (Stage.advance op s) := by
  cases hop : op.isComplete with
  | true =>
    have hadvance : Stage.advance op s = fun job =>
        StepResult.within (·, s) (Running.spend Operator.showNext (op, job)) := by
      funext job
      simp [Stage.advance, hop]
    rw [hadvance]
    exact L.within (L.showNext op) (·, s)
  | false =>
    rw [Stage.advance_eq hop]
    refine L.andThen (S.step_feed op s) (fun {shown p _ _} _ => ?_) fun _ p => L.stay p
    by_cases hend : shown = false ∧ BatchIterator.allLoaded p.2 = true
    · simp only [hend, and_self, if_true]
      exact L.within (L.conclude p.1) (·, p.2)
    · simp only [hend, if_false]
      exact L.ok shown p

omit [BatchIterator σ] in
/-- A stage that fails gives back what its operator holds. -/
theorem exit_fail (op : Operator) (s : σ) :
    L.Exit fun job => (((Stage.fail op job).1, s), (Stage.fail op job).2) :=
  L.exitMap (L.giveBack op.givesBack_release) fun op => (Stage.mk op .failed, s)

include S in
theorem step_moveNext (stage : Stage) (s : σ) :
    L.Step fun job => Stage.moveNext ((stage, s), job) := by
  by_cases hopen : stage.IsOpen
  · rw [Stage.moveNext_eq hopen]
    refine L.andThen (S.step_advance stage.operator s) (fun {shown p _ _} _ => ?_) fun _ p => ?_
    · exact L.ok shown _
    · exact exit_fail p.1 p.2
  · obtain ⟨op, state⟩ := stage
    cases state with
    | closed => exact L.still unrefused_closed fun _ => rfl
    | failed => exact L.still (unrefused_contract _) fun _ => rfl
    | _ => exact absurd ⟨nofun, nofun⟩ hopen

include S in
theorem step_load (stage : Stage) (s : σ) : L.Step fun job => Stage.load ((stage, s), job) := by
  by_cases hclosed : stage.state = .closed
  · exact L.still (t := (stage, s)) unrefused_closed fun _ => by
      simp [Stage.load, hclosed, StepResult.of]
  · cases hop : stage.operator.isComplete with
    | true =>
      exact L.still (t := (stage, s)) (unrefused_contract stage.operator.loadFault) fun _ => by
        simp [Stage.load, hclosed, hop, StepResult.of]
    | false =>
      -- also a stage that has failed asks its source
      have hload : (fun job => Stage.load ((stage, s), job)) = fun job =>
          StepResult.andThen (BatchIterator.load (s, job))
            (fun progress s job => .ok progress ((stage, s), job))
            fun e s job => .error e (((Stage.fail stage.operator job).1, s),
              (Stage.fail stage.operator job).2) := by
        funext job
        simp only [Stage.load, hclosed, hop]
        rcases BatchIterator.load (s, job) with ⟨progress, t, job'⟩ | ⟨e, t, job'⟩ <;> rfl
      rw [hload]
      exact L.andThen (S.load s) (fun {progress t _ _} _ => L.ok progress (stage, t))
        fun _ t => exit_fail stage.operator t

include S in
theorem exit_close (stage : Stage) (s : σ) : L.Exit (Stage.close (stage, s)) := by
  by_cases hclosed : stage.state = .closed
  · have hstay : Stage.close (stage, s) = fun job => ((stage, s), job) := by
      funext job
      simp [Stage.close, hclosed]
    rw [hstay]
    exact L.stay (stage, s)
  · have hclose := L.exitThen (L.giveBack stage.operator.givesBack_release) fun op =>
      L.exitMap (S.close s) (Prod.mk (Stage.mk op .closed))
    unfold Stage.close
    simp only [hclosed, if_false]
    exact hclose

include S in
/-- **A stage over a lawful iterator is lawful.** -/
theorem stage : LawfulIterator L (Stage × σ) where
  moveNext p := S.step_moveNext p.1 p.2
  load p := S.step_load p.1 p.2
  close p := S.exit_close p.1 p.2

include S in
/-- Keeping count of what is asked of an iterator keeps the law. -/
theorem counted : LawfulIterator L (Counted σ) where
  moveNext s := by
    rw [s.moveNext_eq]
    exact L.andThen (S.moveNext s.source) (fun {more t _ _} _ => L.ok more _) fun _ _ => L.stay _
  load s := L.within (S.load s.source) _
  close s := L.exitMap (S.close s.source) fun source => { s with source, closes := s.closes + 1 }

/-! ### Pulling

Two loops, and an induction for each: on the rows that are ready, and on the pages that are left. -/

variable (K : LawfulConsumer L κ)

include S K in
theorem pullPage (s : σ) (k : κ) : L.Step (RowStream.pullPage s k) := by
  -- induction on the rows that are left in the iterator
  induction hn : BatchIterator.ready s using Nat.strongRecOn generalizing s k with
  | ind n ih =>
    rw [pullPage_eq]
    refine L.unlessKilled ?_ (s, k)
    refine L.andThen (S.moveNext s) (fun {more t job job'} hmove => ?_) fun _ t => L.stay (t, k)
    cases more with
    | false => exact L.ok () (t, k)
    | true =>
      refine L.andThen (K.accept (BatchIterator.current t) k) (fun {_ l _ _} _ => ?_) fun _ l =>
        L.stay (t, l)
      exact ih _ (hn ▸ BatchIterator.ready_lt_of_moveNext hmove) t l rfl

include S in
/-- Resuming, once it is known of all pages that pulling goes through next. -/
theorem resume_of_pull (s : σ) (k : κ)
    (hpull : ∀ t : σ, BatchIterator.pages t < BatchIterator.pages s → L.Step (RowStream.pull t k)) :
    L.Step (RowStream.resume s k) := by
  rw [resume_eq]
  refine L.unlessKilled ?_ (s, k)
  refine L.andThen (S.load s) (fun {load t job job'} hload => ?_) fun _ t => L.stay (t, k)
  cases load with
  | ready => exact hpull t (BatchIterator.pages_of_load hload)
  | pending => exact L.ok Pulled.suspended (t, k)

include S K in
/-- **Pulling** keeps the law, wherever it ends. -/
theorem pull (s : σ) (k : κ) : L.Step (RowStream.pull s k) := by
  -- induction on the pages that can still be loaded
  induction hn : BatchIterator.pages s using Nat.strongRecOn generalizing s k with
  | ind n ih =>
    rw [pull_eq]
    refine L.andThen (S.pullPage K s k) (fun {_ p job job'} hpage => ?_) fun _ p => L.stay p
    obtain ⟨t, l⟩ := p
    cases hloaded : BatchIterator.allLoaded t with
    | true =>
      simp only [if_true]
      exact L.ok Pulled.exhausted (t, l)
    | false =>
      simp only [Bool.false_eq_true, if_false]
      refine S.resume_of_pull t l fun u hlt => ih _ ?_ u l rfl
      exact hn ▸ Nat.lt_of_lt_of_le hlt (pages_of_pullPage hpage)

include S K in
theorem resume (s : σ) (k : κ) : L.Step (RowStream.resume s k) :=
  S.resume_of_pull s k fun t _ => S.pull K t k

end LawfulIterator

/-- **A chain over a lawful iterator is lawful**, stage by stage. -/
theorem Chain.lawful {L : StepLaw} {β : Type} [BatchIterator β] (S : LawfulIterator L β) :
    (n : Nat) → LawfulIterator L (Chain β n)
  | 0 => S
  | n + 1 => (Chain.lawful S n).stage

/-! ## Sources

The sources of the engine leave the job alone, which is enough for any law. -/

/-- An iterator that leaves the job alone. -/
structure StillIterator (σ : Type) [BatchIterator σ] : Prop where
  moveNext (s : σ) : ∃ r t, Unrefused r ∧
    ∀ job, BatchIterator.moveNext (s, job) = StepResult.of r t job
  load (s : σ) : ∃ r t, Unrefused r ∧ ∀ job, BatchIterator.load (s, job) = StepResult.of r t job
  close (s : σ) : ∃ t, ∀ job, BatchIterator.close s job = (t, job)

/-- It keeps every law. -/
theorem StillIterator.lawful {L : StepLaw} {σ : Type} [BatchIterator σ] (S : StillIterator σ) :
    LawfulIterator L σ where
  moveNext s := by
    obtain ⟨r, t, hr, hmove⟩ := S.moveNext s
    exact L.still hr hmove
  load s := by
    obtain ⟨r, t, hr, hload⟩ := S.load s
    exact L.still hr hload
  close s := by
    obtain ⟨t, hclose⟩ := S.close s
    rw [funext hclose]
    exact L.stay t

theorem MemorySource.still : StillIterator MemorySource where
  moveNext s := by
    by_cases hclosed : s.state = .closed
    · exact ⟨.error .closed, s, unrefused_closed, fun _ => if_pos hclosed⟩
    · obtain ⟨pageSize, _ | ⟨row, page⟩, rest, current, state, hsize⟩ := s
      · exact ⟨.ok false, _, unrefused_ok false, fun _ => if_neg hclosed⟩
      · exact ⟨.ok true, _, unrefused_ok true, fun _ => if_neg hclosed⟩
  load s := by
    by_cases hclosed : s.state = .closed
    · exact ⟨.error .closed, s, unrefused_closed, fun _ => if_pos hclosed⟩
    · by_cases hloaded : s.allLoaded = true
      · exact ⟨.error (.contract .allLoaded), s, unrefused_contract _, fun _ =>
          (if_neg hclosed).trans (if_pos hloaded)⟩
      · exact ⟨.ok .ready, _, unrefused_ok _, fun _ => (if_neg hclosed).trans (if_neg hloaded)⟩
  close _ := ⟨_, fun _ => rfl⟩

theorem FailingSource.still : StillIterator FailingSource where
  moveNext s := by
    by_cases hclosed : s.state = .closed
    · exact ⟨.error .closed, s, unrefused_closed, fun _ => if_pos hclosed⟩
    · obtain ⟨_ | ⟨row, rows⟩, reason, current, state⟩ := s
      · exact ⟨.ok false, _, unrefused_ok false, fun _ => if_neg hclosed⟩
      · exact ⟨.ok true, _, unrefused_ok true, fun _ => if_neg hclosed⟩
  load s := by
    by_cases hclosed : s.state = .closed
    · exact ⟨.error .closed, s, unrefused_closed, fun _ => if_pos hclosed⟩
    · exact ⟨.error (.sourceFailed s.reason), _, unrefused_sourceFailed s.reason, fun _ => if_neg hclosed⟩
  close _ := ⟨_, fun _ => rfl⟩

theorem ChannelSource.still : StillIterator ChannelSource where
  moveNext s := by
    obtain ⟨channel, page, current, finished, state⟩ := s
    cases state with
    | closed => exact ⟨.error .closed, _, unrefused_closed, fun _ => rfl⟩
    | failed => exact ⟨_, _, unrefused_contract (.pulledAfterFailure "source"), fun _ => rfl⟩
    | _ =>
      cases page with
      | nil => exact ⟨.ok false, _, unrefused_ok false, fun _ => rfl⟩
      | cons row page => exact ⟨.ok true, _, unrefused_ok true, fun _ => rfl⟩
  load s := by
    by_cases hclosed : s.state = .closed
    · exact ⟨.error .closed, s, unrefused_closed, fun _ => if_pos hclosed⟩
    · by_cases hfinished : s.finished = true
      · exact ⟨.error (.contract .allLoaded), s, unrefused_contract _, fun _ =>
          (if_neg hclosed).trans (if_pos hfinished)⟩
      · have hload : ∀ job, BatchIterator.load (s, job) = MailboxSource.receive (s, job) := fun _ =>
          (if_neg hclosed).trans (if_neg hfinished)
        simp only [hload, ChannelSource.receive_eq]
        obtain ⟨⟨capacity, _ | ⟨_ | _, queue⟩, producers, isOpen⟩, page, current, finished, state⟩ := s
        · by_cases hleft : producers = 0
          · exact ⟨.ok .ready, _, unrefused_ok _, fun _ => if_pos hleft⟩
          · exact ⟨.ok .pending, _, unrefused_ok _, fun _ => if_neg hleft⟩
        · exact ⟨.ok .ready, _, unrefused_ok _, fun _ => rfl⟩
        · exact ⟨.error (.sourceFailed _), _, unrefused_sourceFailed _, fun _ => rfl⟩
  close _ := ⟨_, fun _ => rfl⟩

/-- What leaves the job alone leaves it alone as a part. -/
theorem JobStep.still_within {σ τ α : Type} {m : JobStep σ α} (whole : σ → τ)
    (h : ∃ r t, Unrefused r ∧ ∀ job, m job = StepResult.of r t job) :
    ∃ r t, Unrefused r ∧ ∀ job, StepResult.within whole (m job) = StepResult.of r t job := by
  obtain ⟨r, t, hr, hm⟩ := h
  refine ⟨r, whole t, hr, fun job => ?_⟩
  rw [hm]
  cases r <;> rfl

/-- **The sources of the engine** leave the job alone. -/
theorem Source.still : StillIterator Source where
  moveNext
    | memory s => JobStep.still_within memory (MemorySource.still.moveNext s)
    | failing s => JobStep.still_within failing (FailingSource.still.moveNext s)
    | channel s => JobStep.still_within channel (ChannelSource.still.moveNext s)
  load
    | memory s => JobStep.still_within memory (MemorySource.still.load s)
    | failing s => JobStep.still_within failing (FailingSource.still.load s)
    | channel s => JobStep.still_within channel (ChannelSource.still.load s)
  close
    | memory _ => ⟨_, fun _ => rfl⟩
    | failing _ => ⟨_, fun _ => rfl⟩
    | channel _ => ⟨_, fun _ => rfl⟩

end RowStream
