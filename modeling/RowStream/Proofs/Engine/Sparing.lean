import Mathlib.Data.List.ReduceOption
import RowStream.Proofs.Engine.Custody
import RowStream.Proofs.Stream.Oblivious

/-!
# Kills while a job works

A job may be killed whenever its source or its consumer works. Sources, stages and consumers do not look at
the kill switch themselves: but for the switch, each call leaves what it leaves where nobody kills the job.
The switch remembers the first of the kills that came during the calls of the source.

* `KillingSource` — a source during whose calls the job is killed, as `Interrupted` is a consumer.
* `JobStep.Heedless` — steps that do not look at the switch, and `Source.heedless`.
* `JobStep.Spared` — a step with kills and the same without, and its rules.
* `Sparing` — iterators all of whose steps are such steps: `Sparing.stage`, `Chain.sparing`.
-/

namespace RowStream

/-! ## Kills, one after the other

A switch is flipped by any number of kills, of which it remembers the first. Each call of a source
takes the next entry of a list that says whether the job is killed during it; so any schedule of
kills is covered. -/

/-- The switch after some calls, during each of which somebody kills the job, or nobody. -/
def KillSwitch.strike (k : KillSwitch) (kills : List (Option String)) : KillSwitch :=
  kills.foldl (fun k reason => reason.elim k k.kill) k

/-- **The first reason stays.** -/
theorem KillSwitch.reason_strike (k : KillSwitch) (kills : List (Option String)) :
    (k.strike kills).reason = k.reason.or kills.reduceOption.head? := by
  induction kills generalizing k with
  | nil => simp [strike]
  | cons reason kills ih =>
    show ((reason.elim k k.kill).strike kills).reason = _
    rw [ih]
    cases reason with
    | none => rfl
    -- a kill counts only where there is no reason yet
    | some reason => cases hk : k.reason <;> simp [hk]

theorem KillSwitch.strike_append (k : KillSwitch) (kills later : List (Option String)) :
    k.strike (kills ++ later) = (k.strike kills).strike later :=
  List.foldl_append

namespace Job

/-- The job, if nobody had killed it. -/
def spared (job : Job) : Job := { job with kill := .new }

@[simp] theorem spared_interrupt (reason : Option String) (job : Job) :
    (job.interrupt reason).spared = job.spared := by
  cases reason <;> rfl

theorem kill_interrupt (reason : Option String) (job : Job) :
    (job.interrupt reason).kill = job.kill.strike [reason] := by
  cases reason <;> rfl

end Job

/-- A source, and for each call of it whether the job is killed meanwhile. -/
structure KillingSource (β : Type) where
  source : β
  kills : List (Option String)

namespace KillingSource

variable {β : Type}

/-- Works on the source from outside. -/
def modify (f : β → β) (s : KillingSource β) : KillingSource β := { s with source := f s.source }

variable [BatchIterator β]

def moveNext : Running (KillingSource β) Bool := fun (s, job) =>
  StepResult.within (fun source => ⟨source, s.kills.tail⟩)
    (BatchIterator.moveNext (s.source, job.interrupt (s.kills.headD none)))

def load : Running (KillingSource β) Load := fun (s, job) =>
  StepResult.within (fun source => ⟨source, s.kills.tail⟩)
    (BatchIterator.load (s.source, job.interrupt (s.kills.headD none)))

instance : BatchIterator (KillingSource β) where
  moveNext := moveNext
  current s := BatchIterator.current s.source
  allLoaded s := BatchIterator.allLoaded s.source
  load := load
  close s job := (BatchIterator.close s.source job).map (fun source => { s with source }) id
  discard s job := (BatchIterator.discard s.source job).map (fun source => { s with source }) id
  state s := BatchIterator.state s.source
  ready s := BatchIterator.ready s.source
  pages s := BatchIterator.pages s.source
  ready_of_moveNext h := by
    obtain ⟨source, hs, rfl⟩ := StepResult.within_eq_ok h
    exact BatchIterator.ready_of_moveNext hs
  pages_of_moveNext h := by
    obtain ⟨source, hs, rfl⟩ := StepResult.within_eq_ok h
    exact BatchIterator.pages_of_moveNext hs
  pages_of_load h := by
    obtain ⟨source, hs, rfl⟩ := StepResult.within_eq_ok h
    exact BatchIterator.pages_of_load hs

end KillingSource

/-! ## Steps that do not look at the switch

Who looks at the switch is only whoever pulls. That a step does not look at it is said by commuting:
with another switch it does the same and leaves the other switch. -/

/-- A step that neither looks at the kill switch nor flips it. -/
def JobStep.Heedless {σ α : Type} (m : JobStep σ α) : Prop :=
  ∀ kill job, m { job with kill } = (m job).mapShared fun job => { job with kill }

namespace JobStep

variable {σ τ α : Type} {m : JobStep σ α}

theorem Heedless.kill_left (hm : m.Heedless) (job : Job) :
    (StepResult.left (m job)).2.kill = job.kill := by
  -- the step is compared with itself under the switch that it has already
  rw [show m job = _ from hm job.kill job]
  rcases m job with ⟨a, t, job'⟩ | ⟨e, t, job'⟩ <;> rfl

theorem heedless_spend (c : Metered.Op σ α) (s : σ) :
    JobStep.Heedless fun job => Running.spend c (s, job) := fun kill job => by
  simp only [Running.spend]
  rcases c (s, job.budget) with ⟨a, t, b⟩ | ⟨e, t, b⟩ <;> rfl

end JobStep

/-- An iterator that does not look at the kill switch when it is asked for something. -/
structure HeedlessIterator (σ : Type) [BatchIterator σ] : Prop where
  moveNext (s : σ) : JobStep.Heedless fun job => BatchIterator.moveNext (s, job)
  load (s : σ) : JobStep.Heedless fun job => BatchIterator.load (s, job)

/-- A consumer that does not look at the kill switch when it takes a row. -/
structure HeedlessConsumer (κ : Type) [RowConsumer κ] : Prop where
  accept (row : Row) (k : κ) : JobStep.Heedless fun job => RowConsumer.accept row (k, job)

theorem StillIterator.heedless {σ : Type} [BatchIterator σ] (S : StillIterator σ) :
    HeedlessIterator σ where
  moveNext s kill job := by
    obtain ⟨r, t, -, hmove⟩ := S.moveNext s
    simp only [hmove]
    cases r <;> rfl
  load s kill job := by
    obtain ⟨r, t, -, hload⟩ := S.load s
    simp only [hload]
    cases r <;> rfl

/-- **The sources of the engine** do not look at the switch. -/
theorem Source.heedless : HeedlessIterator Source := Source.still.heedless

theorem ResultSet.heedless : HeedlessConsumer ResultSet where
  accept row k := JobStep.heedless_spend (add row) k

/-! ## Steps with kills and without

A step with kills is compared with the step without, from the same state but for the kills that are
still to come. Two things are carried along: the results are the same but for the switch, and the
switch is flipped by the kills that came. Both go through sequences, through cleaning up and through
parts of a state. -/

/-- States that hold the kills that are still to come, one entry for each call of a source or consumer, and the
same states without them. -/
structure Schedule (σ : Type) where
  kills : σ → List (Option String)
  spare : σ → σ

/-- The schedule of a part, for the part with something beside it. -/
def Schedule.beside {σ : Type} (A : Schedule σ) (τ : Type) : Schedule (τ × σ) where
  kills p := A.kills p.2
  spare p := (p.1, A.spare p.2)

/-- The same result, if nobody had killed the job and nobody were to. -/
def StepResult.spared {ε σ α : Type} (A : Schedule σ) : StepResult ε Job σ α → StepResult ε Job σ α
  | .ok a (s, job) => .ok a (A.spare s, job.spared)
  | .error e (s, job) => .error e (A.spare s, job.spared)

/-- The schedule of a source, for the source with counters. -/
def Schedule.counted {σ : Type} (A : Schedule σ) : Schedule (Counted σ) where
  kills s := A.kills s.source
  spare s := { s with source := A.spare s.source }

/-- Some of the kills came, and what is left still has the others. -/
def Schedule.Struck {σ : Type} (A : Schedule σ) (kills : List (Option String)) (kill : KillSwitch)
    (left : σ × Job) : Prop :=
  ∃ during, kills = during ++ A.kills left.1 ∧ left.2.kill = kill.strike during

theorem Schedule.Struck.trans {σ τ : Type} {A : Schedule σ} {B : Schedule τ}
    {kills : List (Option String)} {kill : KillSwitch} {t : σ} {job : Job} {left : τ × Job}
    (h : A.Struck kills kill (t, job)) (h' : B.Struck (A.kills t) job.kill left) :
    B.Struck kills kill left := by
  obtain ⟨during, rfl, hkill⟩ := h
  obtain ⟨later, hrest, hlater⟩ := h'
  refine ⟨during ++ later, ?_, ?_⟩
  · rw [List.append_assoc, ← hrest]
  · rw [KillSwitch.strike_append, ← hkill, hlater]

/-- The step `m` flips the switch as the kills say that come during it, and but for that it is the step
`m₀`. -/
structure JobStep.Spared {σ α : Type} (A : Schedule σ) (kills : List (Option String))
    (m m₀ : JobStep σ α) : Prop where
  same (job : Job) : m₀ job.spared = StepResult.spared A (m job)
  struck (job : Job) : A.Struck kills job.kill (StepResult.left (m job))

namespace JobStep

variable {σ τ α β : Type} {A : Schedule σ} {B : Schedule τ} {kills : List (Option String)}
  {m m₀ : JobStep σ α}

theorem spared_ok (A : Schedule σ) (a : α) (s : σ) :
    JobStep.Spared A (A.kills s) (fun job => .ok a (s, job)) fun job => .ok a (A.spare s, job) :=
  ⟨fun _ => rfl, fun _ => ⟨[], rfl, rfl⟩⟩

theorem spared_error (A : Schedule σ) (e : OpError) (s : σ) :
    JobStep.Spared (α := α) A (A.kills s) (fun job => .error e (s, job)) fun job =>
      .error e (A.spare s, job) :=
  ⟨fun _ => rfl, fun _ => ⟨[], rfl, rfl⟩⟩

/-- What a step comes to is what the step without kills comes to, but for the kills. -/
theorem Spared.run (hm : JobStep.Spared A kills m m₀) {job : Job} {result : StepResult OpError Job σ α}
    (hrun : m job = result) : m₀ job.spared = result.spared A :=
  (hm.same job).trans (congrArg (StepResult.spared A) hrun)

/-- Going on and cleaning up. Only what the first step can come to counts. -/
theorem Spared.andThen (hm : JobStep.Spared A kills m m₀) {next next₀ : α → σ → JobStep τ β}
    {fail fail₀ : OpError → σ → JobStep τ β}
    (hnext : ∀ {a t job job'}, m job = .ok a (t, job') →
      JobStep.Spared B (A.kills t) (next a t) (next₀ a (A.spare t)))
    (hfail : ∀ e t, JobStep.Spared B (A.kills t) (fail e t) (fail₀ e (A.spare t))) :
    JobStep.Spared B kills (fun job => (m job).andThen next fail) fun job =>
      (m₀ job).andThen next₀ fail₀ := by
  refine ⟨fun job => ?_, fun job => ?_⟩
  · rw [hm.same job]
    rcases hrun : m job with ⟨a, t, job'⟩ | ⟨e, t, job'⟩
    · exact (hnext hrun).same job'
    · exact (hfail e t).same job'
  · -- the kills of the first step come before those of the next one
    have hfirst := hm.struck job
    rcases hrun : m job with ⟨a, t, job'⟩ | ⟨e, t, job'⟩ <;> rw [hrun] at hfirst
    · exact hfirst.trans ((hnext hrun).struck job')
    · exact hfirst.trans ((hfail e t).struck job')

theorem Spared.within (hm : JobStep.Spared A kills m m₀) {whole whole₀ : σ → τ}
    (hkills : ∀ t, B.kills (whole t) = A.kills t) (hspare : ∀ t, B.spare (whole t) = whole₀ (A.spare t)) :
    JobStep.Spared B kills (fun job => StepResult.within whole (m job)) fun job =>
      StepResult.within whole₀ (m₀ job) := by
  refine ⟨fun job => ?_, fun job => ?_⟩
  · rw [hm.same job]
    rcases m job with ⟨a, t, job'⟩ | ⟨e, t, job'⟩ <;>
      simp only [StepResult.within, StepResult.spared, hspare]
  · obtain ⟨during, hkills', hkill⟩ := hm.struck job
    rw [StepResult.left_within]
    exact ⟨during, by rw [hkills']; simp only [hkills], hkill⟩

/-- A metered computation knows of no switch, and nobody kills the job meanwhile. -/
theorem spared_spend (c : Metered.Op τ α) (t : τ) (A : Schedule σ) (s : σ) :
    JobStep.Spared (A.beside τ) (A.kills s) (fun job => StepResult.within (·, s) (Running.spend c (t, job)))
      fun job => StepResult.within (·, A.spare s) (Running.spend c (t, job)) := by
  refine ⟨fun job => ?_, fun job => ⟨[], ?_⟩⟩
  all_goals
    simp only [Running.spend, Job.spared]
    rcases c (t, job.budget) with ⟨a, t', b⟩ | ⟨e, t', b⟩
  · rfl
  · rfl
  · exact ⟨rfl, rfl⟩
  · exact ⟨rfl, rfl⟩

/-- The same where the computation goes on to something that has the source. -/
theorem spared_spend_andThen (c : Metered.Op σ α) (t : σ) {next next₀ : α → σ → JobStep τ β}
    {fail fail₀ : OpError → σ → JobStep τ β}
    (hnext : ∀ a t', JobStep.Spared B kills (next a t') (next₀ a t'))
    (hfail : ∀ e t', JobStep.Spared B kills (fail e t') (fail₀ e t')) :
    JobStep.Spared B kills (fun job => StepResult.andThen (Running.spend c (t, job)) next fail)
      fun job => StepResult.andThen (Running.spend c (t, job)) next₀ fail₀ := by
  refine ⟨fun job => ?_, fun job => ?_⟩
  all_goals
    simp only [Running.spend, Job.spared]
    rcases c (t, job.budget) with ⟨a, t', b⟩ | ⟨e, t', b⟩
  · exact (hnext a t').same { job with budget := b }
  · exact (hfail e t').same { job with budget := b }
  · exact (hnext a t').struck { job with budget := b }
  · exact (hfail e t').struck { job with budget := b }

end JobStep

/-! ## Iterators

An iterator in which all steps compare like that. A chain has it from its source. -/

/-- An iterator over a source during whose calls the job is killed: but for the switch, its steps are the same
without the kills. -/
structure Sparing (σ : Type) [BatchIterator σ] extends Schedule σ where
  current_spare (s : σ) : BatchIterator.current (spare s) = BatchIterator.current s
  allLoaded_spare (s : σ) : BatchIterator.allLoaded (spare s) = BatchIterator.allLoaded s
  moveNext_spec (s : σ) : JobStep.Spared toSchedule (kills s) (fun job => BatchIterator.moveNext (s, job))
    fun job => BatchIterator.moveNext (spare s, job)
  load_spec (s : σ) : JobStep.Spared toSchedule (kills s) (fun job => BatchIterator.load (s, job))
    fun job => BatchIterator.load (spare s, job)

namespace Sparing

variable {σ : Type} [BatchIterator σ] (A : Sparing σ)

/-! ### Stages

Stages add nothing of their own: they call the source, which may be killed meanwhile, and let the
operator work, which nobody kills. The induction is on the rows that are ready, as in feeding an
operator. -/

/-- **Rows are taken** from the source until the operator shows one, or either of them fails. -/
theorem spared_feed (op : Operator) (s : σ) :
    JobStep.Spared (A.beside Operator) (A.kills s) (Stage.feed op s) (Stage.feed op (A.spare s)) := by
  -- induction on the rows that are left in the source
  induction hn : BatchIterator.ready s using Nat.strongRecOn generalizing op s with
  | ind n ih =>
    rw [Stage.feed_eq op s, Stage.feed_eq op (A.spare s)]
    refine (A.moveNext_spec s).andThen (fun {more t job job'} hmove => ?_) fun e t =>
      JobStep.spared_error (A.beside Operator) e (op, t)
    cases more with
    | false => exact JobStep.spared_ok (A.beside Operator) false (op, t)
    | true =>
      -- both sides hand the same row to the operator
      simp only [if_true, A.current_spare]
      refine JobStep.spared_spend_andThen _ op (fun shown op' => ?_) fun e op' =>
        JobStep.spared_error (A.beside Operator) e (op', t)
      cases shown with
      | true => exact JobStep.spared_ok (A.beside Operator) true (op', t)
      | false => exact ih _ (hn ▸ BatchIterator.ready_lt_of_moveNext hmove) op' t rfl

theorem spared_advance (op : Operator) (s : σ) :
    JobStep.Spared (A.beside Operator) (A.kills s) (Stage.advance op s)
      (Stage.advance op (A.spare s)) := by
  cases hop : op.isComplete with
  | true =>
    -- the source is asked for nothing
    have hadvance (u : σ) : Stage.advance op u = fun job =>
        StepResult.within (·, u) (Running.spend Operator.showNext (op, job)) := by
      funext job
      simp [Stage.advance, hop]
    rw [hadvance s, hadvance (A.spare s)]
    exact JobStep.spared_spend Operator.showNext op A.toSchedule s
  | false =>
    rw [Stage.advance_eq hop s, Stage.advance_eq hop (A.spare s)]
    refine (A.spared_feed op s).andThen (fun {shown p _ _} _ => ?_) fun e p =>
      JobStep.spared_error (A.beside Operator) e p
    obtain ⟨op', t⟩ := p
    simp only [Schedule.beside, A.allLoaded_spare]
    -- whether the operator has to conclude is decided alike on both sides
    by_cases hend : shown = false ∧ BatchIterator.allLoaded t = true
    · simp only [hend, and_self, if_true]
      exact JobStep.spared_spend Operator.conclude op' A.toSchedule t
    · simp only [hend, if_false]
      exact JobStep.spared_ok (A.beside Operator) shown (op', t)

/-- A stage that fails gives back what its operator holds. -/
theorem spared_fail {α : Type} (op : Operator) (t : σ) (e : OpError) :
    JobStep.Spared (α := α) (A.beside Stage) (A.kills t)
      (fun job => .error e (((Stage.fail op job).1, t), (Stage.fail op job).2))
      fun job => .error e (((Stage.fail op job).1, A.spare t), (Stage.fail op job).2) :=
  ⟨fun _ => rfl, fun _ => ⟨[], rfl, rfl⟩⟩

theorem spared_moveNext (stage : Stage) (s : σ) :
    JobStep.Spared (A.beside Stage) (A.kills s) (fun job => Stage.moveNext ((stage, s), job))
      fun job => Stage.moveNext ((stage, A.spare s), job) := by
  by_cases hopen : stage.IsOpen
  · rw [Stage.moveNext_eq hopen s, Stage.moveNext_eq hopen (A.spare s)]
    refine (A.spared_advance stage.operator s).andThen (fun {shown p _ _} _ => ?_) fun e p => ?_
    · obtain ⟨op', t⟩ := p
      simp only [Schedule.beside, Stage.allLoaded, A.allLoaded_spare]
      exact JobStep.spared_ok (A.beside Stage) shown (_, t)
    · exact A.spared_fail p.1 p.2 e
  · -- a stage that is not open fails without asking its source
    obtain ⟨op, state⟩ := stage
    cases state with
    | closed => exact JobStep.spared_error (A.beside Stage) _ (_, s)
    | failed => exact JobStep.spared_error (A.beside Stage) _ (_, s)
    | _ => exact absurd ⟨nofun, nofun⟩ hopen

theorem spared_load (stage : Stage) (s : σ) :
    JobStep.Spared (A.beside Stage) (A.kills s) (fun job => Stage.load ((stage, s), job))
      fun job => Stage.load ((stage, A.spare s), job) := by
  by_cases hclosed : stage.state = .closed
  · simp only [Stage.load, if_pos hclosed]
    exact JobStep.spared_error (A.beside Stage) _ (stage, s)
  cases hop : stage.operator.isComplete with
  | true =>
    simp only [Stage.load, if_neg hclosed, hop, if_true]
    exact JobStep.spared_error (A.beside Stage) _ (stage, s)
  | false =>
    -- an open stage passes the request on, and cleans up where it fails
    have hload (u : σ) : (fun job => Stage.load ((stage, u), job)) = fun job =>
        StepResult.andThen (BatchIterator.load (u, job))
          (fun progress u job => .ok progress ((stage, u), job))
          fun e u job =>
            .error e (((Stage.fail stage.operator job).1, u), (Stage.fail stage.operator job).2) := by
      funext job
      simp only [Stage.load, if_neg hclosed, hop]
      rcases BatchIterator.load (u, job) with ⟨progress, t, job'⟩ | ⟨e, t, job'⟩ <;> rfl
    rw [hload s, hload (A.spare s)]
    exact (A.load_spec s).andThen (fun {progress t _ _} _ =>
      JobStep.spared_ok (A.beside Stage) progress (stage, t)) fun e t => A.spared_fail stage.operator t e

/-- A stage over such an iterator. -/
def stage : Sparing (Stage × σ) where
  toSchedule := A.beside Stage
  current_spare p := by
    show p.1.operator.current (BatchIterator.current (A.spare p.2)) = _
    rw [A.current_spare]
    rfl
  allLoaded_spare p := by
    show Stage.allLoaded p.1.operator (A.spare p.2) = _
    rw [Stage.allLoaded, A.allLoaded_spare]
    rfl
  moveNext_spec p := A.spared_moveNext p.1 p.2
  load_spec p := A.spared_load p.1 p.2

/-! ### Sources

Where kills come in: a source during whose calls the job is killed, and the same source without. -/

/-- A source that keeps count of what it is asked for. -/
def counted : Sparing (Counted σ) where
  toSchedule := A.toSchedule.counted
  current_spare s := A.current_spare s.source
  allLoaded_spare s := A.allLoaded_spare s.source
  moveNext_spec s := by
    have hmove (s : Counted σ) : (fun job => BatchIterator.moveNext (s, job)) = fun job =>
        StepResult.andThen (BatchIterator.moveNext (s.source, job))
          (fun b source job => .ok b ({ s with source, rows := s.rows + b.toNat }, job))
          fun e source job => .error e ({ s with source }, job) := by
      funext job
      show Counted.moveNext (s, job) = _
      simp only [Counted.moveNext]
      rcases BatchIterator.moveNext (s.source, job) with ⟨b, t, job'⟩ | ⟨e, t, job'⟩ <;> rfl
    rw [hmove s, hmove (A.toSchedule.counted.spare s)]
    refine (A.moveNext_spec s.source).andThen (fun {b t _ _} _ => ?_) fun e t => ?_
    · exact JobStep.spared_ok A.toSchedule.counted b
        { s with source := t, rows := s.rows + b.toNat }
    · exact JobStep.spared_error A.toSchedule.counted e { s with source := t }
  load_spec s := (A.load_spec s.source).within (fun _ => rfl) fun _ => rfl

end Sparing

/-- **A chain over such an iterator**, stage by stage. -/
def Chain.sparing {β : Type} [BatchIterator β] (A : Sparing β) : (n : Nat) → Sparing (Chain β n)
  | 0 => A
  | n + 1 => (Chain.sparing A n).stage

/-- **What does not look at the switch**, and a kill meanwhile. -/
theorem JobStep.Heedless.spared {σ τ α : Type} {m : JobStep σ α} (hm : m.Heedless) {B : Schedule τ}
    {whole : σ → List (Option String) → τ} (hkills : ∀ s kills, B.kills (whole s kills) = kills)
    (hspare : ∀ s kills, B.spare (whole s kills) = whole s []) (kills : List (Option String)) :
    JobStep.Spared B kills
      (fun job => StepResult.within (whole · kills.tail) (m (job.interrupt (kills.headD none))))
      fun job => StepResult.within (whole · []) (m job) := by
  refine ⟨fun job => ?_, fun job => ?_⟩
  · rw [← Job.spared_interrupt (kills.headD none) job]
    rw [show m (job.interrupt (kills.headD none)).spared = _ from hm .new _]
    rcases m (job.interrupt (kills.headD none)) with ⟨a, t, job'⟩ | ⟨e, t, job'⟩ <;>
    · simp only [StepResult.within, StepResult.spared, hspare]
      rfl
  · have hkill := hm.kill_left (job.interrupt (kills.headD none))
    rw [Job.kill_interrupt] at hkill
    rw [StepResult.left_within]
    -- a call takes one entry of the list, and without one nobody kills the job
    cases kills with
    | nil => exact ⟨[], (hkills _ _).symm, hkill⟩
    | cons reason kills => exact ⟨[reason], congrArg (reason :: ·) (hkills _ _).symm, hkill⟩

/-- **A source that does not look at the switch**, and kills while it works. -/
def KillingSource.sparing {β : Type} [BatchIterator β] (h : HeedlessIterator β) :
    Sparing (KillingSource β) where
  kills := kills
  spare s := { s with kills := [] }
  current_spare _ := rfl
  allLoaded_spare _ := rfl
  moveNext_spec s := (h.moveNext s.source).spared (fun _ _ => rfl) (fun _ _ => rfl) s.kills
  load_spec s := (h.load s.source).spared (fun _ _ => rfl) (fun _ _ => rfl) s.kills

/-! ## Consumers

Consumers are killed in the same way, one entry of a list for each row. -/

/-- A consumer during whose work the job is killed: but for the switch, it takes the same rows without the
kills. -/
structure SparingConsumer (κ : Type) [RowConsumer κ] extends Schedule κ where
  rows_spare (k : κ) : RowConsumer.rows (spare k) = RowConsumer.rows k
  accept_spec (row : Row) (k : κ) : JobStep.Spared toSchedule (kills k)
    (fun job => RowConsumer.accept row (k, job)) fun job => RowConsumer.accept row (spare k, job)

/-- **A consumer that does not look at the switch**, and kills while it works. -/
def Interrupted.sparing {κ : Type} [RowConsumer κ] (h : HeedlessConsumer κ) :
    SparingConsumer (Interrupted κ) where
  kills := kills
  spare k := { k with kills := [] }
  rows_spare _ := rfl
  accept_spec row k := (h.accept row k.consumer).spared (fun _ _ => rfl) (fun _ _ => rfl) k.kills

end RowStream
