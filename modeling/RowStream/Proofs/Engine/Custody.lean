import RowStream.Engine.Runner
import RowStream.Proofs.Engine.Meaning
import RowStream.Proofs.Stream.Custody

/-!
# Back at the baseline

However a run ends, its source is closed once and both counters are back where they were. A run may
be killed at any moment: by its source, by its consumer after a row, or while it has to wait.

* `Wakeup` — what happens while a run waits: something arrives at the source, and perhaps the job is
  killed.
* `Interrupted` — a consumer during whose work the job is killed.
* `Drive.Settled` — how a drive stands after each answer; `Drive.settled_poll` is the step and
  `Progress.attend_induction` the induction on the wakeups.
* `Run.attend_restores` — runs and drives at their end.
-/

namespace RowStream

/-! ## Kills

A kill changes the switch and no counter, whenever it comes. -/

/-- A job after somebody had, or had not, a reason to kill it. -/
def Job.interrupt (reason : Option String) (job : Job) : Job :=
  match reason with
  | none => job
  | some reason => { job with kill := job.kill.kill reason }

theorem Job.budget_interrupt (reason : Option String) (job : Job) :
    (job.interrupt reason).budget = job.budget := by
  cases reason <;> rfl

/-- A consumer, and for each row that it takes whether the job is killed meanwhile. -/
structure Interrupted (κ : Type) where
  consumer : κ
  kills : List (Option String)

namespace Interrupted

variable {κ : Type} [RowConsumer κ]

def accept (row : Row) : Running (Interrupted κ) Unit := fun (k, job) =>
  StepResult.within (fun consumer => ⟨consumer, k.kills.tail⟩)
    (RowConsumer.accept row (k.consumer, job.interrupt (k.kills.headD none)))

def release (k : Interrupted κ) (job : Job) : Interrupted κ × Job :=
  let (consumer, job) := RowConsumer.release k.consumer job
  ({ k with consumer }, job)

instance : RowConsumer (Interrupted κ) where
  accept := accept
  rows k := RowConsumer.rows k.consumer
  release := release

def custody (K : ConsumerCustody κ) : ConsumerCustody (Interrupted κ) where
  held k := K.held k.consumer
  accept_spec row k job := by
    have haccept := K.accept_spec row k.consumer (job.interrupt (k.kills.headD none))
    rw [Job.budget_interrupt] at haccept
    show Budget.Moves job.budget (K.held k.consumer)
      (StepResult.left (accept row (k, job))).2.budget
      (K.held (StepResult.left (accept row (k, job))).1.consumer)
    rw [accept, StepResult.left_within]
    exact haccept
  release_spec k job := K.release_spec k.consumer job

end Interrupted

/-! ## Answers

What is said of the end of a run is said of every answer before it, too, and carried over wakeups by
induction. -/

namespace Progress

variable {ε τ α : Type}

/-- Goes on from an answer as long as there is something that has to be waited for and comes. -/
def attend (wake : α → τ → Job → Progress ε × τ × Job) :
    List α → Progress ε × τ × Job → Progress ε × τ × Job
  | a :: as, (.pending, t, job) => attend wake as (wake a t job)
  | _, answer => answer

/-- What holds of an answer and is carried from one to the next holds of the last. -/
theorem attend_induction {wake : α → τ → Job → Progress ε × τ × Job} {as : List α}
    (P : Progress ε × τ × Job → Prop)
    (hwake : ∀ a ∈ as, ∀ t job, P (.pending, t, job) → P (wake a t job))
    {answer : Progress ε × τ × Job} (h : P answer) : P (attend wake as answer) := by
  induction as generalizing answer with
  | nil => exact h
  | cons a as ih =>
    obtain ⟨progress, t, job⟩ := answer
    -- wakeups after the end are not looked at
    match progress with
    | .pending =>
      exact ih (fun a ha => hwake a (List.mem_cons_of_mem _ ha)) (hwake a List.mem_cons_self t job h)
    | .finished result => exact h
    | .over => exact h

/-- A source is not closed before the end, and then it was closed once; and unless a sum was cut off,
the counters are at the end where they were before. -/
def Restores (progress : Progress ε) (closes : Nat) (before after : Budget) : Prop :=
  match progress with
  | .pending => closes = 0
  | .finished _ => closes = 1 ∧ (after.Uncut →
      after.account.used = before.account.used ∧ after.breaker.used = before.breaker.used)
  | .over => False

/-- Whether it is the end with this error. -/
def failsWith [DecidableEq ε] (error : ε) : Progress ε → Bool
  | .finished (.error e) => e = error
  | _ => false

end Progress

/-! ## Drives

The invariant between two polls: what the counters show beside the baseline is what chain and
consumer hold together, and the source has not been closed. At the end both have given everything
back. -/

namespace Drive

variable {σ κ ε : Type} [BatchIterator σ] [RowConsumer κ] (C : Custody σ) (K : ConsumerCustody κ)

/-- How a drive stands after an answer, if it began under a budget with nothing held and nothing
closed. -/
def Settled (before : Budget) : Progress ε × Drive σ κ × Job → Prop
  | (.pending, d, job) => d.phase = .suspended ∧ C.isOpen d.chain ∧ C.closes d.chain = 0 ∧
      Budget.Moves before 0 job.budget ((C.pulling K).held (d.chain, d.consumer))
  | (.finished _, d, job) => C.closes d.chain = 1 ∧ Budget.Moves before 0 job.budget 0
  | (.over, _, _) => False

variable {C K} {before : Budget}

/-- **The end of a drive**: the chain is closed, then the consumer gives back what it holds. -/
theorem settled_finish {s : σ} {k : κ} {job : Job} (hopen : C.isOpen s) (hcloses : C.closes s = 0)
    (hheld : Budget.Moves before 0 job.budget ((C.pulling K).held (s, k)))
    (result : Except OpError Unit) : Settled C K before (finish s k result job) := by
  obtain ⟨hclose, hclosed⟩ := C.close_spec s job hopen
  have hrelease := K.release_spec k (BatchIterator.close s job).2
  -- while the chain is closed, the consumer still holds its rows
  have hframed := hclose.frame (K.held k)
  rw [Nat.add_zero] at hframed
  refine ⟨?_, (hheld.trans hframed).trans hrelease⟩
  rw [hcloses] at hclosed
  exact hclosed

theorem settled_settle {s : σ} {k : κ} {job : Job}
    {r : StepResult OpError Job (σ × κ) Pulled} (hstep : (C.pulling K).Step (s, k) job r.left)
    (hopen : C.isOpen s) (hcloses : C.closes s = 0)
    (hheld : Budget.Moves before 0 job.budget ((C.pulling K).held (s, k))) :
    Settled C K before (settle r) := by
  have hmoves := hheld.trans hstep.moves
  have hclosed := hstep.closes.trans hcloses
  rcases r with ⟨_ | _, ⟨t, l⟩, job'⟩ | ⟨e, ⟨t, l⟩, job'⟩
  · exact settled_finish (hstep.isOpen hopen) hclosed hmoves (.ok ())
  · exact ⟨rfl, hstep.isOpen hopen, hclosed, hmoves⟩
  · exact settled_finish (hstep.isOpen hopen) hclosed hmoves (.error e)

/-- **One poll.** -/
theorem settled_poll {d : Drive σ κ} {job : Job} (hphase : d.phase ≠ .over)
    (hopen : C.isOpen d.chain) (hcloses : C.closes d.chain = 0)
    (hheld : Budget.Moves before 0 job.budget ((C.pulling K).held (d.chain, d.consumer))) :
    Settled C K before (d.poll job) := by
  unfold poll
  match hphase' : d.phase with
  | .fresh => exact settled_settle (C.pull_spec K d.chain d.consumer job) hopen hcloses hheld
  | .suspended => exact settled_settle (C.resume_spec K d.chain d.consumer job) hopen hcloses hheld
  | .over => exact absurd hphase' hphase

end Drive

/-! ## Wakeups

While a run waits, others may use the counters. What they hold is beside the run, and what arrives
at a source of the engine is not accounted yet. -/

/-- What happens while a run has to wait. -/
structure Wakeup (β : Type) where
  arrive : β → β
  kill : Option String

namespace Counted

variable {β : Type}

/-- Works on the source from outside. -/
def modify (f : β → β) (s : Counted β) : Counted β := { s with source := f s.source }

end Counted

section Wakeups

variable {β κ : Type} [BatchIterator β] [RowConsumer κ]

/-- A drive that is asked again after a wakeup. -/
def Drive.wake {n : Nat} (w : Wakeup β) (d : Drive (Chain (Counted β) n) κ) (job : Job) :
    Progress OpError × Drive (Chain (Counted β) n) κ × Job :=
  ({ d with chain := d.chain.modifySource (Counted.modify w.arrive) }).poll (job.interrupt w.kill)

/-- A run that is asked again after a wakeup. -/
def Run.wake (w : Wakeup β) (run : Run (Counted β)) (job : Job) :
    Progress RunError × Run (Counted β) × Job :=
  (run.modifySource (Counted.modify w.arrive)).poll (job.interrupt w.kill)

/-- What arrives is not yet accounted. -/
def Wakeup.Unaccounted (A : SourceCustody β) (w : Wakeup β) : Prop :=
  ∀ s, A.held (w.arrive s) = A.held s

variable {A : SourceCustody β} {K : ConsumerCustody κ} {before : Budget} {n : Nat}

theorem Drive.settled_wake {w : Wakeup β} (hw : w.Unaccounted A)
    {d : Drive (Chain (Counted β) n) κ} {job : Job}
    (h : Settled (ε := OpError) (Chain.custody A.counted n) K before (.pending, d, job)) :
    Settled (Chain.custody A.counted n) K before (d.wake w job) := by
  obtain ⟨hphase, hopen, hcloses, hheld⟩ := h
  obtain ⟨hsame, hcount, hstill⟩ := Chain.custody_modifySource A.counted
    (f := Counted.modify w.arrive) (fun s => hw s.source) (fun _ => rfl) (fun _ => id) d.chain
  refine settled_poll ?_ (hstill hopen) (hcount.trans hcloses) ?_
  · rw [hphase]
    exact nofun
  · rw [Job.budget_interrupt]
    show Budget.Moves before 0 job.budget (K.held d.consumer + _)
    rw [hsame]
    exact hheld

/-- What is settled is restored. -/
theorem Drive.Settled.restores {ε : Type} {progress : Progress ε}
    {d : Drive (Chain (Counted β) n) κ} {job : Job}
    (h : Settled (Chain.custody A.counted n) K before (progress, d, job)) :
    progress.Restores d.chain.source.closes before job.budget := by
  match progress with
  | .pending =>
    have hcloses := h.2.2.1
    rw [Chain.closes_custody] at hcloses
    exact hcloses
  | .finished result =>
    obtain ⟨hcloses, hmoves⟩ := h
    rw [Chain.closes_custody] at hcloses
    exact ⟨hcloses, hmoves.restores⟩
  | .over => exact h

end Wakeups

/-! ## Plans

A plan with a fault is found before anything is built. -/

namespace Projection

/-- The operator of a plan holds nothing yet. -/
theorem held_operator (footprint : Footprint) (p : Projection) : (p.operator footprint).held = 0 := by
  cases p with
  | orderedTopN p =>
    obtain ⟨limit, offset, outputs, orderBy, descending, nullsFirst⟩ := p
    cases limit <;> rfl
  | _ => rfl

/-- Plans compile or one of them has a fault, which is reported as one of the plan. -/
theorem compileAll_cases (footprint : Footprint) (plans : List Projection) :
    (compileAll footprint plans = .ok (plans.map (operator footprint)) ∧
        ∀ p ∈ plans, p.check = .ok ()) ∨
      ∃ text, compileAll footprint plans = .error (.plan text) := by
  induction plans with
  | nil => exact .inl ⟨rfl, fun _ hp => nomatch hp⟩
  | cons p plans ih =>
    unfold compileAll compile validate
    -- the first plan that is refused is the one whose text is given
    cases hcheck : p.check with
    | error fault => exact .inr ⟨fault.message, rfl⟩
    | ok u =>
      obtain ⟨hrest, hchecks⟩ | ⟨text, hrest⟩ := ih
      · refine .inl ⟨?_, fun q hq => ?_⟩
        · rw [hrest]
          rfl
        · obtain rfl | hq := List.mem_cons.1 hq
          · exact hcheck
          · exact hchecks q hq
      · refine .inr ⟨text, ?_⟩
        rw [hrest]
        rfl

end Projection

/-! ## Runs

A run that is refused closes its source itself; any other is a drive. -/

section Runs

variable {β κ : Type} [BatchIterator β] [RowConsumer κ] {A : SourceCustody β}
  {K : ConsumerCustody κ} {before : Budget} {source : β}

/-- Fresh stages of plans over a source, before the first row. -/
theorem Drive.settled_start (hsource : A.held source = 0) {k : κ} (hconsumer : K.held k = 0)
    (footprint : Footprint) (plans : List Projection) (job : Job) :
    Settled (Chain.custody A.counted _) K job.budget
      ((Drive.new (compose (Counted.new source) (plans.map (Projection.operator footprint))) k).poll
        job) := by
  have hops : ∀ op ∈ (plans.map (Projection.operator footprint)).reverse, op.held = 0 := by
    intro op hop
    obtain ⟨p, -, rfl⟩ := List.mem_map.1 (List.mem_reverse.1 hop)
    exact p.held_operator footprint
  obtain ⟨hheld, hopen⟩ := Chain.custody_build A.counted (Counted.new source) trivial hops
  refine settled_poll nofun hopen ?_ ?_
  · rw [Chain.closes_custody]
    show (Chain.source (Chain.build (Counted.new source) _)).closes = 0
    rw [Chain.source_build]
    rfl
  · -- neither source, stages nor consumer hold anything when the first poll begins
    have hnothing : K.held k + A.held source = 0 := by rw [hsource, hconsumer]
    have hall : ((Chain.custody A.counted _).pulling K).held
        (compose (Counted.new source) (plans.map (Projection.operator footprint)), k) = 0 :=
      (congrArg (K.held k + ·) hheld).trans hnothing
    have hmoves := Budget.Moves.refl job.budget 0
    rw [← hall] at hmoves
    exact hall ▸ hmoves

namespace Run

/-- How a run stands after an answer. One that was refused is at its end from the start. -/
def Settled (A : SourceCustody β) (before : Budget) :
    Progress RunError × Run (Counted β) × Job → Prop
  | (progress, .refused source, job) =>
    (∃ text, progress = .finished (.error (.plan text))) ∧
      (source.rows, source.loads, source.closes) = (0, 0, 1) ∧ Budget.Moves before 0 job.budget 0
  | (progress, .driven n d, job) =>
    Drive.Settled (Chain.custody A.counted n) ResultSet.custody before (progress, d, job)

/-- The answer of a drive says the same as the answer of its run. -/
theorem settled_answer {n : Nat} {p : Progress OpError × Drive (Chain (Counted β) n) ResultSet × Job}
    (h : Drive.Settled (Chain.custody A.counted n) ResultSet.custody before p) :
    Settled A before (answer p.1, driven n p.2.1, p.2.2) := by
  obtain ⟨progress, d, job⟩ := p
  cases progress <;> exact h

/-- **The start of a run**: refused without a row, or driven. -/
theorem settled_start (hsource : A.held source = 0) (plans : List Projection) (job : Job) :
    Settled A job.budget (start (Counted.new source) plans job) := by
  unfold start
  obtain ⟨hplans, -⟩ | ⟨text, hplans⟩ := Projection.compileAll_cases .standard plans
  · rw [hplans]
    exact settled_answer (Drive.settled_start hsource rfl .standard plans job)
  · rw [hplans]
    have hclose := A.close_spec source job
    rw [hsource] at hclose
    exact ⟨⟨_, rfl⟩, rfl, hclose⟩

theorem settled_wake {w : Wakeup β} (hw : w.Unaccounted A) {run : Run (Counted β)} {job : Job}
    (h : Settled A before (.pending, run, job)) : Settled A before (run.wake w job) := by
  cases run with
  | refused source =>
    obtain ⟨⟨text, hprogress⟩, -⟩ := h
    cases hprogress
  | driven n d => exact settled_answer (Drive.settled_wake hw h)

theorem Settled.restores {progress : Progress RunError} {run : Run (Counted β)} {job : Job}
    (h : Settled A before (progress, run, job)) :
    progress.Restores run.source.closes before job.budget := by
  cases run with
  | refused source =>
    obtain ⟨⟨text, rfl⟩, hcounts, hmoves⟩ := h
    exact ⟨congrArg (·.2.2) hcounts, hmoves.restores⟩
  | driven n d => exact Drive.Settled.restores h

/-- **Every way out leads back to the baseline.** Over a source that gives back what it accounts,
whatever the plans and the limits are, and whenever and however the run ends or the job is killed: the
source is closed once at the end and not before it, and the bytes of the job and of the breaker are
those before the run, unless a counter that may count up to the greatest size was cut off there. A run
with a plan that has a fault takes no row and loads no page. What is said of the drive behind a run
holds of drives of their own, in which the consumer is interrupted. -/
theorem attend_restores (A : SourceCustody β) (source : β) (hsource : A.held source = 0)
    (wakeups : List (Wakeup β)) (hwakeups : ∀ w ∈ wakeups, w.Unaccounted A)
    (plans : List Projection) (job : Job) :
    (∃ progress run after,
      Progress.attend wake wakeups (start (Counted.new source) plans job) = (progress, run, after) ∧
      progress.Restores run.source.closes job.budget after.budget ∧
      ((∃ p ∈ plans, p.check ≠ .ok ()) → run.source.rows = 0 ∧ run.source.loads = 0 ∧
        ∃ text, progress = .finished (.error (.plan text)))) ∧
    ∀ (footprint : Footprint) (kills : List (Option String)), ∃ progress drive after,
      Progress.attend Drive.wake wakeups
        ((Drive.new (compose (Counted.new source) (plans.map (Projection.operator footprint)))
          (⟨.new, kills⟩ : Interrupted ResultSet)).poll job) = (progress, drive, after) ∧
      progress.Restores drive.chain.source.closes job.budget after.budget := by
  have hrun : Settled A job.budget
      (Progress.attend wake wakeups (start (Counted.new source) plans job)) :=
    Progress.attend_induction _ (fun w hw run job => settled_wake (hwakeups w hw))
      (settled_start hsource plans job)
  refine ⟨⟨_, _, _, rfl, hrun.restores, ?_⟩, fun footprint kills => ⟨_, _, _, rfl, ?_⟩⟩
  · rintro ⟨p, hp, hfault⟩
    obtain ⟨-, hchecks⟩ | ⟨text, hplans⟩ := Projection.compileAll_cases .standard plans
    · exact absurd (hchecks p hp) hfault
    · -- a run that was refused has its answer, so that no wakeup comes to it
      rw [start, hplans]
      cases wakeups <;> exact ⟨rfl, rfl, _, rfl⟩
  · refine Drive.Settled.restores (A := A) (K := Interrupted.custody ResultSet.custody) ?_
    exact Progress.attend_induction _ (fun w hw d job => Drive.settled_wake (hwakeups w hw))
      (Drive.settled_start hsource rfl footprint plans job)

end Run

end Runs

namespace Run

/-- An unlimited sort of rows from a channel, which has a row at first and another later, before the job
is killed. Somebody else holds fifty bytes on the breaker. -/
def killedSort : Progress RunError × Run (Counted Source) × Job :=
  Progress.attend wake
    [⟨Source.receive ⟨[.batch [[.int32 1]]], 1⟩, none⟩, ⟨id, some "too late"⟩]
    (start (Counted.new (.channel (.new ⟨2, [.batch [[.int32 2]]], 1, true⟩)))
      [.orderedTopN ⟨none, 0, [.column 0], [0], [false], [none]⟩]
      ⟨⟨⟨"shared", 1000, 50, 50, 0⟩, .new .nil (some 500)⟩, .new⟩)

/-- The sort holds two rows when the job is killed, and nothing afterwards. -/
theorem attend_restores_killedSort : ∃ run after,
    killedSort = (.finished (.error (.operator (.jobKilled "too late"))), run, after) ∧
      after.budget.account.peak = 176 ∧ run.source.closes = 1 ∧
      after.budget.account.used = 0 ∧ after.budget.breaker.used = 50 := by
  have hpeak : killedSort.2.2.budget.account.peak = 176 := by decide +kernel
  have huncut : killedSort.2.2.budget.Uncut := by decide +kernel
  have hkilled : killedSort.1.failsWith (.operator (.jobKilled "too late")) = true := by
    decide +kernel
  obtain ⟨⟨progress, run, after, hrun, hrestores, -⟩, -⟩ :=
    attend_restores Source.custody (.channel (.new ⟨2, [.batch [[.int32 2]]], 1, true⟩)) rfl
      [⟨Source.receive ⟨[.batch [[.int32 1]]], 1⟩, none⟩, ⟨id, some "too late"⟩]
      (fun _ _ _ => rfl) [.orderedTopN ⟨none, 0, [.column 0], [0], [false], [none]⟩]
      ⟨⟨⟨"shared", 1000, 50, 50, 0⟩, .new .nil (some 500)⟩, .new⟩
  have hrun : killedSort = (progress, run, after) := hrun
  rw [hrun] at hpeak huncut hkilled
  rcases progress with _ | ⟨⟨e⟩ | rows⟩ | _
  · cases hkilled
  · obtain ⟨hcloses, hused⟩ := hrestores
    obtain ⟨haccount, hbreaker⟩ := hused huncut
    have he : e = .operator (.jobKilled "too late") := of_decide_eq_true hkilled
    exact ⟨run, after, he ▸ hrun, hpeak, hcloses, haccount, hbreaker⟩
  · cases hkilled
  · cases hkilled

end Run

/-- Two sorts of one row, each of which accounts almost all sizes for it, on counters that may count
up to the greatest size. -/
def cutOff : Progress OpError × Drive (Chain (Counted Source) 2) (Interrupted ResultSet) × Job :=
  let sort : Projection := .orderedTopN ⟨none, 0, [.column 0], [0], [false], [none]⟩
  let operators := [sort, sort].map (Projection.operator ⟨18446744073709550615, 48⟩)
  (Drive.new (compose (Counted.new (.memory (.ofRows [[.int64 1]]))) operators) ⟨.new, []⟩).poll
    (.live ⟨.unlimited "shared", .new .nil (some maxSize)⟩)

/-- **A sum that was cut off is given back in full**: the counters go round, and do not come back to
where they were, though the source is closed once. -/
theorem cutOff_not_restored : cutOff.2.1.chain.source.closes = 1 ∧
    cutOff.2.2.budget.account.used = 1801 ∧ cutOff.2.2.budget.breaker.used = 1801 := by
  decide +kernel

end RowStream
