import Mathlib.Algebra.GroupWithZero.Nat
import RowStream.Proofs.Engine.Custody
import RowStream.Proofs.Engine.Law
import RowStream.Proofs.Stream.Oblivious

/-!
# Jobs on one runner

All that the jobs of a runner share is its breaker. A job that has ended, however it ended, has given
back what it held, so that all it leaves for the next one is what the breaker remembers; and that is
nothing to the next one.

* `Progress.Oblivious` — answers that are the same behind every past: drives and runs give no
  others, `Run.oblivious_wake` being the step of `Progress.oblivious_attend`.
* `Runner.serve`, `Runner.serveAll` — one task on a runner, and tasks one after the other.
* `Runner.serve_behind`, `Runner.leave_serve` — one task on a runner with a past, and what it
  leaves; `Runner.serveAll_behind` is the induction on the tasks.
* `Runner.serveAll_isolated` — all of it, on a fresh runner.
-/

namespace RowStream

/-! ## Answers behind a past

All that a job does is done behind a past as it is done without. The induction is on the wakeups,
none of which looks at what the breaker remembers. -/

/-- Whether it is the end. -/
def Progress.isFinished {ε : Type} : Progress ε → Bool
  | .finished _ => true
  | _ => false

/-- The answer for a job on a breaker with a past is the same. -/
def Progress.Oblivious {ε τ : Type} (f : Job → Progress ε × τ × Job) : Prop :=
  ∀ past job, f (job.behind past) = ((f job).1, (f job).2.1, (f job).2.2.behind past)

theorem Job.interrupt_behind (reason : Option String) (past : Past) (job : Job) :
    (job.behind past).interrupt reason = (job.interrupt reason).behind past := by
  cases reason <;> rfl

/-- Going on does not look at the past if no wakeup does. -/
theorem Progress.oblivious_attend {ε τ α : Type} {wake : α → τ → Job → Progress ε × τ × Job}
    (hwake : ∀ a t, Progress.Oblivious (wake a t)) (as : List α) (answer : Progress ε × τ × Job)
    (past : Past) : attend wake as (answer.1, answer.2.1, answer.2.2.behind past) =
      ((attend wake as answer).1, (attend wake as answer).2.1,
        (attend wake as answer).2.2.behind past) := by
  induction as generalizing answer with
  | nil => rfl
  | cons a as ih =>
    obtain ⟨progress, t, job⟩ := answer
    match progress with
    | .pending =>
      simp only [attend, hwake a t past job]
      exact ih (wake a t job)
    | .finished result => rfl
    | .over => rfl

/-- **No answer renames its breaker.** If it did, the past that only the new name has would be found
after it and not before it. -/
theorem Progress.Oblivious.name_eq {ε τ : Type} {f : Job → Progress ε × τ × Job}
    (hf : Progress.Oblivious f) (job : Job) :
    (f job).2.2.budget.breaker.name = job.budget.breaker.name := by
  let others : Past := ⟨fun _ => 0, fun name => if name = job.budget.breaker.name then 0 else 1⟩
  have hjob : job.behind others = job := by
    simp [Job.behind, Budget.behind, Breaker.behind, others]
  have hanswer := hf others job
  rw [hjob] at hanswer
  have htrips := congrArg (fun answer => answer.2.2.budget.breaker.trips) hanswer
  by_cases hname : (f job).2.2.budget.breaker.name = job.budget.breaker.name
  · exact hname
  · simp [Job.behind, Budget.behind, Breaker.behind, others, hname] at htrips

/-- An answer that is a step which does not know the past does not know it either. -/
theorem Progress.oblivious_of_step {τ : Type} {f : Job → Progress OpError × τ × Job}
    (hf : JobStep.Oblivious fun job => step (f job)) : Progress.Oblivious f := fun past job =>
  step_injective ((hf past job).trans (step_mapShared (Job.behind past) (f job)).symm)

/-- **One poll** gives the same answer behind every past. -/
theorem Drive.oblivious_poll {σ κ : Type} [BatchIterator σ] [RowConsumer κ] (S : ObliviousIterator σ)
    (K : ObliviousConsumer κ) (d : Drive σ κ) : Progress.Oblivious d.poll :=
  Progress.oblivious_of_step (Drive.step_poll (obliviousIterator_iff.1 S) K.lawful d)

namespace Run

variable {β : Type} [BatchIterator β] (S : ObliviousIterator β)

include S in
theorem oblivious_poll (run : Run β) : Progress.Oblivious run.poll := fun past job => by
  cases run with
  | refused source => rfl
  | driven n d =>
    have hpoll := Drive.oblivious_poll (Chain.oblivious S n) ResultSet.oblivious d past job
    simp only [poll, hpoll]

include S in
theorem oblivious_start (source : β) (plans : List Projection) :
    Progress.Oblivious (start source plans) := fun past job => by
  unfold start
  cases Projection.compileAll .standard plans with
  | error e => simp only [S.close source past job]
  | ok operators => exact oblivious_poll S _ past job

include S in
theorem oblivious_wake (w : Wakeup β) (run : Run (Counted β)) :
    Progress.Oblivious (run.wake w) := fun past job => by
  simp only [wake, Job.interrupt_behind]
  exact oblivious_poll S.counted _ past _

/-- A run that is at its end holds nothing. -/
theorem Settled.moves {A : SourceCustody β} {before : Budget} {progress : Progress RunError}
    {run : Run (Counted β)} {job : Job} (h : Settled A before (progress, run, job))
    (hend : progress.isFinished = true) : Budget.Moves before 0 job.budget 0 := by
  cases run with
  | refused source => exact h.2.2
  | driven n d =>
    match progress, hend with
    | .finished _, _ => exact h.2

end Run

/-! ## Tasks

One task leaves the breaker with nothing in use, and with one more thing to remember. By induction
on the tasks every one of them runs on a breaker that counts nothing and has a past, which it does
not look at. -/

/-- A job to be done: rows, what is to be made of them, and what happens meanwhile, from the job being
killed before it begins to what comes while it has to wait. -/
structure Task {β : Type} [BatchIterator β] (A : SourceCustody β) where
  id : JobId
  source : β
  plans : List Projection
  kill : Option String
  wakeups : List (Wakeup β)
  source_held : A.held source = 0
  unaccounted : ∀ w ∈ wakeups, w.Unaccounted A

namespace Task

variable {β : Type} [BatchIterator β] {A : SourceCustody β}

/-- Runs a task in a job, until it ends or has to wait for what does not come. -/
def run (t : Task A) (job : Job) : Progress RunError × Run (Counted β) × Job :=
  Progress.attend Run.wake t.wakeups
    (Run.start (Counted.new t.source) t.plans (job.interrupt t.kill))

theorem oblivious_run (S : ObliviousIterator β) (t : Task A) : Progress.Oblivious t.run :=
  fun past job => by
    have hstart := Run.oblivious_start S.counted (Counted.new t.source) t.plans past
      (job.interrupt t.kill)
    simp only [run, Job.interrupt_behind, hstart]
    exact Progress.oblivious_attend (Run.oblivious_wake S) t.wakeups _ past

/-- **However a task ends**, its job has given back what it held. -/
theorem moves_run (t : Task A) (job : Job) (hend : (t.run job).1.isFinished = true) :
    Budget.Moves job.budget 0 (t.run job).2.2.budget 0 := by
  have hsettled : Run.Settled A (job.interrupt t.kill).budget (t.run job) :=
    Progress.attend_induction _ (fun w hw run job => Run.settled_wake (t.unaccounted w hw))
      (Run.settled_start t.source_held t.plans _)
  rw [Job.budget_interrupt] at hsettled
  exact hsettled.moves hend

end Task

namespace Runner

variable {β : Type} [BatchIterator β] {A : SourceCustody β}

/-- Runs a task in a job of its own. -/
def serve (r : Runner) (t : Task A) : Progress RunError × Run (Counted β) × Job := t.run (r.job t.id)

/-- Runs tasks one after the other. -/
def serveAll (r : Runner) : List (Task A) → List (Progress RunError × Run (Counted β) × Job) × Runner
  | [] => ([], r)
  | t :: ts =>
    let answer := r.serve t
    let (answers, r) := (r.leave answer.2.2).serveAll ts
    (answer :: answers, r)

/-- The breaker once the task has been run. -/
def breakerAfter (r : Runner) (t : Task A) : Breaker := (r.serve t).2.2.budget.breaker

/-- An answer without the breaker, which is all that a job has not for itself. -/
def withoutBreaker (answer : Progress RunError × Run (Counted β) × Job) :
    Progress RunError × Run (Counted β) × Account × KillSwitch :=
  (answer.1, answer.2.1, answer.2.2.budget.account, answer.2.2.kill)

/-- The runner, if there had been a past before its own. -/
def behind (past : Past) (r : Runner) : Runner := { r with breaker := r.breaker.behind past }

/-- **One task on a runner with a past** gets the answer that it gets on one without. -/
theorem serve_behind (S : ObliviousIterator β) (past : Past) (r : Runner) (t : Task A) :
    (r.behind past).serve t =
      ((r.serve t).1, (r.serve t).2.1, (r.serve t).2.2.behind past) :=
  t.oblivious_run S past (r.job t.id)

/-- **What a task leaves** on a new breaker is what the breaker remembers of it. -/
theorem leave_serve (S : ObliviousIterator β) {r : Runner} {name : String} {limit : Nat}
    (hr : r.breaker = .new name limit) {t : Task A} (hend : (r.serve t).1.isFinished = true)
    (huncut : Counter.Uncut (some limit) (r.breakerAfter t).peak) :
    r.leave (r.serve t).2.2 = r.behind (r.breakerAfter t).memory := by
  obtain ⟨config, breaker⟩ := r
  obtain rfl : breaker = .new name limit := hr
  have hmoves : Budget.Moves _ 0 _ 0 := t.moves_run _ hend
  have hname := (t.oblivious_run S).name_eq (Runner.job ⟨config, .new name limit⟩ t.id)
  have hused := hmoves.breaker.exact huncut (Nat.zero_le _)
  exact congrArg (Runner.mk config) (Breaker.eq_behind_memory hname hmoves.limit hused)

/-- What is remembered of tasks, each of which was alone on the runner. -/
def memory (r : Runner) (tasks : List (Task A)) : Past where
  peak _ := (tasks.map fun t => (r.breakerAfter t).peak).foldr max 0
  trips _ := (tasks.map fun t => (r.breakerAfter t).trips).sum

theorem behind_behind (past later : Past) (r : Runner) :
    (r.behind later).behind past = r.behind (past.andThen later) := by
  simp only [behind, Breaker.behind_behind]

/-- A task on a runner with a past leaves both pasts. -/
theorem leave_serve_behind (S : ObliviousIterator β) (past : Past) (r : Runner) (t : Task A) :
    (r.behind past).leave ((r.behind past).serve t).2.2 = (r.leave (r.serve t).2.2).behind past := by
  rw [serve_behind S]
  rfl

/-- **Task after task**, on a runner with a past. -/
theorem serveAll_behind (S : ObliviousIterator β) {r : Runner} {name : String} {limit : Nat}
    (hr : r.breaker = .new name limit) {tasks : List (Task A)}
    (hend : ∀ t ∈ tasks, (r.serve t).1.isFinished = true)
    (huncut : ∀ t ∈ tasks, Counter.Uncut (some limit) (r.breakerAfter t).peak) (past : Past) :
    ((r.behind past).serveAll tasks).1.map withoutBreaker =
        tasks.map (fun t => withoutBreaker (r.serve t)) ∧
      ((r.behind past).serveAll tasks).2 = r.behind (past.andThen (r.memory tasks)) := by
  induction tasks generalizing past with
  | nil => exact ⟨rfl, by simp [serveAll, Past.andThen, memory]⟩
  | cons t ts ih =>
    -- the first task leaves the runner with a past for the others
    have hleave := leave_serve_behind S past r t
    rw [leave_serve S hr (hend t List.mem_cons_self) (huncut t List.mem_cons_self),
      behind_behind] at hleave
    obtain ⟨hanswers, hafter⟩ := ih (fun t ht => hend t (List.mem_cons_of_mem _ ht))
      (fun t ht => huncut t (List.mem_cons_of_mem _ ht))
      (past.andThen (r.breakerAfter t).memory)
    rw [serveAll]
    simp only [hleave]
    constructor
    · rw [List.map_cons, hanswers, serve_behind S]
      rfl
    · rw [hafter]
      simp [Past.andThen, memory, Breaker.memory, Nat.max_assoc, Nat.add_assoc]

theorem new_eq {config : Config} {r : Runner} (h : new config = .ok r) :
    r = ⟨config, .new config.breakerName config.breakerLimit⟩ := by
  unfold new at h
  split at h
  · cases h
    rfl
  · cases h

/-- **Jobs on one runner do not influence each other.** Tasks that are run one after the other on a
new runner get the answers that each of them gets alone on a new runner with the same settings and
under the same identifier: the rows or the error, with all figures in it, and the counters of the job.
Earlier tasks may have failed, been refused or been killed. Afterwards nothing is in use; the peak of
the breaker is the greatest of those that the tasks have alone, and its trips are all of theirs. A
task is one that comes to its end, and does not take a breaker without a limit to the greatest size. -/
theorem serveAll_isolated (S : ObliviousIterator β) {config : Config} {r : Runner}
    (hr : new config = .ok r) (tasks : List (Task A))
    (hend : ∀ t ∈ tasks, (r.serve t).1.isFinished = true)
    (huncut : ∀ t ∈ tasks, Counter.Uncut (some config.breakerLimit) (r.breakerAfter t).peak) :
    (r.serveAll tasks).1.map withoutBreaker = tasks.map (fun t => withoutBreaker (r.serve t)) ∧
      (r.serveAll tasks).2.breaker.used = 0 ∧
      (r.serveAll tasks).2.breaker.peak =
        (tasks.map fun t => (r.breakerAfter t).peak).foldr max 0 ∧
      (r.serveAll tasks).2.breaker.trips = (tasks.map fun t => (r.breakerAfter t).trips).sum := by
  have hbreaker : r.breaker = .new config.breakerName config.breakerLimit := by rw [new_eq hr]
  let nothing : Past := ⟨fun _ => 0, fun _ => 0⟩
  have hfresh : r.behind nothing = r := by simp [behind, Breaker.behind, nothing]
  obtain ⟨hanswers, hafter⟩ := serveAll_behind S hbreaker hend huncut nothing
  rw [hfresh] at hanswers hafter
  refine ⟨hanswers, ?_⟩
  rw [hafter]
  simp only [behind, hbreaker]
  simp [Breaker.behind, Breaker.new, Past.andThen, memory, nothing]

/-- A sort of three rows that do not fit into two hundred bytes, one that is killed while it waits for
its second row, and the first once more. -/
def crowd : List (Task Source.custody) :=
  let sort : Projection := .orderedTopN ⟨none, 0, [.column 0], [0], [false], [none]⟩
  let rows : Source := .memory (.ofRows [[.int32 2], [.int32 1], [.int32 3]])
  let channel : Source := .channel (.new ⟨2, [.batch [[.int32 2]]], 1, true⟩)
  let late : Wakeup Source := ⟨id, some "too late"⟩
  [⟨⟨1⟩, rows, [sort], none, [], rfl, nofun⟩,
    ⟨⟨2⟩, channel, [sort], none, [late], rfl, fun w hw => by
      obtain rfl := List.mem_singleton.1 hw
      exact fun _ => rfl⟩,
    ⟨⟨1⟩, rows, [sort], none, [], rfl, nofun⟩]

/-- The third task is refused with the figures of the first. -/
theorem serveAll_isolated_crowd :
    let r : Runner := ⟨{ Config.standard with breakerLimit := 200 }, .new "query" 200⟩
    let refusal : RunError := .operator (.memory (.circuitBreaking "query" "sort" 88 200 176))
    crowd.map (fun t => (r.serve t).1.failsWith refusal) = [true, false, true] ∧
      (r.serveAll crowd).1.map withoutBreaker = crowd.map (fun t => withoutBreaker (r.serve t)) ∧
      (r.serveAll crowd).2.breaker.used = 0 ∧ (r.serveAll crowd).2.breaker.peak = 176 ∧
      (r.serveAll crowd).2.breaker.trips = 2 := by
  intro r refusal
  have hnew : Runner.new { Config.standard with breakerLimit := 200 } = .ok r := rfl
  have hend : ∀ t ∈ crowd, (r.serve t).1.isFinished = true := by decide +kernel
  have huncut : ∀ t ∈ crowd, Counter.Uncut (some 200) (r.breakerAfter t).peak :=
    fun t _ => .inl (by decide)
  obtain ⟨hanswers, hused, hpeak, htrips⟩ :=
    serveAll_isolated Source.oblivious hnew crowd hend huncut
  refine ⟨by decide +kernel, hanswers, hused, hpeak.trans ?_, htrips.trans ?_⟩ <;> decide +kernel

end Runner

end RowStream
