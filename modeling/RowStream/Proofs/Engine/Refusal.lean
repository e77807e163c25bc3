import RowStream.Engine.Summary
import RowStream.Proofs.Engine.Kill
import RowStream.Proofs.Engine.Law
import RowStream.Proofs.Stream.Refusal

/-!
# One refusal ends a run

A run is told by an error that the breaker refused memory, and the breaker counts its refusals. The two
agree: the first refusal is the error that the run ends with, and after it nobody asks the breaker again.

* `Progress.Refuses`, `Progress.Spends` — how an answer and the budget after it come out of the memory
  that is asked for; `Progress.spends_of_failsFast` for answers that fail fast.
* `Progress.Spends.trips` — the trips of the breaker, and the flag that is reported.
* `KillableDrive.step_answer` — drives at their end keep every law of steps, and so fail fast.
* `KillableDrive.answer_failsFast` — what that means for a run and its summary.
-/

namespace RowStream

namespace Progress

variable {τ : Type}

/-- Whether it is the end, with a refusal. -/
def Refuses (refusal : MemoryError) (progress : Progress OpError) : Prop :=
  progress = .finished (.error (.memory refusal))

/-- An answer whose job asks for memory along one trace. If that is granted, nobody was refused. The
first refusal is the error that is answered with, and after it memory is only given back. -/
def Spends (f : Budget → Progress OpError × τ × Job) (movements : List Movement) : Prop :=
  ∀ b : Budget, match b.replay movements with
    | .ok () granted => (∀ refusal, ¬(f b).1.Refuses refusal) ∧ (f b).2.2.budget = granted
    | .error refusal refused => (f b).1.Refuses refusal ∧
        ∃ sizes : List Nat, (f b).2.2.budget = sizes.foldl Budget.giveBack refused

theorem eq_of_step_ok {answer : Progress OpError × τ × Job} {progress : Progress OpError} {t : τ}
    {job : Job} (h : step answer = .ok progress (t, job)) :
    answer = (progress, t, job) ∧ ∀ e, progress ≠ .finished (.error e) := by
  obtain ⟨_ | ⟨e | rows⟩ | _, u, job'⟩ := answer <;> cases h <;> exact ⟨rfl, nofun⟩

theorem eq_of_step_error {answer : Progress OpError × τ × Job} {e : OpError} {t : τ} {job : Job}
    (h : step answer = .error e (t, job)) : answer = (.finished (.error e), t, job) := by
  obtain ⟨_ | ⟨e | rows⟩ | _, u, job'⟩ := answer <;> cases h
  rfl

/-- Under every kill switch there is such a trace. -/
theorem spends_of_failsFast {f : Job → Progress OpError × τ × Job}
    (hf : JobStep.FailsFast fun job => step (f job)) (kill : KillSwitch) :
    ∃ movements, Spends (fun b => f ⟨b, kill⟩) movements := by
  obtain ⟨movements, r, t, kill', hruns, hr⟩ := hf kill
  refine ⟨movements, fun b => ?_⟩
  -- replaying the movements tells whether some request is refused, and which
  cases hreplay : b.replay movements with
  | ok u granted =>
    have hstep := hruns.granted hreplay
    cases r with
    | ok progress =>
      obtain ⟨hanswer, hprogress⟩ := eq_of_step_ok hstep
      simp only [hanswer]
      exact ⟨fun refusal => hprogress (.memory refusal), trivial⟩
    | error e =>
      simp only [eq_of_step_error hstep]
      refine ⟨fun refusal h => hr refusal ?_, trivial⟩
      cases h
      rfl
  | error refusal refused =>
    obtain ⟨u, sizes, kill'', hstep⟩ := hruns.refused hreplay
    simp only [eq_of_step_error hstep]
    exact ⟨rfl, sizes, rfl⟩

/-- Whether it is the end of a run that tripped its breaker. -/
def tripped : Progress OpError → Bool
  | .finished result => trippedBreaker result
  | _ => false

theorem Refuses.tripped_eq {refusal : MemoryError} {progress : Progress OpError}
    (h : progress.Refuses refusal) : progress.tripped = refusal.isBreaker := by
  cases h
  rfl

/-- Only refusals of memory trip a breaker. -/
theorem tripped_eq_false {progress : Progress OpError}
    (h : ∀ refusal, ¬progress.Refuses refusal) : progress.tripped = false := by
  match progress with
  | .pending | .over | .finished (.ok _) => rfl
  | .finished (.error e) =>
    cases e with
    | memory refusal => exact absurd rfl (h refusal)
    | _ => rfl

/-- **The breaker counts the refusal that is answered with**, if it is one of its own, and no other. -/
theorem Spends.trips {f : Budget → Progress OpError × τ × Job} {movements : List Movement}
    (hf : Spends f movements) (b : Budget) :
    (f b).2.2.budget.breaker.trips = b.breaker.trips + (f b).1.tripped.toNat := by
  have hb := hf b
  cases hreplay : b.replay movements with
  | ok u granted =>
    simp only [hreplay] at hb
    obtain ⟨hunrefused, hbudget⟩ := hb
    rw [hbudget, Budget.trips_replay hreplay, tripped_eq_false hunrefused]
    rfl
  | error refusal refused =>
    simp only [hreplay] at hb
    obtain ⟨hrefuses, sizes, hbudget⟩ := hb
    rw [hbudget, Budget.trips_giveBacks, Budget.trips_of_refused hreplay, hrefuses.tripped_eq]

end Progress

/-- The flag is raised by one kind of error. -/
theorem trippedBreaker_iff {α : Type} {result : Except OpError α} :
    trippedBreaker result = true ↔ ∃ breaker label requested limit used,
      result = .error (.memory (.circuitBreaking breaker label requested limit used)) := by
  match result with
  | .ok a => simp [trippedBreaker]
  | .error e =>
    cases e with
    | memory refusal => cases refusal <;> simp [trippedBreaker, MemoryError.isBreaker]
    | _ => simp [trippedBreaker]

/-! ## Drives that are killed

The law of failing fast, for drives whose source and consumer are killed meanwhile: their steps keep
the law as those without kills do. -/

section Answers

variable {σ κ β : Type} [BatchIterator σ] [RowConsumer κ] [BatchIterator β]

/-- A drive that waits can be asked again, and no other is. -/
def Progress.CanGoOn {ε : Type} : Progress ε × Drive σ κ × Job → Prop
  | (.pending, d, _) => d.phase = .suspended
  | (.finished _, _, _) => True
  | (.over, _, _) => False

omit [BatchIterator σ] [RowConsumer κ] in
theorem Progress.CanGoOn.ne_over {ε : Type} {answer : Progress ε × Drive σ κ × Job}
    (h : CanGoOn answer) : answer.1 ≠ .over := by
  obtain ⟨_ | _ | _, d, job⟩ := answer
  · exact nofun
  · exact nofun
  · exact h.elim

theorem Drive.canGoOn_poll {d : Drive σ κ} (hphase : d.phase ≠ .over) (job : Job) :
    Progress.CanGoOn (d.poll job) := by
  have hsettle (r : StepResult OpError Job (σ × κ) Pulled) : Progress.CanGoOn (settle r) := by
    rcases r with ⟨_ | _, ⟨t, l⟩, job'⟩ | ⟨e, ⟨t, l⟩, job'⟩
    · trivial
    · rfl
    · trivial
  unfold poll
  match hphase' : d.phase with
  | .fresh => exact hsettle _
  | .suspended => exact hsettle _
  | .over => exact absurd hphase' hphase

namespace KillableDrive

/-- What the drive answers in the end, if it is that of another job. -/
def answerIn (d : KillableDrive β κ) (job : Job) : Progress OpError ×
    Drive (Chain (Counted (KillingSource β)) d.operators.reverse.length) (Interrupted κ) × Job :=
  Progress.attend Drive.wake (d.wakeups.map fun w => ⟨KillingSource.modify w.arrive, w.kill⟩)
    (d.start.poll job)

/-- **All that a drive answers in the end** keeps a law that its source and its consumer keep. -/
theorem step_answer {L : StepLaw} (S : LawfulIterator L β) (K : LawfulConsumer L κ)
    (d : KillableDrive β κ) :
    L.Step fun job => Progress.step (d.answerIn job) := by
  have hsource := (KillingSource.lawful S).counted
  have hconsumer := Interrupted.lawful K
  exact Progress.step_attend (fun w t => Drive.step_wake hsource hconsumer w t) _
    (Drive.step_poll (Chain.lawful hsource _) hconsumer d.start)

/-- A drive answers with its end, or has to wait. -/
theorem answer_ne_over (d : KillableDrive β κ) : d.answer.1 ≠ .over := by
  have hfresh : d.start.phase ≠ .over := Phase.noConfusion
  refine Progress.CanGoOn.ne_over ?_
  refine Progress.attend_induction _ (fun w _ t job ht => ?_) (Drive.canGoOn_poll hfresh d.job)
  refine Drive.canGoOn_poll ?_ _
  rw [show t.phase = .suspended from ht]
  exact nofun

end KillableDrive

end Answers

namespace KillableDrive

variable {β : Type} [BatchIterator β]

/-- **A run meets one refusal at most, and what it reports of the breaker is what the breaker counted.**
Over every source whose own steps fail fast, and for all operators, limits and quotas, and whenever and
however often the job is killed:

* The breaker has tripped once more if the run ends with a refusal of the breaker, and as often as before
  if it ends in any other way, or has to wait. So the flag in the summary of the run is raised exactly if
  the count rose.
* All that the run asks for is asked for along one trace. The first refusal is the error that the run ends
  with, and after it memory is only given back. -/
theorem answer_failsFast (hsource : FailFastIterator β) (d : KillableDrive β ResultSet) :
    (match d.answer with
      | (.finished result, _, job) =>
        job.budget.breaker.trips = d.job.budget.breaker.trips + (trippedBreaker result).toNat ∧
          (trippedBreaker result = true ↔ d.job.budget.breaker.trips < job.budget.breaker.trips) ∧
          (trippedBreaker result = true ↔ ∃ breaker label requested limit used,
            result = .error (.memory (.circuitBreaking breaker label requested limit used)))
      | (.pending, _, job) => job.budget.breaker.trips = d.job.budget.breaker.trips
      | (.over, _, _) => False) ∧
    ∃ movements, Progress.Spends (fun b => d.answerIn { d.job with budget := b }) movements := by
  obtain ⟨movements, hspends⟩ := Progress.spends_of_failsFast
    (d.step_answer hsource ResultSet.failFast) d.job.kill
  refine ⟨?_, movements, hspends⟩
  have hanswer : d.answer.1 ≠ .over := d.answer_ne_over
  have htrips : d.answer.2.2.budget.breaker.trips =
      d.job.budget.breaker.trips + d.answer.1.tripped.toNat := hspends.trips d.job.budget
  -- only the three facts about the answer count from here on
  generalize d.answer = answer at hanswer htrips ⊢
  obtain ⟨progress, t, job⟩ := answer
  match progress with
  | .pending => exact htrips
  | .over => exact absurd rfl hanswer
  | .finished result =>
    have htrips : job.budget.breaker.trips =
        d.job.budget.breaker.trips + (trippedBreaker result).toNat := htrips
    refine ⟨htrips, ?_, trippedBreaker_iff⟩
    rw [htrips]
    cases trippedBreaker result <;> simp

/-- A sort of three rows that do not fit into two hundred bytes, over a breaker that has tripped twice
before. The job is killed while the refused row is on its way. -/
def refusedSort : KillableDrive Source ResultSet where
  source := .memory (.ofRows [[.int32 2], [.int32 1], [.int32 3]])
  operators := [Projection.operator .standard
    (.orderedTopN ⟨none, 0, [.column 0], [0], [false], [none]⟩)]
  consumer := .new
  job := .live ⟨⟨"query", 200, 0, 0, 2⟩, .new .nil none⟩
  wakeups := []
  sourceKills := [none, none, some "too late"]
  consumerKills := []

theorem answer_failsFast_refusedSort :
    refusedSort.answer.1.tripped = true ∧ refusedSort.answer.2.2.budget.breaker.trips = 3 ∧
      ∃ movements, Progress.Spends
        (fun b => refusedSort.answerIn { refusedSort.job with budget := b }) movements := by
  have htripped : refusedSort.answer.1.tripped = true := by decide +kernel
  obtain ⟨hanswer, hmovements⟩ := answer_failsFast Source.still.lawful refusedSort
  refine ⟨htripped, ?_, hmovements⟩
  generalize refusedSort.answer = answer at htripped hanswer ⊢
  obtain ⟨progress, t, job⟩ := answer
  match progress with
  | .pending | .over => cases htripped
  | .finished result =>
    have htripped : trippedBreaker result = true := htripped
    rw [hanswer.1, htripped]
    rfl

end KillableDrive

end RowStream
