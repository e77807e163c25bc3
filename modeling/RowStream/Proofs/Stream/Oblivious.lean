import RowStream.Proofs.Collector.Oblivious
import RowStream.Proofs.Stream.Law

/-!
# Steps that do not know the past

What stages, chains and consumers do of themselves is look at the kill switch, go on after a row and
clean up after an error. So if the source does not look at the past of the breaker, nothing over it
does, and what is pulled through it comes to the same end behind every past.

* `JobStep.Oblivious`, `Job.Oblivious` — steps of a job and releases, with their rules.
* `StepLaw.oblivious` — the property as a law of steps.
* `ObliviousIterator` — iterators all of whose steps are such steps: `Chain.oblivious` for chains of any
  length.
* `obliviousIterator_iff`, `ObliviousConsumer.lawful` — they are those that keep the law.
-/

namespace RowStream

/-! ## Steps of jobs

A job behind a past is the same job on a breaker that remembers more. The law is that this commutes
with a step; sequences and cleaning up keep it. -/

/-- The job on a breaker with a past. -/
def Job.behind (past : Past) (job : Job) : Job := { job with budget := job.budget.behind past }

/-- What is made of a job on a breaker with a past is the same. -/
def Job.Oblivious {τ : Type} (f : Job → τ × Job) : Prop :=
  ∀ past job, f (job.behind past) = ((f job).1, (f job).2.behind past)

/-- On a breaker with a past the step comes to the same end. -/
def JobStep.Oblivious {σ α : Type} (m : JobStep σ α) : Prop :=
  ∀ past job, m (job.behind past) = (m job).mapShared (Job.behind past)

namespace Job.Oblivious

variable {σ τ : Type}

theorem andThen {f : Job → σ × Job} {g : σ → Job → τ × Job} (hf : Job.Oblivious f)
    (hg : ∀ s, Job.Oblivious (g s)) : Job.Oblivious fun job => g (f job).1 (f job).2 :=
  fun past job => by
    simp only [hf past job]
    exact hg _ past _

/-- Giving back does not look at the budget. -/
theorem giveBack {release : σ → Budget → σ × Budget} {s : σ} (h : GivesBack (release s)) :
    Job.Oblivious fun job => job.giveBack release s := fun past job => by
  obtain ⟨t, sizes, hrelease⟩ := h
  simp only [Job.giveBack, Job.behind, hrelease, Budget.foldl_giveBack_behind]

/-- Cleaning up after an error. -/
theorem error {α : Type} {f : Job → τ × Job} (hf : Job.Oblivious f) (e : OpError) :
    JobStep.Oblivious (α := α) fun job => .error e (f job) := fun past job => by
  simp only [hf past job]
  rfl

end Job.Oblivious

namespace JobStep

variable {σ τ α β : Type} {m : JobStep σ α}

/-- A metered computation as a step. -/
theorem oblivious_spend {c : Metered.Op σ α} (hc : c.Oblivious) (s : σ) :
    JobStep.Oblivious fun job => Running.spend c (s, job) := fun past job => by
  have hrun := hc past s job.budget
  simp only [Running.spend, Job.behind, hrun]
  rcases c (s, job.budget) with ⟨a, t, b⟩ | ⟨e, t, b⟩ <;> rfl

theorem Oblivious.within (hm : m.Oblivious) (whole : σ → τ) :
    JobStep.Oblivious fun job => StepResult.within whole (m job) := fun past job => by
  simp only [hm past job, StepResult.within_mapShared]

/-- Going on and cleaning up. Only what the first step can come to counts. -/
theorem Oblivious.andThen {next : α → σ → JobStep τ β} {fail : OpError → σ → JobStep τ β}
    (hm : m.Oblivious)
    (hnext : ∀ {a t job job'}, m job = .ok a (t, job') → (next a t).Oblivious)
    (hfail : ∀ e t, (fail e t).Oblivious) :
    JobStep.Oblivious fun job => (m job).andThen next fail := fun past job => by
  simp only [hm past job]
  rcases hrun : m job with ⟨a, t, job'⟩ | ⟨e, t, job'⟩
  · exact hnext hrun past job'
  · exact hfail e t past job'

/-- The kill switch has nothing to do with the past. -/
theorem Oblivious.unlessKilled (hm : m.Oblivious) (s : σ) :
    JobStep.Oblivious fun job =>
      match job.kill.check with
      | .error e => .error e (s, job)
      | .ok () => m job := fun past job => by
  simp only [show (job.behind past).kill = job.kill from rfl]
  cases job.kill.check with
  | error e => rfl
  | ok u => exact hm past job

end JobStep

/-- **Not to know the past is a law of steps.** -/
def StepLaw.oblivious : StepLaw where
  Step := JobStep.Oblivious
  Exit := Job.Oblivious
  still {_ _ _ r _} _ h past job := by
    simp only [h]
    cases r <;> rfl
  within := JobStep.Oblivious.within
  andThen hm hnext hfail := hm.andThen hnext fun e s => (hfail e s).error e
  unlessKilled := JobStep.Oblivious.unlessKilled
  killed hm reason past job := hm past { job with kill := job.kill.kill reason }
  take row := JobStep.oblivious_spend (Operator.oblivious_take row)
  showNext := JobStep.oblivious_spend Operator.oblivious_showNext
  conclude := JobStep.oblivious_spend Operator.oblivious_conclude
  stay _ _ _ := rfl
  giveBack := Job.Oblivious.giveBack
  exitThen := Job.Oblivious.andThen
  exitOk hf a past job := by
    simp only [hf past job]
    rfl

/-! ## Iterators

What holds of the law holds of chains, consumers and sources. -/

/-- An iterator none of whose steps looks at the past. -/
structure ObliviousIterator (σ : Type) [BatchIterator σ] : Prop where
  moveNext (s : σ) : JobStep.Oblivious fun job => BatchIterator.moveNext (s, job)
  load (s : σ) : JobStep.Oblivious fun job => BatchIterator.load (s, job)
  close (s : σ) : Job.Oblivious (BatchIterator.close s)

/-- A consumer that does not look at the past. -/
structure ObliviousConsumer (κ : Type) [RowConsumer κ] : Prop where
  accept (row : Row) (k : κ) : JobStep.Oblivious fun job => RowConsumer.accept row (k, job)
  release (k : κ) : Job.Oblivious (RowConsumer.release k)

/-- Such iterators are those that keep the law. -/
theorem obliviousIterator_iff {σ : Type} [BatchIterator σ] :
    ObliviousIterator σ ↔ LawfulIterator .oblivious σ :=
  ⟨fun S => ⟨S.moveNext, S.load, S.close⟩, fun S => ⟨S.moveNext, S.load, S.close⟩⟩

theorem ObliviousConsumer.lawful {κ : Type} [RowConsumer κ] (K : ObliviousConsumer κ) :
    LawfulConsumer .oblivious κ :=
  ⟨K.accept, K.release⟩

/-- **A chain over an oblivious iterator is oblivious.** -/
theorem Chain.oblivious {β : Type} [BatchIterator β] (S : ObliviousIterator β) (n : Nat) :
    ObliviousIterator (Chain β n) :=
  obliviousIterator_iff.2 (Chain.lawful (obliviousIterator_iff.1 S) n)

/-- **The sources of the engine** do not look at the past. -/
theorem Source.oblivious : ObliviousIterator Source := obliviousIterator_iff.2 Source.still.lawful

namespace ResultSet

theorem oblivious_add (row : Row) : (add row).Oblivious :=
  (Metered.oblivious_read _).bind fun bytes =>
    (Scope.oblivious_charge bytes).zoom.bind fun _ => Metered.oblivious_modifyState _

theorem oblivious : ObliviousConsumer ResultSet where
  accept row k := JobStep.oblivious_spend (oblivious_add row) k
  release k := Job.Oblivious.giveBack ⟨_, _, k.exists_release.choose_spec.choose_spec⟩

end ResultSet

/-- Keeping count of what is asked of an iterator does not look at the past. -/
theorem ObliviousIterator.counted {σ : Type} [BatchIterator σ] (S : ObliviousIterator σ) :
    ObliviousIterator (Counted σ) :=
  obliviousIterator_iff.2 (obliviousIterator_iff.1 S).counted

end RowStream
