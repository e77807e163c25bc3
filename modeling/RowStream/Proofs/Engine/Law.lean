import RowStream.Proofs.Engine.Sparing
import RowStream.Proofs.Stream.Law

/-!
# Laws of drives

Polling a drive, waking it, and killing its job meanwhile add no steps of another kind to pulling. So a
law that the source and the consumer keep is kept by all that a drive answers.

* `Progress.step` — an answer as the result of a step.
* `KillingSource.lawful`, `Interrupted.lawful` — sources and consumers during whose work the job is
  killed.
* `Drive.step_poll`, `Drive.step_wake` — one answer; `Progress.step_attend` is the induction on the
  wakeups.
-/

namespace RowStream

/-! ## Kills

A kill during a call is something that is done to the job before the call, and only that it is done
has to keep the law. -/

namespace StepLaw

variable (L : StepLaw) {σ α : Type}

theorem interrupted {m : JobStep σ α} (hm : L.Step m) (reason : Option String) :
    L.Step fun job => m (job.interrupt reason) := by
  cases reason with
  | none => exact hm
  | some reason => exact L.killed hm reason

end StepLaw

variable {L : StepLaw} {σ κ τ β : Type} [BatchIterator σ] [RowConsumer κ] [BatchIterator β]

/-- A source during whose calls the job is killed. -/
theorem KillingSource.lawful (S : LawfulIterator L β) : LawfulIterator L (KillingSource β) where
  moveNext s := L.within (L.interrupted (S.moveNext s.source) _) _
  load s := L.within (L.interrupted (S.load s.source) _) _
  close s := L.exitMap (S.close s.source) fun source => { s with source }

/-- A consumer during whose work the job is killed. -/
theorem Interrupted.lawful (K : LawfulConsumer L κ) : LawfulConsumer L (Interrupted κ) where
  accept row k := L.within (L.interrupted (K.accept row k.consumer) _) _
  release k := L.exitMap (K.release k.consumer) fun consumer => { k with consumer }

/-! ## Answers

An answer is the result of a step in disguise. So what is known of steps is known of answers. -/

namespace Progress

/-- An answer as the result of a step, which fails where the answer is an error. -/
def step : Progress OpError × τ × Job → StepResult OpError Job τ (Progress OpError)
  | (.finished (.error e), t, job) => .error e (t, job)
  | (progress, t, job) => .ok progress (t, job)

theorem step_injective : Function.Injective (step (τ := τ)) := by
  rintro ⟨_ | ⟨e | rows⟩ | _, t, job⟩ ⟨_ | ⟨e' | rows'⟩ | _, t', job'⟩ h <;> cases h <;> rfl

theorem step_mapShared (f : Job → Job) (answer : Progress OpError × τ × Job) :
    step (answer.1, answer.2.1, f answer.2.2) = (step answer).mapShared f := by
  obtain ⟨_ | ⟨e | rows⟩ | _, t, job⟩ := answer <;> rfl

/-- Going on after an answer as long as something comes. -/
theorem step_attend_cons {α : Type} (wake : α → τ → Job → Progress OpError × τ × Job) (a : α)
    (as : List α) (answer : Progress OpError × τ × Job) :
    step (attend wake (a :: as) answer) = StepResult.andThen (step answer)
      (fun progress t job =>
        match progress with
        | .pending => step (attend wake as (wake a t job))
        | progress => .ok progress (t, job))
      fun e t job => .error e (t, job) := by
  obtain ⟨_ | ⟨e | rows⟩ | _, t, job⟩ := answer <;> rfl

/-- **All answers keep a law** if the first one and those after wakeups keep it. -/
theorem step_attend {α : Type} {wake : α → τ → Job → Progress OpError × τ × Job}
    (hwake : ∀ a t, L.Step fun job => step (wake a t job)) (as : List α)
    {f : Job → Progress OpError × τ × Job} (hf : L.Step fun job => step (f job)) :
    L.Step fun job => step (attend wake as (f job)) := by
  induction as generalizing f with
  | nil => exact hf
  | cons a as ih =>
    simp only [step_attend_cons]
    refine L.andThen hf (fun {progress t _ _} _ => ?_) fun _ t => L.stay t
    match progress with
    | .pending => exact ih (hwake a t)
    | .finished result => exact L.ok _ t
    | .over => exact L.ok _ t

end Progress

/-! ## Drives

Polling pulls, and closes and releases at the end. Waking puts something into the source and polls.
-/

namespace Drive

variable (S : LawfulIterator L σ) (K : LawfulConsumer L κ)

/-- Ends a drive: the chain is closed, and the consumer gives back what it accounted. -/
def leave (s : σ) (k : κ) (job : Job) : Drive σ κ × Job := (finish s k (.ok ()) job).2

include S K in
theorem exit_leave (s : σ) (k : κ) : L.Exit (leave s k) :=
  L.exitThen (S.close s) fun t => L.exitMap (K.release k) fun l => (⟨t, l, .over⟩ : Drive σ κ)

include S K in
/-- What is made of pulling, however it ends. -/
theorem step_settle {m : JobStep (σ × κ) Pulled} (hm : L.Step m) :
    L.Step fun job => Progress.step (settle (m job)) := by
  have hsettle : (fun job => Progress.step (settle (m job))) = fun job =>
      StepResult.andThen (m job)
        (fun pulled p job =>
          if pulled = .exhausted then .ok (.finished (.ok (RowConsumer.rows p.2))) (leave p.1 p.2 job)
          else .ok .pending (⟨p.1, p.2, .suspended⟩, job))
        fun e p job => .error e (leave p.1 p.2 job) := by
    funext job
    rcases m job with ⟨_ | _, ⟨t, l⟩, job'⟩ | ⟨e, ⟨t, l⟩, job'⟩ <;> rfl
  rw [hsettle]
  refine L.andThen hm (fun {pulled p _ _} _ => ?_) fun _ p => exit_leave S K p.1 p.2
  cases pulled with
  | exhausted => exact L.exitOk (exit_leave S K p.1 p.2) _
  | suspended => exact L.ok _ _

include S K in
/-- **One poll.** -/
theorem step_poll (d : Drive σ κ) : L.Step fun job => Progress.step (d.poll job) := by
  unfold poll
  match d.phase with
  | .fresh => exact step_settle S K (S.pull K d.chain d.consumer)
  | .suspended => exact step_settle S K (S.resume K d.chain d.consumer)
  | .over => exact L.ok _ d

/-- **One wakeup.** -/
theorem step_wake (S : LawfulIterator L (Counted β)) (K : LawfulConsumer L κ) {n : Nat}
    (w : Wakeup β) (d : Drive (Chain (Counted β) n) κ) :
    L.Step fun job => Progress.step (d.wake w job) :=
  L.interrupted (step_poll (Chain.lawful S n) K _) w.kill

end Drive

end RowStream
