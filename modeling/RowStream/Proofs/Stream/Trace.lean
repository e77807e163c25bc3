import RowStream.Proofs.Memory.Trace
import RowStream.Stream.Iterator

/-!
# Steps of jobs

A step of a job that is not killed comes to one outcome along one trace, as a metered computation
does; only that a refusal on the way may be answered with memory that is given back. This module
has the rules by which such steps are put together.

* `StepResult.andThen` — the shape that all steps of stages and drives have: go on after a value,
  clean up after an error.
* `JobStep.Follows`, `JobStep.Settles` — a trace and its outcome, and what holds of the outcome.
* `JobStep.Settles.andThen` — the rule for that shape.
-/

namespace RowStream

namespace StepResult

variable {ε κ σ τ α β : Type}

/-- Goes on with a step that ended well, and cleans up after one that did not. -/
def andThen (r : StepResult ε κ σ α) (next : α → σ → κ → StepResult ε κ τ β)
    (fail : ε → σ → κ → StepResult ε κ τ β) : StepResult ε κ τ β :=
  match r with
  | .ok a (s, k) => next a s k
  | .error e (s, k) => fail e s k

end StepResult

/-- A step of a part of a job, from where the part stands. -/
abbrev JobStep (σ α : Type) := Job → StepResult OpError Job σ α

/-- A job that is not killed. -/
def Job.live (b : Budget) : Job := ⟨b, .new⟩

namespace JobStep

variable {σ τ α β : Type}

/-- The step moves memory as `ms` says and comes to `r`, leaving the state `t`. Where a movement is
refused it fails with the refusal. -/
structure Follows (m : JobStep σ α) (ms : List Movement) (r : Except OpError α) (t : σ) :
    Prop where
  granted : ∀ {b b' : Budget}, b.replay ms = .ok () b' →
    m (.live b) = StepResult.of r t (.live b')
  refused : ∀ {b b' : Budget} {e : MemoryError}, b.replay ms = .error e b' →
    ∃ u job, m (.live b) = .error (.memory e) (u, job)

/-- Along some trace the step comes to an outcome with a property. -/
def Settles (m : JobStep σ α) (post : Except OpError α → σ → Prop) : Prop :=
  ∃ ms r t, post r t ∧ m.Follows ms r t

variable {m n : JobStep σ α} {post : Except OpError α → σ → Prop}

/-! ## Single steps

A step of a job is a metered computation, or it is known what it comes to. -/

theorem Follows.congr {ms : List Movement} {r : Except OpError α} {t : σ}
    (h : ∀ b, m (.live b) = n (.live b)) (hn : n.Follows ms r t) : m.Follows ms r t where
  granted hb := by
    rw [h]
    exact hn.granted hb
  refused hb := by
    rw [h]
    exact hn.refused hb

theorem Settles.congr (h : ∀ b, m (.live b) = n (.live b)) (hn : n.Settles post) :
    m.Settles post := by
  obtain ⟨ms, r, t, ht, hn⟩ := hn
  exact ⟨ms, r, t, ht, hn.congr h⟩

theorem Settles.mono {post' : Except OpError α → σ → Prop} (hm : m.Settles post)
    (h : ∀ r t, post r t → post' r t) : m.Settles post' := by
  obtain ⟨ms, r, t, ht, hm⟩ := hm
  exact ⟨ms, r, t, h r t ht, hm⟩

/-- A step that only gives memory back. -/
theorem follows_giveBacks {sizes : List Nat} {r : Except OpError α} {t : σ}
    (h : ∀ b, m (.live b) = StepResult.of r t (.live (sizes.foldl Budget.giveBack b))) :
    m.Follows (sizes.map .giveBack) r t where
  granted {b b'} hb := by
    rw [Budget.replay_giveBacks] at hb
    cases hb
    exact h b
  refused {b b' e} hb := by
    rw [Budget.replay_giveBacks] at hb
    cases hb

/-- A step that leaves memory alone and ends well. -/
theorem settles_ok {a : α} {t : σ} (h : ∀ b, m (.live b) = .ok a (t, .live b))
    (ht : post (.ok a) t) : m.Settles post := by
  have hm : m.Follows ([].map .giveBack) (.ok a) t := follows_giveBacks h
  exact ⟨[], .ok a, t, ht, hm⟩

/-- A step that leaves memory alone and fails. -/
theorem settles_error {e : OpError} {t : σ} (h : ∀ b, m (.live b) = .error e (t, .live b))
    (ht : post (.error e) t) : m.Settles post := by
  have hm : m.Follows ([].map .giveBack) (.error e) t := follows_giveBacks h
  exact ⟨[], .error e, t, ht, hm⟩

/-- A metered computation as a step. -/
theorem follows_spend {c : Metered.Op σ α} {s t : σ} {ms : List Movement}
    {r : Except OpError α} (hc : c.Follows s ms r t) :
    JobStep.Follows (fun job => Running.spend c (s, job)) ms r t where
  granted hb := by
    unfold Running.spend Job.live
    simp only [hc.granted hb]
    cases r <;> rfl
  refused {b b' e} hb := by
    obtain ⟨u, hu⟩ := hc.refused hb
    exact ⟨u, .live b', by simp [Running.spend, Job.live, hu, OfRefusal.ofRefusal]⟩

/-! ## Composed steps

After an error memory is given back, which cannot be refused. So cleaning up adds to the trace and
keeps the outcome. -/

/-- **Going on and cleaning up.** A refusal on the way ends the whole with that refusal, as long as
cleaning up keeps the error. -/
theorem Settles.andThen {next : α → σ → JobStep τ β} {fail : OpError → σ → JobStep τ β}
    {post' : Except OpError β → τ → Prop} (hm : m.Settles post)
    (hnext : ∀ a t, post (.ok a) t → (next a t).Settles post')
    (hfail : ∀ e t, post (.error e) t → (fail e t).Settles post')
    (hkeeps : ∀ e t job, ∃ u job', fail e t job = .error e (u, job')) :
    JobStep.Settles (fun job => (m job).andThen next fail) post' := by
  obtain ⟨ms, r, t, ht, hm⟩ := hm
  -- what comes after `m` is one step, whichever way `m` ended
  have hafter : ∃ k : JobStep τ β, k.Settles post' ∧
      ∀ job, (StepResult.of r t job).andThen next fail = k job := by
    cases r with
    | ok a => exact ⟨next a t, hnext a t ht, fun job => rfl⟩
    | error e => exact ⟨fail e t, hfail e t ht, fun job => rfl⟩
  obtain ⟨k, ⟨ns, r', u, hu, hk⟩, heq⟩ := hafter
  refine ⟨ms ++ ns, r', u, hu, ?_, ?_⟩
  · intro b b' hb
    obtain ⟨c, hms, hns⟩ := Budget.replay_append_eq_ok.1 hb
    simp only [hm.granted hms, heq]
    exact hk.granted hns
  · intro b b' e hb
    obtain hms | ⟨c, hms, hns⟩ := Budget.replay_append_eq_error.1 hb
    · obtain ⟨v, job, hv⟩ := hm.refused hms
      simp only [hv]
      exact hkeeps _ v job
    · simp only [hm.granted hms, heq]
      exact hk.refused hns

theorem Settles.within {whole : σ → τ} {post' : Except OpError α → τ → Prop}
    (hm : m.Settles post) (h : ∀ r t, post r t → post' r (whole t)) :
    JobStep.Settles (fun job => StepResult.within whole (m job)) post' := by
  obtain ⟨ms, r, t, ht, hm⟩ := hm
  refine ⟨ms, r, whole t, h r t ht, ?_, ?_⟩
  · intro b b' hb
    simp only [hm.granted hb]
    cases r <;> rfl
  · intro b b' e hb
    obtain ⟨u, job, hu⟩ := hm.refused hb
    exact ⟨whole u, job, by simp [hu, StepResult.within]⟩

/-- What is known of every good result of a step is known of its outcome. -/
theorem Settles.and_of_ok (hm : m.Settles post) (good : α → σ → Prop)
    (h : ∀ {job a t job'}, m job = .ok a (t, job') → good a t) :
    m.Settles fun r t => post r t ∧ ∀ a, r = .ok a → good a t := by
  obtain ⟨ms, r, t, ht, hm⟩ := hm
  refine ⟨ms, r, t, ⟨ht, fun a ha => ?_⟩, hm⟩
  -- without a memory limit the step does come to this outcome
  obtain ⟨b', hb, -⟩ := (Budget.unlimited_unlimited "" .nil).replay ms
  have hrun := hm.granted hb
  rw [ha] at hrun
  exact h hrun

end JobStep

end RowStream
