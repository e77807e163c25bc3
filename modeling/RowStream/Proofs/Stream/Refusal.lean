import RowStream.Proofs.Collector.Refusal
import RowStream.Proofs.Stream.Law

/-!
# Streams that fail fast

A stage that is refused memory fails with the refusal, and so do the stages over it, the consumer and
whoever pulls. What each of them does on the way out is to give memory back. So a job that is killed or
not asks for memory along one trace; its first refusal is the error that it ends with, and after that
nobody asks again.

* `JobStep.FailsFast` — steps of a job with that property, with their rules; `Job.GivesBack` for what
  they do on the way out.
* `StepLaw.failFast` — the property as a law of steps, which chains and pulling keep; `FailFastIterator`
  for the sources that do.
-/

namespace RowStream

/-! ## Steps of jobs

A step runs along a trace. If a movement of it is refused, all that follows gives memory back; so
there is no second refusal, and the first is the error. -/

/-- Only gives memory back, and decides without the budget how much. -/
def Job.GivesBack {τ : Type} (f : Job → τ × Job) : Prop :=
  ∀ kill, ∃ (t : τ) (sizes : List Nat) (kill' : KillSwitch),
    ∀ b, f ⟨b, kill⟩ = (t, ⟨sizes.foldl Budget.giveBack b, kill'⟩)

namespace Job.GivesBack

variable {σ τ : Type}

theorem still (t : τ) : Job.GivesBack fun job => (t, job) := fun kill => ⟨t, [], kill, fun _ => rfl⟩

theorem andThen {f : Job → σ × Job} {g : σ → Job → τ × Job} (hf : Job.GivesBack f)
    (hg : ∀ s, Job.GivesBack (g s)) : Job.GivesBack fun job => g (f job).1 (f job).2 := by
  intro kill
  obtain ⟨s, sizes, kill₁, hf⟩ := hf kill
  obtain ⟨t, more, kill₂, hg⟩ := hg s kill₁
  refine ⟨t, sizes ++ more, kill₂, fun b => ?_⟩
  simp only [hf, hg, List.foldl_append]

theorem map {f : Job → σ × Job} (hf : Job.GivesBack f) (whole : σ → τ) :
    Job.GivesBack fun job => (whole (f job).1, (f job).2) :=
  hf.andThen fun s => still (whole s)

theorem release {release : σ → Budget → σ × Budget} {s : σ} (h : RowStream.GivesBack (release s)) :
    Job.GivesBack fun job => job.giveBack release s := fun kill => by
  obtain ⟨t, sizes, hrelease⟩ := h
  exact ⟨t, sizes, kill, fun b => by simp only [Job.giveBack, hrelease]⟩

end Job.GivesBack

namespace JobStep

variable {σ τ α β : Type}

/-- Under a kill switch the step moves memory as `ms` says and comes to `r`. Where a movement is
refused it fails with the refusal, and from then on only gives back. -/
structure Runs (m : JobStep σ α) (kill : KillSwitch) (ms : List Movement) (r : Except OpError α)
    (t : σ) (kill' : KillSwitch) : Prop where
  granted : ∀ {b b' : Budget}, b.replay ms = .ok () b' →
    m ⟨b, kill⟩ = StepResult.of r t ⟨b', kill'⟩
  refused : ∀ {b b' : Budget} {e : MemoryError}, b.replay ms = .error e b' →
    ∃ (u : σ) (sizes : List Nat) (kill'' : KillSwitch),
      m ⟨b, kill⟩ = .error (.memory e) (u, ⟨sizes.foldl Budget.giveBack b', kill''⟩)

/-- **Failing fast**: one trace, at the end of which there is no refusal. -/
def FailsFast (m : JobStep σ α) : Prop :=
  ∀ kill, ∃ ms r t kill', m.Runs kill ms r t kill' ∧ Unrefused r

/-! ### Single steps -/

/-- A step that asks for nothing. -/
theorem failsFast_still {m : JobStep σ α} {r : Except OpError α} {t : σ} (hr : Unrefused r)
    (h : ∀ job, m job = StepResult.of r t job) : m.FailsFast := fun kill =>
  ⟨[], r, t, kill, ⟨fun hb => by cases hb; exact h _, fun hb => nomatch hb⟩, hr⟩

/-- A metered computation as a step. -/
theorem failsFast_spend {c : Metered.Op σ α} (hc : c.FailsFast) (s : σ) :
    JobStep.FailsFast fun job => Running.spend c (s, job) := fun kill => by
  obtain ⟨ms, r, t, hc, hr⟩ := hc s
  refine ⟨ms, r, t, kill, ⟨fun hb => ?_, fun {b b' e} hb => ?_⟩, hr⟩
  · simp only [Running.spend, hc.granted hb]
    cases r <;> rfl
  · obtain ⟨u, hu⟩ := hc.refused hb
    exact ⟨u, [], kill, by simp [Running.spend, hu, OfRefusal.ofRefusal]⟩

/-! ### Composed steps -/

theorem FailsFast.within {m : JobStep σ α} (hm : m.FailsFast) (whole : σ → τ) :
    JobStep.FailsFast fun job => StepResult.within whole (m job) := fun kill => by
  obtain ⟨ms, r, t, kill', hm, hr⟩ := hm kill
  refine ⟨ms, r, whole t, kill', ⟨fun hb => ?_, fun hb => ?_⟩, hr⟩
  · simp only [hm.granted hb]
    cases r <;> rfl
  · obtain ⟨u, sizes, kill'', hu⟩ := hm.refused hb
    exact ⟨whole u, sizes, kill'', by simp [hu, StepResult.within]⟩

/-- **Going on and cleaning up.** After an error memory is given back, and the error stays. Only what
the first step can come to counts. -/
theorem FailsFast.andThen {m : JobStep σ α} {next : α → σ → JobStep τ β}
    {fail : OpError → σ → Job → τ × Job} (hm : m.FailsFast)
    (hnext : ∀ {a t job job'}, m job = .ok a (t, job') → (next a t).FailsFast)
    (hfail : ∀ e s, Job.GivesBack (fail e s)) :
    JobStep.FailsFast fun job => (m job).andThen next fun e s job => .error e (fail e s job) := by
  intro kill
  obtain ⟨ms, r, t, kill₁, hm, hr⟩ := hm kill
  -- a refusal of the first step is kept while what is left is given back
  have hrefused {b b' : Budget} {e : MemoryError} (hb : b.replay ms = .error e b') :
      ∃ (u : τ) (sizes : List Nat) (kill'' : KillSwitch),
        (m ⟨b, kill⟩).andThen next (fun e s job => .error e (fail e s job)) =
          .error (.memory e) (u, ⟨sizes.foldl Budget.giveBack b', kill''⟩) := by
    obtain ⟨u, sizes, kill₂, hu⟩ := hm.refused hb
    obtain ⟨v, more, kill₃, hv⟩ := hfail (.memory e) u kill₂
    refine ⟨v, sizes ++ more, kill₃, ?_⟩
    simp only [hu, StepResult.andThen, hv, List.foldl_append]
  cases r with
  | ok a =>
    obtain ⟨c, hc, -⟩ := (Budget.unlimited_unlimited "" .nil).replay ms
    obtain ⟨ns, r, u, kill₂, hn, hr⟩ := hnext (hm.granted hc) kill₁
    refine ⟨ms ++ ns, r, u, kill₂, ⟨fun hb => ?_, fun hb => ?_⟩, hr⟩
    · obtain ⟨c, hms, hns⟩ := Budget.replay_append_eq_ok.1 hb
      simp only [hm.granted hms, StepResult.of, StepResult.andThen]
      exact hn.granted hns
    · obtain hms | ⟨c, hms, hns⟩ := Budget.replay_append_eq_error.1 hb
      · exact hrefused hms
      · simp only [hm.granted hms, StepResult.of, StepResult.andThen]
        exact hn.refused hns
  | error e =>
    obtain ⟨u, sizes, kill₂, hu⟩ := hfail e t kill₁
    refine ⟨ms ++ sizes.map .giveBack, .error e, u, kill₂, ⟨fun hb => ?_, fun hb => ?_⟩, hr.error⟩
    · obtain ⟨c, hms, hgiven⟩ := Budget.replay_append_eq_ok.1 hb
      rw [Budget.replay_giveBacks] at hgiven
      cases hgiven
      simp only [hm.granted hms, StepResult.of, StepResult.andThen, hu]
    · obtain hms | ⟨c, -, hgiven⟩ := Budget.replay_append_eq_error.1 hb
      · exact hrefused hms
      · rw [Budget.replay_giveBacks] at hgiven
        cases hgiven

/-- A killed job fails, but it is not refused anything. -/
theorem FailsFast.unlessKilled {m : JobStep σ α} (hm : m.FailsFast) (s : σ) :
    JobStep.FailsFast fun job =>
      match job.kill.check with
      | .error e => .error e (s, job)
      | .ok () => m job := fun kill => by
  cases hreason : kill.reason with
  | none =>
    have hcheck : kill.check = .ok () := by simp [KillSwitch.check, hreason]
    obtain ⟨ms, r, t, kill', hm, hr⟩ := hm kill
    exact ⟨ms, r, t, kill',
      ⟨fun hb => by simp only [hcheck]; exact hm.granted hb,
        fun hb => by simp only [hcheck]; exact hm.refused hb⟩, hr⟩
  | some reason =>
    have hcheck : kill.check = .error (.jobKilled reason) := by simp [KillSwitch.check, hreason]
    refine ⟨[], .error (.jobKilled reason), s, kill, ⟨fun hb => ?_, fun hb => nomatch hb⟩,
      fun refusal h => nomatch h⟩
    cases hb
    simp only [hcheck]
    rfl

theorem FailsFast.killed {m : JobStep σ α} (hm : m.FailsFast) (reason : String) :
    JobStep.FailsFast fun job => m { job with kill := job.kill.kill reason } := fun kill => by
  obtain ⟨ms, r, t, kill', hm, hr⟩ := hm (kill.kill reason)
  exact ⟨ms, r, t, kill', ⟨fun hb => hm.granted hb, fun hb => hm.refused hb⟩, hr⟩

/-- What is done on the way out, where it is the way out of a step that ends well. -/
theorem failsFast_exit {f : Job → τ × Job} (hf : Job.GivesBack f) (a : α) :
    JobStep.FailsFast fun job => .ok a (f job) := fun kill => by
  obtain ⟨t, sizes, kill', hf⟩ := hf kill
  refine ⟨sizes.map .giveBack, .ok a, t, kill', ⟨fun hb => ?_, fun hb => ?_⟩, unrefused_ok a⟩
  · rw [Budget.replay_giveBacks] at hb
    cases hb
    rw [hf]
    rfl
  · rw [Budget.replay_giveBacks] at hb
    cases hb

end JobStep

/-! ## The law

Stages, chains and drives keep the property, as they keep any law. -/

/-- **Failing fast is a law of steps.** -/
def StepLaw.failFast : StepLaw where
  Step := JobStep.FailsFast
  Exit := Job.GivesBack
  still := JobStep.failsFast_still
  within := JobStep.FailsFast.within
  andThen := JobStep.FailsFast.andThen
  unlessKilled := JobStep.FailsFast.unlessKilled
  killed := JobStep.FailsFast.killed
  take row := JobStep.failsFast_spend (Operator.failsFast_take row)
  showNext := JobStep.failsFast_spend Operator.failsFast_showNext
  conclude := JobStep.failsFast_spend Operator.failsFast_conclude
  stay := Job.GivesBack.still
  giveBack := Job.GivesBack.release
  exitThen := Job.GivesBack.andThen
  exitOk := JobStep.failsFast_exit

/-- An iterator all of whose steps fail fast, and that only gives back when it is closed. -/
abbrev FailFastIterator (σ : Type) [BatchIterator σ] : Prop := LawfulIterator .failFast σ

namespace ResultSet

theorem failsFast_add (row : Row) : (add row).FailsFast :=
  (Metered.failsFast_read _).bind fun bytes =>
    (Scope.failsFast_charge bytes).zoom.bind fun _ => Metered.failsFast_modifyState _

theorem failFast : LawfulConsumer .failFast ResultSet where
  accept row := JobStep.failsFast_spend (failsFast_add row)
  release k := Job.GivesBack.release ⟨_, _, k.exists_release.choose_spec.choose_spec⟩

end ResultSet

end RowStream
