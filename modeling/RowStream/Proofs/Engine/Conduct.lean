import RowStream.Proofs.Engine.Custody
import RowStream.Proofs.Stream.Conduct

/-!
# How runs may fail

A run of plans without fault ends with its rows, or because memory was refused, a value was missing
or of the wrong type, its source failed, or it was killed. Whatever the limits are, whoever else takes
memory, whenever the job is killed and whatever has to be waited for, nothing in it meets a state
that it does not know, is asked for what it cannot have, or is used after its end.

* `Conduct.pull_spec`, `Conduct.resume_spec` — pulling asks only what may be asked.
* `Drive.Behaved` — how a drive stands after each answer; `Drive.behaved_poll` is the step.
* `Source.Fresh` — sources before the first row.
* `Drive.attend_foreseen` — drives at their end.
-/

namespace RowStream

/-! ## Pulling

Whoever pulls asks a chain for rows only while it may have some, and for a page only then. So a
chain of good conduct never answers that the contract was broken, by induction on rows and pages. -/

/-- A consumer that fails with foreseen errors only. -/
def RowConsumer.Behaves (κ : Type) [RowConsumer κ] : Prop :=
  ∀ (row : Row) (k : κ) (job : Job),
    StepResult.Behaves (RowConsumer.accept row (k, job)) fun _ _ => True

theorem ResultSet.behaves : RowConsumer.Behaves ResultSet := fun row r job => by
  have hcharge (bytes : Nat) (r : ResultSet) :
      (Metered.zoom scope (fun r scope => { r with scope }) (Scope.charge bytes)).Behaves r
        fun _ _ => True :=
    (r.scope.follows_charge bytes).zoom.behaves (fun _ _ => trivial) nofun
  have hread : (Metered.read fun r : ResultSet => r.footprint.row row).Behaves r fun _ _ => True :=
    fun _ => trivial
  have hadd : (add row).Behaves r fun _ _ => True :=
    hread.bind fun bytes r _ => (hcharge bytes r).bind fun _ _ _ _ => trivial
  exact hadd.spend job

theorem Interrupted.behaves {κ : Type} [RowConsumer κ] (h : RowConsumer.Behaves κ) :
    RowConsumer.Behaves (Interrupted κ) := fun row k _ =>
  (h row k.consumer _).within fun _ _ => id

theorem KillSwitch.foreseen_of_check {k : KillSwitch} {e : OpError} (h : k.check = .error e) :
    e.Foreseen := by
  unfold check at h
  split at h
  · cases h
    exact .jobKilled _
  · cases h

namespace Conduct

variable {σ κ : Type} [BatchIterator σ] [RowConsumer κ] (C : Conduct σ)

/-- A page is asked for, unless the job is killed. -/
theorem request_spec {s : σ} (hwaiting : C.waiting s) (job : Job) :
    StepResult.Behaves (request (s, job)) fun progress t =>
      match progress with
      | .ready => C.live t
      | .pending => C.waiting t := by
  unfold request
  simp only
  split
  · exact KillSwitch.foreseen_of_check ‹_›
  · exact C.load_spec hwaiting job

variable (hconsumer : RowConsumer.Behaves κ)
include hconsumer

/-- The rows of a page are taken until there are none; then more may be asked for, unless all is
loaded. -/
theorem pullPage_spec {s : σ} (hlive : C.live s) (k : κ) (job : Job) :
    StepResult.Behaves (pullPage s k job) fun _ p =>
      BatchIterator.allLoaded p.1 = false → C.waiting p.1 := by
  fun_induction pullPage s k job with
  -- the job was killed
  | case1 s k job e hkill => exact KillSwitch.foreseen_of_check hkill
  | case2 s k job hkill e s' job' hmove =>
    -- the source fails
    have hstep := C.moveNext_spec hlive job
    rw [hmove] at hstep
    exact hstep
  | case3 s k job hkill s' job' hmove =>
    -- the page is read
    have hstep := C.moveNext_spec hlive job
    rw [hmove] at hstep
    exact hstep
  | case4 s k job hkill s' job' hmove e k' job'' haccept =>
    -- the consumer refuses the row
    have hrow := hconsumer (BatchIterator.current s') k job'
    rw [haccept] at hrow
    exact hrow
  | case5 s k job hkill s' job' hmove k' job'' haccept ih =>
    -- the consumer took the row, and the page goes on
    have hstep := C.moveNext_spec hlive job
    rw [hmove] at hstep
    exact ih hstep

/-- **Pulling** ends with all rows or where a page has to be waited for, or with a foreseen error. -/
theorem pull_spec {s : σ} (hlive : C.live s) (k : κ) (job : Job) :
    StepResult.Behaves (pull s k job) fun pulled p => pulled = .suspended → C.waiting p.1 := by
  fun_induction pull s k job with
  | case1 s k job e t l job' hpage =>
    -- the page ended the run
    have hrows := C.pullPage_spec hconsumer hlive k job
    rw [hpage] at hrows
    exact hrows
  | case2 =>
    -- nothing is left to load
    intro hsuspended
    cases hsuspended
  | case3 s k job t l job' hpage hmore e t' job'' hload =>
    -- the load fails, though it was due: only what a load may fail with is left
    have hrows := C.pullPage_spec hconsumer hlive k job
    rw [hpage] at hrows
    have hrequest := C.request_spec (hrows (Bool.eq_false_iff.2 hmore)) job'
    rw [hload] at hrequest
    exact hrequest
  | case4 s k job t l job' hpage hmore t' job'' hload =>
    -- the load has to wait
    have hrows := C.pullPage_spec hconsumer hlive k job
    rw [hpage] at hrows
    have hrequest := C.request_spec (hrows (Bool.eq_false_iff.2 hmore)) job'
    rw [hload] at hrequest
    exact fun _ => hrequest
  | case5 s k job t l job' hpage hmore t' job'' hload ih =>
    -- a page came in, and pulling goes on
    have hrows := C.pullPage_spec hconsumer hlive k job
    rw [hpage] at hrows
    have hrequest := C.request_spec (hrows (Bool.eq_false_iff.2 hmore)) job'
    rw [hload] at hrequest
    exact ih hrequest

theorem resume_spec {s : σ} (hwaiting : C.waiting s) (k : κ) (job : Job) :
    StepResult.Behaves (resume s k job) fun pulled p => pulled = .suspended → C.waiting p.1 := by
  have hrequest := C.request_spec hwaiting job
  unfold resume
  split <;> rename_i hload <;> rw [hload] at hrequest
  · exact hrequest
  · exact fun _ => hrequest
  · exact C.pull_spec hconsumer hrequest k _

end Conduct

/-! ## Drives

Between two polls a drive waits for a page that it may ask for. Whatever happens to the source and
to the job meanwhile leaves it so, or the job killed. -/

namespace Drive

section Answers

variable {σ κ : Type} [BatchIterator σ] [RowConsumer κ] (C : Conduct σ)

/-- How a drive stands after an answer: it waits for a page that it may ask for, or it has come to its
end. -/
def Behaved : Progress OpError × Drive σ κ × Job → Prop
  | (.pending, d, _) => d.phase = .suspended ∧ C.waiting d.chain
  | (.finished result, _, _) => ∀ e, result = .error e → e.Foreseen
  | (.over, _, _) => False

variable {C}

theorem behaved_settle {r : StepResult OpError Job (σ × κ) Pulled}
    (h : r.Behaves fun pulled p => pulled = .suspended → C.waiting p.1) : Behaved C (settle r) := by
  rcases r with ⟨_ | _, ⟨s, k⟩, job⟩ | ⟨e, ⟨s, k⟩, job⟩
  · exact nofun
  · exact ⟨rfl, h rfl⟩
  · intro e' he
    cases he
    exact h

/-- **One poll.** -/
theorem behaved_poll (hconsumer : RowConsumer.Behaves κ) {d : Drive σ κ}
    (h : d.phase = .fresh ∧ C.live d.chain ∨ d.phase = .suspended ∧ C.waiting d.chain) (job : Job) :
    Behaved C (d.poll job) := by
  unfold poll
  obtain ⟨hphase, hlive⟩ | ⟨hphase, hwaiting⟩ := h <;> rw [hphase]
  · exact behaved_settle (C.pull_spec hconsumer hlive d.consumer job)
  · exact behaved_settle (C.resume_spec hconsumer hwaiting d.consumer job)

omit [RowConsumer κ] in
theorem Behaved.answer_cases {p : Progress OpError × Drive σ κ × Job} (h : Behaved C p) :
    p.1 = .pending ∨ (∃ rows, p.1 = .finished (.ok rows)) ∨
      ∃ e, p.1 = .finished (.error e) ∧ e.Foreseen := by
  obtain ⟨_ | ⟨e | rows⟩ | _, d, job⟩ := p
  · exact .inl rfl
  · exact .inr (.inr ⟨e, rfl, h e rfl⟩)
  · exact .inr (.inl ⟨rows, rfl⟩)
  · exact h.elim

end Answers

section Wakeups

variable {β κ : Type} [BatchIterator β] [RowConsumer κ] {C : Conduct β}

theorem behaved_wake (hconsumer : RowConsumer.Behaves κ) {w : Wakeup β}
    (hw : ∀ s, C.waiting s → C.waiting (w.arrive s)) {n : Nat}
    {d : Drive (Chain (Counted β) n) κ} {job : Job}
    (h : Behaved (Chain.conduct C.counted n) (.pending, d, job)) :
    Behaved (Chain.conduct C.counted n) (d.wake w job) := by
  obtain ⟨hphase, hwaiting⟩ := h
  have hstill := Chain.waiting_modifySource C.counted (f := Counted.modify w.arrive)
    (fun s => hw s.source) hwaiting
  refine behaved_poll hconsumer (.inr ⟨?_, hstill⟩) (job.interrupt w.kill)
  exact hphase

end Wakeups

end Drive

/-- Sources before the first row: rows in memory, in pages of any size, rows before a failure, and a
channel in any state. -/
inductive Source.Fresh : Source → Prop where
  | memory (rows : List Row) (size : Nat) : Fresh (.memory (.paged rows size))
  | failing (rows : List Row) (reason : String) : Fresh (.failing (.new rows reason))
  | channel (c : Channel) : Fresh (.channel (.new c))

theorem Source.Fresh.live {source : Source} (h : source.Fresh) : Source.conduct.live source := by
  cases h with
  | memory => exact (nofun : IteratorState.notStarted ≠ .closed)
  | failing => exact (nofun : IteratorState.notStarted ≠ .closed)
  | channel => exact ⟨nofun, nofun⟩

/-- Producers do not turn a source that can be asked for a page into one that cannot. -/
theorem Source.waiting_modifyChannel (f : Channel → Channel) {s : Source}
    (h : Source.conduct.waiting s) : Source.conduct.waiting (s.modifyChannel f) := by
  cases s <;> exact h

namespace Drive

/-- **Plans without fault fail with foreseen errors only.** Over any fresh source, whatever the budget
is and whatever others do to the job while the source is asked for something, whenever the job is
killed — before it begins, by its source, by its consumer after a row, or while it has to wait — and
whatever producers do to the channel meanwhile: the drive has to wait, or it ends with rows, or
because memory was refused, a value was missing or of the wrong type, the source failed or the job was
killed. -/
theorem attend_foreseen {source : Source} (hsource : source.Fresh) (changes : List (Job → Job))
    (wakeups : List (Wakeup (Disturbed Source)))
    (hwakeups : ∀ w ∈ wakeups, ∃ f, w.arrive = Disturbed.modify (Source.modifyChannel f))
    {plans : List Projection} (hplans : ∀ p ∈ plans, p.validate = .ok ()) (footprint : Footprint)
    (kills : List (Option String)) (job : Job) :
    let answer := Progress.attend Drive.wake wakeups
      ((Drive.new (compose (Counted.new ⟨source, changes⟩)
        (plans.map (Projection.operator footprint))) (⟨.new, kills⟩ : Interrupted ResultSet)).poll job)
    answer.1 = .pending ∨ (∃ rows, answer.1 = .finished (.ok rows)) ∨
      ∃ e, answer.1 = .finished (.error e) ∧ e.Foreseen := by
  let C : Conduct (Disturbed Source) := Source.conduct.disturbed
  have hconsumer := Interrupted.behaves ResultSet.behaves
  have hops : ∀ op ∈ (plans.map (Projection.operator footprint)).reverse, op.Sound := by
    intro op hop
    obtain ⟨p, hp, rfl⟩ := List.mem_map.1 (List.mem_reverse.1 hop)
    exact Projection.sound_operator (Projection.check_of_validate (hplans p hp)) footprint
  have hlive : (Chain.conduct C.counted _).live
      (compose (Counted.new (⟨source, changes⟩ : Disturbed Source))
        (plans.map (Projection.operator footprint))) :=
    Chain.live_conduct_build C.counted
      (show C.counted.live (Counted.new ⟨source, changes⟩) from hsource.live) hops
  refine Behaved.answer_cases (C := Chain.conduct C.counted _) ?_
  -- a wakeup only puts something into the channel, which leaves a waiting source waiting
  refine Progress.attend_induction _ (fun w hw d job h => ?_)
    (behaved_poll hconsumer (.inl ⟨rfl, hlive⟩) job)
  obtain ⟨f, hf⟩ := hwakeups w hw
  refine behaved_wake hconsumer (fun s hs => ?_) h
  rw [hf]
  exact Source.waiting_modifyChannel f hs

/-- A limited number of rows is summed up, of which a second one arrives late. Somebody else takes
memory meanwhile. -/
def lateSummand : Progress OpError × Drive (Chain (Counted (Disturbed Source)) 2)
    (Interrupted ResultSet) × Job :=
  let plans : List Projection :=
    [.topN ⟨some 5, 0, [.column 0]⟩, .aggregation ⟨[⟨.sum, [0]⟩], .iterFinal, .shard⟩]
  let crowded (job : Job) : Job :=
    { job with budget.breaker.used := job.budget.breaker.used + 900 }
  Progress.attend Drive.wake
    [⟨Disturbed.modify (Source.modifyChannel fun c => (c.send (.batch [[.int32 1]])).2), none⟩]
    ((Drive.new (compose
      (Counted.new ⟨.channel (.new ⟨2, [.batch [[.int64 Int64.maxValue]]], 1, true⟩), [id, crowded]⟩)
      (plans.map (Projection.operator .standard))) ⟨.new, []⟩).poll
      (.live ⟨.new "shared" 1000, .new .nil (some 500)⟩))

/-- The sum goes out of range, which is foreseen. -/
theorem attend_foreseen_lateSummand :
    (∀ p ∈ ([.topN ⟨some 5, 0, [.column 0]⟩,
      .aggregation ⟨[⟨.sum, [0]⟩], .iterFinal, .shard⟩] : List Projection), p.validate = .ok ()) ∧
    ∃ e, lateSummand.1 = .finished (.error e) ∧ e = .evaluation .sumOutOfRange ∧ e.Foreseen := by
  have hplans : ∀ p ∈ ([.topN ⟨some 5, 0, [.column 0]⟩,
      .aggregation ⟨[⟨.sum, [0]⟩], .iterFinal, .shard⟩] : List Projection),
      p.validate = .ok () := by
    simp [Projection.validate, Projection.check, checkAggregations, Except.mapError]
  have hfails : lateSummand.1.failsWith (.evaluation .sumOutOfRange) = true := by decide +kernel
  have hcases := attend_foreseen (.channel ⟨2, [.batch [[.int64 Int64.maxValue]]], 1, true⟩)
    [id, fun job => { job with budget.breaker.used := job.budget.breaker.used + 900 }]
    [⟨Disturbed.modify (Source.modifyChannel fun c => (c.send (.batch [[.int32 1]])).2), none⟩]
    (fun w hw => ⟨_, congrArg Wakeup.arrive (List.mem_singleton.1 hw)⟩) hplans .standard []
    (.live ⟨.new "shared" 1000, .new .nil (some 500)⟩)
  have hanswer : lateSummand.1 = .pending ∨ (∃ rows, lateSummand.1 = .finished (.ok rows)) ∨
      ∃ e, lateSummand.1 = .finished (.error e) ∧ e.Foreseen := hcases
  refine ⟨hplans, ?_⟩
  obtain hpending | ⟨rows, hrows⟩ | ⟨e, he, hforeseen⟩ := hanswer
  · rw [hpending] at hfails
    cases hfails
  · rw [hrows] at hfails
    cases hfails
  · rw [he] at hfails
    exact ⟨e, he, of_decide_eq_true hfails, hforeseen⟩

end Drive

end RowStream
