import RowStream.Proofs.Collector.Holding
import RowStream.Proofs.Engine.Kill
import RowStream.Proofs.Stream.Lifecycle
import RowStream.Proofs.Stream.Logged

/-!
# Arities between stages

Whatever the rows of its source look like, each stage of a job hands out rows of the arity that is written in its
plan, and no others reach the stage above it. So the rows of a result have the arity of the last plan.

* `Taking` — what a consumer keeps if all rows that it is offered have something in common.
* `RowInvariant.pull_spec`, `Drive.kept_attend` — drives keep what the calls keep.
* `Erasure.pull_erase`, `Drive.attend_erase` — drives are the same without the logs.
* `LoggedChain.regular_rows` — histories of calls and drives, over any source.
-/

namespace RowStream

/-! ## Drives keep what calls keep

A drive only calls the chain and hands its rows to the consumer. So what all calls keep is kept by a
drive, and what is common to the rows of the chain is common to those that the consumer has. Rows of
a page, pages, and answers after wakeups: an induction for each. -/

/-- What a consumer keeps, if all rows that it is offered have something in common. -/
structure Taking (κ : Type) [RowConsumer κ] (common : Row → Prop) where
  inv : κ → Prop
  accept_spec {row : Row} {k : κ} : common row → inv k → ∀ job,
    StepResult.Leaves (fun _ => inv) inv (RowConsumer.accept row (k, job))
  release_spec {k : κ} : inv k → ∀ job, inv (RowConsumer.release k job).1

/-- Nothing is known of what a consumer has. -/
def Taking.any (κ : Type) [RowConsumer κ] (common : Row → Prop) : Taking κ common where
  inv _ := True
  accept_spec {row k} _ _ job := by
    rcases RowConsumer.accept row (k, job) with ⟨u, l, job'⟩ | ⟨e, l, job'⟩ <;> trivial
  release_spec _ _ := trivial

/-- A result set has rows that it was offered, and no others. -/
def ResultSet.taking (common : Row → Prop) : Taking ResultSet common where
  inv r := ∀ row ∈ r.bucket.toList, common row
  accept_spec {row k} hrow hk job := by
    have hadd := k.add_eq row job.budget
    show StepResult.Leaves _ _ (Running.spend (add row) (k, job))
    unfold Running.spend
    cases hrequest : job.budget.request k.scope.label (k.footprint.row row) with
    | ok u b =>
      rw [hrequest] at hadd
      simp only [hadd]
      intro other hother
      rw [withRow, Bucket.toList_push, List.mem_append, List.mem_singleton] at hother
      obtain hold | rfl := hother
      · exact hk other hold
      · exact hrow
    | error e b =>
      rw [hrequest] at hadd
      simp only [hadd]
      exact hk
  release_spec hk _ := hk

section Keeping

variable {σ κ : Type} [BatchIterator σ] [RowConsumer κ] {common : Row → Prop} (I : RowInvariant σ common)
  (K : Taking κ common)

namespace RowInvariant

/-- What is kept of an iterator and of the consumer that it is pulled into. -/
def Both (p : σ × κ) : Prop := I.inv p.1 ∧ K.inv p.2

theorem pullPage_spec {s : σ} {k : κ} (hs : I.inv s) (hk : K.inv k) (job : Job) :
    StepResult.Leaves (fun _ => I.Both K) (I.Both K) (pullPage s k job) := by
  fun_induction pullPage s k job with
  -- the job was killed
  | case1 s k job e hkill => exact ⟨hs, hk⟩
  | case2 s k job hkill e t job' hmove =>
    -- the source fails
    have hmoved := I.moveNext_spec hs job
    rw [hmove] at hmoved
    exact ⟨hmoved, hk⟩
  | case3 s k job hkill t job' hmove =>
    -- the page is read
    have hmoved := I.moveNext_spec hs job
    rw [hmove] at hmoved
    exact ⟨hmoved.1, hk⟩
  | case4 s k job hkill t job' hmove e l job'' haccept =>
    -- the consumer refuses the row
    have hmoved := I.moveNext_spec hs job
    rw [hmove] at hmoved
    have haccepted := K.accept_spec (hmoved.2 rfl) hk job'
    rw [haccept] at haccepted
    exact ⟨hmoved.1, haccepted⟩
  | case5 s k job hkill t job' hmove l job'' haccept ih =>
    -- the consumer took the row, and the page goes on
    have hmoved := I.moveNext_spec hs job
    rw [hmove] at hmoved
    have haccepted := K.accept_spec (hmoved.2 rfl) hk job'
    rw [haccept] at haccepted
    exact ih hmoved.1 haccepted

theorem request_spec {s : σ} (hs : I.inv s) (job : Job) :
    StepResult.Leaves (fun _ => I.inv) I.inv (request (s, job)) := by
  unfold request
  simp only
  split
  · exact hs
  · exact I.load_spec hs job

theorem pull_spec {s : σ} {k : κ} (hs : I.inv s) (hk : K.inv k) (job : Job) :
    StepResult.Leaves (fun _ => I.Both K) (I.Both K) (pull s k job) := by
  fun_induction pull s k job with
  | case1 s k job e t l job' hpage =>
    -- the page ended the run
    have hpulled := I.pullPage_spec K hs hk job
    rw [hpage] at hpulled
    exact hpulled
  | case2 s k job t l job' hpage hloaded =>
    -- nothing is left to load
    have hpulled := I.pullPage_spec K hs hk job
    rw [hpage] at hpulled
    exact hpulled
  | case3 s k job t l job' hpage hloaded e u job'' hrequest =>
    -- the load fails
    have hpulled := I.pullPage_spec K hs hk job
    rw [hpage] at hpulled
    have hrequested := I.request_spec hpulled.1 job'
    rw [hrequest] at hrequested
    exact ⟨hrequested, hpulled.2⟩
  | case4 s k job t l job' hpage hloaded u job'' hrequest =>
    -- the load has to wait
    have hpulled := I.pullPage_spec K hs hk job
    rw [hpage] at hpulled
    have hrequested := I.request_spec hpulled.1 job'
    rw [hrequest] at hrequested
    exact ⟨hrequested, hpulled.2⟩
  | case5 s k job t l job' hpage hloaded u job'' hrequest ih =>
    -- a page came in, and pulling goes on
    have hpulled := I.pullPage_spec K hs hk job
    rw [hpage] at hpulled
    have hrequested := I.request_spec hpulled.1 job'
    rw [hrequest] at hrequested
    exact ih hrequested hpulled.2

theorem resume_spec {s : σ} {k : κ} (hs : I.inv s) (hk : K.inv k) (job : Job) :
    StepResult.Leaves (fun _ => I.Both K) (I.Both K) (resume s k job) := by
  have hrequested := I.request_spec hs job
  unfold resume
  rcases hrequest : request (s, job) with ⟨_ | _, t, job'⟩ | ⟨e, t, job'⟩ <;> rw [hrequest] at hrequested
  · exact I.pull_spec K hrequested hk job'
  · exact ⟨hrequested, hk⟩
  · exact ⟨hrequested, hk⟩

end RowInvariant

namespace Drive

/-- What is kept of a drive. The rows of an answer are those of a consumer of which it was kept as well. -/
def Kept : Progress OpError × Drive σ κ × Job → Prop
  | (progress, d, _) => I.inv d.chain ∧ K.inv d.consumer ∧
      ∀ bucket, progress = .finished (.ok bucket) → ∃ k, K.inv k ∧ bucket = RowConsumer.rows k

theorem kept_finish {s : σ} {k : κ} (hs : I.inv s) (hk : K.inv k) (result : Except OpError Unit) (job : Job) :
    Kept I K (finish s k result job) := by
  refine ⟨I.close_spec hs job, K.release_spec hk _, fun bucket hbucket => ⟨k, hk, ?_⟩⟩
  cases result with
  | error e => cases hbucket
  | ok u =>
    cases hbucket
    rfl

theorem kept_settle {r : StepResult OpError Job (σ × κ) Pulled}
    (hr : r.Leaves (fun _ => I.Both K) (I.Both K)) : Kept I K (settle r) := by
  rcases r with ⟨_ | _, ⟨s, k⟩, job⟩ | ⟨e, ⟨s, k⟩, job⟩
  · exact kept_finish I K hr.1 hr.2 (.ok ()) job
  · exact ⟨hr.1, hr.2, nofun⟩
  · exact kept_finish I K hr.1 hr.2 (.error e) job

theorem kept_poll (d : Drive σ κ) (hs : I.inv d.chain) (hk : K.inv d.consumer) (job : Job) :
    Kept I K (d.poll job) := by
  unfold poll
  split
  · exact kept_settle I K (I.pull_spec K hs hk job)
  · exact kept_settle I K (I.resume_spec K hs hk job)
  · exact ⟨hs, hk, nofun⟩

/-- **What a drive keeps** from beginning to end, if what arrives at the chain keeps it. -/
theorem kept_attend {wakeups : List (Wakeup σ)} (hwakeups : ∀ w ∈ wakeups, ∀ s, I.inv s → I.inv (w.arrive s))
    {d : Drive σ κ} (hs : I.inv d.chain) (hk : K.inv d.consumer) (job : Job) :
    Kept I K (Progress.attend rouse wakeups (d.poll job)) := by
  refine Progress.attend_induction (Kept I K) (fun w hw d job hd => ?_) (kept_poll I K d hs hk job)
  exact kept_poll I K { d with chain := w.arrive d.chain } (hwakeups w hw d.chain hd.1) hd.2.1 _

end Drive

end Keeping

/-! ## Drives without logs

The rows between the stages are seen in the logs only. A drive with logs and the drive without them
answer the same, step by step. -/

section Erasing

variable {σ τ κ : Type} [BatchIterator σ] [BatchIterator τ] [RowConsumer κ] (E : Erasure σ τ)

namespace Erasure

/-- An iterator that is pulled into a consumer. -/
def pulled (p : σ × κ) : τ × κ := (E.erase p.1, p.2)

theorem pullPage_erase (s : σ) (k : κ) (job : Job) :
    pullPage (E.erase s) k job = StepResult.within E.pulled (pullPage s k job) := by
  fun_induction pullPage s k job with
  | case1 s k job e hkill =>
    simp only [pullPage_eq (E.erase s), hkill]
    rfl
  | case2 s k job hkill e t job' hmove | case3 s k job hkill t job' hmove =>
    simp only [pullPage_eq (E.erase s), hkill, pageRound, E.moveNext_erase, hmove]
    rfl
  | case4 s k job hkill t job' hmove e l job'' haccept =>
    simp only [pullPage_eq (E.erase s), hkill, pageRound, E.moveNext_erase, hmove, StepResult.within,
      StepResult.andThen, E.current_erase, haccept]
    rfl
  | case5 s k job hkill t job' hmove l job'' haccept ih =>
    simp only [pullPage_eq (E.erase s), hkill, pageRound, E.moveNext_erase, hmove, StepResult.within,
      StepResult.andThen, E.current_erase, haccept]
    exact ih

theorem request_erase (s : σ) (job : Job) :
    request (E.erase s, job) = StepResult.within E.erase (request (s, job)) := by
  unfold request
  simp only [E.load_erase]
  split <;> rfl

theorem pull_erase (s : σ) (k : κ) (job : Job) :
    pull (E.erase s) k job = StepResult.within E.pulled (pull s k job) := by
  fun_induction pull s k job with
  | case1 s k job e t l job' hpage =>
    -- the page ended the run
    simp only [pull_eq (E.erase s), E.pullPage_erase, hpage]
    rfl
  | case2 s k job t l job' hpage hloaded =>
    -- nothing is left to load
    simp only [pull_eq (E.erase s), E.pullPage_erase, hpage, StepResult.within, StepResult.andThen, pulled,
      E.allLoaded_erase, hloaded]
    rfl
  -- the load fails or has to wait
  | case3 s k job t l job' hpage hloaded e u job'' hrequest
  | case4 s k job t l job' hpage hloaded u job'' hrequest =>
    simp only [pull_eq (E.erase s), E.pullPage_erase, hpage, StepResult.within, StepResult.andThen, pulled,
      E.allLoaded_erase, hloaded, resume, E.request_erase, hrequest]
    rfl
  | case5 s k job t l job' hpage hloaded u job'' hrequest ih =>
    -- a page came in, and both sides go on with it
    simp only [pull_eq (E.erase s), E.pullPage_erase, hpage, StepResult.within, StepResult.andThen, pulled,
      E.allLoaded_erase, hloaded, resume, E.request_erase, hrequest]
    exact ih

theorem resume_erase (s : σ) (k : κ) (job : Job) :
    resume (E.erase s) k job = StepResult.within E.pulled (resume s k job) := by
  unfold resume
  rw [E.request_erase]
  rcases request (s, job) with ⟨_ | _, t, job'⟩ | ⟨e, t, job'⟩
  · exact E.pull_erase t k job'
  · rfl
  · rfl

end Erasure

namespace Drive

/-- The drive without the logs. -/
def erase (d : Drive σ κ) : Drive τ κ := ⟨E.erase d.chain, d.consumer, d.phase⟩

/-- An answer without the logs. -/
def erased : Progress OpError × Drive σ κ × Job → Progress OpError × Drive τ κ × Job
  | (progress, d, job) => (progress, d.erase E, job)

theorem settle_erase (r : StepResult OpError Job (σ × κ) Pulled) :
    settle (StepResult.within E.pulled r) = erased E (settle r) := by
  rcases r with ⟨_ | _, ⟨s, k⟩, job⟩ | ⟨e, ⟨s, k⟩, job⟩
  · simp only [StepResult.within, settle, Erasure.pulled, finish, E.close_erase]
    rfl
  · rfl
  · simp only [StepResult.within, settle, Erasure.pulled, finish, E.close_erase]
    rfl

theorem poll_erase (d : Drive σ κ) (job : Job) : (d.erase E).poll job = erased E (d.poll job) := by
  obtain ⟨s, k, phase⟩ := d
  match phase with
  | .fresh => exact (congrArg settle (E.pull_erase s k job)).trans (settle_erase E _)
  | .suspended => exact (congrArg settle (E.resume_erase s k job)).trans (settle_erase E _)
  | .over => rfl

/-- **A drive and the drive without logs** get the same answers from beginning to end. -/
theorem attend_erase {α : Type} (wakeup : α → Wakeup σ) (wakeup' : α → Wakeup τ)
    (harrive : ∀ a s, E.erase ((wakeup a).arrive s) = (wakeup' a).arrive (E.erase s))
    (hkill : ∀ a, (wakeup a).kill = (wakeup' a).kill) (as : List α)
    (answer : Progress OpError × Drive σ κ × Job) :
    Progress.attend rouse (as.map wakeup') (erased E answer) =
      erased E (Progress.attend rouse (as.map wakeup) answer) := by
  induction as generalizing answer with
  | nil => rfl
  | cons a as ih =>
    obtain ⟨progress, d, job⟩ := answer
    match progress with
    | .pending =>
      have hrouse : rouse (wakeup' a) (d.erase E) job = erased E (rouse (wakeup a) d job) := by
        unfold rouse
        rw [← poll_erase, hkill]
        simp only [erase, harrive]
      show Progress.attend rouse (as.map wakeup') (rouse (wakeup' a) (d.erase E) job) = _
      rw [hrouse]
      exact ih _
    | .finished result => rfl
    | .over => rfl

end Drive

end Erasing

/-! ## Chains

The calls of a history, made to a chain with logs and to the chain itself. -/

section Chains

variable {β : Type}

/-- A wakeup of a source, as one of a chain over it. -/
def Wakeup.below (n : Nat) (w : Wakeup β) : Wakeup (Chain β n) := ⟨Chain.modifySource w.arrive, w.kill⟩

/-- A wakeup of a source, as one of a chain with logs over it. -/
def Wakeup.belowLogs (n : Nat) (w : Wakeup β) : Wakeup (LoggedChain β n) :=
  ⟨LoggedChain.modifySource w.arrive, w.kill⟩

/-- What an event makes of an iterator that has a source somewhere in it: a call, or a change of the source and
the job from outside. -/
def Stage.Event.apply {σ : Type} [BatchIterator σ] (source : σ → β) (modifySource : (β → β) → σ → σ) :
    σ × Job → Stage.Event β → σ × Job
  | p, .moveNext => StepResult.left (BatchIterator.moveNext p)
  | p, .load => StepResult.left (BatchIterator.load p)
  | (s, job), .close => BatchIterator.close s job
  | (s, job), .outside change =>
    let (changed, job) := change (source s, job)
    (modifySource (fun _ => changed) s, job)

variable [BatchIterator β] {n : Nat}

/-- What an event makes of a chain. -/
def Chain.happen : Chain β n × Job → Stage.Event β → Chain β n × Job :=
  Stage.Event.apply source fun f => modifySource f

namespace LoggedChain

/-- What the same event makes of a chain with logs. -/
def happen : LoggedChain β n × Job → Stage.Event β → LoggedChain β n × Job :=
  Stage.Event.apply source fun f => modifySource f

theorem erase_happen (c : LoggedChain β n) (job : Job) (event : Stage.Event β) :
    Chain.happen (c.erase, job) event = (happen (c, job) event).map erase id := by
  cases event with
  | moveNext =>
    show StepResult.left (BatchIterator.moveNext ((erasure n).erase c, job)) = _
    rw [(erasure n).moveNext_erase, StepResult.left_within]
    rfl
  | load =>
    show StepResult.left (BatchIterator.load ((erasure n).erase c, job)) = _
    rw [(erasure n).load_erase, StepResult.left_within]
    rfl
  | close => exact (erasure n).close_erase c job
  | outside change =>
    -- the source at the bottom has no log, so what is done to it is the same
    simp only [Chain.happen, happen, Stage.Event.apply, source_erase, Prod.map]
    rw [erase_modifySource]
    rfl

/-- **Histories of calls** are the same without logs. -/
theorem erase_history (c : LoggedChain β n) (job : Job) (history : List (Stage.Event β)) :
    history.foldl Chain.happen (c.erase, job) = (history.foldl happen (c, job)).map erase id := by
  induction history generalizing c job with
  | nil => rfl
  | cons event later ih =>
    rw [List.foldl_cons, List.foldl_cons, erase_happen]
    exact ih _ _

variable {arity : Nat → Nat}

theorem inv_happen {c : LoggedChain β n} (h : (rowInvariant arity n).inv c) (job : Job)
    (event : Stage.Event β) : (rowInvariant arity n).inv (happen (c, job) event).1 := by
  cases event with
  | moveNext =>
    have hmoved := (rowInvariant arity n).moveNext_spec h job
    show (rowInvariant arity n).inv (StepResult.left (BatchIterator.moveNext (c, job))).1
    rcases hrun : BatchIterator.moveNext (c, job) with ⟨more, d, job'⟩ | ⟨e, d, job'⟩ <;> rw [hrun] at hmoved
    · exact hmoved.1
    · exact hmoved
  | load =>
    have hloaded := (rowInvariant arity n).load_spec h job
    show (rowInvariant arity n).inv (StepResult.left (BatchIterator.load (c, job))).1
    rcases hrun : BatchIterator.load (c, job) with ⟨progress, d, job'⟩ | ⟨e, d, job'⟩ <;> rw [hrun] at hloaded
    · exact hloaded
    · exact hloaded
  | close => exact (rowInvariant arity n).close_spec h job
  | outside change => exact inv_modifySource _ h

theorem inv_history {c : LoggedChain β n} (h : (rowInvariant arity n).inv c) (job : Job)
    (history : List (Stage.Event β)) : (rowInvariant arity n).inv (history.foldl happen (c, job)).1 := by
  induction history generalizing c job with
  | nil => exact h
  | cons event later ih => exact ih (inv_happen h job event) _

/-! ### Plans

The arities of the plans are what the logs of their stages have in common. -/

/-- The rows in the log of each stage have the arity of its plan. -/
def Regular (plans : List Projection) (c : LoggedChain β n) : Prop :=
  List.Forall₂ (fun plan log => ∀ row ∈ log, row.length = plan.arity) plans c.logs

/-- The arities of plans. -/
def arities (plans : List Projection) (i : Nat) : Nat := plans[i]?.elim 0 Projection.arity

theorem regular_of_inv {plans : List Projection} {c : LoggedChain β n} (hlength : n = plans.length)
    (h : (rowInvariant (arities plans) n).inv c) : c.Regular plans := by
  refine List.forall₂_iff_get.2 ⟨by rw [length_logs, hlength], fun i hplan hlog row hrow => ?_⟩
  rw [length_of_mem_logs h (List.getElem?_eq_getElem hlog) row hrow, arities, List.getElem?_eq_getElem hplan]
  rfl

theorem inv_compose {footprint : Footprint} {plans : List Projection} {operators : List Operator}
    (h : Projection.compileAll footprint plans = .ok operators) (source : β) :
    (rowInvariant (arities plans) operators.reverse.length).inv (compose source operators) := by
  refine inv_build source fun i op hop => ?_
  rw [List.reverse_reverse, Projection.compileAll_eq_ok h, List.getElem?_map] at hop
  cases hplan : plans[i]? with
  | none =>
    rw [hplan] at hop
    cases hop
  | some plan =>
    rw [hplan] at hop
    cases hop
    rw [arities, hplan]
    exact plan.fits_operator footprint

/-- What the rows of all stages have in common is the arity of the last plan. -/
theorem length_of_common {plans : List Projection} {plan : Projection} (hlast : plans.getLast? = some plan)
    {row : Row} (h : Common (arities plans) plans.length row) : row.length = plan.arity := by
  rw [List.getLast?_eq_getElem?] at hlast
  cases hlength : plans.length with
  | zero =>
    rw [List.eq_nil_of_length_eq_zero hlength] at hlast
    cases hlast
  | succ k =>
    rw [hlength] at hlast h
    replace hlast : plans[k]? = some plan := hlast
    have hrow : row.length = arities plans k := h
    rw [hrow, arities, hlast]
    rfl

/-- **Each stage hands out rows of the arity of its plan**, over any source, in any history of calls and in all
drives, whenever something arrives at the source or somebody kills the job. The logs of the rows between the
stages change nothing else. So all collected rows have the arity of the last plan. -/
theorem regular_rows {footprint : Footprint} {plans : List Projection} {operators : List Operator}
    (h : Projection.compileAll footprint plans = .ok operators) (source : β) (job : Job) :
    (∀ history : List (Stage.Event β),
      let logged := history.foldl happen (compose source operators, job)
      history.foldl Chain.happen (RowStream.compose source operators, job) = (logged.1.erase, logged.2) ∧
        logged.1.Regular plans) ∧
    (∀ (κ : Type) [RowConsumer κ] (consumer : κ) (wakeups : List (Wakeup β)),
      let logged := Progress.attend Drive.rouse (wakeups.map (Wakeup.belowLogs _))
        ((Drive.new (compose source operators) consumer).poll job)
      Progress.attend Drive.rouse (wakeups.map (Wakeup.below _))
          ((Drive.new (RowStream.compose source operators) consumer).poll job) =
        (logged.1, ⟨logged.2.1.chain.erase, logged.2.1.consumer, logged.2.1.phase⟩, logged.2.2) ∧
        logged.2.1.chain.Regular plans) ∧
    ∀ (wakeups : List (Wakeup β)) (plan : Projection), plans.getLast? = some plan →
      let answer := Progress.attend Drive.rouse (wakeups.map (Wakeup.below _))
        ((Drive.new (RowStream.compose source operators) ResultSet.new).poll job)
      (∀ row ∈ answer.2.1.consumer.bucket.toList, row.length = plan.arity) ∧
        ∀ bucket, answer.1 = .finished (.ok bucket) → ∀ row ∈ bucket.toList, row.length = plan.arity := by
  have hinv := inv_compose h source
  have hlength : operators.reverse.length = plans.length := by
    rw [List.length_reverse, Projection.compileAll_eq_ok h, List.length_map]
  have herase : (compose source operators).erase = RowStream.compose source operators :=
    erase_build source operators.reverse
  -- a drive with logs answers what the drive without them does, so what is kept of the one is said of the other
  have hdrive (κ : Type) [RowConsumer κ] (consumer : κ) (wakeups : List (Wakeup β)) :
      Progress.attend Drive.rouse (wakeups.map (Wakeup.below _))
          ((Drive.new (RowStream.compose source operators) consumer).poll job) =
        Drive.erased (erasure _) (Progress.attend Drive.rouse (wakeups.map (Wakeup.belowLogs _))
          ((Drive.new (compose source operators) consumer).poll job)) := by
    rw [← Drive.attend_erase (erasure _) (Wakeup.belowLogs _) (Wakeup.below _)
      (fun w c => erase_modifySource w.arrive c) (fun w => rfl), ← Drive.poll_erase, ← herase]
    rfl
  have hkept (κ : Type) [RowConsumer κ] (K : Taking κ (Common (arities plans) operators.reverse.length))
      (consumer : κ) (hconsumer : K.inv consumer) (wakeups : List (Wakeup β)) :
      Drive.Kept (rowInvariant (arities plans) _) K
        (Progress.attend Drive.rouse (wakeups.map (Wakeup.belowLogs _))
          ((Drive.new (compose source operators) consumer).poll job)) := by
    refine Drive.kept_attend _ K (fun w hw c hc => ?_) hinv hconsumer job
    obtain ⟨w, -, rfl⟩ := List.mem_map.1 hw
    exact inv_modifySource w.arrive hc
  refine ⟨fun history => ⟨?_, regular_of_inv hlength (inv_history hinv job history)⟩, ?_, ?_⟩
  · rw [← herase]
    exact erase_history _ job history
  · intro κ _ consumer wakeups logged
    exact ⟨hdrive κ consumer wakeups, regular_of_inv hlength (hkept κ (.any κ _) consumer trivial wakeups).1⟩
  · intro wakeups plan hlast answer
    have hcommon : ∀ row, Common (arities plans) operators.reverse.length row → row.length = plan.arity := by
      rw [hlength]
      exact fun row hrow => length_of_common hlast hrow
    have hcollected := hkept ResultSet (ResultSet.taking _) ResultSet.new nofun wakeups
    rw [show answer = _ from hdrive ResultSet ResultSet.new wakeups]
    refine ⟨fun row hrow => hcommon row (hcollected.2.1 row hrow), fun bucket hbucket row hrow => ?_⟩
    obtain ⟨collected, hk, rfl⟩ := hcollected.2.2 bucket hbucket
    exact hcommon row (hk row hrow)

/-- Rows of one, two and three columns. -/
def ragged : List Row := [[.int32 1], [.int32 1, .int32 2], [.int32 3, .int32 4, .int32 5]]

/-- Counts the rows with each first column. -/
def countFirst : List Projection :=
  [.filter ⟨.literal (.bool true), [.column 0]⟩,
    .group ⟨[0], [⟨.countStar, []⟩], .iterFinal, .doc⟩,
    .topN ⟨none, 0, [.column 0, .column 1]⟩]

/-- The first row is handed on by the filter as it is, and the others are not; the last stage hands all rows on
as they are. -/
theorem regular_rows_ragged :
    let operators := countFirst.map (Projection.operator .standard)
    let job := Job.live (.unlimited "" .nil)
    let logged := (Drive.new (compose (Source.memory (.paged ragged 2)) operators) ResultSet.new).poll job
    logged.2.1.chain.logs =
        [[[.int32 1], [.int32 1], [.int32 3]], [[.int32 1, .int64 2], [.int32 3, .int64 1]],
          [[.int32 1, .int64 2], [.int32 3, .int64 1]]] ∧
      logged.2.1.chain.Regular countFirst ∧
      logged.2.1.consumer.bucket.toList.length = 2 ∧
      ∀ row ∈ logged.2.1.consumer.bucket.toList, row.length = 2 := by
  intro operators job logged
  obtain ⟨-, hdrive, hcollected⟩ :=
    regular_rows (show Projection.compileAll .standard countFirst = .ok operators from rfl)
      (Source.memory (.paged ragged 2)) job
  obtain ⟨hsame, hregular⟩ := hdrive ResultSet .new []
  have hrows := (hcollected [] _ rfl).1
  refine ⟨by decide +kernel, hregular, by decide +kernel, fun row hrow => hrows row ?_⟩
  rw [hsame]
  exact hrow

end LoggedChain

end Chains

end RowStream
