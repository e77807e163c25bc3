import RowStream.Proofs.Engine.Kill
import RowStream.Proofs.Stream.Tally

/-!
# Pulling comes to an end

Whoever pulls goes round in a loop: in each round a row is handed over, or the loaded rows are used up and a
page is loaded. Over rows in memory no round is in vain. A row that a filter, an offset or a collector
swallows is one less to come, and so is a page that brings none.

* `pullWithin` — the loop, cut off after some rounds.
* `PullInvariant.pullWithin_spec` — how many rounds the loop needs, and what it leaves, by induction on them.
* `PullInvariant.pull_spec`, `PullInvariant.finished_poll` — so does pulling, and a drive.
* `KillableDrive.answer_ends` — drives of operators over rows in memory.
-/

namespace RowStream

section Rounds

variable {σ κ : Type} [BatchIterator σ] [RowConsumer κ]

/-- Pulls a row and hands it over, or loads a page, and so on; but not more often than it is told. -/
def pullWithin : Nat → σ → κ → Job → Option (StepResult OpError Job (σ × κ) Pulled)
  | 0, _, _, _ => none
  | rounds + 1, s, k, job =>
    match job.kill.check with
    | .error e => some (.error e ((s, k), job))
    | .ok () =>
      match BatchIterator.moveNext (s, job) with
      | .error e (s, job) => some (.error e ((s, k), job))
      | .ok true (s, job) =>
        match RowConsumer.accept (BatchIterator.current s) (k, job) with
        | .error e (k, job) => some (.error e ((s, k), job))
        | .ok () (k, job) => pullWithin rounds s k job
      | .ok false (s, job) =>
        if BatchIterator.allLoaded s then some (.ok .exhausted ((s, k), job))
        else
          match request (s, job) with
          | .error e (s, job) => some (.error e ((s, k), job))
          | .ok .pending (s, job) => some (.ok .suspended ((s, k), job))
          | .ok .ready (s, job) => pullWithin rounds s k job

namespace PullInvariant

variable (I : PullInvariant σ)

/-- What pulling leaves. -/
def Pulls : StepResult OpError Job (σ × κ) Pulled → Prop :=
  StepResult.Leaves (fun pulled p => pulled = .exhausted ∧ I.ended p.1) fun p => I.kept p.1

/-- **Every round gets on**: a row fewer is ready, or a page fewer is to be loaded. -/
theorem pullWithin_spec {rounds : Nat} {s : σ} (hlive : I.live s)
    (hrounds : BatchIterator.ready s + 2 * BatchIterator.pages s < rounds) (k : κ) (job : Job) :
    pullWithin rounds s k job = some (pull s k job) ∧ I.Pulls (pull s k job) := by
  -- a load turns rows that were to be loaded into ready ones, so those to be loaded count twice
  induction rounds generalizing s k job with
  | zero => omega
  | succ rounds ih =>
    rw [pullWithin, pull_eq_row]
    cases hkill : job.kill.check with
    | error e => exact ⟨rfl, I.kept_of_live hlive⟩
    | ok u =>
      have hmoved := I.moveNext_spec hlive job
      rcases hmove : BatchIterator.moveNext (s, job) with ⟨_ | _, t, job'⟩ | ⟨e, t, job'⟩ <;>
        rw [hmove] at hmoved
      · -- the loaded rows are used up
        have hready := BatchIterator.ready_of_moveNext hmove
        have hpages := BatchIterator.pages_of_moveNext hmove
        have hused : if BatchIterator.allLoaded t then I.ended t else I.waiting t := hmoved
        simp only [StepResult.andThen, Bool.false_eq_true, if_false]
        cases hloaded : BatchIterator.allLoaded t with
        | true =>
          rw [hloaded] at hused
          exact ⟨rfl, rfl, hused⟩
        | false =>
          rw [hloaded] at hused
          simp only [Bool.false_eq_true, if_false, resume_eq, resumeRound, request]
          cases hkill' : job'.kill.check with
          | error e => exact ⟨rfl, I.kept_of_waiting hused⟩
          | ok u =>
            have hstep := I.load_spec hused job'
            rcases hload : BatchIterator.load (t, job') with ⟨progress, t', job''⟩ | ⟨e, t', job''⟩ <;>
              rw [hload] at hstep
            · obtain ⟨rfl, hlive', hleft⟩ := hstep
              have hfewer := BatchIterator.pages_of_load hload
              exact ih hlive' (by omega) k job''
            · exact ⟨rfl, hstep⟩
      · -- a row is handed over
        have hready := BatchIterator.ready_of_moveNext hmove
        have hpages := BatchIterator.pages_of_moveNext hmove
        simp only [StepResult.andThen, if_true, Point.pulled]
        rcases RowConsumer.accept (BatchIterator.current t) (k, job') with ⟨u, l, job''⟩ | ⟨e, l, job''⟩
        · exact ih hmoved (by simp only [Bool.toNat_true] at hready; omega) l job''
        · exact ⟨rfl, I.kept_of_live hmoved⟩
      · exact ⟨rfl, hmoved⟩

/-- **Pulling keeps what each round keeps**, and never has to wait. -/
theorem pull_spec {s : σ} (hlive : I.live s) (k : κ) (job : Job) : I.Pulls (pull s k job) :=
  (I.pullWithin_spec hlive (Nat.lt_succ_self _) k job).2

/-- So it ends a drive. -/
theorem finished_poll {s : σ} (hlive : I.live s) (k : κ) (job : Job) :
    ∃ t l result job', (Drive.new s k).poll job = Drive.finish t l result job' ∧ I.kept t ∧
      (result = .ok () → I.ended t) := by
  have hpull := I.pull_spec hlive k job
  show ∃ t l result job', Drive.settle (pull s k job) = _ ∧ _
  rcases hrun : pull s k job with ⟨pulled, ⟨t, l⟩, job'⟩ | ⟨e, ⟨t, l⟩, job'⟩ <;> rw [hrun] at hpull
  · obtain ⟨rfl, hended⟩ := hpull
    exact ⟨t, l, .ok (), job', rfl, I.kept_of_ended hended, fun _ => hended⟩
  · exact ⟨t, l, .error e, job', rfl, hpull, nofun⟩

end PullInvariant

end Rounds

/-! ## Sources during whose calls the job is killed

A kill ends the loop sooner. The source still counts down. -/

/-- They hand on what their sources do. -/
def KillingSource.memoryBacked {β : Type} [BatchIterator β] (B : MemoryBacked β) :
    MemoryBacked (KillingSource β) where
  holds s m := B.holds s.source m
  moveNext_spec {s m} h job := by
    obtain ⟨whole, job', hmove, hwhole⟩ := B.moveNext_spec h (job.interrupt (s.kills.headD none))
    refine ⟨fun m => ⟨whole m, s.kills.tail⟩, job', ?_, hwhole⟩
    show StepResult.within _ _ = _
    rw [hmove]
    rcases MemorySource.moveNext (m, job') with ⟨more, m', job''⟩ | ⟨e, m', job''⟩ <;> rfl
  load_spec {s m} h job := by
    obtain ⟨whole, job', hload, hwhole⟩ := B.load_spec h (job.interrupt (s.kills.headD none))
    refine ⟨fun m => ⟨whole m, s.kills.tail⟩, job', ?_, hwhole⟩
    show StepResult.within _ _ = _
    rw [hload]
    rcases MemorySource.load (m, job') with ⟨progress, m', job''⟩ | ⟨e, m', job''⟩ <;> rfl
  allLoaded_eq h := B.allLoaded_eq h
  ready_eq h := B.ready_eq h
  pages_eq h := B.pages_eq h

/-! ## Chains

What is left to do is the sum of the rows and pages of the source and of the rows that stages still
have to show. Fresh stages have none. -/

namespace Chain

variable {β : Type} [BatchIterator β]

/-- The rows that a chain can show before it needs a page: those that its operators have, and those that its
source has. -/
theorem ready_build (source : β) (ops : List Operator) :
    BatchIterator.ready (build source ops) =
      (ops.map Operator.backlog).sum + BatchIterator.ready source := by
  induction ops with
  | nil => exact (Nat.zero_add _).symm
  | cons op ops ih =>
    show op.backlog + BatchIterator.ready (build source ops) = _
    rw [ih, List.map_cons, List.sum_cons, Nat.add_assoc]

theorem pages_build (source : β) (ops : List Operator) :
    BatchIterator.pages (build source ops) = BatchIterator.pages source := by
  induction ops with
  | nil => rfl
  | cons op ops ih => exact ih

/-- Nothing is asked of a source by closing the chain over it. -/
theorem loads_close {n : Nat} (c : Chain (Counted β) n) (job : Job) :
    (BatchIterator.close c job).1.source.loads = c.source.loads ∧
      (BatchIterator.close c job).1.source.rows = c.source.rows := by
  induction n generalizing job with
  | zero => exact ⟨rfl, rfl⟩
  | succ n ih =>
    obtain ⟨stage, inner⟩ := c
    show (Stage.close (stage, inner) job).1.2.source.loads = _ ∧
      (Stage.close (stage, inner) job).1.2.source.rows = _
    by_cases hclosed : stage.state = .closed
    · simp only [Stage.close, if_pos hclosed]
      exact ⟨rfl, rfl⟩
    · simp only [Stage.close, if_neg hclosed]
      exact ih inner _

end Chain

namespace KillableDrive

/-- **Runs over rows in memory come to an end.** Over every chain of operators, with pages of every size,
whatever memory there is and whenever the job is killed: the loop of pulling ends after a number of rounds
that is known beforehand, the drive never has to wait, and its source is asked for no more pages than its rows
fill after the first. -/
theorem answer_ends {κ : Type} [RowConsumer κ] (rows : List Row) (size : Nat) (operators : List Operator)
    (consumer : κ) (job : Job) (wakeups : List (Wakeup Source))
    (sourceKills consumerKills : List (Option String)) :
    let d : KillableDrive Source κ :=
      ⟨.memory (.paged rows size), operators, consumer, job, wakeups, sourceKills, consumerKills⟩
    pullWithin (2 * rows.length + (operators.map Operator.backlog).sum + 1) d.start.chain d.start.consumer
        job = some (pull d.start.chain d.start.consumer job) ∧
      (∃ result, d.answer.1 = .finished result) ∧
      d.answer.2.1.chain.source.loads ≤ max 1 (rows.length ⌈/⌉ max size 1) - 1 := by
  intro d
  let source : Counted (KillingSource Source) := .new ⟨d.source, sourceKills⟩
  let I := Counted.invariant (KillingSource.memoryBacked Source.memoryBacked) rows.length (max size 1)
  have hsource : I.live source := Counted.tallied_new rfl
  have hlive : (Chain.invariant I _).live d.start.chain :=
    Chain.live_invariant_build I hsource operators.reverse
  have hlength : (rows.take (max size 1)).length + (rows.drop (max size 1)).length = rows.length := by
    rw [← List.length_append, List.take_append_drop]
  have hready : BatchIterator.ready d.start.chain =
      (operators.map Operator.backlog).sum + (rows.take (max size 1)).length := by
    show BatchIterator.ready (Chain.build source operators.reverse) = _
    rw [Chain.ready_build, List.map_reverse, List.sum_reverse]
    rfl
  have hpages : BatchIterator.pages d.start.chain = (rows.drop (max size 1)).length :=
    Chain.pages_build source operators.reverse
  obtain ⟨t, l, result, job', hpoll, hkept, -⟩ :=
    (Chain.invariant I _).finished_poll hlive d.start.consumer job
  -- the first poll ends the drive, so that no wakeup is ever waited for
  have hanswer : d.answer = Drive.finish t l result job' := by
    rw [answer, show d.start.poll d.job = _ from hpoll]
    cases d.wakeups <;> rfl
  refine ⟨((Chain.invariant I _).pullWithin_spec hlive (by omega) d.start.consumer job).1, ?_, ?_⟩
  · rw [hanswer]
    exact ⟨_, rfl⟩
  · rw [hanswer]
    show (BatchIterator.close t job').1.source.loads ≤ _
    rw [(Chain.loads_close t job').1]
    exact Tally.loads_le ((Chain.kept_invariant I).1 hkept) (by omega)

end KillableDrive

end RowStream
