import RowStream.Proofs.Engine.Meaning
import RowStream.Proofs.Engine.Termination
import RowStream.Proofs.Stream.Law
import RowStream.Proofs.Stream.Reading

/-!
# Drives read no more than they need

A drive of a limit over rows in memory ends with rows once the limit has taken what it wants. Counters at the
source tell how many rows and pages these were; and they change nothing else.

* `Simulation.counted` — a counted source hands out the flow of its source.
* `Flow.failure_slice` — rows whose outputs can be evaluated do not fail behind a limit.
* `TopNPlan.drive_reads` — what a drive has read in the end.
-/

namespace RowStream

namespace Simulation

variable {σ α : Type} [BatchIterator σ] (S : Simulation σ α)

theorem settles_counted_moveNext {s : Counted σ} {as : List α} {f : Flow} (hlive : S.live s.source as f) :
    JobStep.Settles (fun job => BatchIterator.moveNext (s, job))
      (Moved (fun t => S.live t.source as) (fun t => S.waiting t.source as) f) := by
  rw [s.moveNext_eq]
  refine (S.moveNext_spec hlive).andThen (fun more t hmoved => ?_) (fun e t hmoved => ?_)
    fun e t job => ⟨_, _, rfl⟩
  · exact JobStep.settles_ok (fun b => rfl) (by cases more <;> exact hmoved)
  · exact JobStep.settles_error (fun b => rfl) hmoved

theorem settles_counted_load {s : Counted σ} {as : List α} {f : Flow} (hwaiting : S.waiting s.source as f) :
    JobStep.Settles (fun job => BatchIterator.load (s, job))
      (Loaded (fun a s => { s with source := S.deliver a s.source }) (fun t => S.live t.source)
        (fun t => S.waiting t.source) as f) := by
  refine (S.load_spec hwaiting).within fun r t hloaded => ?_
  rcases r with e | progress
  · exact hloaded
  · cases progress <;> exact hloaded

include S in
theorem counted_close (s : Counted σ) : ∃ (t : Counted σ) (sizes : List Nat), ∀ b,
    BatchIterator.close s (.live b) = (t, .live (sizes.foldl Budget.giveBack b)) := by
  obtain ⟨t, sizes, hclose⟩ := S.close_spec s.source
  refine ⟨{ s with source := t, closes := s.closes + 1 }, sizes, fun b => ?_⟩
  show Counted.close s (.live b) = _
  rw [Counted.close, hclose]

/-- **Counting changes no flow.** -/
def counted : Simulation (Counted σ) α where
  live s := S.live s.source
  waiting s := S.waiting s.source
  deliver a s := { s with source := S.deliver a s.source }
  moveNext_spec := S.settles_counted_moveNext
  load_spec := S.settles_counted_load
  close_spec := S.counted_close

end Simulation

namespace Flow

theorem failure_project {outputs : List Expr} {rows : List Row}
    (h : ∀ row ∈ rows, ∃ out, Expr.values row outputs = .ok out) :
    (project outputs ⟨rows, none⟩).failure = none := by
  induction rows with
  | nil => rfl
  | cons row rows ih =>
    obtain ⟨⟨out, hout⟩, hrows⟩ := List.forall_mem_cons.1 h
    have hcons := project_cons outputs row ⟨rows, none⟩
    rw [hout] at hcons
    exact (congrArg failure hcons).trans (ih hrows)

/-- Rows whose outputs can be evaluated do not fail behind a limit. -/
theorem failure_slice {outputs : List Expr} {rows : List Row}
    (h : ∀ row ∈ rows, ∃ out, Expr.values row outputs = .ok out) (offset : Nat) (limit : Option Nat) :
    (slice offset limit outputs ⟨rows, none⟩).failure = none := by
  cases limit with
  | none => exact failure_project fun row hrow => h row (List.mem_of_mem_drop hrow)
  | some n =>
    simp only [slice, ite_self]
    exact failure_project fun row hrow => h row (List.mem_of_mem_drop (List.mem_of_mem_take hrow))

end Flow

namespace TopNPlan

/-- A drive of a plan alone over rows in memory, whose source is counted. -/
def drive {κ : Type} (plan : TopNPlan) (rows : List Row) (size : Nat) (consumer : κ) :
    Drive (Chain (Counted Source) 1) κ :=
  .new (compose (.new (.memory (.paged rows size))) [(Projection.topN plan).operator .standard]) consumer

variable {plan : TopNPlan} {rows : List Row} {size : Nat}

/-- What a drive has read that ends with rows. -/
theorem hasRead_of_finished {κ : Type} [RowConsumer κ] {consumer : κ} {job job' : Job} {bucket : Bucket}
    {d : Drive (Chain (Counted Source) 1) κ}
    (h : (plan.drive rows size consumer).poll job = (.finished (.ok bucket), d, job')) :
    d.chain.source.HasRead (plan.reads rows.length) (max size 1) := by
  have hsize : 0 < max size 1 := by omega
  let I := Limited.invariant Source.memoryBacked plan rows.length hsize
  have hlive : I.live (plan.drive rows size consumer).chain :=
    ⟨_, rfl, Counted.tallied_new rfl, RowLimit.wants_new plan plan.outputs, fun _ => .inl rfl⟩
  obtain ⟨t, l, result, job'', hpoll, -, hended⟩ := I.finished_poll hlive consumer job
  rw [show (plan.drive rows size consumer).poll job = _ from hpoll] at h
  cases result with
  | error e => cases h
  | ok u =>
    cases h
    obtain ⟨hrows, hloads⟩ := hended rfl
    obtain ⟨hloads', hrows'⟩ := Chain.loads_close (n := 1) t job''
    exact ⟨hrows'.trans hrows, hloads'.trans hloads⟩

/-- A drive ends with rows if their outputs can be evaluated and there is memory for them. -/
theorem exists_finished (hrows : ∀ row ∈ rows, ∃ out, Expr.values row plan.outputs = .ok out) {job : Job}
    (hjob : job.Unlimited) : ∃ bucket d job',
      (plan.drive rows size ResultSet.new).poll job = (.finished (.ok bucket), d, job') := by
  let op := (Projection.topN plan).operator .standard
  have hsource : (Source.simulation.counted).live (.new (.memory (.paged rows size))) [] ⟨rows, none⟩ :=
    Supply.live_source (.memory rows size)
  have hlive := Chain.live_build Source.simulation.counted hsource [op]
  have hpull := (Chain.simulation Source.simulation.counted 1).pull_spec ResultSet.new hlive
  obtain ⟨ms, d, hends, -⟩ := (Chain.simulation Source.simulation.counted 1).ends_of_settles hpull
  -- the drive ends with the flow of the limit unless a request is refused, and none is
  obtain ⟨b', hreplay, -⟩ := hjob.budget.replay ms
  have hgranted := hends.granted hreplay
  have hfailure : (Flow.slice plan.offset plan.limit plan.outputs ⟨rows, none⟩).failure = none :=
    Flow.failure_slice hrows plan.offset plan.limit
  have hresult :
      (Flow.prepend ResultSet.new.bucket.toList ([op].foldr Operator.meaning ⟨rows, none⟩)).result =
        .ok (.ofList (Flow.slice plan.offset plan.limit plan.outputs ⟨rows, none⟩).rows) := by
    show (Flow.slice plan.offset plan.limit plan.outputs ⟨rows, none⟩).result = _
    rw [Flow.result, hfailure]
  rw [hresult] at hgranted
  rw [Job.eq_live hjob.alive]
  exact ⟨_, d, .live b', hgranted⟩

/-- **A limit reads no more than it needs.** Over rows in memory, in pages of every size, a drive of a limit
takes the rows that it skips and those that it shows, or all if there are not so many, and loads the pages on
which they are and no other: whenever it ends with rows; and it does, if the outputs of all rows can be
evaluated and there is memory for them. -/
theorem drive_reads (plan : TopNPlan) {rows : List Row}
    (hrows : ∀ row ∈ rows, ∃ out, Expr.values row plan.outputs = .ok out) (size : Nat) :
    (∀ job : Job, job.Unlimited → ∃ bucket d job',
      (plan.drive rows size ResultSet.new).poll job = (.finished (.ok bucket), d, job') ∧
        d.chain.source.HasRead (plan.reads rows.length) (max size 1)) ∧
    ∀ (κ : Type) [RowConsumer κ] (consumer : κ) (job job' : Job) (bucket : Bucket)
      (d : Drive (Chain (Counted Source) 1) κ),
      (plan.drive rows size consumer).poll job = (.finished (.ok bucket), d, job') →
        d.chain.source.HasRead (plan.reads rows.length) (max size 1) := by
  refine ⟨fun job hjob => ?_, fun κ _ consumer job job' bucket d h => hasRead_of_finished h⟩
  obtain ⟨bucket, d, job', hpoll⟩ := exists_finished hrows hjob
  exact ⟨bucket, d, job', hpoll, hasRead_of_finished hpoll⟩

/-- A limit that is reached with the first row of the second page. -/
theorem drive_reads_threeRows :
    ∃ bucket d job',
      (drive ⟨some 2, 1, [.column 0]⟩ [[.int64 1], [.int64 2], [.int64 3], [.int64 4], [.int64 5]] 2
        ResultSet.new).poll (.live (.unlimited "" .nil)) = (.finished (.ok bucket), d, job') ∧
      d.chain.source.rows = 3 ∧ d.chain.source.loads = 1 := by
  have hrows : ∀ row ∈ [[Scalar.int64 1], [.int64 2], [.int64 3], [.int64 4], [.int64 5]],
      ∃ out, Expr.values row [.column 0] = .ok out := by
    simp only [List.forall_mem_cons]
    exact ⟨⟨_, rfl⟩, ⟨_, rfl⟩, ⟨_, rfl⟩, ⟨_, rfl⟩, ⟨_, rfl⟩, fun _ hrow => absurd hrow List.not_mem_nil⟩
  obtain ⟨hanswer, hread⟩ := drive_reads ⟨some 2, 1, [.column 0]⟩ hrows 2
  obtain ⟨bucket, d, job', hpoll, -⟩ :=
    hanswer (.live (.unlimited "" .nil)) ⟨Budget.unlimited_unlimited "" .nil, rfl⟩
  obtain ⟨hcount, hloads⟩ := hread ResultSet .new _ _ _ _ hpoll
  exact ⟨bucket, d, job', hpoll, hcount, hloads⟩

end TopNPlan

end RowStream
