import RowStream.Proofs.Engine.Attend

/-!
# Meanings of pipelines

A pipeline is a list of plans over a source. Driven where memory is not limited, it ends with what
its plans make of the flow of the source, whatever pages and batches the rows come in and however
often the source has to be waited for.

* `Projection.compileAll_eq_ok` — plans without a fault have one operator each.
* `Supply.run_plans`, `Supply.run_plan`, `Projection.Makes` — what plans make of rows.
* `Supply.attend_eq_meanings` — the meaning of a driven pipeline.
-/

namespace RowStream

namespace Projection

/-- Plans that are not refused have no fault. -/
theorem check_of_validate {p : Projection} (h : p.validate = .ok ()) : p.check = .ok () := by
  unfold validate at h
  cases hcheck : p.check with
  | ok u => rfl
  | error fault =>
    rw [hcheck] at h
    cases h

/-- Plans that compile have the operators of the plans, in order. -/
theorem compileAll_eq_ok {footprint : Footprint} {plans : List Projection}
    {operators : List Operator} (h : compileAll footprint plans = .ok operators) :
    operators = plans.map (operator footprint) := by
  induction plans generalizing operators with
  | nil =>
    cases h
    rfl
  | cons p ps ih =>
    unfold compileAll compile at h
    cases hvalid : p.validate with
    | error e => simp [hvalid] at h
    | ok u =>
      cases hrest : compileAll footprint ps with
      | error e => simp [hvalid, hrest] at h
      | ok ops =>
        simp only [hvalid, hrest, Except.ok.injEq] at h
        rw [← h, ih hrest]
        rfl

/-- What the operators of plans mean, one after the other, is what the plans mean. -/
theorem foldl_meaning {footprint : Footprint} {plans : List Projection}
    {operators : List Operator} (h : compileAll footprint plans = .ok operators) (f : Flow) :
    operators.foldl (fun f op => op.meaning f) f = meanings footprint plans f := by
  rw [compileAll_eq_ok h, meanings, List.foldl_map]
  simp only [Operator.meaning_operator]

end Projection

/-- A job that is not killed and has no memory limit. -/
structure Job.Unlimited (job : Job) : Prop where
  budget : job.budget.Unlimited
  alive : job.kill.isKilled = false

theorem Job.eq_live {job : Job} (h : job.kill.isKilled = false) : job = .live job.budget := by
  obtain ⟨budget, ⟨_ | reason⟩⟩ := job
  · rfl
  · cases h

namespace Supply

/-- Plans without a fault come to what they mean. -/
theorem run_plans {footprint : Footprint} {plans : List Projection} {operators : List Operator}
    (hplans : Projection.compileAll footprint plans = .ok operators) (supply : Supply) {b : Budget}
    (hb : b.Unlimited) :
    (supply.run operators b).1 =
      .finished (Projection.meanings footprint plans supply.flow).result := by
  obtain ⟨d, job, hrun, -⟩ := supply.exists_run operators hb
  rw [hrun, Projection.foldl_meaning hplans]

/-- A plan alone comes to what it means. -/
theorem run_plan (footprint : Footprint) (p : Projection) (supply : Supply) {b : Budget}
    (hb : b.Unlimited) :
    (supply.run [p.operator footprint] b).1 = .finished (p.meaning footprint supply.flow).result := by
  obtain ⟨d, job, hrun, -⟩ := supply.exists_run [p.operator footprint] hb
  rw [hrun]
  simp only [List.foldl_cons, List.foldl_nil, Operator.meaning_operator]

end Supply

/-- Over every source of the one rows, a plan alone ends with the others, in every job without a
memory limit. -/
def Projection.Makes (footprint : Footprint) (p : Projection) (rows out : List Row) : Prop :=
  ∀ (supply : Supply) (b : Budget), supply.flow = ⟨rows, none⟩ → b.Unlimited →
    (supply.run [p.operator footprint] b).1 = .finished (.ok (.ofList out))

theorem Projection.makes_of_meaning {footprint : Footprint} {p : Projection} {rows out : List Row}
    (h : p.meaning footprint ⟨rows, none⟩ = ⟨out, none⟩) : p.Makes footprint rows out :=
  fun supply b hflow hb => by
    rw [Supply.run_plan footprint p supply hb, hflow, h]
    rfl

namespace Supply

/-- **The meaning of a pipeline.** Over every supply, plans without a fault end with what they make
of its flow: with exactly its rows, or with its failure after the consumer has taken exactly the
rows before it. -/
theorem attend_eq_meanings {footprint : Footprint} {plans : List Projection}
    {operators : List Operator} (hplans : Projection.compileAll footprint plans = .ok operators)
    (supply : Supply) {job : Job} (hjob : job.Unlimited) :
    ∃ d job', (supply.drive operators).attend (supply.events operators) job =
        (.finished (Projection.meanings footprint plans supply.flow).result, d, job') ∧
      d.consumer.bucket.toList = (Projection.meanings footprint plans supply.flow).rows := by
  obtain ⟨d, job', hrun, hrows⟩ := supply.exists_run operators hjob.budget
  rw [Projection.foldl_meaning hplans] at hrun hrows
  rw [Job.eq_live hjob.alive]
  exact ⟨d, job', hrun, hrows⟩

/-- A channel that is sent three batches, one of them empty, and then a failure. -/
def late : Supply :=
  .channel 2 [.batch [[.int32 1], [.int32 2]]] 1
    [⟨[.batch []], 1⟩, ⟨[.batch [[.int32 3]], .failure "late"], 0⟩] (by decide)

/-- A limit that is reached hides the failure that the channel still holds. -/
theorem attend_eq_meanings_topN :
    ∃ d job', (late.drive [.limit (.new 1 (some 2) [.column 0])]).attend
        (late.events [.limit (.new 1 (some 2) [.column 0])]) (.live (.unlimited "" .nil)) =
        (.finished (.ok (.ofList [[.int32 2], [.int32 3]])), d, job') ∧
      d.consumer.bucket.toList = [[.int32 2], [.int32 3]] := by
  have hplans : Projection.compileAll .standard [.topN ⟨some 2, 1, [.column 0]⟩] =
      .ok [.limit (.new 1 (some 2) [.column 0])] := rfl
  exact attend_eq_meanings hplans late ⟨Budget.unlimited_unlimited "" .nil, rfl⟩

end Supply

end RowStream
