import RowStream.Proofs.Aggregate.Merging
import RowStream.Proofs.Engine.Grouping

/-!
# Merging in any order

The second phase of an aggregation gets its rows of written states in the order in which shards
happen to be done.

* `Supply.run_aggregation` — what aggregation over a supply ends with.
* `Supply.run_merging_perm` — two supplies of the same rows in different orders.
-/

namespace RowStream

namespace Supply

open Aggregates

variable {supply supply' : Supply} {rows rows' : List Row} {as : List Aggregation} {b b' : Budget}

/-- Aggregation ends with one row, or with the failure of the first row that cannot be folded in. -/
theorem run_aggregation (footprint : Footprint) (p : AggregationPlan)
    (hflow : supply.flow = ⟨rows, none⟩) (hb : b.Unlimited) :
    (supply.run [Projection.operator footprint (.aggregation p)] b).1 =
      .finished ((p.aggregates.fold p.aggregates.init rows).map fun states =>
        .ofList [p.aggregates.emit states]) := by
  have hmeaning : Projection.meaning footprint (.aggregation p) ⟨rows, none⟩ = _ :=
    Flow.collect_totals p.aggregates rows
  rw [run_plan footprint _ supply hb, hflow, hmeaning]
  cases p.aggregates.fold p.aggregates.init rows <;> rfl

/-- Merging ends with an error about a value, if a row has no state that can be read or a sum goes out
of range, and otherwise with the row of all results. -/
theorem run_merging (footprint : Footprint) (g : Granularity)
    (hvalid : Aggregates.Valid ⟨as, .partialFinal⟩) (hkinds : ∀ a ∈ as, a.kind.Orderless)
    (hints : ∀ a ∈ as, a.kind = .sum → AggregateKind.Integral (a.column rows))
    (hflow : supply.flow = ⟨rows, none⟩) (hb : b.Unlimited) :
    let outcome := (supply.run [Projection.operator footprint
      (.aggregation ⟨as, .partialFinal, g⟩)] b).1
    let fails := ∃ e, outcome = .finished (.error e) ∧ e.IsEvaluation
    (fails ↔ (∃ row ∈ rows, ∃ a ∈ as, ¬ a.Readable row) ∨ ∃ a ∈ as, a.Overflows rows) ∧
      (¬ fails → outcome = .finished (.ok (.ofList [as.map (·.result rows)]))) := by
  intro outcome fails
  have houtcome : outcome = .finished _ :=
    run_aggregation footprint ⟨as, .partialFinal, g⟩ hflow hb
  have hfold := fold_merging_iff hkinds hints
  -- which of the rows and of the aggregates fails first is of no account
  by_cases hmerges : ∀ a ∈ as, (∀ row ∈ rows, a.Readable row) ∧ ¬ a.Overflows rows
  · rw [(hfold _).2 ⟨hmerges, rfl⟩, Except.map, emit_map] at houtcome
    refine ⟨⟨?_, ?_⟩, fun _ => houtcome⟩
    · rintro ⟨e, he, -⟩
      cases houtcome.symm.trans he
    · rintro (⟨row, hrow, a, ha, hno⟩ | ⟨a, ha, hover⟩)
      · exact absurd ((hmerges a ha).1 row hrow) hno
      · exact absurd hover (hmerges a ha).2
  · have hfails : fails := by
      cases hstates : fold ⟨as, .partialFinal⟩ (init ⟨as, .partialFinal⟩) rows with
      | ok states => exact absurd ((hfold states).1 hstates).1 hmerges
      | error e =>
        rw [hstates] at houtcome
        exact ⟨e, houtcome, isEvaluation_of_fold hvalid (owns_init _) hstates⟩
    refine ⟨⟨fun _ => ?_, fun _ => hfails⟩, fun hno => absurd hfails hno⟩
    by_contra hcauses
    rw [not_or] at hcauses
    refine hmerges fun a ha => ⟨fun row hrow => ?_, fun hover => hcauses.2 ⟨a, ha, hover⟩⟩
    by_contra hno
    exact hcauses.1 ⟨row, hrow, a, ha, hno⟩

/-- **Merging in another order.** Of the same rows of written states in two orders each run ends with
an error about a value if and only if a row has no state that can be read, which does not depend on
the order, or a sum of the first rows is out of range. If neither run does, both end with one row. The
rows have the same counts and sums, and least and greatest values that are the same or equal in
order. -/
theorem run_merging_perm (footprint : Footprint) (g : Granularity)
    (hplan : (Projection.aggregation ⟨as, .partialFinal, g⟩).validate = .ok ())
    (hkinds : ∀ a ∈ as, a.kind.Orderless)
    (hints : ∀ a ∈ as, a.kind = .sum → AggregateKind.Integral (a.column rows))
    (hperm : rows.Perm rows') (hflow : supply.flow = ⟨rows, none⟩)
    (hflow' : supply'.flow = ⟨rows', none⟩) (hb : b.Unlimited) (hb' : b'.Unlimited) :
    let stage := [Projection.operator footprint (.aggregation ⟨as, .partialFinal, g⟩)]
    let one := (supply.run stage b).1
    let other := (supply'.run stage b').1
    let fails (outcome : Progress OpError) := ∃ e, outcome = .finished (.error e) ∧ e.IsEvaluation
    let unreadable := ∃ row ∈ rows, ∃ a ∈ as, ¬ a.Readable row
    (fails one ↔ unreadable ∨ ∃ a ∈ as, a.Overflows rows) ∧
      (fails other ↔ unreadable ∨ ∃ a ∈ as, a.Overflows rows') ∧
      (¬ fails one → ¬ fails other →
        one = .finished (.ok (.ofList [as.map (·.result rows)])) ∧
        other = .finished (.ok (.ofList [as.map (·.result rows')])) ∧
        ∀ a ∈ as, a.kind.Alike (a.column rows) (a.result rows) (a.result rows')) := by
  intro stage one other fails unreadable
  have hvalid : Aggregates.Valid ⟨as, .partialFinal⟩ := Projection.check_of_validate hplan
  have hints' : ∀ a ∈ as, a.kind = .sum → AggregateKind.Integral (a.column rows') :=
    fun a ha hsum v hv => hints a ha hsum v ((Aggregation.column_perm hperm).mem_iff.2 hv)
  obtain ⟨hfails, hrow⟩ := run_merging footprint g hvalid hkinds hints hflow hb
  obtain ⟨hfails', hrow'⟩ := run_merging footprint g hvalid hkinds hints' hflow' hb'
  -- whether rows can be read does not depend on their order
  have hunreadable : unreadable ↔ ∃ row ∈ rows', ∃ a ∈ as, ¬ a.Readable row :=
    exists_congr fun row => and_congr_left' hperm.mem_iff
  rw [← hunreadable] at hfails'
  exact ⟨hfails, hfails', fun hone hother => ⟨hrow hone, hrow' hother, fun a ha =>
    Aggregation.alike_result (hkinds a ha) hperm⟩⟩

/-- A count, a sum and a least value, as three shards wrote them. -/
def fromShards : List Row :=
  [[.int64 2, .int64 5, .float64 (.ofInt 1)], [.int64 0, .null, .null],
    [.int64 3, .int64 (-7), .int64 1]]

def countSumMin : List Aggregation := [⟨.count, [0]⟩, ⟨.sum, [1]⟩, ⟨.min, [2]⟩]

/-- From the last shard to the first the count and the sum are the same, and the least value is another
one that is equal in order. -/
theorem run_merging_perm_fromShards :
    let stage := [Projection.operator .standard (.aggregation ⟨countSumMin, .partialFinal, .node⟩)]
    let run (rows : List Row) := ((memory rows 1).run stage (.unlimited "" .nil)).1
    run fromShards = .finished (.ok (.ofList [[.int64 5, .int64 (-2), .float64 (.ofInt 1)]])) ∧
      run fromShards.reverse = .finished (.ok (.ofList [[.int64 5, .int64 (-2), .int64 1]])) ∧
      AggregateKind.min.Alike [.float64 (.ofInt 1), .null, .int64 1] (.float64 (.ofInt 1))
        (.int64 1) := by
  intro stage run
  have hjob := Budget.unlimited_unlimited "" .nil
  have hplan : (Projection.aggregation ⟨countSumMin, .partialFinal, .node⟩).validate = .ok () := rfl
  have hflow : (memory fromShards 1).flow = ⟨fromShards, none⟩ := rfl
  have hflow' : (memory fromShards.reverse 1).flow = ⟨fromShards.reverse, none⟩ := rfl
  obtain ⟨hfails, hfails', hsame⟩ := run_merging_perm .standard .node hplan (by decide) (by decide)
    fromShards.reverse_perm.symm hflow hflow' hjob hjob
  have hone : run fromShards =
      .finished (.ok (.ofList [[.int64 5, .int64 (-2), .float64 (.ofInt 1)]])) :=
    run_aggregation .standard ⟨countSumMin, .partialFinal, .node⟩ hflow hjob
  have hends : ¬ ∃ e, run fromShards = .finished (.error e) ∧ e.IsEvaluation := fun ⟨e, he, _⟩ => by
    cases hone.symm.trans he
  have hends' : ¬ ∃ e, run fromShards.reverse = .finished (.error e) ∧ e.IsEvaluation := fun h =>
    (hfails'.1 h).elim (fun hunreadable => hends (hfails.2 (.inl hunreadable)))
      (by decide : ¬ ∃ a ∈ countSumMin, a.Overflows fromShards.reverse)
  obtain ⟨hvalues, hvalues', halike⟩ := hsame hends hends'
  exact ⟨hvalues, hvalues', halike ⟨.min, [2]⟩ (by decide)⟩

/-- What one aggregate merges from one column of written states. -/
def merging (kind : AggregateKind) (vs : List Scalar) : Progress OpError :=
  ((memory (vs.map fun v => [v]) 1).run
    [Projection.operator .standard (.aggregation ⟨[⟨kind, [0]⟩], .partialFinal, .node⟩)]
    (.unlimited "" .nil)).1

theorem merging_eq (kind : AggregateKind) (vs : List Scalar) :
    let s : Aggregates := ⟨[⟨kind, [0]⟩], .partialFinal⟩
    merging kind vs = .finished ((s.fold s.init (vs.map fun v => [v])).map fun states =>
      .ofList [s.emit states]) :=
  run_aggregation .standard ⟨[⟨kind, [0]⟩], .partialFinal, .node⟩ rfl
    (Budget.unlimited_unlimited "" .nil)

/-- Three arrays, each of which comes before the next, and the last before the first: as numbers, the
first items of all are equal, but they are not as integers. -/
def circle : List Scalar :=
  [.array [.int64 9007199254740993, .int64 0], .array [.float64 ⟨0x4340000000000000⟩, .int64 5],
    .array [.int64 9007199254740992, .int64 9]]

/-- **Orders matter.** A sum goes out of range in one order, but not in another. Of integers of
different widths the first is the least. And of values that are not in order, none is the least. -/
theorem merging_depends_on_order :
    (merging .sum [.int64 Int64.maxValue, .int64 1, .int64 (-1)] =
        .finished (.error (.evaluation .sumOutOfRange)) ∧
      merging .sum [.int64 Int64.maxValue, .int64 (-1), .int64 1] =
        .finished (.ok (.ofList [[.int64 Int64.maxValue]]))) ∧
    (merging .min [.int32 1, .int64 1] = .finished (.ok (.ofList [[.int32 1]])) ∧
      merging .min [.int64 1, .int32 1] = .finished (.ok (.ofList [[.int64 1]]))) ∧
    (merging .min circle = .finished (.ok (.ofList [[circle[2]]])) ∧
      merging .min circle.reverse = .finished (.ok (.ofList [[circle[0]]])) ∧
      circle[0].order circle[2] = .gt) := by
  simp only [merging_eq]
  refine ⟨⟨?_, ?_⟩, ⟨?_, ?_⟩, ?_, ?_, ?_⟩ <;> rfl

end Supply

end RowStream
