import RowStream.Proofs.Collector.Ordered
import RowStream.Proofs.Engine.Meaning

/-!
# Ordered top-N over a supply

With a limit and without, an ordered top-N hands out rows of one and the same stable sort.

* `Supply.run_orderedTopN_spec` — what the two come to, and that they agree.
-/

namespace RowStream

/-- The order of a plan. -/
abbrev OrderedTopNPlan.order (p : OrderedTopNPlan) : RowOrder :=
  .ofColumns p.orderBy p.descending p.nullsFirst

namespace Supply

variable {supply : Supply} {rows : List Row} {b : Budget}

/-- A plan alone comes to what its collector makes of all rows. -/
theorem run_orderedTopN (footprint : Footprint) (p : OrderedTopNPlan)
    (hflow : supply.flow = ⟨rows, none⟩) (hb : b.Unlimited) :
    (supply.run [Projection.operator footprint (.orderedTopN p)] b).1 =
      .finished (Flow.collect (p.collector footprint) ⟨rows, none⟩).result := by
  rw [run_plan footprint _ supply hb, hflow]
  rfl

/-- **Bounded and unbounded ordered top-N agree.** Where the order is a total preorder on the rows,
there is one stable sort of them. Without a limit the outputs of its rows behind the offset come out,
or the first failure among them; with a limit, those of the first of these rows. So if all outputs
can be evaluated, the limit cuts off the result. The sum of limit and offset may go beyond the sizes:
there are no more rows than sizes then. -/
theorem run_orderedTopN_spec (footprint : Footprint) (p : OrderedTopNPlan) (limit : Nat)
    (hflow : supply.flow = ⟨rows, none⟩)
    (horder : (RowOrder.ofColumns p.orderBy p.descending p.nullsFirst).TotalOn rows)
    (hsize : limit + p.offset ≤ maxSize ∨ rows.length ≤ maxSize) (hb : b.Unlimited) :
    let order := RowOrder.ofColumns p.orderBy p.descending p.nullsFirst
    let outcome := fun limit : Option Nat =>
      (supply.run [Projection.operator footprint (.orderedTopN { p with limit })] b).1
    ∃ sorted, order.SortsStably rows sorted ∧
      (∀ other, order.SortsStably rows other → other = sorted) ∧
      outcome (some limit) = .finished ((OpError.ofEval
        (Expr.valuesAll p.outputs ((sorted.drop p.offset).take limit))).map .ofList) ∧
      outcome none = .finished ((OpError.ofEval
        (Expr.valuesAll p.outputs (sorted.drop p.offset))).map .ofList) ∧
      ∀ out, outcome none = .finished (.ok (.ofList out)) →
        outcome (some limit) = .finished (.ok (.ofList (out.take limit))) := by
  intro order outcome
  have hsorted := RowOrder.sortsStably_mergeSort horder
  have hbounded : outcome (some limit) = .finished _ :=
    run_orderedTopN footprint { p with limit := some limit } hflow hb
  have hunbounded : outcome none = .finished _ :=
    run_orderedTopN footprint { p with limit := none } hflow hb
  rw [OrderedTopNPlan.collector, Flow.result_collect_top horder hsize hsorted] at hbounded
  rw [OrderedTopNPlan.collector, Flow.result_collect_sort horder hsorted] at hunbounded
  refine ⟨_, hsorted, fun other hother => hother.unique horder hsorted, hbounded, hunbounded, ?_⟩
  intro out hout
  rw [hunbounded] at hout
  rw [hbounded]
  -- where all outputs have values, those of the leading rows are the leading ones
  cases hvalues : Expr.valuesAll p.outputs ((rows.mergeSort order.le).drop p.offset) with
  | error e =>
    rw [hvalues] at hout
    cases hout
  | ok all =>
    rw [hvalues] at hout
    injection hout with hout
    injection hout with hout
    have hall : all = out := congrArg Bucket.toList hout
    rw [Expr.valuesAll_take hvalues limit, hall]
    rfl

/-- Rows that tie, and one without a value to sort by. -/
def tied : Supply :=
  .memory [[.int32 2, .text "a"], [.null, .text "b"], [.int32 1, .text "c"], [.int32 2, .text "d"],
    [.int32 1, .text "e"]] 2

/-- Two rows behind the first: the second of those that tie for it, and the first of the next tie. -/
theorem run_orderedTopN_spec_ties :
    (tied.run [Projection.operator .standard (.orderedTopN
        ⟨some 2, 1, [.column 1], [0], [false], [none]⟩)] (.unlimited "" .nil)).1 =
      .finished (.ok (.ofList [[.text "e"], [.text "a"]])) := by
  have horder : (RowOrder.ofColumns [0] [false] [none]).TotalOn tied.flow.rows :=
    ⟨by decide, by decide⟩
  obtain ⟨sorted, -, hunique, hbounded, -⟩ := run_orderedTopN_spec .standard
    ⟨none, 1, [.column 1], [0], [false], [none]⟩ 2 (rfl : tied.flow = ⟨_, none⟩) horder
    (.inl (by decide)) (Budget.unlimited_unlimited "" .nil)
  have hsorted : [[.int32 1, .text "c"], [.int32 1, .text "e"], [.int32 2, .text "a"],
      [.int32 2, .text "d"], [.null, .text "b"]] = sorted :=
    hunique _ ⟨by decide, by decide, by decide⟩
  rw [← hsorted] at hbounded
  exact hbounded

end Supply

end RowStream
