import RowStream.Proofs.Collector.Groups
import RowStream.Proofs.Engine.Meaning

/-!
# Grouping over a supply

Grouping divides the rows into classes of equal keys and aggregates every class as if it were alone.

* `Projection.makes_aggregation`, `Projection.makes_group` — what the two stages come to.
* `Supply.run_group_spec` — groups are the parts of a partition, aggregated one by one.
-/

namespace RowStream

/-- The aggregates of a plan. -/
abbrev AggregationPlan.aggregates (p : AggregationPlan) : Aggregates := ⟨p.aggregations, p.mode⟩

/-- The plan without its keys: all rows are one group. -/
def GroupPlan.ungrouped (p : GroupPlan) : AggregationPlan := ⟨p.aggregations, p.mode, p.granularity⟩

/-- The aggregates of a plan. -/
abbrev GroupPlan.aggregates (p : GroupPlan) : Aggregates := p.ungrouped.aggregates

namespace Projection

variable {rows : List Row}

/-- Aggregation comes to one row. -/
theorem makes_aggregation (footprint : Footprint) (p : AggregationPlan) {states : List AggState}
    (h : p.aggregates.fold p.aggregates.init rows = .ok states) :
    Makes footprint (.aggregation p) rows [p.aggregates.emit states] := by
  refine makes_of_meaning ?_
  have hmeaning : meaning footprint (.aggregation p) ⟨rows, none⟩ = _ :=
    Flow.collect_totals p.aggregates rows
  rw [hmeaning, h]

/-- Grouping comes to the rows of its groups. -/
theorem makes_group (footprint : Footprint) (p : GroupPlan) {t : GroupTable}
    (h : (Collector.group (.new p.keys p.aggregates footprint)).takeAll rows = .ok (.group t))
    (haggregates : t.aggregates = p.aggregates) :
    Makes footprint (.group p) rows (t.groups.map (GroupTable.emit p.aggregates)) :=
  haggregates ▸ makes_of_meaning (Flow.collect_group_of_takeAll h)

end Projection

namespace Supply

open GroupTable

variable {supply : Supply} {rows : List Row} {b : Budget}

theorem run_group (footprint : Footprint) (p : GroupPlan) (hflow : supply.flow = ⟨rows, none⟩)
    (hb : b.Unlimited) :
    (supply.run [Projection.operator footprint (.group p)] b).1 =
      .finished (Flow.collect (.group (.new p.keys p.aggregates footprint)) ⟨rows, none⟩).result := by
  rw [run_plan footprint _ supply hb, hflow]
  rfl

/-- **Grouping is a partition by keys, and aggregation of every part.** The stage fails if and only
if some row lacks a key column or cannot be folded into the states of its group, and then as the
first such row does. Otherwise the rows are divided into the classes of their keys, and there is one
row for each class, in the order in which they came first: the key of its first row, and what
aggregation alone hands out for the rows of the class. -/
theorem run_group_spec (footprint : Footprint) (p : GroupPlan)
    (hflow : supply.flow = ⟨rows, none⟩) (hb : b.Unlimited) :
    let s := p.aggregates
    let firsts := firstKeys p.keys rows
    let outcome := (supply.run [Projection.operator footprint (.group p)] b).1
    (∀ e, outcome = .finished (.error e) ↔ ∃ ok row after, rows = ok ++ row :: after ∧
      failure? p.keys s ok row = some e ∧ Foldable p.keys s ok) ∧
    (Foldable p.keys s rows → IsPartition p.keys rows firsts ∧ ∃ values : Row → Row,
      outcome = .finished (.ok (.ofList (firsts.map fun key => key ++ values key))) ∧
      ∀ key ∈ firsts, Projection.Makes footprint (.aggregation p.ungrouped)
        (part p.keys key rows) [values key]) := by
  intro s firsts outcome
  have houtcome : outcome = .finished _ := run_group footprint p hflow hb
  have hsome : ∀ e, firstFailure p.keys s [] rows = some e ↔ ∃ ok row after,
      rows = ok ++ row :: after ∧ failure? p.keys s ok row = some e ∧ Foldable p.keys s ok := by
    intro e
    simp only [firstFailure_eq_some, foldable_iff, List.nil_append]
  -- either some row is the first that fails, or all rows are in the states of their groups
  cases hfailure : firstFailure p.keys s [] rows with
  | some e =>
    rw [Flow.collect_group_of_failure footprint hfailure] at houtcome
    refine ⟨fun e' => ?_, fun hfoldable => ?_⟩
    · rw [← hsome, hfailure, houtcome, Option.some.injEq]
      constructor
      · rintro ⟨⟩
        rfl
      · rintro rfl
        rfl
    · rw [foldable_iff.1 hfoldable] at hfailure
      cases hfailure
  | none =>
    obtain ⟨states, t, htake, haggregates, hgroups, hstates⟩ := exists_takeAll footprint hfailure
    rw [Flow.collect_group_of_takeAll htake, haggregates, hgroups, groupsOf, List.map_map] at houtcome
    refine ⟨fun e => ?_, fun _ => ⟨isPartition_firstKeys fun row hrow =>
      exists_keyOf hfailure hrow, fun key => s.emit (states key), houtcome, ?_⟩⟩
    · rw [← hsome, hfailure, houtcome]
      constructor <;> intro h <;> cases h
    · intro key hkey
      exact Projection.makes_aggregation footprint p.ungrouped (hstates key hkey)

/-- Keys that are all alike only as keys: two NaNs, two zeros in arrays, and nulls. -/
def alike : Supply :=
  .memory [[.float64 ⟨0x7ff8000000000000⟩, .int32 1], [.array [.null, .float64 ⟨0⟩], .int32 2],
    [.null, .int32 3], [.float64 ⟨0xfff8000000000001⟩, .null],
    [.array [.null, .float64 ⟨0x8000000000000000⟩], .int32 5], [.null, .int32 6]] 2

def countAndSum : GroupPlan := ⟨[0], [⟨.count, [1]⟩, ⟨.sum, [1]⟩], .iterFinal, .shard⟩

/-- Three groups, each with the key that came first. -/
theorem run_group_spec_alike :
    (alike.run [Projection.operator .standard (.group countAndSum)] (.unlimited "" .nil)).1 =
      .finished (.ok (.ofList [[.float64 ⟨0x7ff8000000000000⟩, .int64 1, .int64 1],
        [.array [.null, .float64 ⟨0⟩], .int64 2, .int64 7], [.null, .int64 2, .int64 9]])) := by
  have hjob := Budget.unlimited_unlimited "" .nil
  have hflow : alike.flow = ⟨alike.flow.rows, none⟩ := rfl
  obtain ⟨-, hgroups⟩ := run_group_spec .standard countAndSum hflow hjob
  obtain ⟨-, values, hrun, halone⟩ := hgroups (foldable_iff.2 (by decide))
  -- what each group alone comes to
  have hvalues (key : Row) (states : List AggState) (hkey : key ∈ firstKeys [0] alike.flow.rows)
      (hfold : countAndSum.aggregates.fold countAndSum.aggregates.init
        (part [0] key alike.flow.rows) = .ok states) :
      values key = countAndSum.aggregates.emit states := by
    have hrow := Projection.makes_aggregation .standard countAndSum.ungrouped hfold
      (memory (part [0] key alike.flow.rows) 1) _ rfl hjob
    rw [halone key hkey _ _ rfl hjob] at hrow
    injection hrow with hrow
    injection hrow with hrow
    exact List.singleton_inj.1 (congrArg Bucket.toList hrow)
  have hnan := hvalues [.float64 ⟨0x7ff8000000000000⟩] [.count 1, .sum (some (.integer 1))]
    (by decide) rfl
  have hzero := hvalues [.array [.null, .float64 ⟨0⟩]] [.count 2, .sum (some (.integer 7))]
    (by decide) rfl
  have hnull := hvalues [.null] [.count 2, .sum (some (.integer 9))] (by decide) rfl
  have hfirsts : firstKeys countAndSum.keys alike.flow.rows =
      [[.float64 ⟨0x7ff8000000000000⟩], [.array [.null, .float64 ⟨0⟩]], [.null]] := by decide
  rw [hrun, hfirsts, List.map_cons, List.map_cons, List.map_cons, hnan, hzero, hnull]
  rfl

end Supply

end RowStream
