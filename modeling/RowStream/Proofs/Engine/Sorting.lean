import RowStream.Proofs.Aggregate.Summary
import RowStream.Proofs.Engine.Grouping
import RowStream.Proofs.Engine.Ordered
import RowStream.Proofs.Row.Preorder

/-!
# Sorts among other stages

A sort leaves what ties as it came, so that sorts one after the other come to one sort by all their
keys, the last one's first. And the first row of a sort has in its column the value that an aggregate of
extremes finds there: of equal values, both stay with the first.

* `OrderedTopNPlan.sorting` — the plan that sorts all rows and hands them on as they are.
* `Supply.run_sorting_twice` — two sorts and one.
* `SortKey.better_eq`, `RowOrder.keepAll_first` — a buffer of one row keeps the extreme.
* `Projection.extreme_eq_first` — the extreme and the first row.
-/

namespace RowStream

/-! ## Two sorts and one

A sort without a limit means a stable sort of its input. The second one gets its rows in the order
of the first, and leaves ties in it. -/

namespace OrderedTopNPlan

/-- Sorts all rows of an arity by columns, each with its direction and the place of its nulls, and hands
them on as they are. -/
def sorting (arity : Nat) (keys : List (Nat × Bool × Option Bool)) : OrderedTopNPlan where
  limit := none
  offset := 0
  outputs := Expr.identity arity
  orderBy := keys.map (·.1)
  descending := keys.map (·.2.1)
  nullsFirst := keys.map (·.2.2)

theorem order_sorting (arity : Nat) (keys : List (Nat × Bool × Option Bool)) :
    (sorting arity keys).order = keys.map fun key => ⟨key.1, key.2.1, key.2.2.getD key.2.1⟩ := by
  unfold order sorting RowOrder.ofColumns
  induction keys with
  | nil => rfl
  | cons key keys ih => simpa using ih

theorem order_sorting_append (arity : Nat) (first second : List (Nat × Bool × Option Bool)) :
    (sorting arity (first ++ second)).order =
      (sorting arity first).order ++ (sorting arity second).order := by
  simp only [order_sorting, List.map_append]

theorem validate_sorting (arity : Nat) {keys : List (Nat × Bool × Option Bool)} (h : keys ≠ []) :
    (Projection.orderedTopN (sorting arity keys)).validate = .ok () := by
  simp [Projection.validate, Projection.check, sorting, h, Except.mapError]

theorem compileAll_sorting (footprint : Footprint) (arity : Nat)
    {keys : List (Nat × Bool × Option Bool)} (h : keys ≠ []) {plans : List Projection}
    {operators : List Operator} (hplans : Projection.compileAll footprint plans = .ok operators) :
    Projection.compileAll footprint (.orderedTopN (sorting arity keys) :: plans) =
      .ok (Projection.operator footprint (.orderedTopN (sorting arity keys)) :: operators) := by
  rw [Projection.compileAll, Projection.compile, validate_sorting arity h, hplans]

/-- Sorting comes to the rows in order. -/
theorem meaning_sorting (footprint : Footprint) {arity : Nat}
    {keys : List (Nat × Bool × Option Bool)} {rows sorted : List Row}
    (harity : ∀ row ∈ rows, row.length = arity) (horder : (sorting arity keys).order.TotalOn rows)
    (hsorted : (sorting arity keys).order.SortsStably rows sorted) :
    Projection.meaning footprint (.orderedTopN (sorting arity keys)) ⟨rows, none⟩ =
      ⟨sorted, none⟩ := by
  have hvalues : Expr.valuesAll (sorting arity keys).outputs
      (sorted.drop (sorting arity keys).offset) = .ok sorted :=
    Expr.valuesAll_identity fun row hrow => harity row (hsorted.perm.mem_iff.1 hrow)
  have hresult : (Projection.meaning footprint (.orderedTopN (sorting arity keys))
      ⟨rows, none⟩).result = _ := Flow.result_collect_sort horder hsorted
  rw [hvalues] at hresult
  exact Flow.eq_of_result hresult

end OrderedTopNPlan

namespace Supply

open OrderedTopNPlan

/-- **Two sorts and one.** Over rows of one arity that have values in total order, column by column,
sorting by some keys and then by others is sorting by the others and then the first ones at once, ties as
they came. -/
theorem run_sorting_twice (footprint : Footprint) {arity : Nat}
    {first second : List (Nat × Bool × Option Bool)} (hfirst : first ≠ []) (hsecond : second ≠ [])
    {supply supply' : Supply} {rows : List Row} (hflow : supply.flow = ⟨rows, none⟩)
    (hflow' : supply'.flow = ⟨rows, none⟩) (harity : ∀ row ∈ rows, row.length = arity)
    (hkeys : (sorting arity (first ++ second)).order.KeysTotalOn {row | row ∈ rows})
    {b b' : Budget} (hb : b.Unlimited) (hb' : b'.Unlimited) :
    ∃ twice once sorted,
      Projection.compileAll footprint
        [.orderedTopN (sorting arity second), .orderedTopN (sorting arity first)] = .ok twice ∧
      Projection.compileAll footprint [.orderedTopN (sorting arity (first ++ second))] = .ok once ∧
      (sorting arity (first ++ second)).order.SortsStably rows sorted ∧
      (supply.run twice b).1 = .finished (.ok (.ofList sorted)) ∧
      (supply'.run once b').1 = .finished (.ok (.ofList sorted)) := by
  have happend := order_sorting_append arity first second
  have hboth : first ++ second ≠ [] := by simp [hfirst]
  -- the first sort, over the rows of the supply
  have hmore : (sorting arity second).order.TotalOn rows :=
    RowOrder.KeysTotalOn.totalOn fun key hkey => hkeys key (by simp [happend, hkey])
  have hmiddle := RowOrder.sortsStably_mergeSort hmore
  -- the second one, over what the first has made of them
  have hkeys' : (sorting arity first).order.TotalOn
      (rows.mergeSort (sorting arity second).order.le) :=
    RowOrder.KeysTotalOn.totalOn fun key hkey part hpart =>
      hkeys key (by simp [happend, hkey]) part fun row hrow =>
        List.mem_mergeSort.1 (hpart row hrow)
  have hlast := RowOrder.sortsStably_mergeSort hkeys'
  have hsorted := hmiddle.andThen hlast
  rw [← happend] at hsorted
  have hnone : Projection.compileAll footprint [] = .ok [] := rfl
  have htwice := compileAll_sorting footprint arity hsecond
    (compileAll_sorting footprint arity hfirst hnone)
  have honce := compileAll_sorting footprint arity hboth hnone
  refine ⟨_, _, _, htwice, honce, hsorted, ?_, ?_⟩
  · rw [run_plans htwice supply hb, hflow, Projection.meanings, List.foldl_cons, List.foldl_cons,
      meaning_sorting footprint harity hmore hmiddle,
      meaning_sorting footprint (fun row hrow => harity row (List.mem_mergeSort.1 hrow)) hkeys' hlast]
    rfl
  · rw [run_plans honce supply' hb', hflow', Projection.meanings, List.foldl_cons,
      meaning_sorting footprint harity hkeys.totalOn hsorted]
    rfl

/-- Rows that tie in both columns, or in one of them only, and nulls in both. -/
def crossed : List Row :=
  [[.int32 2, .int32 1, .text "a"], [.null, .int32 5, .text "b"], [.int64 2, .null, .text "c"],
    [.int32 1, .int32 1, .text "d"], [.int64 2, .float64 ⟨0x3ff0000000000000⟩, .text "e"]]

/-- From the greatest of the second column down, and then by the first column: of equal rows there, the
one with a null comes first. -/
theorem run_sorting_twice_crossed :
    let sorted : List Row :=
      [[.int32 1, .int32 1, .text "d"], [.int64 2, .null, .text "c"],
        [.int32 2, .int32 1, .text "a"], [.int64 2, .float64 ⟨0x3ff0000000000000⟩, .text "e"],
        [.null, .int32 5, .text "b"]]
    ∃ twice once,
      Projection.compileAll .standard [.orderedTopN (sorting 3 [(1, true, none)]),
        .orderedTopN (sorting 3 [(0, false, none)])] = .ok twice ∧
      Projection.compileAll .standard
        [.orderedTopN (sorting 3 [(0, false, none), (1, true, none)])] = .ok once ∧
      ((memory crossed 2).run twice (.unlimited "" .nil)).1 = .finished (.ok (.ofList sorted)) ∧
      ((memory crossed 3).run once (.unlimited "" .nil)).1 = .finished (.ok (.ofList sorted)) := by
  intro sorted
  have hjob := Budget.unlimited_unlimited "" .nil
  have hfirst : ([(0, false, none)] : List (Nat × Bool × Option Bool)) ≠ [] := nofun
  have hsecond : ([(1, true, none)] : List (Nat × Bool × Option Bool)) ≠ [] := nofun
  have hkeys : (sorting 3 [(0, false, none), (1, true, none)]).order.KeysTotalOn
      {row | row ∈ crossed} := RowOrder.keysTotalOn_iff.2 (by decide)
  obtain ⟨twice, once, rows, htwice, honce, hsorted, hrun, hrun'⟩ :=
    run_sorting_twice .standard hfirst hsecond (rfl : (memory crossed 2).flow = ⟨_, none⟩)
      (rfl : (memory crossed 3).flow = ⟨_, none⟩) (by decide) hkeys hjob hjob
  obtain rfl : rows = sorted :=
    hsorted.unique hkeys.totalOn ⟨by decide, by decide, by decide⟩
  exact ⟨twice, once, htwice, honce, hrun, hrun'⟩

end Supply

/-! ## The extreme and the first row

Row by row the aggregate and a buffer of one row make the same decision: the new value is the best
if and only if its row goes first. Ties and nulls are where the two could differ, and do not. -/

namespace SortKey

/-- The aggregate whose result comes first under a key. -/
def leader (key : SortKey) : AggregateKind := if key.descending then .max else .min

/-- How a value compares to those that it comes before. -/
def wanted (key : SortKey) : Ordering := if key.descending then .gt else .lt

theorem summary_leader (key : SortKey) (vs : List Scalar) :
    key.leader.summary vs = .value (Scalar.extreme key.wanted vs) := by
  unfold leader wanted
  cases key.descending <;> rfl

theorem finalize_leader (key : SortKey) (best : Option Scalar) :
    key.leader.finalize (.value best) = best.getD .null := by
  unfold leader
  cases key.descending <;> cases best <;> rfl

theorem iterate_leader (key : SortKey) (best : Option Scalar) (v : Scalar) :
    key.leader.iterate (.value best) (some v) = .ok (.value (Scalar.better key.wanted best v)) := by
  unfold leader wanted
  cases key.descending
  · exact AggregateKind.addToExtreme_value .min .lt best v
  · exact AggregateKind.addToExtreme_value .max .gt best v

/-- **A value becomes the best** if and only if its row goes before that of the best value. Nulls stand
last, so a row with a value goes before all rows without one. -/
theorem better_eq {key : SortKey} (hnulls : key.nullsFirst = false) {best : Option Scalar}
    (hbest : ∀ b ∈ best, b.isNull = false) (v : Scalar) :
    (Scalar.better key.wanted best v).getD .null =
      if key.orderValues (best.getD .null) v = .gt then v else best.getD .null := by
  have hside : key.nullSide = .gt := by rw [nullSide, hnulls]; rfl
  have hnull : Scalar.null.isNull = true := rfl
  -- a null never becomes the best value, and it stands behind all others
  cases hv : v.isNull with
  | true =>
    rw [Scalar.better_of_isNull hv]
    cases best with
    | none => simp [orderValues, hv, hnull]
    | some b => simp [orderValues, hv, hbest b rfl, hside]
  | false =>
    cases best with
    | none => simp [Scalar.better_none hv, orderValues, hv, hnull, hside]
    | some b =>
      rw [Scalar.better_some hv]
      unfold Scalar.stays orderValues wanted
      simp only [hbest b rfl, hv, Option.getD_some]
      rw [← Scalar.swap_order b v]
      cases key.descending <;> cases b.order v <;> rfl

end SortKey

namespace RowOrder

variable {key : SortKey} {rows : List Row}

/-- Where there is room for one row only, the row that is kept goes if the next one stands before it. -/
theorem keep_one (order : RowOrder) (best row : Row) :
    keep order 1 [best] row = [if order.order best row = .gt then row else best] := by
  by_cases hgt : order.order best row = .gt
  · simp [keep, hgt, insertRow]
  · simp [keep, hgt]

/-- **The row that is kept** has the extreme of its column, the same value of those that are equal. -/
theorem keepAll_first (hnulls : key.nullsFirst = false) (hne : rows ≠ []) :
    ∃ best ∈ rows, keepAll [key] 1 [] rows = [best] ∧
      key.value best = (Scalar.extreme key.wanted (rows.map key.value)).getD .null := by
  induction rows using List.reverseRecOn with
  | nil => exact absurd rfl hne
  | append_singleton rows row ih =>
    rw [List.map_append, List.map_singleton, Scalar.extreme_concat, keepAll_concat]
    by_cases hrows : rows = []
    · -- the first row is kept, whatever it has in its column
      subst hrows
      refine ⟨row, by simp, rfl, ?_⟩
      show _ = (Scalar.better key.wanted none (key.value row)).getD .null
      cases key.value row <;> rfl
    · obtain ⟨best, hmem, hkept, hvalue⟩ := ih hrows
      have hcompare : RowOrder.order [key] best row =
          key.orderValues (key.value best) (key.value row) := by
        rw [RowOrder.order, RowOrder.order, Ordering.then_eq]
        rfl
      -- the buffer of one row and the extreme value take the same comparison
      rw [hkept, keep_one, SortKey.better_eq hnulls (fun b hb => (Scalar.mem_of_extreme hb).2),
        ← hvalue]
      simp only [hcompare]
      by_cases hgt : key.orderValues (key.value best) (key.value row) = .gt
      · exact ⟨row, by simp, by rw [if_pos hgt], by rw [if_pos hgt]⟩
      · exact ⟨best, by simp [hmem], by rw [if_neg hgt], by rw [if_neg hgt]⟩

end RowOrder

/-- Extremes are folded over the values of their column. -/
theorem Aggregation.fold_leader (key : SortKey) {rows : List Row}
    (hcolumn : ∀ row ∈ rows, key.column < row.length) :
    fold ⟨key.leader, [key.column]⟩ .iterFinal key.leader.init rows =
      .ok (.value (Scalar.extreme key.wanted (rows.map key.value))) := by
  induction rows using List.reverseRecOn with
  | nil => rw [fold, AggregateKind.init_eq_summary, key.summary_leader]; rfl
  | append_singleton rows row ih =>
    have hrow : row[key.column]? = some (key.value row) := by
      have hlt := hcolumn row (by simp)
      simp [SortKey.value, hlt]
    rw [fold_concat, ih fun r hr => hcolumn r (List.mem_append_left _ hr), List.map_append,
      List.map_singleton, Scalar.extreme_concat, ← key.iterate_leader]
    simp [Except.bind, absorb, value, input?, hrow, AggregateMode.consumesPartial]

/-- What is found among values is null if and only if all of them are. -/
theorem Scalar.getD_extreme_eq_null_iff {wanted : Ordering} {vs : List Scalar} :
    (extreme wanted vs).getD .null = .null ↔ ∀ v ∈ vs, v = .null := by
  have hnull (v : Scalar) : v.isNull = true ↔ v = .null := by cases v <;> simp [isNull]
  simp only [← hnull, ← @extreme_eq_none_iff wanted vs]
  cases hbest : extreme wanted vs with
  | none => simp [isNull]
  | some b => simp [(mem_of_extreme hbest).2]

namespace Projection

variable {descending : Bool} {nulls : Option Bool} {rows : List Row}

/-- The first row of a sort by one key, if nulls come last. -/
theorem makes_first (footprint : Footprint) (column : Nat) (hnulls : nulls.getD descending = false)
    (hne : rows ≠ []) :
    let key : SortKey := ⟨column, descending, nulls.getD descending⟩
    ∃ best ∈ rows, key.value best = (Scalar.extreme key.wanted (rows.map key.value)).getD .null ∧
      ∀ outputs out, Expr.values best outputs = .ok out → Makes footprint
        (.orderedTopN ⟨some 1, 0, outputs, [column], [descending], [nulls]⟩) rows [out] := by
  intro key
  -- what is kept does not depend on the outputs
  obtain ⟨best, hmem, hkept, hvalue⟩ := RowOrder.keepAll_first (show key.nullsFirst = false from hnulls) hne
  refine ⟨best, hmem, hvalue, fun outputs out hout => ?_⟩
  let buffer : TopBuffer := .new [key] 1 0 outputs footprint
  have hfresh : buffer.Fresh := fun _ he => nomatch he
  obtain ⟨u, htake, hexprs, hleading⟩ := Collector.exists_takeAll_top hfresh rows
  have hcapacity : buffer.capacity = 1 := rfl
  have hall : RowOrder.keepAll buffer.order buffer.capacity buffer.rows rows = [best] :=
    hcapacity ▸ hkept
  have hresult := Flow.result_collect htake
  rw [Collector.free_finish_top, hexprs, hleading, hall] at hresult
  have hvalues : Expr.valuesAll outputs [best] = .ok [out] := by
    rw [Expr.valuesAll, hout]
    rfl
  refine makes_of_meaning (Flow.eq_of_result (hresult.trans ?_))
  show (OpError.ofEval (Expr.valuesAll outputs [best])).map _ = _
  rw [hvalues]
  rfl

/-- **Extremes and first rows.** Of rows that have a column, the least value there is what the first row
has, if the rows are sorted by the column from the least up and nulls come last; and the greatest is what
the first row has, if they are sorted from the greatest down and nulls come last. It is the same value
also where others are equal to it. Whether the order of values is one does not matter. The value is null
if and only if all are. -/
theorem extreme_eq_first (footprint footprint' : Footprint) (granularity : Granularity)
    (hnulls : nulls.getD descending = false) (hne : rows ≠ []) {column : Nat}
    (hcolumn : ∀ row ∈ rows, column < row.length) :
    let extreme : AggregateKind := if descending then .max else .min
    ∃ row ∈ rows, ∃ v, row[column]? = some v ∧
      Makes footprint (.aggregation ⟨[⟨extreme, [column]⟩], .iterFinal, granularity⟩) rows [[v]] ∧
      (∀ outputs out, Expr.values row outputs = .ok out → Makes footprint'
        (.orderedTopN ⟨some 1, 0, outputs, [column], [descending], [nulls]⟩) rows [out]) ∧
      (v = .null ↔ ∀ row ∈ rows, row[column]? = some .null) := by
  intro extreme
  let key : SortKey := ⟨column, descending, nulls.getD descending⟩
  obtain ⟨best, hmem, hvalue, hmakes⟩ := makes_first footprint' column hnulls hne
  have hshown (row : Row) (hrow : row ∈ rows) : row[column]? = some (key.value row) := by
    have hlt := hcolumn row hrow
    simp [SortKey.value, key, hlt]
  have hfold := Aggregates.fold_cons (Aggregation.fold_leader key hcolumn)
    (Aggregates.fold_nil .iterFinal [] rows)
  have hextreme := makes_aggregation footprint ⟨[⟨extreme, [column]⟩], .iterFinal, granularity⟩ hfold
  refine ⟨best, hmem, key.value best, hshown best hmem, ?_, hmakes, ?_⟩
  · rw [hvalue, ← key.finalize_leader]
    exact hextreme
  · rw [hvalue, Scalar.getD_extreme_eq_null_iff, List.forall_mem_map]
    refine forall₂_congr fun row hrow => ?_
    rw [hshown row hrow, Option.some_inj]

/-- Nulls, a negative number, and zeros of three types, the first one negative. -/
def zeros : List Row :=
  [[.null, .text "a"], [.int32 (-5), .text "b"], [.float64 ⟨0x8000000000000000⟩, .text "c"],
    [.int64 0, .text "d"], [.float64 ⟨0⟩, .text "e"], [.null, .text "f"]]

/-- The greatest is the first zero, with its type and its sign. -/
theorem extreme_eq_first_zeros :
    ((Supply.memory zeros 2).run [operator .standard (.aggregation ⟨[⟨.max, [0]⟩], .iterFinal,
        .shard⟩)] (.unlimited "" .nil)).1 =
      .finished (.ok (.ofList [[.float64 ⟨0x8000000000000000⟩]])) ∧
    ((Supply.memory zeros 3).run [operator .standard (.orderedTopN
        ⟨some 1, 0, [.column 1, .column 0], [0], [true], [some false]⟩)] (.unlimited "" .nil)).1 =
      .finished (.ok (.ofList [[.text "c", .float64 ⟨0x8000000000000000⟩]])) := by
  have hjob := Budget.unlimited_unlimited "" .nil
  obtain ⟨row, hrow, v, hv, hextreme, hfirst, -⟩ :=
    extreme_eq_first .standard .standard .shard (rfl : (some false).getD true = false)
      (by decide : zeros ≠ []) (by decide : ∀ row ∈ zeros, 0 < row.length)
  -- what the aggregate comes to tells the value, and this tells the row
  have hfold : Aggregates.fold ⟨[⟨.max, [0]⟩], .iterFinal⟩ [.value none] zeros =
      .ok [.value (some (.float64 ⟨0x8000000000000000⟩))] := by decide
  have hrun := makes_aggregation .standard ⟨[⟨.max, [0]⟩], .iterFinal, .shard⟩ hfold
    (.memory zeros 2) _ rfl hjob
  have hsame := (hextreme _ _ rfl hjob).symm.trans hrun
  injection hsame with hsame
  injection hsame with hsame
  obtain rfl : v = .float64 ⟨0x8000000000000000⟩ :=
    List.singleton_inj.1 (List.singleton_inj.1 (congrArg Bucket.toList hsame))
  have hzero : ∀ row ∈ zeros, row[0]? = some (.float64 ⟨0x8000000000000000⟩) →
      row = [.float64 ⟨0x8000000000000000⟩, .text "c"] := by decide
  obtain rfl := hzero row hrow hv
  exact ⟨hextreme (.memory zeros 2) _ rfl hjob,
    hfirst [.column 1, .column 0] _ rfl (.memory zeros 3) _ rfl hjob⟩

end Projection

end RowStream
