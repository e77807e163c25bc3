import RowStream.Proofs.Collector.Conduct
import RowStream.Proofs.Engine.Merging
import RowStream.Proofs.Engine.Ordered

/-!
# Columns beyond the rows

Plans name columns by position, and positions are looked at only where they are used. Keys of groups and
inputs of aggregates report a column that a row does not have. Sorts do not: to them such a column is
null in every row, so it decides nothing, and the plan sorts as if it was not there.

* `GroupTable.keyOf_outOfBounds`, `Aggregates.update_outOfBounds` — a row that lacks a column.
* `RowOrder.order_within` — row orders without the columns beyond the rows.
* `RowOrder.keepAll_congr`, `Flow.result_collect_sort_congr` — collectors that compare rows alike come to
  the same, whether or not the order is one.
* `Supply.run_outOfBounds` — what the three kinds of plans come to.
-/

namespace RowStream

/-! ## Keys and inputs

The first column that a row lacks is the error of the row, whatever was folded in before. -/

theorem GroupTable.keyOf_outOfBounds (row : Row) {keys : List Nat} {i : Nat} (hi : i ∈ keys)
    (hlt : row.length ≤ i) : ∃ cause, keyOf row keys = .error cause := by
  induction keys with
  | nil => cases hi
  | cons k ks ih =>
    rw [keyOf]
    cases hcell : row[k]? with
    | none => exact ⟨_, rfl⟩
    | some v =>
      obtain rfl | hi := List.mem_cons.1 hi
      · rw [List.getElem?_eq_none hlt] at hcell
        cases hcell
      · obtain ⟨cause, hrest⟩ := ih hi
        exact ⟨cause, by simp only [hrest]⟩

/-- An aggregate does not take a row without its input column. -/
theorem Aggregation.absorb_outOfBounds {a : Aggregation} {row : Row} {i : Nat}
    (hi : a.input? = some i) (hlt : row.length ≤ i) (mode : AggregateMode) (state : AggState) :
    ∃ e, a.absorb mode row state = .error e := by
  unfold absorb value
  simp only [hi, List.getElem?_eq_none hlt]
  exact ⟨_, rfl⟩

/-- Side by side with others it fails too, if not one of them fails before. -/
theorem Aggregates.update_outOfBounds {s : Aggregates} {states : List AggState}
    (hstates : s.Owns states) {a : Aggregation} (ha : a ∈ s.aggregations) (row : Row) {i : Nat}
    (hi : a.input? = some i) (hlt : row.length ≤ i) : ∃ e, (s.update states row).1 = .error e := by
  obtain ⟨as, mode⟩ := s
  replace hstates : List.Forall₂ _ as states := hstates
  show ∃ e, (updateAll mode row as states).1 = .error e
  induction hstates with
  | nil => cases ha
  | @cons a' state as states _ _ ih =>
    rw [updateAll_cons]
    cases habsorb : a'.absorb mode row state with
    | error e => exact ⟨e, rfl⟩
    | ok next =>
      obtain rfl | ha := List.mem_cons.1 ha
      · obtain ⟨e, herror⟩ := Aggregation.absorb_outOfBounds hi hlt mode state
        rw [herror] at habsorb
        cases habsorb
      · exact ih ha

/-! ## Row orders

Reading a missing column as null makes two rows equal in it, if both lack it. So rows of one arity
compare by the keys that they have. -/

namespace RowOrder

/-- The sort keys whose columns rows of an arity have. -/
def within (order : RowOrder) (arity : Nat) : RowOrder := order.filter (·.column < arity)

/-- A key whose column neither row has does not tell them apart. -/
theorem order_outOfBounds {key : SortKey} {a b : Row} (ha : a.length ≤ key.column)
    (hb : b.length ≤ key.column) : key.order a b = .eq := by
  unfold SortKey.order SortKey.value
  rw [List.getElem?_eq_none ha, List.getElem?_eq_none hb]
  rfl

/-- **Columns beyond the rows decide nothing.** -/
theorem order_within (order : RowOrder) {arity : Nat} {a b : Row} (ha : a.length = arity)
    (hb : b.length = arity) : (order.within arity).order a b = order.order a b := by
  induction order with
  | nil => rfl
  | cons key keys ih =>
    unfold within at ih ⊢
    rw [List.filter_cons]
    by_cases hlt : key.column < arity
    · simp only [hlt, decide_true, if_true, RowOrder.order, ih]
    · have heq : key.order a b = .eq := order_outOfBounds (by omega) (by omega)
      simp only [hlt, decide_false, Bool.false_eq_true, if_false, RowOrder.order, heq, ih]
      rfl

/-- Two orders compare some rows alike. -/
def AgreeOn (order order' : RowOrder) (rows : List Row) : Prop :=
  ∀ a ∈ rows, ∀ b ∈ rows, order.order a b = order'.order a b

theorem AgreeOn.mergeSort_eq {order order' : RowOrder} {rows : List Row}
    (h : order.AgreeOn order' rows) : rows.mergeSort order.le = rows.mergeSort order'.le := by
  have hmap := List.map_mergeSort (r := order.le) (s := order'.le) (f := id) (l := rows)
    fun a ha b hb => by simp only [le, id, h a ha b hb]
  rwa [List.map_id, List.map_id] at hmap

/-! ## Collectors that sort

A collector looks at rows through its order alone. Orders that agree on the rows that come make it
keep the same rows, in the same places. -/

variable {order order' : RowOrder} {all : List Row}

theorem insertRow_congr (h : order.AgreeOn order' all) {row : Row} (hrow : row ∈ all)
    {rows : List Row} (hrows : ∀ a ∈ rows, a ∈ all) :
    insertRow order row rows = insertRow order' row rows := by
  induction rows with
  | nil => rfl
  | cons worst rest ih =>
    obtain ⟨hworst, hrest⟩ := List.forall_mem_cons.1 hrows
    rw [insertRow, insertRow, h worst hworst row hrow, ih hrest]

theorem keep_congr (h : order.AgreeOn order' all) (capacity : Nat) {row : Row} (hrow : row ∈ all)
    {kept : List Row} (hkept : ∀ a ∈ kept, a ∈ all) :
    keep order capacity kept row = keep order' capacity kept row := by
  unfold keep
  rw [insertRow_congr h hrow hkept]
  cases kept with
  | nil => rfl
  | cons worst rest =>
    obtain ⟨hworst, hrest⟩ := List.forall_mem_cons.1 hkept
    simp only [h worst hworst row hrow, insertRow_congr h hrow hrest]

theorem mem_of_mem_keep {capacity : Nat} {kept : List Row} {row a : Row}
    (ha : a ∈ keep order capacity kept row) : a = row ∨ a ∈ kept := by
  unfold keep at ha
  split at ha
  · exact List.mem_cons.1 ((insertRow_perm row kept).mem_iff.1 ha)
  · cases kept with
    | nil => cases ha
    | cons worst rest =>
      simp only at ha
      split at ha
      · obtain ha | ha := List.mem_cons.1 ((insertRow_perm row rest).mem_iff.1 ha)
        · exact .inl ha
        · exact .inr (List.mem_cons_of_mem _ ha)
      · exact .inr ha

/-- **Rows that are compared alike are kept alike.** -/
theorem keepAll_congr (h : order.AgreeOn order' all) (capacity : Nat) {rows : List Row}
    (hrows : ∀ a ∈ rows, a ∈ all) {kept : List Row} (hkept : ∀ a ∈ kept, a ∈ all) :
    keepAll order capacity kept rows = keepAll order' capacity kept rows := by
  induction rows generalizing kept with
  | nil => rfl
  | cons row rows ih =>
    obtain ⟨hrow, hrest⟩ := List.forall_mem_cons.1 hrows
    rw [keepAll_cons, keepAll_cons, ← keep_congr h capacity hrow hkept]
    refine ih hrest fun a ha => ?_
    obtain rfl | ha := mem_of_mem_keep ha
    · exact hrow
    · exact hkept a ha

end RowOrder

namespace Flow

variable {order order' : RowOrder} {rows : List Row} {outputs : List Expr} {footprint : Footprint}

/-- With a limit. -/
theorem result_collect_top_congr (h : order.AgreeOn order' rows) (limit offset : Nat) :
    (collect (.top (.new order' limit offset outputs footprint)) ⟨rows, none⟩).result =
      (collect (.top (.new order limit offset outputs footprint)) ⟨rows, none⟩).result := by
  have hfresh : ∀ order, (TopBuffer.new order limit offset outputs footprint).Fresh :=
    fun _ _ he => nomatch he
  obtain ⟨u, htake, hexprs, hleading⟩ := Collector.exists_takeAll_top (hfresh order) rows
  obtain ⟨u', htake', hexprs', hleading'⟩ := Collector.exists_takeAll_top (hfresh order') rows
  have hkept : RowOrder.keepAll order (addSizes limit offset) [] rows =
      RowOrder.keepAll order' (addSizes limit offset) [] rows :=
    RowOrder.keepAll_congr h _ (fun _ ha => ha) fun _ ha => nomatch ha
  have hrows : u'.leading = u.leading := by
    rw [hleading, hleading']
    exact congrArg (fun kept => (kept.reverse.drop offset).take limit) hkept.symm
  rw [result_collect htake, result_collect htake', Collector.free_finish_top,
    Collector.free_finish_top, hrows, hexprs, hexprs']
  rfl

/-- Without a limit. -/
theorem result_collect_sort_congr (h : order.AgreeOn order' rows) (offset : Nat) :
    (collect (.sort (.new order' offset outputs footprint)) ⟨rows, none⟩).result =
      (collect (.sort (.new order offset outputs footprint)) ⟨rows, none⟩).result := by
  obtain ⟨scope, bucket, htake, hbucket⟩ :=
    Collector.takeAll_sort (.new order offset outputs footprint) rows
  obtain ⟨scope', bucket', htake', hbucket'⟩ :=
    Collector.takeAll_sort (.new order' offset outputs footprint) rows
  rw [result_collect htake, result_collect htake', Collector.free_finish_sort,
    Collector.free_finish_sort]
  have hrows : bucket.toList = rows := hbucket
  have hrows' : bucket'.toList = rows := hbucket'
  simp only [SortBuffer.sorted, hrows, hrows']
  rw [show (SortBuffer.new order offset outputs footprint).order = order from rfl,
    show (SortBuffer.new order' offset outputs footprint).order = order' from rfl, h.mergeSort_eq]
  rfl

end Flow

/-! ## Plans over a supply

From collectors to whole runs, for the three plans that name columns by position. -/

/-- The plan without the order columns that rows of an arity do not have. -/
def OrderedTopNPlan.within (p : OrderedTopNPlan) (arity : Nat) : OrderedTopNPlan :=
  let keys := ((p.orderBy.zip p.descending).zip p.nullsFirst).filter (·.1.1 < arity)
  { p with
    orderBy := keys.map (·.1.1)
    descending := keys.map (·.1.2)
    nullsFirst := keys.map (·.2) }

theorem OrderedTopNPlan.order_within (p : OrderedTopNPlan) (arity : Nat) :
    (p.within arity).order = p.order.within arity := by
  have hzip : ∀ keys : List ((Nat × Bool) × Option Bool),
      ((keys.map (·.1.1)).zip (keys.map (·.1.2))).zip (keys.map (·.2)) = keys := by
    intro keys
    induction keys with
    | nil => rfl
    | cons key keys ih => simp [ih]
  unfold within order RowOrder.within RowOrder.ofColumns
  rw [hzip, List.filter_map]
  rfl

/-- The aggregates of a group plan without fault are those of an aggregation without fault. -/
theorem GroupPlan.valid_of_check (p : GroupPlan) (h : (Projection.group p).check = .ok ()) :
    p.aggregates.Valid := by
  simp only [Projection.check] at h
  split at h
  · cases h
  · exact h

namespace Supply

variable {supply : Supply} {rows : List Row} {b : Budget}

/-- An aggregation cannot fold the first row in. -/
theorem run_aggregation_outOfBounds (footprint : Footprint) (p : AggregationPlan) {row : Row}
    (hplan : (Projection.aggregation p).validate = .ok ()) (hflow : supply.flow = ⟨row :: rows, none⟩)
    (hb : b.Unlimited) {a : Aggregation} (ha : a ∈ p.aggregations) {i : Nat} (hi : i ∈ a.input?)
    (hlt : row.length ≤ i) :
    ∃ e, (supply.run [(Projection.aggregation p).operator footprint] b).1 = .finished (.error e) ∧
      e.IsEvaluation := by
  have hvalid : p.aggregates.Valid := Projection.check_of_validate hplan
  have howns := Aggregates.owns_init p.aggregates
  obtain ⟨e, herror⟩ := Aggregates.update_outOfBounds howns ha row hi hlt
  have hfold : p.aggregates.fold p.aggregates.init (row :: rows) = .error e := by
    rcases hupdate : p.aggregates.update p.aggregates.init row with ⟨r, states⟩
    rw [hupdate] at herror
    cases herror
    rw [Aggregates.fold, hupdate]
  refine ⟨e, ?_, (Aggregates.update_spec hvalid howns row).2 e herror⟩
  rw [run_aggregation footprint p hflow hb, hfold]
  rfl

/-- Grouping finds no key in the first row, or cannot fold that into a new group. -/
theorem run_group_outOfBounds (footprint : Footprint) (p : GroupPlan) {row : Row}
    (hplan : (Projection.group p).validate = .ok ()) (hflow : supply.flow = ⟨row :: rows, none⟩)
    (hb : b.Unlimited) (hbeyond : (∃ i ∈ p.keys, row.length ≤ i) ∨
      ∃ a ∈ p.aggregations, ∃ i ∈ a.input?, row.length ≤ i) :
    ∃ e, (supply.run [(Projection.group p).operator footprint] b).1 = .finished (.error e) ∧
      e.IsEvaluation := by
  have hvalid : p.aggregates.Valid := p.valid_of_check (Projection.check_of_validate hplan)
  have howns := Aggregates.owns_init p.aggregates
  obtain ⟨e, hfailure, he⟩ : ∃ e,
      GroupTable.failure? p.keys p.aggregates [] row = some e ∧ e.IsEvaluation := by
    unfold GroupTable.failure?
    -- a missing key fails when the key is read, a missing input when the aggregates are updated
    cases hkey : GroupTable.keyOf row p.keys with
    | error cause => exact ⟨_, rfl, cause, rfl⟩
    | ok key =>
      obtain ⟨i, hi, hlt⟩ | ⟨a, ha, i, hi, hlt⟩ := hbeyond
      · obtain ⟨cause, hnone⟩ := GroupTable.keyOf_outOfBounds row hi hlt
        rw [hnone] at hkey
        cases hkey
      · obtain ⟨e, herror⟩ := Aggregates.update_outOfBounds howns ha row hi hlt
        refine ⟨e, ?_, (Aggregates.update_spec hvalid howns row).2 e herror⟩
        have hnew : p.aggregates.fold p.aggregates.init (GroupTable.part p.keys key []) =
            .ok p.aggregates.init := rfl
        simp only [hnew, herror]
  have hfirst : GroupTable.firstFailure p.keys p.aggregates [] (row :: rows) = some e := by
    rw [GroupTable.firstFailure, hfailure, Option.some_or]
  refine ⟨e, ?_, he⟩
  rw [run_group footprint p hflow hb, Flow.collect_group_of_failure footprint hfirst]
  rfl

/-- An ordered top-N compares rows of one arity as it does without the columns beyond them. -/
theorem run_orderedTopN_within (footprint : Footprint) (p : OrderedTopNPlan) {arity : Nat}
    (hflow : supply.flow = ⟨rows, none⟩) (hb : b.Unlimited)
    (harity : ∀ row ∈ rows, row.length = arity) :
    (supply.run [(Projection.orderedTopN p).operator footprint] b).1 =
      (supply.run [(Projection.orderedTopN (p.within arity)).operator footprint] b).1 := by
  have hagree : p.order.AgreeOn (p.within arity).order rows := by
    intro x hx y hy
    rw [p.order_within, RowOrder.order_within p.order (harity x hx) (harity y hy)]
  rw [run_orderedTopN footprint p hflow hb, run_orderedTopN footprint (p.within arity) hflow hb]
  unfold OrderedTopNPlan.collector
  cases hlimit : p.limit with
  | none =>
    rw [show (p.within arity).limit = none from hlimit]
    exact congrArg _ (Flow.result_collect_sort_congr hagree p.offset).symm
  | some limit =>
    rw [show (p.within arity).limit = some limit from hlimit]
    exact congrArg _ (Flow.result_collect_top_congr hagree limit p.offset).symm

/-- **Columns beyond the rows.** Over rows of one arity, aggregation and grouping fail with an error about
a value, if an aggregate or a key is about a column that the rows do not have. An ordered top-N does not:
it comes to what the plan without these columns comes to. -/
theorem run_outOfBounds (footprint : Footprint) {arity : Nat} (hflow : supply.flow = ⟨rows, none⟩)
    (hne : rows ≠ []) (harity : ∀ row ∈ rows, row.length = arity) (hb : b.Unlimited) :
    let outcome (p : Projection) := (supply.run [p.operator footprint] b).1
    let fails (p : Projection) := ∃ e, outcome p = .finished (.error e) ∧ e.IsEvaluation
    (∀ p : AggregationPlan, (Projection.aggregation p).validate = .ok () →
      (∃ a ∈ p.aggregations, ∃ i ∈ a.input?, arity ≤ i) → fails (.aggregation p)) ∧
    (∀ p : GroupPlan, (Projection.group p).validate = .ok () →
      ((∃ i ∈ p.keys, arity ≤ i) ∨ ∃ a ∈ p.aggregations, ∃ i ∈ a.input?, arity ≤ i) →
        fails (.group p)) ∧
    ∀ p : OrderedTopNPlan,
      outcome (.orderedTopN p) = outcome (.orderedTopN (p.within arity)) := by
  intro outcome fails
  obtain ⟨row, rest, rfl⟩ := List.exists_cons_of_ne_nil hne
  obtain rfl : row.length = arity := harity row List.mem_cons_self
  exact ⟨fun p hplan ⟨_, ha, _, hi, hlt⟩ =>
      run_aggregation_outOfBounds footprint p hplan hflow hb ha hi hlt,
    fun p hplan hbeyond => run_group_outOfBounds footprint p hplan hflow hb hbeyond,
    fun p => run_orderedTopN_within footprint p hflow hb harity⟩

/-- Two rows of one column, the greater one first. -/
def descending : Supply := .memory [[.int64 2], [.int64 1]] 1

/-- A group whose key is beyond the rows, and a sort that is by nothing but a column beyond them. -/
theorem run_outOfBounds_descending :
    (∃ e, (descending.run [Projection.operator .standard (.group ⟨[5], [⟨.count, [0]⟩], .iterFinal,
        .shard⟩)] (.unlimited "" .nil)).1 = .finished (.error e) ∧ e.IsEvaluation) ∧
      (descending.run [Projection.operator .standard (.orderedTopN
        ⟨none, 0, [.column 0], [5], [false], [none]⟩)] (.unlimited "" .nil)).1 =
      (descending.run [Projection.operator .standard (.orderedTopN
        ⟨none, 0, [.column 0], [], [], []⟩)] (.unlimited "" .nil)).1 := by
  have hflow : descending.flow = ⟨[[.int64 2], [.int64 1]], none⟩ := rfl
  have harity : ∀ row ∈ ([[.int64 2], [.int64 1]] : List Row), row.length = 1 := by decide
  obtain ⟨-, hgroup, hordered⟩ := run_outOfBounds .standard hflow (by decide) harity
    (Budget.unlimited_unlimited "" .nil)
  exact ⟨hgroup ⟨[5], [⟨.count, [0]⟩], .iterFinal, .shard⟩ rfl (.inl ⟨5, by decide, by decide⟩),
    hordered ⟨none, 0, [.column 0], [5], [false], [none]⟩⟩

/-- **A sort by a column beyond the rows does not fail**: its plan has no fault, and all rows come out as
they came. -/
theorem ordered_outOfBounds_finishes :
    let plan : OrderedTopNPlan := ⟨none, 0, [.column 0], [5], [false], [none]⟩
    (Projection.orderedTopN plan).validate = .ok () ∧
      (descending.run [Projection.operator .standard (.orderedTopN plan)] (.unlimited "" .nil)).1 =
        .finished (.ok (.ofList [[.int64 2], [.int64 1]])) := by
  intro plan
  have hflow : descending.flow = ⟨[[.int64 2], [.int64 1]], none⟩ := rfl
  have horder : plan.order.TotalOn [[.int64 2], [.int64 1]] := ⟨by decide, by decide⟩
  have hsorted : plan.order.SortsStably [[.int64 2], [.int64 1]] [[.int64 2], [.int64 1]] :=
    ⟨.refl _, by decide, fun _ _ => rfl⟩
  refine ⟨rfl, ?_⟩
  rw [run_orderedTopN .standard plan hflow (Budget.unlimited_unlimited "" .nil)]
  exact congrArg _ (Flow.result_collect_sort horder hsorted)

end Supply

end RowStream
