import RowStream.Engine.Plan
import RowStream.Proofs.Collector.Regroup
import RowStream.Proofs.Stream.Meaning

/-!
# Arities

How many columns the rows have that come out of a plan is written in the plan. Rows of any arity may go in: the
outputs of a plan hand only those on as they are that have as many columns as there are outputs, and a row of a
group is its key, with one value for each key column, and one value for each aggregate behind it.

* `Projection.arity` — the columns that come out of a plan.
* `Operator.Fits` — an operator all of whose rows will have so many columns; `Projection.fits_operator`.
* `Operator.fits_take`, `Operator.fits_next`, `Operator.fits_conclude` — what each step of an operator keeps,
  and the arity of the row that it shows.
-/

namespace RowStream

/-- A computation that ends well came to what it yields. -/
theorem Metered.Yields.of_ok {ε σ α : Type} [OfRefusal ε] {m : Metered ε σ α} {s t : σ} {r : Except ε α}
    {post : σ → Prop} {b b' : Budget} {a : α} (hm : m.Yields s r post) (h : m (s, b) = .ok a (t, b')) :
    r = .ok a ∧ post t := by
  obtain ⟨ms, u, hu, hm⟩ := hm
  cases hreplay : b.replay ms with
  | ok v c =>
    rw [hm.granted hreplay] at h
    cases r with
    | error e => cases h
    | ok a' =>
      cases h
      exact ⟨rfl, hu⟩
  | error e c =>
    obtain ⟨v, hv⟩ := hm.refused hreplay
    rw [hv] at h
    cases h

/-- How many columns the rows have that come out of a plan. -/
def Projection.arity : Projection → Nat
  | filter p => p.outputs.length
  | topN p => p.outputs.length
  | orderedTopN p => p.outputs.length
  | aggregation p => p.aggregations.length
  | group p => p.keys.length + p.aggregations.length

/-! ## Outputs

A list of outputs has one value for each expression, if it has any: the first that fails leaves no
row at all. -/

theorem OpError.eq_ok_of_ofEval {α : Type} {x : Except EvalError α} {a : α} (h : ofEval x = .ok a) :
    x = .ok a := by
  cases x with
  | error e => cases h
  | ok b =>
    cases h
    rfl

/-- Evaluations one after the other end well only if each of them does. -/
theorem Except.exists_of_bind_eq_ok {ε α β : Type} {x : Except ε α} {f : α → Except ε β} {b : β}
    (h : x >>= f = .ok b) : ∃ a, x = .ok a ∧ f a = .ok b := by
  cases x with
  | error e => cases h
  | ok a => exact ⟨a, rfl, h⟩

namespace Expr

theorem length_of_values {row out : Row} {es : List Expr} (h : values row es = .ok out) :
    out.length = es.length := by
  induction es generalizing out with
  | nil =>
    cases h
    rfl
  | cons e es ih =>
    rw [values] at h
    obtain ⟨v, -, h⟩ := Except.exists_of_bind_eq_ok h
    obtain ⟨vs, hvs, h⟩ := Except.exists_of_bind_eq_ok h
    cases h
    rw [List.length_cons, List.length_cons, ih hvs]

theorem length_of_mem_valuesAll {outputs : List Expr} {rows out : List Row}
    (h : valuesAll outputs rows = .ok out) : ∀ row ∈ out, row.length = outputs.length := by
  induction rows generalizing out with
  | nil =>
    cases h
    nofun
  | cons row rows ih =>
    rw [valuesAll] at h
    obtain ⟨first, hfirst, h⟩ := Except.exists_of_bind_eq_ok h
    obtain ⟨rest, hrest, h⟩ := Except.exists_of_bind_eq_ok h
    cases h
    exact List.forall_mem_cons.2 ⟨length_of_values hfirst, ih hrest⟩

theorem length_of_valuesIf {predicate : Expr} {outputs : List Expr} {row out : Row}
    (h : valuesIf predicate outputs row = .ok (some out)) : out.length = outputs.length := by
  unfold valuesIf at h
  obtain ⟨passes, -, h⟩ := Except.exists_of_bind_eq_ok h
  split at h
  · obtain ⟨vs, hvs, h⟩ := Except.exists_of_bind_eq_ok h
    cases h
    exact length_of_values hvs
  · cases h

end Expr

/-! ## Aggregates

An update goes through aggregates and states side by side and changes the number of neither. -/

namespace Aggregates

theorem length_init (s : Aggregates) : s.init.length = s.size := by
  rw [init, List.length_map, size]

theorem length_updateAll (mode : AggregateMode) (row : Row) (as : List Aggregation) (states : List AggState) :
    (updateAll mode row as states).2.length = states.length := by
  induction as generalizing states with
  | nil => rw [updateAll.eq_def]
  | cons a as ih =>
    cases states with
    | nil => rfl
    | cons state states =>
      rw [updateAll]
      cases a.absorbInPlace mode row state with
      | error e failed => rfl
      | ok u next => exact congrArg (· + 1) (ih states)

theorem length_update (s : Aggregates) (states : List AggState) (row : Row) :
    (s.update states row).2.length = states.length :=
  length_updateAll s.mode row s.aggregations states

theorem length_emit {s : Aggregates} {states : List AggState} (h : states.length = s.size) :
    (s.emit states).length = s.size := by
  rw [emit, List.length_zipWith, h, size, Nat.min_self]

end Aggregates

/-! ## Collectors

The invariant of each collector, through a row and through the end. Collectors that order rows need
none, since their rows go through the outputs when they come out. -/

namespace Totals

/-- There is a state for each aggregate. -/
def Fits (t : Totals) (arity : Nat) : Prop := t.aggregates.size = arity ∧ t.states.length = t.aggregates.size

theorem fits_accumulate {row : Row} {t u : Totals} {arity : Nat} {b b' : Budget} (h : t.Fits arity)
    (hrow : accumulate row (t, b) = .ok () (u, b')) : u.Fits arity := by
  have hlength := t.aggregates.length_update t.states row
  unfold accumulate at hrow
  rcases hupdate : t.aggregates.update t.states row with ⟨e | _, states⟩ <;>
    rw [hupdate] at hlength <;> simp only [hupdate] at hrow <;> cases hrow
  exact ⟨h.1, hlength.trans h.2⟩

theorem fits_finish {rows : List Row} {t u : Totals} {arity : Nat} {b b' : Budget} (h : t.Fits arity)
    (hfinish : finish (t, b) = .ok rows (u, b')) :
    u.Fits arity ∧ ∀ row ∈ rows, row.length = arity := by
  cases hfinish
  refine ⟨⟨h.1, t.aggregates.length_init⟩, fun row hrow => ?_⟩
  rw [List.mem_singleton.1 hrow]
  exact (Aggregates.length_emit h.2).trans h.1

end Totals

namespace GroupTable

/-- A key has a value for each key column, and a group a state for each aggregate. -/
def Fits (t : GroupTable) (arity : Nat) : Prop :=
  t.keys.length + t.aggregates.size = arity ∧
    ∀ g ∈ t.groups, g.key.length = t.keys.length ∧ g.states.length = t.aggregates.size

theorem fits_accumulate {row : Row} {t u : GroupTable} {arity : Nat} {b b' : Budget} (h : t.Fits arity)
    (hrow : accumulate row (t, b) = .ok () (u, b')) : u.Fits arity := by
  cases hkey : keyOf row t.keys with
  | error e =>
    simp only [accumulate, hkey] at hrow
    cases hrow
  | ok key =>
    -- the group of the row is opened if there is none yet, and then takes the row in
    obtain ⟨ms, scope, hfollows⟩ := follows_accumulate hkey
    obtain ⟨-, rfl⟩ := (hfollows.yields rfl).of_ok hrow
    have hopened := forall_opened key h.2 ⟨length_of_keyOf hkey, t.aggregates.length_init⟩
    have hgroups := forall_foldRow hopened (fun g hg => ⟨hg.1,
      (t.aggregates.length_update g.states row).trans hg.2⟩) key
    rw [← groups_taken t key row scope] at hgroups
    exact ⟨h.1, hgroups⟩

theorem fits_finish {rows : List Row} {t u : GroupTable} {arity : Nat} {b b' : Budget} (h : t.Fits arity)
    (hfinish : finish (t, b) = .ok rows (u, b')) :
    u.Fits arity ∧ ∀ row ∈ rows, row.length = arity := by
  cases hfinish
  refine ⟨⟨h.1, nofun⟩, fun row hrow => ?_⟩
  obtain ⟨g, hg, rfl⟩ := List.mem_map.1 hrow
  obtain ⟨hkey, hstates⟩ := h.2 g hg
  rw [emit, List.length_append, hkey, Aggregates.length_emit hstates, h.1]

end GroupTable

namespace Collector

/-- All rows that a collector hands out will have so many columns. -/
def Fits (arity : Nat) : Collector → Prop
  | sort s => s.outputs.exprs.length = arity
  | top t => t.outputs.exprs.length = arity
  | totals t => t.Fits arity
  | group t => t.Fits arity

theorem fits_accumulate {row : Row} {c d : Collector} {arity : Nat} {b b' : Budget} (h : c.Fits arity)
    (hrow : accumulate row (c, b) = .ok () (d, b')) : d.Fits arity := by
  cases c with
  | sort s =>
    obtain ⟨t, ht, rfl⟩ := StepResult.within_eq_ok hrow
    obtain ⟨-, rfl⟩ := ((s.follows_accumulate row).yields rfl).of_ok ht
    exact h
  | top t =>
    obtain ⟨u, hu, rfl⟩ := StepResult.within_eq_ok hrow
    obtain ⟨-, scope, rfl⟩ := (t.yields_accumulate row).of_ok hu
    exact h
  | totals t =>
    obtain ⟨u, hu, rfl⟩ := StepResult.within_eq_ok hrow
    exact Totals.fits_accumulate h hu
  | group t =>
    obtain ⟨u, hu, rfl⟩ := StepResult.within_eq_ok hrow
    exact GroupTable.fits_accumulate h hu

theorem fits_finish {rows : List Row} {c d : Collector} {arity : Nat} {b b' : Budget} (h : c.Fits arity)
    (hfinish : finish (c, b) = .ok rows (d, b')) :
    d.Fits arity ∧ ∀ row ∈ rows, row.length = arity := by
  cases c with
  -- the buffers hand out their outputs over the rows that they hold
  | sort s =>
    obtain ⟨t, ht, rfl⟩ := StepResult.within_eq_ok hfinish
    obtain ⟨hrows, hexprs⟩ := s.yields_finish.of_ok ht
    refine ⟨(congrArg List.length hexprs).trans h, fun row hrow => ?_⟩
    exact (Expr.length_of_mem_valuesAll (OpError.eq_ok_of_ofEval hrows) row hrow).trans h
  | top t =>
    obtain ⟨u, hu, rfl⟩ := StepResult.within_eq_ok hfinish
    obtain ⟨hrows, hexprs⟩ := t.yields_finish.of_ok hu
    refine ⟨(congrArg List.length hexprs).trans h, fun row hrow => ?_⟩
    exact (Expr.length_of_mem_valuesAll (OpError.eq_ok_of_ofEval hrows) row hrow).trans h
  -- an aggregation writes its row itself, one column for each key and each aggregate
  | totals t =>
    obtain ⟨u, hu, rfl⟩ : ∃ u, Totals.finish (t, b) = .ok rows (u, b') ∧ d = totals u :=
      StepResult.within_eq_ok hfinish
    exact Totals.fits_finish h hu
  | group t =>
    obtain ⟨u, hu, rfl⟩ : ∃ u, GroupTable.finish (t, b) = .ok rows (u, b') ∧ d = group u :=
      StepResult.within_eq_ok hfinish
    exact GroupTable.fits_finish h hu

end Collector

/-! ## Operators

The invariant of an operator is about the rows that it will still show: those that are left over,
and those that its outputs or its collector will make. -/

/-- A row that passes is handed on as it is only if it has the right arity. -/
theorem RowFilter.fits_take {row : Row} {f g : RowFilter} {arity : Nat} {b b' : Budget} {shown : Bool}
    (h : f.outputs.exprs.length = arity) (htake : take row (f, b) = .ok shown (g, b')) :
    g.outputs.exprs.length = arity ∧ (shown = true → (g.outputs.current row).length = arity) := by
  obtain ⟨hshown, -, hexprs, hcurrent⟩ := (f.yields_take row).of_ok htake
  refine ⟨(congrArg List.length hexprs).trans h, ?_⟩
  rintro rfl
  have hpasses := OpError.eq_ok_of_ofEval hshown
  cases hvalues : Expr.valuesIf f.predicate f.outputs.exprs row with
  | error e =>
    rw [hvalues] at hpasses
    cases hpasses
  | ok result =>
    cases result with
    | none =>
      rw [hvalues] at hpasses
      cases hpasses
    | some out => rw [hcurrent out hvalues, Expr.length_of_valuesIf hvalues, h]

/-- So is a row behind those that are skipped. -/
theorem RowLimit.fits_take {row : Row} {l m : RowLimit} {arity : Nat} {b b' : Budget} {shown : Bool}
    (h : l.outputs.exprs.length = arity) (htake : take row (l, b) = .ok shown (m, b')) :
    m.outputs.exprs.length = arity ∧ (shown = true → (m.outputs.current row).length = arity) := by
  obtain ⟨-, htaken⟩ | ⟨k, -, hskipped⟩ := l.yields_take row
  · obtain ⟨hshown, -, -, hexprs, hcurrent⟩ := htaken.of_ok htake
    refine ⟨(congrArg List.length hexprs).trans h, fun _ => ?_⟩
    cases hvalues : Expr.values row l.outputs.exprs with
    | error e =>
      rw [hvalues] at hshown
      cases hshown
    | ok out => rw [hcurrent out hvalues, Expr.length_of_values hvalues, h]
  · obtain ⟨hshown, rfl⟩ := (hskipped.yields rfl).of_ok htake
    refine ⟨h, ?_⟩
    rintro rfl
    cases hshown

namespace Operator

/-- All rows that an operator shows will have so many columns. -/
def Fits (arity : Nat) : Operator → Prop
  | filter f => f.outputs.exprs.length = arity
  | limit l => l.outputs.exprs.length = arity
  | collect c => c.collector.Fits arity ∧ ∀ row ∈ c.results, row.length = arity

/-- **A row is taken**, of any arity, and what is shown for it has the right one. -/
theorem fits_take {row : Row} {op op' : Operator} {arity : Nat} {b b' : Budget} {shown : Bool}
    (h : op.Fits arity) (htake : take row (op, b) = .ok shown (op', b')) :
    op'.Fits arity ∧ (shown = true → (op'.current row).length = arity) := by
  cases op with
  | filter f =>
    obtain ⟨g, hg, rfl⟩ := StepResult.within_eq_ok htake
    exact RowFilter.fits_take h hg
  | limit l =>
    obtain ⟨m, hm, rfl⟩ := StepResult.within_eq_ok htake
    exact RowLimit.fits_take h hm
  | collect c =>
    -- a collector takes all rows before it shows one
    rcases hcollected : Collection.take row (c, b) with ⟨⟨⟩, d, b₁⟩ | _
    · obtain ⟨rfl, rfl, -⟩ : false = shown ∧ collect d = op' ∧ b₁ = b' := by
        simpa [take, hcollected] using htake
      obtain ⟨collector, hcollector, hd⟩ := Metered.zoom_eq_ok.1 hcollected
      cases hd
      exact ⟨⟨Collector.fits_accumulate h.1 hcollector, h.2⟩, fun hshown => absurd hshown Bool.false_ne_true⟩
    · simp [take, hcollected] at htake

/-- A row that is left over. -/
theorem fits_next {op : Operator} {arity : Nat} (h : op.Fits arity) (row : Row) :
    op.next.2.Fits arity ∧ (op.next.1 = true → (op.next.2.current row).length = arity) := by
  cases op with
  | filter f => exact ⟨h, nofun⟩
  | limit l => exact ⟨h, nofun⟩
  | collect c =>
    obtain ⟨collector, finished, results, current⟩ := c
    cases results with
    | nil => exact ⟨h, nofun⟩
    | cons first rest =>
      obtain ⟨hfirst, hrest⟩ := List.forall_mem_cons.1 h.2
      exact ⟨⟨h.1, hrest⟩, fun _ => hfirst⟩

theorem fits_finish {op op' : Operator} {arity : Nat} {b b' : Budget} (h : op.Fits arity)
    (hfinish : finish (op, b) = .ok () (op', b')) : op'.Fits arity := by
  cases op with
  | filter f =>
    cases hfinish
    exact h
  | limit l =>
    cases hfinish
    exact h
  | collect c =>
    obtain ⟨d, hd, rfl⟩ := StepResult.within_eq_ok hfinish
    obtain ⟨rows, r, hrows, hd⟩ := Metered.bind_eq_ok.1 hd
    obtain ⟨collector, hcollector, hr⟩ := Metered.zoom_eq_ok.1 hrows
    cases Metered.modifyState_eq_ok.1 hd
    obtain ⟨hfits, hall⟩ := Collector.fits_finish h.1 hcollector
    rw [hr]
    exact ⟨hfits, hall⟩

/-- The first row that is left over when the source is exhausted. -/
theorem fits_conclude {op op' : Operator} {arity : Nat} {b b' : Budget} {shown : Bool} (h : op.Fits arity)
    (hconclude : conclude (op, b) = .ok shown (op', b')) (row : Row) :
    op'.Fits arity ∧ (shown = true → (op'.current row).length = arity) := by
  obtain ⟨⟨⟩, ⟨mid, b₁⟩, hfinish, hnext⟩ := Metered.bind_eq_ok.1 hconclude
  cases hnext
  exact fits_next (fits_finish h hfinish) row

end Operator

/-- **The operator of a plan** fits the plan. -/
theorem Projection.fits_operator (p : Projection) (footprint : Footprint) :
    (p.operator footprint).Fits p.arity := by
  cases p with
  | filter p => rfl
  | topN p => rfl
  | orderedTopN p =>
    obtain ⟨limit, offset, outputs, orderBy, descending, nullsFirst⟩ := p
    cases limit <;> exact ⟨rfl, nofun⟩
  | aggregation p => exact ⟨⟨rfl, Aggregates.length_init _⟩, nofun⟩
  | group p => exact ⟨⟨rfl, nofun⟩, nofun⟩

end RowStream
