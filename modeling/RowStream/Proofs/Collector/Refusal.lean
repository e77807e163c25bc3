import RowStream.Proofs.Aggregate.InPlace
import RowStream.Proofs.Collector.Groups
import RowStream.Proofs.Memory.Refusal
import RowStream.Proofs.Stream.Meaning

/-!
# Operators that fail fast

What an operator does with a row, or with the end of its source, ends with a refusal where one of its
requests was refused, and nowhere else. Expressions fail with evaluation errors of their own;
aggregates also where they meet a state of another kind, which is no refusal either.

* `Aggregates.unrefused_update` — aggregates ask for no memory, and say nothing of it.
* `Collector.failsFast_accumulate`, `Collector.failsFast_finish` — all collectors, in any state.
* `Operator.failsFast_take`, `Operator.failsFast_conclude` — all operators.
-/

namespace RowStream

theorem unrefused_ofEval {α : Type} (x : Except EvalError α) : Unrefused (OpError.ofEval x) := by
  cases x with
  | error e => exact unrefused_evaluation e
  | ok a => exact unrefused_ok a

theorem Unrefused.map {α β : Type} {r : Except OpError α} (h : Unrefused r) (f : α → β) :
    Unrefused (r.map f) := by
  cases r with
  | error e => exact h.error
  | ok a => exact unrefused_ok (f a)

/-! ## Aggregates

Aggregates account nothing, so that no error of theirs can be a refusal, whatever value or state
they meet. -/

namespace AggregateKind

@[simp] theorem unrefused_foreign (kind : AggregateKind) (state : AggState) :
    Unrefused (.error (kind.foreign state) : Except OpError AggState) :=
  unrefused_contract _

@[simp] theorem unrefused_notMergeable (kind : AggregateKind) (v : Scalar) :
    Unrefused (.error (kind.notMergeable v) : Except OpError AggState) :=
  unrefused_evaluation _

@[simp] theorem unrefused_addToSum (state : AggState) (v : Scalar) :
    Unrefused (addToSum state v) := by
  unfold addToSum
  repeat' split
  all_goals simp

@[simp] theorem unrefused_addToExtreme (kind : AggregateKind) (wanted : Ordering)
    (state : AggState) (v : Scalar) : Unrefused (kind.addToExtreme wanted state v) := by
  unfold addToExtreme
  repeat' split
  all_goals simp

@[simp] theorem unrefused_addToArbitrary (state : AggState) (v : Scalar) :
    Unrefused (addToArbitrary state v) := by
  unfold addToArbitrary
  split <;> simp

theorem unrefused_iterate (kind : AggregateKind) (state : AggState) (value : Option Scalar) :
    Unrefused (kind.iterate state value) := by
  cases kind with
  | count | countStar =>
    simp only [iterate]
    split <;> simp
  | sum => cases value <;> simp [iterate]
  | avg =>
    simp only [iterate]
    repeat' split
    all_goals simp
  | min | max | arbitrary => simp [iterate]

theorem unrefused_merge (kind : AggregateKind) (state : AggState) (v : Scalar) :
    Unrefused (kind.merge state v) := by
  cases kind with
  | count | countStar | avg =>
    simp only [merge]
    repeat' split
    all_goals simp
  | sum =>
    simp only [merge]
    split <;> simp
  | min | max | arbitrary => simp [merge]

end AggregateKind

theorem Aggregation.unrefused_absorb (a : Aggregation) (mode : AggregateMode) (row : Row)
    (state : AggState) : Unrefused (a.absorb mode row state) := by
  have hvalue : Unrefused (a.value row) := by
    unfold Aggregation.value
    split
    · simp
    · split <;> simp
  unfold Aggregation.absorb
  split
  · next e he =>
    rw [he] at hvalue
    exact hvalue.error
  · next value _ =>
    split
    · cases value with
      | none => exact unrefused_contract _
      | some v => exact a.kind.unrefused_merge state v
    · exact a.kind.unrefused_iterate state value

/-- **Aggregates ask for no memory**, so that none of their errors is a refusal. -/
theorem Aggregates.unrefused_update (s : Aggregates) (states : List AggState) (row : Row) :
    Unrefused (s.update states row).1 := by
  obtain ⟨as, mode⟩ := s
  show Unrefused (updateAll mode row as states).1
  induction as generalizing states with
  | nil => exact unrefused_ok ()
  | cons a as ih =>
    cases states with
    | nil => exact unrefused_ok ()
    | cons state states =>
      rw [updateAll_cons]
      have herror := a.unrefused_absorb mode row state
      cases habsorb : a.absorb mode row state with
      | error e =>
        rw [habsorb] at herror
        exact herror.error
      | ok next => exact ih states

/-! ## Collectors

A row is charged before it is kept. A refusal ends the call there; whatever fails later has not been
refused anything. -/

namespace Totals

theorem failsFast_accumulate (row : Row) : (accumulate row).FailsFast := fun t => by
  refine ⟨[], (t.aggregates.update t.states row).1,
    { t with states := (t.aggregates.update t.states row).2 }, .still fun b => ?_,
    t.aggregates.unrefused_update t.states row⟩
  rcases hupdate : t.aggregates.update t.states row with ⟨_ | _, states⟩ <;>
    simp [accumulate, hupdate, StepResult.of]

theorem failsFast_finish : finish.FailsFast :=
  (Metered.failsFast_read _).bind fun _ =>
    (Metered.failsFast_modifyState _).bind fun _ => Metered.failsFast_pure _

end Totals

namespace GroupTable

theorem unrefused_foldRow (s : Aggregates) (key row : Row) (groups : List GroupState) :
    Unrefused (foldRow s key row groups).1 := by
  induction groups with
  | nil => exact unrefused_ok ()
  | cons g groups ih =>
    unfold foldRow
    split
    · exact s.unrefused_update g.states row
    · exact ih

theorem failsFast_accumulate (row : Row) : (accumulate row).FailsFast := fun t => by
  cases hkey : keyOf row t.keys with
  | error e =>
    refine ⟨[], .error (.evaluation e), t, .still fun b => ?_, unrefused_evaluation e⟩
    simp [accumulate, hkey, StepResult.of]
  | ok key =>
    obtain ⟨ms, scope, htrace⟩ := follows_accumulate hkey
    exact ⟨ms, _, _, htrace, unrefused_foldRow _ key row _⟩

theorem failsFast_finish : finish.FailsFast :=
  (Metered.failsFast_read _).bind fun _ =>
    (Metered.failsFast_modifyState _).bind fun _ => Metered.failsFast_pure _

end GroupTable

namespace Collector

/-- **Taking a row fails fast**, whatever the collector has taken before. -/
theorem failsFast_accumulate (row : Row) : (accumulate row).FailsFast
  | sort s => by
    have hsort : (SortBuffer.accumulate row).FailsFastAt s :=
      ⟨_, _, _, s.follows_accumulate row, unrefused_ok ()⟩
    exact hsort.within fun _ => rfl
  | top t =>
    ((t.yields_accumulate row).failsFastAt (unrefused_ok ())).within fun _ => rfl
  | totals t => (Totals.failsFast_accumulate row t).within fun _ => rfl
  | group t => (GroupTable.failsFast_accumulate row t).within fun _ => rfl

theorem failsFast_finish : finish.FailsFast
  | sort s => (s.yields_finish.failsFastAt (unrefused_ofEval _)).within fun _ => rfl
  | top t => (t.yields_finish.failsFastAt (unrefused_ofEval _)).within fun _ => rfl
  | totals t => (Totals.failsFast_finish t).within fun _ => rfl
  | group t => (GroupTable.failsFast_finish t).within fun _ => rfl

end Collector

/-! ## Operators

One case for each operator, from those of its outputs and its collector. -/

theorem RowFilter.failsFast_take (row : Row) : (take row).FailsFast := fun f =>
  (f.yields_take row).failsFastAt (unrefused_ofEval _)

theorem RowLimit.failsFast_take (row : Row) : (take row).FailsFast := fun l => by
  obtain ⟨-, htake⟩ | ⟨k, -, htake⟩ := l.yields_take row
  · exact htake.failsFastAt ((unrefused_ofEval _).map fun _ => true)
  · exact ⟨_, _, _, htake, unrefused_ok false⟩

theorem Collection.failsFast_take (row : Row) : (take row).FailsFast :=
  (Collector.failsFast_accumulate row).zoom

theorem Collection.failsFast_finish : finish.FailsFast :=
  Collector.failsFast_finish.zoom.bind fun _ => Metered.failsFast_modifyState _

namespace Operator

/-- **What an operator does with a row fails fast.** -/
theorem failsFast_take (row : Row) : (take row).FailsFast
  | filter f => (RowFilter.failsFast_take row f).within fun _ => rfl
  | limit l => (RowLimit.failsFast_take row l).within fun _ => rfl
  | collect c => by
    have hcollect : (do
        Collection.take row
        pure false : Metered.Op Collection Bool).FailsFastAt c :=
      (Collection.failsFast_take row).bind (fun _ => Metered.failsFast_pure false) c
    refine hcollect.within fun b => ?_
    rcases htake : Collection.take row (c, b) with ⟨_, d, b'⟩ | ⟨e, d, b'⟩
    · rw [Metered.bind_of_ok htake]
      simp only [take, htake]
      rfl
    · rw [Metered.bind_of_error htake]
      simp only [take, htake]
      rfl

theorem failsFast_finish : finish.FailsFast
  | filter f => ⟨[], _, filter f, .still fun _ => rfl, unrefused_ok ()⟩
  | limit l => ⟨[], _, limit l, .still fun _ => rfl, unrefused_ok ()⟩
  | collect c => (Collection.failsFast_finish c).within fun _ => rfl

theorem failsFast_showNext : showNext.FailsFast := fun op =>
  ⟨[], _, op.next.2, .still fun _ => rfl, unrefused_ok op.next.1⟩

theorem failsFast_conclude : conclude.FailsFast :=
  failsFast_finish.bind fun _ => failsFast_showNext

end Operator

end RowStream
