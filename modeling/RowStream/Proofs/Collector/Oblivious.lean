import RowStream.Proofs.Collector.Trace
import RowStream.Proofs.Expr.Closure
import RowStream.Proofs.Memory.Oblivious
import RowStream.Stream.Operator

/-!
# Operators do not know the past

All that evaluations, projections and collectors learn of a breaker is what becomes of a request. So
none of them looks at what the breaker remembers, wherever it fails.

* `Scratch.closed_oblivious` — evaluations, by what their steps do.
* `Outputs.oblivious_project`, `Outputs.oblivious_projectAll` — projections.
* `Collector.oblivious_accumulate`, `Collector.oblivious_finish` — one case for each collector.
* `Operator.oblivious_take`, `Operator.oblivious_conclude` — operators.
-/

namespace RowStream

open Metered

/-! ## Evaluations

As for what operators hold, an evaluation is made of requests and of changes that ask for nothing.
-/

namespace Scratch

theorem oblivious_push (text : String) : (push text).Oblivious :=
  (oblivious_reserve _).bind fun _ => oblivious_modifyState _

theorem oblivious_pushChar (c : Char) : (pushChar c).Oblivious :=
  (oblivious_reserve _).bind fun _ => oblivious_modifyState _

theorem oblivious_liftEval {α : Type} (x : Except EvalError α) : (liftEval x).Oblivious :=
  fun past s b => by
    cases x <;> rfl

/-- **An evaluation does not look at the past**, whatever its texts are. -/
theorem closed_oblivious : Closed fun _ m => m.Oblivious where
  pure a := oblivious_pure a
  bind hm hf := hm.bind hf
  read f := oblivious_read f
  clear := oblivious_modifyState clear
  append text := (oblivious_push text).mapError OpError.memory
  appendChar c := (oblivious_pushChar c).mapError OpError.memory
  liftEval x := oblivious_liftEval x

end Scratch

/-! ## Outputs

Outputs evaluate expressions one by one, whatever the row buffer holds. -/

namespace Outputs

theorem oblivious_fill (input : Row) (es : List Expr) : (fill input es).Oblivious := by
  induction es with
  | nil => exact oblivious_pure ()
  | cons e es ih =>
    refine (Scratch.closed_oblivious.eval input e).zoom.bind fun _ => ?_
    exact (oblivious_modifyState _).bind fun _ => ih

theorem oblivious_project (input : Row) : (project input).Oblivious := by
  refine (oblivious_read id).bind fun o => ?_
  split
  · exact oblivious_pure ()
  · exact (oblivious_modifyState _).bind fun _ => oblivious_fill input o.exprs

theorem oblivious_projectOwned (input : Row) : (projectOwned input).Oblivious := by
  refine (oblivious_read id).bind fun o => ?_
  split
  · exact oblivious_pure input
  · exact (Scratch.closed_oblivious.evalAll input o.exprs).zoom

theorem oblivious_projectAll : (rows : List Row) → (projectAll rows).Oblivious
  | [] => oblivious_pure []
  | row :: rows => (oblivious_projectOwned row).bind fun _ =>
      (oblivious_projectAll rows).bind fun _ => oblivious_pure _

end Outputs

/-! ## Collectors

Which rows a collector keeps is decided by the rows, and which bytes it gives back by its entries.
So nothing depends on the budget but whether it grants. -/

namespace SortBuffer

theorem oblivious_accumulate (row : Row) : (accumulate row).Oblivious :=
  (oblivious_read _).bind fun bytes =>
    (Scope.oblivious_charge bytes).zoom.bind fun _ => oblivious_modifyState _

theorem oblivious_finish : finish.Oblivious :=
  (oblivious_read sorted).bind fun rows =>
    (oblivious_modifyState _).bind fun _ => (Outputs.oblivious_projectAll rows).zoom

end SortBuffer

namespace TopBuffer

theorem oblivious_place (entry : HeapEntry) :
    (update (place entry) : Metered.Op TopBuffer Unit).Oblivious :=
  oblivious_update fun t => by
    obtain ⟨sizes, scope, hplace⟩ := exists_place entry t
    exact ⟨_, sizes, hplace⟩

theorem oblivious_accumulate (row : Row) : (accumulate row).Oblivious := by
  refine (oblivious_read _).bind fun seq => ?_
  refine (oblivious_modifyState _).bind fun _ => ?_
  refine (oblivious_read _).bind fun admitted => ?_
  split
  · refine (oblivious_read _).bind fun bytes => ?_
    exact (Scope.oblivious_charge bytes).zoom.bind fun _ => oblivious_place ⟨row, seq, bytes⟩
  · exact oblivious_pure ()

theorem oblivious_finish : finish.Oblivious :=
  (oblivious_read leading).bind fun rows =>
    (oblivious_modifyState _).bind fun _ => (Outputs.oblivious_projectAll rows).zoom

end TopBuffer

namespace Totals

theorem oblivious_accumulate (row : Row) : (accumulate row).Oblivious := fun past t b => by
  unfold accumulate
  rcases hupdate : t.aggregates.update t.states row with ⟨_ | _, states⟩ <;> simp only [hupdate] <;>
    rfl

theorem oblivious_finish : finish.Oblivious :=
  (oblivious_read _).bind fun _ => (oblivious_modifyState _).bind fun _ => oblivious_pure _

end Totals

namespace GroupTable

theorem oblivious_openGroup (key : Row) : (openGroup key).Oblivious := by
  refine (oblivious_read _).bind fun found => ?_
  cases found with
  | some slot => exact oblivious_pure slot
  | none =>
    refine (oblivious_read _).bind fun bytes => ?_
    refine (Scope.oblivious_charge bytes).zoom.bind fun _ => ?_
    exact (oblivious_read _).bind fun slot =>
      (oblivious_modifyState _).bind fun _ => oblivious_pure slot

theorem oblivious_accumulate (row : Row) : (accumulate row).Oblivious := fun past t b => by
  unfold accumulate
  cases hkey : keyOf row t.keys with
  | error e =>
    simp only [hkey]
    rfl
  | ok key =>
    simp only [hkey, oblivious_openGroup key past t b]
    rcases openGroup key (t, b) with ⟨slot, u, c⟩ | ⟨e, u, c⟩
    · -- folding the row in asks for nothing
      simp only [StepResult.mapShared]
      rcases absorb u.aggregates slot row u.slots with ⟨_ | _, slots⟩ <;> rfl
    · rfl

theorem oblivious_finish : finish.Oblivious :=
  (oblivious_read _).bind fun _ => (oblivious_modifyState _).bind fun _ => oblivious_pure _

end GroupTable

namespace Collector

theorem oblivious_accumulate (row : Row) : (accumulate row).Oblivious
  | past, sort s, b => (SortBuffer.oblivious_accumulate row).within past s b
  | past, top t, b => (TopBuffer.oblivious_accumulate row).within past t b
  | past, totals t, b => (Totals.oblivious_accumulate row).within past t b
  | past, group t, b => (GroupTable.oblivious_accumulate row).within past t b

theorem oblivious_finish : finish.Oblivious
  | past, sort s, b => SortBuffer.oblivious_finish.within past s b
  | past, top t, b => TopBuffer.oblivious_finish.within past t b
  | past, totals t, b => Totals.oblivious_finish.within past t b
  | past, group t, b => GroupTable.oblivious_finish.within past t b

end Collector

/-! ## Operators

An operator asks for memory through its outputs and its collector alone. -/

theorem RowFilter.oblivious_take (row : Row) : (take row).Oblivious := by
  refine (oblivious_read _).bind fun predicate => ?_
  refine (Scratch.closed_oblivious.passes row predicate).zoom.bind fun passes => ?_
  split
  · exact (Outputs.oblivious_project row).zoom.bind fun _ => oblivious_pure true
  · exact oblivious_pure false

theorem RowLimit.oblivious_take (row : Row) : (take row).Oblivious := by
  refine (oblivious_read _).bind fun toSkip => ?_
  split
  · refine (oblivious_modifyState _).bind fun _ => ?_
    exact (Outputs.oblivious_project row).zoom.bind fun _ => oblivious_pure true
  · exact (oblivious_modifyState _).bind fun _ => oblivious_pure false

namespace Collection

theorem oblivious_take (row : Row) : (take row).Oblivious :=
  (Collector.oblivious_accumulate row).zoom

theorem oblivious_finish : finish.Oblivious :=
  Collector.oblivious_finish.zoom.bind fun _ => oblivious_modifyState _

end Collection

namespace Operator

theorem oblivious_take (row : Row) : (take row).Oblivious
  | past, filter f, b => (RowFilter.oblivious_take row).within past f b
  | past, limit l, b => (RowLimit.oblivious_take row).within past l b
  | past, collect c, b => by
    have htake := Collection.oblivious_take row past c b
    simp only [take, htake]
    rcases Collection.take row (c, b) with ⟨_, d, b'⟩ | ⟨e, d, b'⟩ <;> rfl

theorem oblivious_finish : finish.Oblivious
  | _, filter _, _ => rfl
  | _, limit _, _ => rfl
  | past, collect c, b => Collection.oblivious_finish.within past c b

theorem oblivious_showNext : showNext.Oblivious := fun _ _ _ => rfl

theorem oblivious_conclude : conclude.Oblivious :=
  oblivious_finish.bind fun _ => oblivious_showNext

end Operator

end RowStream
