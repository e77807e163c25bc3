import RowStream.Collector.Basic
import RowStream.Proofs.Expr.Outputs

/-!
# Traces of collectors

Every collector takes rows and hands out its own along a trace: what it does never depends on how
much memory there is. For the collectors that order rows it is said as well what they keep.

* `SortBuffer.follows_accumulate`, `SortBuffer.yields_finish` — all rows are kept, and come out
  sorted.
* `TopBuffer.yields_accumulate`, `TopBuffer.yields_finish` — what `TopBuffer.keep` says is kept.
* `Collector.traced_accumulate`, `Collector.traced_finish` — the same for all collectors, without
  saying what comes of it.
-/

namespace RowStream

/-! ## Sort buffers

Every row is kept, so that the state after a row is known. -/

namespace SortBuffer

/-- A sort buffer with one more row. -/
def withRow (s : SortBuffer) (row : Row) : SortBuffer :=
  { s with
    scope := { s.scope with held := s.scope.held + s.footprint.row row }
    rows := s.rows.push row }

theorem follows_accumulate (row : Row) (s : SortBuffer) :
    (accumulate row).Follows s [.request s.scope.label (s.footprint.row row)] (.ok ())
      (s.withRow row) := by
  have hcharge : (Metered.zoom scope (fun s scope => { s with scope })
      (Scope.charge (s.footprint.row row))).Follows s _ _ _ :=
    (Scope.follows_charge s.scope (s.footprint.row row)).zoom
  exact (Metered.follows_read _ s).bind (hcharge.bind (Metered.follows_modifyState _ _))

theorem yields_finish (s : SortBuffer) :
    finish.Yields s (OpError.ofEval (Expr.valuesAll s.outputs.exprs s.sorted)) fun u =>
      u.outputs.exprs = s.outputs.exprs := by
  refine (Metered.follows_read sorted s).bind_yields ?_
  refine (Metered.follows_modifyState _ s).bind_yields ?_
  have hproject := Outputs.yields_projectAll s.sorted s.outputs
  apply Metered.Yields.zoom
  · exact hproject
  · intro outputs hexprs
    exact hexprs

end SortBuffer

/-! ## Top buffers

Whether a row is kept is decided by rows and numbers. What is charged and given back are movements
of the trace. -/

namespace TopBuffer

/-- What is kept once a row has come. -/
def keep (t : TopBuffer) (row : Row) : List HeapEntry :=
  if t.admits row then
    insert t.order ⟨row, t.seq, t.footprint.row row⟩
      (if t.isFull then t.worstFirst.tail else t.worstFirst)
  else t.worstFirst

/-- Evicting gives back what the scope has of the worst row. -/
theorem exists_evict (t : TopBuffer) : ∃ (sizes : List Nat) (scope : Scope), ∀ b,
    t.evict b = ({ t with scope, worstFirst := t.worstFirst.tail },
      sizes.foldl Budget.giveBack b) := by
  cases hrows : t.worstFirst with
  | nil =>
    refine ⟨[], t.scope, fun b => ?_⟩
    simp only [evict, hrows, List.tail_nil, List.foldl_nil]
    rw [← hrows]
  | cons worst rest =>
    refine ⟨[min worst.bytes t.scope.held], (t.scope.sub worst.bytes (.unlimited "" .nil)).1,
      fun b => ?_⟩
    simp only [evict, hrows]
    rfl

theorem exists_place (entry : HeapEntry) (t : TopBuffer) : ∃ (sizes : List Nat) (scope : Scope), ∀ b,
    place entry t b = ({ t with
      scope
      worstFirst := insert t.order entry (if t.isFull then t.worstFirst.tail else t.worstFirst) },
      sizes.foldl Budget.giveBack b) := by
  unfold place
  by_cases hfull : t.isFull = true
  · obtain ⟨sizes, scope, hevict⟩ := t.exists_evict
    exact ⟨sizes, scope, fun b => by simp [hfull, hevict]⟩
  · exact ⟨[], t.scope, fun b => by simp [hfull]⟩

/-- **What a top buffer keeps** does not depend on memory. -/
theorem yields_accumulate (row : Row) (t : TopBuffer) :
    (accumulate row).Yields t (.ok ()) fun u =>
      ∃ scope, u = { t with scope, worstFirst := t.keep row, seq := t.seq + 1 } := by
  refine (Metered.follows_read _ t).bind_yields ?_
  let numbered : TopBuffer := { t with seq := t.seq + 1 }
  refine (Metered.follows_modifyState _ t).bind_yields ?_
  refine (Metered.follows_read _ numbered).bind_yields ?_
  have hsame : numbered.admits row = t.admits row := rfl
  unfold keep
  rw [hsame]
  by_cases hadmits : t.admits row = true
  · simp only [hadmits, if_true]
    refine (Metered.follows_read _ numbered).bind_yields ?_
    have hcharge : (Metered.zoom scope (fun t scope => { t with scope })
        (Scope.charge (t.footprint.row row))).Follows numbered _ _ _ :=
      (Scope.follows_charge numbered.scope (t.footprint.row row)).zoom
    refine hcharge.bind_yields ?_
    obtain ⟨sizes, scope, hplace⟩ := exists_place ⟨row, t.seq, t.footprint.row row⟩
      { numbered with scope := { t.scope with held := t.scope.held + t.footprint.row row } }
    exact (Metered.follows_update hplace).yields ⟨scope, rfl⟩
  · simp only [hadmits, Bool.false_eq_true, if_false]
    exact (Metered.follows_pure () numbered).yields ⟨t.scope, rfl⟩

theorem yields_finish (t : TopBuffer) :
    finish.Yields t (OpError.ofEval (Expr.valuesAll t.outputs.exprs t.leading)) fun u =>
      u.outputs.exprs = t.outputs.exprs := by
  refine (Metered.follows_read leading t).bind_yields ?_
  refine (Metered.follows_modifyState _ t).bind_yields ?_
  have hproject := Outputs.yields_projectAll t.leading t.outputs
  apply Metered.Yields.zoom
  · exact hproject
  · intro outputs hexprs
    exact hexprs

end TopBuffer

/-! ## Totals and groups

Folding moves no memory. Of a group table only the request for a new group is in the trace. -/

namespace Totals

theorem traced_accumulate (row : Row) : (accumulate row).Traced := fun t => by
  rcases hupdate : t.aggregates.update t.states row with ⟨e | _, states⟩
  · refine ⟨_, .error e, { t with states }, .still fun b => ?_⟩
    simp [accumulate, hupdate, StepResult.of]
  · refine ⟨_, .ok (), { t with states }, .still fun b => ?_⟩
    simp [accumulate, hupdate, StepResult.of]

theorem traced_finish : finish.Traced :=
  (Metered.traced_read _).bind fun _ =>
    (Metered.traced_modifyState _).bind fun _ => Metered.traced_pure _

end Totals

namespace GroupTable

theorem traced_openGroup (key : Row) : (openGroup key).Traced := by
  refine (Metered.traced_read _).bind fun found => ?_
  cases found with
  | some slot => exact Metered.traced_pure slot
  | none =>
    refine (Metered.traced_read _).bind fun bytes => ?_
    refine (Scope.traced_charge bytes).zoom.bind fun _ => ?_
    refine (Metered.traced_read _).bind fun slot => ?_
    exact (Metered.traced_modifyState _).bind fun _ => Metered.traced_pure slot

/-- Folds a row into the group in a place. -/
def fold (row : Row) (slot : Nat) : Metered.Op GroupTable Unit := fun (t, b) =>
  match absorb t.aggregates slot row t.slots with
  | (.ok (), slots) => .ok () ({ t with slots }, b)
  | (.error e, slots) => .error e ({ t with slots }, b)

/-- Folding a row into the groups moves no memory. -/
theorem follows_fold (row : Row) (slot : Nat) (t : GroupTable) :
    (fold row slot).Follows t [] (absorb t.aggregates slot row t.slots).1
      { t with slots := (absorb t.aggregates slot row t.slots).2 } := .still fun b => by
  rcases habsorb : absorb t.aggregates slot row t.slots with ⟨_ | _, slots⟩ <;>
    simp [fold, habsorb, StepResult.of]

/-- A row that has a key is folded into the group that was found or opened for it. -/
theorem accumulate_eq_bind {row key : Row} {t : GroupTable} (h : keyOf row t.keys = .ok key)
    (b : Budget) : accumulate row (t, b) = (openGroup key >>= fold row) (t, b) := by
  simp only [accumulate, h]
  rcases hopen : openGroup key (t, b) with ⟨slot, u, c⟩ | ⟨e, q⟩
  · rw [Metered.bind_of_ok hopen]
    rfl
  · rw [Metered.bind_of_error hopen]

theorem traced_accumulate (row : Row) : (accumulate row).Traced := fun t => by
  cases hkey : keyOf row t.keys with
  | error e =>
    refine ⟨[], .error (.evaluation e), t, .still fun b => ?_⟩
    simp [accumulate, hkey, StepResult.of]
  | ok key =>
    have hfold : ∀ slot, (fold row slot).Traced := fun slot t => ⟨_, _, _, follows_fold row slot t⟩
    obtain ⟨ms, r, u, htrace⟩ := (traced_openGroup key).bind hfold t
    exact ⟨ms, r, u, htrace.congr (accumulate_eq_bind hkey)⟩

theorem traced_finish : finish.Traced :=
  (Metered.traced_read _).bind fun _ =>
    (Metered.traced_modifyState _).bind fun _ => Metered.traced_pure _

end GroupTable

/-! ## All collectors

One case for each collector. -/

namespace Collector

/-- **Taking a row never depends on how much memory there is.** -/
theorem traced_accumulate (row : Row) : (accumulate row).Traced
  | sort s => by
    exact ⟨_, _, sort (s.withRow row), (s.follows_accumulate row).within fun b => rfl⟩
  | top s => by
    obtain ⟨ms, r, t, ht⟩ := (s.yields_accumulate row).exists_follows
    exact ⟨ms, r, top t, ht.within fun b => rfl⟩
  | totals s => by
    obtain ⟨ms, r, t, ht⟩ := Totals.traced_accumulate row s
    exact ⟨ms, r, totals t, ht.within fun b => rfl⟩
  | group s => by
    obtain ⟨ms, r, t, ht⟩ := GroupTable.traced_accumulate row s
    exact ⟨ms, r, group t, ht.within fun b => rfl⟩

theorem traced_finish : finish.Traced
  | sort s => by
    obtain ⟨ms, r, t, ht⟩ := s.yields_finish.exists_follows
    exact ⟨ms, r, sort t, ht.within fun b => rfl⟩
  | top s => by
    obtain ⟨ms, r, t, ht⟩ := s.yields_finish.exists_follows
    exact ⟨ms, r, top t, ht.within fun b => rfl⟩
  | totals s => by
    obtain ⟨ms, r, t, ht⟩ := Totals.traced_finish s
    exact ⟨ms, r, totals t, ht.within fun b => rfl⟩
  | group s => by
    obtain ⟨ms, r, t, ht⟩ := GroupTable.traced_finish s
    exact ⟨ms, r, group t, ht.within fun b => rfl⟩

end Collector

end RowStream
