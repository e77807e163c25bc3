import RowStream.Proofs.Aggregate.InPlace
import RowStream.Proofs.Stream.Flow

/-!
# Folding rows into states

Totals fold all rows into one list of states. This module takes the fold apart: into earlier and later
rows, and into the aggregates that run side by side.

* `Aggregates.fold` — the states after rows, or the first failure.
* `Aggregates.fold_append` — earlier and later rows.
* `Aggregation.fold`, `Aggregates.fold_cons` — one aggregate of several.
* `Flow.collect_totals` — what totals come to.
-/

namespace RowStream

namespace Aggregates

/-- The states after rows, up to the first row that fails. -/
def fold (s : Aggregates) (states : List AggState) : List Row → Except OpError (List AggState)
  | [] => .ok states
  | row :: rows =>
    match s.update states row with
    | (.ok (), states) => fold s states rows
    | (.error e, _) => .error e

variable {s : Aggregates} {states later : List AggState}

theorem fold_append (s : Aggregates) (states : List AggState) (xs ys : List Row) :
    s.fold states (xs ++ ys) = (s.fold states xs).bind fun states => s.fold states ys := by
  induction xs generalizing states with
  | nil => rfl
  | cons row xs ih =>
    rw [List.cons_append, fold, fold]
    rcases s.update states row with ⟨e | _, later⟩
    · rfl
    · exact ih later

theorem fold_append_of_ok {xs ys : List Row} (h : s.fold states xs = .ok later) :
    s.fold states (xs ++ ys) = s.fold later ys := by
  rw [fold_append, h]
  rfl

theorem fold_singleton (s : Aggregates) (states : List AggState) (row : Row) :
    s.fold states [row] =
      match s.update states row with
      | (.ok (), states) => .ok states
      | (.error e, _) => .error e := by
  rw [fold]
  rcases s.update states row with ⟨e | _, later⟩ <;> rfl

end Aggregates

/-! ## One aggregate of several

Aggregates that run side by side do not see each other: a row is folded into the state of each, and
the fold fails with the first of them that does. So where the fold of all comes to states, these are
the states that each aggregate comes to alone, and that is what the summaries of single columns are
put together from. -/

namespace Aggregation

/-- The state of one aggregate after rows. -/
def fold (a : Aggregation) (mode : AggregateMode) (state : AggState) :
    List Row → Except OpError AggState
  | [] => .ok state
  | row :: rows =>
    match a.absorb mode row state with
    | .ok state => fold a mode state rows
    | .error e => .error e

theorem fold_concat (a : Aggregation) (mode : AggregateMode) (state : AggState) (rows : List Row)
    (row : Row) :
    a.fold mode state (rows ++ [row]) = (a.fold mode state rows).bind (a.absorb mode row) := by
  induction rows generalizing state with
  | nil =>
    rw [List.nil_append, fold]
    cases hstate : a.absorb mode row state <;> simp [fold, Except.bind, hstate]
  | cons first rows ih =>
    rw [List.cons_append, fold, fold]
    cases a.absorb mode first state with
    | error e => rfl
    | ok next => exact ih next

end Aggregation

namespace Aggregates

/-- Aggregates side by side come each to its own state, if none of them fails. -/
theorem fold_cons {a : Aggregation} {as : List Aggregation} {mode : AggregateMode}
    {state state' : AggState} {states states' : List AggState} {rows : List Row}
    (h : a.fold mode state rows = .ok state') (hs : fold ⟨as, mode⟩ states rows = .ok states') :
    fold ⟨a :: as, mode⟩ (state :: states) rows = .ok (state' :: states') := by
  -- by induction on the rows; each of them is taken by the first aggregate and then by the others
  induction rows generalizing state states with
  | nil =>
    cases h
    cases hs
    rfl
  | cons row rows ih =>
    rw [Aggregation.fold] at h
    rw [fold] at hs ⊢
    cases hstate : a.absorb mode row state with
    | error e =>
      rw [hstate] at h
      cases h
    | ok next =>
      rw [hstate] at h
      rcases hstates : update ⟨as, mode⟩ states row with ⟨e | _, nexts⟩ <;> rw [hstates] at hs
      · cases hs
      · -- the first aggregate is updated before the others
        have hupdate : update ⟨a :: as, mode⟩ (state :: states) row = (.ok (), next :: nexts) := by
          have hrest : updateAll mode row as states = (.ok (), nexts) := hstates
          simp [update, updateAll_cons, hstate, hrest]
        rw [hupdate]
        exact ih h hs

/-- Where aggregates side by side come to states, so does each of them alone. -/
theorem exists_of_fold_cons {a : Aggregation} {as : List Aggregation} {mode : AggregateMode}
    {state : AggState} {states later : List AggState} {rows : List Row}
    (h : fold ⟨a :: as, mode⟩ (state :: states) rows = .ok later) :
    ∃ state' states', later = state' :: states' ∧ a.fold mode state rows = .ok state' ∧
      fold ⟨as, mode⟩ states rows = .ok states' := by
  -- a row that all take is one that the first takes and the others take
  induction rows generalizing state states with
  | nil =>
    cases h
    exact ⟨state, states, rfl, rfl, rfl⟩
  | cons row rows ih =>
    rw [fold, update, updateAll_cons] at h
    rw [Aggregation.fold, fold]
    cases hstate : a.absorb mode row state with
    | error e =>
      rw [hstate] at h
      cases h
    | ok next =>
      rw [hstate] at h
      have hrest : update ⟨as, mode⟩ states row = updateAll mode row as states := rfl
      rw [hrest]
      rcases hstates : updateAll mode row as states with ⟨e | _, nexts⟩ <;> rw [hstates] at h
      · cases h
      · exact ih h

theorem fold_nil (mode : AggregateMode) (states : List AggState) (rows : List Row) :
    fold ⟨[], mode⟩ states rows = .ok states := by
  induction rows with
  | nil => rfl
  | cons row rows ih => exact ih

end Aggregates

/-! ## Totals

Totals account nothing and look at no budget. What they take is the fold of the rows and nothing
else, which is why the theorems about collectors can be read off the fold. -/

namespace Collector

theorem free_accumulate_totals (row : Row) (t : Totals) :
    (accumulate row).free (totals t) =
      ((t.aggregates.update t.states row).1,
        totals { t with states := (t.aggregates.update t.states row).2 }) := by
  rcases hupdate : t.aggregates.update t.states row with ⟨e | _, states⟩ <;>
    simp [Metered.free, Metered.run, accumulate, Totals.accumulate, StepResult.within, hupdate]

/-- Totals take rows as their aggregates fold them. -/
theorem takeAll_totals (t : Totals) (rows : List Row) :
    (totals t).takeAll rows =
      (t.aggregates.fold t.states rows).map fun states => totals { t with states } := by
  induction rows generalizing t with
  | nil => rfl
  | cons row rows ih =>
    rw [takeAll, free_accumulate_totals, Aggregates.fold]
    rcases t.aggregates.update t.states row with ⟨e | _, states⟩
    · rfl
    · exact ih { t with states }

end Collector

namespace Flow

/-- **Totals come to one row**, or to the failure of the first row that cannot be folded in. -/
theorem collect_totals (s : Aggregates) (rows : List Row) :
    collect (.totals (.new s)) ⟨rows, none⟩ =
      match s.fold s.init rows with
      | .ok states => ⟨[s.emit states], none⟩
      | .error e => failed e := by
  have htake : Collector.takeAll _ rows = (s.fold s.init rows).map _ :=
    Collector.takeAll_totals (.new s) rows
  unfold collect
  rw [htake]
  cases s.fold s.init rows <;> rfl

end Flow

end RowStream
