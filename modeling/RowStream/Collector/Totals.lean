import RowStream.Aggregate.Set
import RowStream.Memory.Metered

/-!
# Totals

Totals aggregate all rows into one, also when there is no row. Their states do not grow with the
input, so nothing is accounted for them.
-/

namespace RowStream

/-- The states of aggregates over all rows. -/
structure Totals where
  aggregates : Aggregates
  states : List AggState

namespace Totals

def new (aggregates : Aggregates) : Totals := ⟨aggregates, aggregates.init⟩

/-- Folds a row into the states. -/
def accumulate (row : Row) : Metered.Op Totals Unit := fun (t, b) =>
  match t.aggregates.update t.states row with
  | (.ok (), states) => .ok () ({ t with states }, b)
  | (.error e, states) => .error e ({ t with states }, b)

/-- Hands out the one row and starts afresh. -/
def finish : Metered.Op Totals (List Row) := do
  let row ← Metered.read fun t => t.aggregates.emit t.states
  Metered.modifyState fun t => { t with states := t.aggregates.init }
  pure [row]

/-- Drops the states. -/
def release (t : Totals) (b : Budget) : Totals × Budget := ({ t with states := [] }, b)

theorem length_of_finish {rows : List Row} {t u : Totals} {b b' : Budget}
    (h : finish (t, b) = .ok rows (u, b')) : rows.length = 1 := by
  obtain ⟨row, r, -, h⟩ := Metered.bind_eq_ok.1 h
  obtain ⟨-, r, -, h⟩ := Metered.bind_eq_ok.1 h
  obtain ⟨rfl, -⟩ := Metered.pure_eq_ok.1 h
  rfl

end Totals

end RowStream
