import RowStream.Proofs.Memory.Trace
import RowStream.Stream.Consumer
import RowStream.Stream.Operator

/-!
# Releases

Whatever is released gives back what it holds, scope by scope, and asks for nothing. How many
bytes that are is decided by what is released, and not by the budget.

* `GivesBack` — the property, with its rule for one release after another.
* `Operator.givesBack_release`, `ResultSet.givesBack_release` — operators and result sets have it.
-/

namespace RowStream

/-- A release that gives back the same sizes under every budget. -/
def GivesBack {σ : Type} (release : Budget → σ × Budget) : Prop :=
  ∃ (t : σ) (sizes : List Nat), ∀ b, release b = (t, sizes.foldl Budget.giveBack b)

variable {σ τ : Type}

theorem GivesBack.map {f : Budget → σ × Budget} (hf : GivesBack f) (whole : σ → τ) :
    GivesBack fun b => (whole (f b).1, (f b).2) := by
  obtain ⟨s, sizes, hf⟩ := hf
  exact ⟨whole s, sizes, fun b => by simp only [hf]⟩

theorem GivesBack.andThen {f : Budget → σ × Budget} {g : σ → Budget → τ × Budget}
    (hf : GivesBack f) (hg : ∀ s, GivesBack (g s)) : GivesBack fun b => g (f b).1 (f b).2 := by
  obtain ⟨s, sizes, hf⟩ := hf
  obtain ⟨t, more, hg⟩ := hg s
  refine ⟨t, sizes ++ more, fun b => ?_⟩
  simp only [hf, hg, List.foldl_append]

theorem Scope.givesBack_release (s : Scope) : GivesBack s.release :=
  ⟨_, [min s.held s.held], fun b => s.sub_eq_giveBack s.held b⟩

theorem Scratch.givesBack_release (s : Scratch) : GivesBack s.release :=
  s.scope.givesBack_release.map fun scope => Scratch.mk scope ""

theorem Outputs.givesBack_release (o : Outputs) : GivesBack o.release :=
  o.scratch.givesBack_release.map fun scratch => { o with scratch, row := [] }

/-! ## Collectors

Rows are forgotten and their scope is emptied. What outputs hold goes first. -/

theorem SortBuffer.givesBack_release (s : SortBuffer) : GivesBack s.release :=
  s.outputs.givesBack_release.andThen fun outputs =>
    s.scope.givesBack_release.map fun scope => { s with outputs, scope, rows := .empty }

theorem TopBuffer.givesBack_release (t : TopBuffer) : GivesBack t.release :=
  t.outputs.givesBack_release.andThen fun outputs =>
    t.scope.givesBack_release.map fun scope => { t with outputs, scope, worstFirst := [] }

theorem Totals.givesBack_release (t : Totals) : GivesBack t.release :=
  ⟨{ t with states := [] }, [], fun _ => rfl⟩

theorem GroupTable.givesBack_release (t : GroupTable) : GivesBack t.release :=
  t.scope.givesBack_release.map fun scope =>
    { t with scope, slots := .empty t.slots.index.hasher }

theorem Collector.givesBack_release (c : Collector) : GivesBack c.release := by
  cases c with
  | sort s => exact s.givesBack_release.map sort
  | top t => exact t.givesBack_release.map top
  | totals t => exact t.givesBack_release.map totals
  | group t => exact t.givesBack_release.map group

/-! ## Operators and result sets

The parts of an operator are released one after the other. -/

theorem RowFilter.givesBack_release (f : RowFilter) : GivesBack f.release :=
  f.scratch.givesBack_release.andThen fun scratch =>
    f.outputs.givesBack_release.map fun outputs => { f with scratch, outputs }

theorem RowLimit.givesBack_release (l : RowLimit) : GivesBack l.release :=
  l.outputs.givesBack_release.map fun outputs => { l with outputs }

theorem Collection.givesBack_release (c : Collection) : GivesBack c.release :=
  c.collector.givesBack_release.map fun collector =>
    { c with collector, results := [], current := [] }

/-- **A released operator gives back what it holds**, whatever the budget. -/
theorem Operator.givesBack_release (op : Operator) : GivesBack op.release := by
  cases op with
  | filter f => exact f.givesBack_release.map filter
  | limit l => exact l.givesBack_release.map limit
  | collect c => exact c.givesBack_release.map collect

/-- A released result set keeps its rows. -/
theorem ResultSet.exists_release (r : ResultSet) : ∃ (scope : Scope) (sizes : List Nat), ∀ b,
    r.release b = ({ r with scope }, sizes.foldl Budget.giveBack b) :=
  ⟨_, [min r.scope.held r.scope.held], fun _ => rfl⟩

end RowStream
