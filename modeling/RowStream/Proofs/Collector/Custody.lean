import RowStream.Proofs.Expr.Closure
import RowStream.Proofs.Memory.Custody
import RowStream.Stream.Operator

/-!
# What operators hold

An operator holds the capacity of its scratch buffers and the rows or groups of its collector, each
in a scope of its own. Whatever an evaluation, a projection or a collector does, and at whichever
row or output it fails, the counters move by what the operator holds more or less.

* `Scratch.closed_keeps` — evaluations, by what their steps do.
* `Outputs.keeps_project`, `Outputs.keeps_projectAll` — projections.
* `Collector.keeps_accumulate`, `Collector.keeps_finish` — one case for each collector.
* `Operator.keeps_take`, `Operator.keeps_conclude`, `Operator.clears_release` — operators.
-/

namespace RowStream

open Metered

/-! ## Evaluations

A scratch buffer asks for capacity and then changes its text. The request moves the counters and
what is held alike, and changing the text moves neither. An evaluation is made of such steps, so it
moves what its buffer holds; an operand that fails has moved what it has moved. -/

namespace Scratch

theorem keeps_push (text : String) : (push text).Keeps held :=
  Keeps.bind (keeps_reserve _) fun _ => keeps_modifyState fun _ => rfl

theorem keeps_pushChar (c : Char) : (pushChar c).Keeps held :=
  Keeps.bind (keeps_reserve _) fun _ => keeps_modifyState fun _ => rfl

theorem keeps_liftEval {α : Type} (x : Except EvalError α) : (liftEval x).Keeps held :=
  fun s b => by
    cases x <;> exact .refl b s.held

/-- **An evaluation moves what its scratch buffer holds**, and nothing else. -/
theorem closed_keeps : Closed fun _ m => m.Keeps held where
  pure a := keeps_pure held a
  bind hm hf := Keeps.bind hm hf
  read f := keeps_read held f
  clear := keeps_modifyState fun _ => rfl
  append text := (keeps_push text).mapError OpError.memory
  appendChar c := (keeps_pushChar c).mapError OpError.memory
  liftEval x := keeps_liftEval x

end Scratch

/-! ## Outputs

The row buffer may hold half a row when an output fails. It is not accounted, so that only the
scratch buffer counts. -/

namespace Outputs

/-- Outputs hold the capacity of their scratch buffer; the row buffer is not accounted. -/
def held (o : Outputs) : Nat := o.scratch.held

theorem keeps_evaluate {α : Type} {m : Metered.Op Scratch α} (hm : m.Keeps Scratch.held) :
    (evaluate m).Keeps held :=
  hm.zoom_all (fun _ => rfl) fun _ _ => rfl

theorem keeps_fill (input : Row) (es : List Expr) : (fill input es).Keeps held := by
  induction es with
  | nil => exact keeps_pure held ()
  | cons e es ih =>
    refine Keeps.bind (keeps_evaluate (Scratch.closed_keeps.eval input e)) fun _ => ?_
    exact Keeps.bind (keeps_modifyState fun _ => rfl) fun _ => ih

theorem keeps_project (input : Row) : (project input).Keeps held := by
  refine Keeps.bind (keeps_read held id) fun o => ?_
  split
  · -- where the outputs are the columns in order, nothing is evaluated
    exact keeps_pure held ()
  · exact Keeps.bind (keeps_modifyState fun _ => rfl) fun _ => keeps_fill input o.exprs

theorem keeps_projectOwned (input : Row) : (projectOwned input).Keeps held := by
  refine Keeps.bind (keeps_read held id) fun o => ?_
  split
  · exact keeps_pure held input
  · exact keeps_evaluate (Scratch.closed_keeps.evalAll input o.exprs)

theorem keeps_projectAll : (rows : List Row) → (projectAll rows).Keeps held
  | [] => keeps_pure held []
  | row :: rows => Keeps.bind (keeps_projectOwned row) fun _ =>
      Keeps.bind (keeps_projectAll rows) fun _ => keeps_pure held _

theorem clears_release : Clears held release :=
  Scratch.clears_release.ofPart scratch (fun o scratch => { o with scratch, row := [] })
    (fun _ => rfl) fun _ _ => rfl

end Outputs

/-! ## Collectors

A collector of rows holds two things, in two scopes: the buffer of its outputs and the rows. Each
step moves one of them while the other stays held, which is why the law is stated beside a rest.
Groups hold their scope alone, and totals hold nothing. -/

namespace SortBuffer

def held (s : SortBuffer) : Nat := s.outputs.held + s.scope.held

theorem keeps_accumulate (row : Row) : (accumulate row).Keeps held := by
  refine Keeps.bind (keeps_read held _) fun bytes => ?_
  refine Keeps.bind ?_ fun _ => keeps_modifyState fun _ => rfl
  exact (Scope.keeps_charge bytes).zoom (outputs · |>.held) (fun _ => rfl) fun _ _ => rfl

theorem keeps_finish : finish.Keeps held := by
  refine Keeps.bind (keeps_read held sorted) fun rows => ?_
  refine Keeps.bind (keeps_modifyState fun _ => rfl) fun _ => ?_
  exact (Outputs.keeps_projectAll rows).zoom (scope · |>.held) (fun _ => Nat.add_comm _ _)
    fun _ _ => Nat.add_comm _ _

theorem clears_release : Clears held release :=
  Outputs.clears_release.ofParts Scope.clears_release outputs scope
    (fun s outputs scope => { s with outputs, scope, rows := .empty }) (fun _ => rfl)
    fun _ _ _ => rfl

end SortBuffer

namespace TopBuffer

def held (t : TopBuffer) : Nat := t.outputs.held + t.scope.held

theorem moves_evict (t : TopBuffer) (b : Budget) :
    Budget.Moves b t.held (t.evict b).2 (t.evict b).1.held := by
  unfold evict
  cases t.worstFirst with
  | nil => exact .refl b t.held
  | cons worst rest => exact (t.scope.moves_sub _ b).frame t.outputs.held

theorem moves_place (entry : HeapEntry) (t : TopBuffer) (b : Budget) :
    Budget.Moves b t.held (place entry t b).2 (place entry t b).1.held := by
  unfold place
  cases t.isFull with
  | false => exact .refl b t.held
  | true => exact t.moves_evict b

theorem keeps_accumulate (row : Row) : (accumulate row).Keeps held := by
  -- numbering the row and looking at the worst one ask for nothing
  refine Keeps.bind (keeps_read held _) fun seq => ?_
  refine Keeps.bind (keeps_modifyState fun _ => rfl) fun _ => ?_
  refine Keeps.bind (keeps_read held _) fun admitted => ?_
  split
  · -- the row is charged first, and what falls out is given back from the same scope
    refine Keeps.bind (keeps_read held _) fun bytes => ?_
    refine Keeps.bind ?_ fun _ => moves_place ⟨row, seq, bytes⟩
    exact (Scope.keeps_charge bytes).zoom (outputs · |>.held) (fun _ => rfl) fun _ _ => rfl
  · exact keeps_pure held ()

theorem keeps_finish : finish.Keeps held := by
  refine Keeps.bind (keeps_read held leading) fun rows => ?_
  refine Keeps.bind (keeps_modifyState fun _ => rfl) fun _ => ?_
  exact (Outputs.keeps_projectAll rows).zoom (scope · |>.held) (fun _ => Nat.add_comm _ _)
    fun _ _ => Nat.add_comm _ _

theorem clears_release : Clears held release :=
  Outputs.clears_release.ofParts Scope.clears_release outputs scope
    (fun t outputs scope => { t with outputs, scope, worstFirst := [] }) (fun _ => rfl)
    fun _ _ _ => rfl

end TopBuffer

namespace Totals

/-- Nothing is accounted for totals. -/
def held (_ : Totals) : Nat := 0

theorem keeps_accumulate (row : Row) : (accumulate row).Keeps held := fun t b => by
  unfold accumulate
  rcases hupdate : t.aggregates.update t.states row with ⟨_ | _, states⟩ <;>
  · simp only [hupdate]
    exact .refl b 0

theorem keeps_finish : finish.Keeps held :=
  Keeps.bind (keeps_read held _) fun _ =>
    Keeps.bind (keeps_modifyState fun _ => rfl) fun _ => keeps_pure held _

theorem clears_release : Clears held release := fun _ b => ⟨.refl b 0, rfl⟩

end Totals

namespace GroupTable

def held (t : GroupTable) : Nat := t.scope.held

theorem keeps_openGroup (key : Row) : (openGroup key).Keeps held := by
  refine Keeps.bind (keeps_read held _) fun found => ?_
  cases found with
  | some slot => exact keeps_pure held slot
  | none =>
    refine Keeps.bind (keeps_read held _) fun bytes => ?_
    -- only the charge moves anything; the group itself is opened behind it
    refine Keeps.bind ?_ fun _ => ?_
    · exact (Scope.keeps_charge bytes).zoom_all (fun _ => rfl) fun _ _ => rfl
    · refine Keeps.bind (keeps_read held _) fun slot => ?_
      exact Keeps.bind (keeps_modifyState fun _ => rfl) fun _ => keeps_pure held slot

theorem keeps_accumulate (row : Row) : (accumulate row).Keeps held := fun t b => by
  unfold accumulate
  cases hkey : keyOf row t.keys with
  | error e =>
    simp only [hkey]
    exact .refl b t.held
  | ok key =>
    have hopen := keeps_openGroup key t b
    simp only [hkey]
    rcases hrun : openGroup key (t, b) with ⟨slot, u, c⟩ | ⟨e, u, c⟩ <;> rw [hrun] at hopen
    · -- folding the row in leaves the scope alone
      rcases habsorb : absorb u.aggregates slot row u.slots with ⟨_ | _, slots⟩ <;>
      · simp only [habsorb]
        exact hopen
    · exact hopen

theorem keeps_finish : finish.Keeps held :=
  Keeps.bind (keeps_read held _) fun _ =>
    Keeps.bind (keeps_modifyState fun _ => rfl) fun _ => keeps_pure held _

theorem clears_release : Clears held release :=
  Scope.clears_release.ofPart scope
    (fun t scope => { t with scope, slots := .empty t.slots.index.hasher })
    (fun _ => rfl) fun _ _ => rfl

end GroupTable

namespace Collector

def held : Collector → Nat
  | sort s => s.held
  | top t => t.held
  | totals t => t.held
  | group t => t.held

theorem keeps_accumulate (row : Row) : (accumulate row).Keeps held
  | sort s, b => by
    rw [accumulate, StepResult.left_within]
    exact SortBuffer.keeps_accumulate row s b
  | top t, b => by
    rw [accumulate, StepResult.left_within]
    exact TopBuffer.keeps_accumulate row t b
  | totals t, b => by
    rw [accumulate, StepResult.left_within]
    exact Totals.keeps_accumulate row t b
  | group t, b => by
    rw [accumulate, StepResult.left_within]
    exact GroupTable.keeps_accumulate row t b

theorem keeps_finish : finish.Keeps held
  | sort s, b => by
    rw [finish, StepResult.left_within]
    exact SortBuffer.keeps_finish s b
  | top t, b => by
    rw [finish, StepResult.left_within]
    exact TopBuffer.keeps_finish t b
  | totals t, b => by
    rw [finish, StepResult.left_within]
    exact Totals.keeps_finish t b
  | group t, b => by
    rw [finish, StepResult.left_within]
    exact GroupTable.keeps_finish t b

theorem clears_release : Clears held release
  | sort s, b => SortBuffer.clears_release s b
  | top t, b => TopBuffer.clears_release t b
  | totals t, b => Totals.clears_release t b
  | group t, b => GroupTable.clears_release t b

end Collector

/-! ## Operators

What an operator holds is what its parts hold. Finishing and showing rows that are left move what
the outputs hold and leave the rows accounted; only a release gives them back. -/

namespace RowFilter

def held (f : RowFilter) : Nat := f.scratch.held + f.outputs.held

theorem keeps_take (row : Row) : (take row).Keeps held := by
  refine Keeps.bind (keeps_read held _) fun predicate => ?_
  refine Keeps.bind ?_ fun passes => ?_
  · -- the predicate works in a buffer of its own, beside that of the outputs
    exact (Scratch.closed_keeps.passes row predicate).zoom (outputs · |>.held) (fun _ => Nat.add_comm _ _)
      fun _ _ => Nat.add_comm _ _
  · split
    · refine Keeps.bind ?_ fun _ => keeps_pure held true
      exact (Outputs.keeps_project row).zoom (scratch · |>.held) (fun _ => rfl) fun _ _ => rfl
    · exact keeps_pure held false

theorem clears_release : Clears held release :=
  Scratch.clears_release.ofParts Outputs.clears_release scratch outputs
    (fun f scratch outputs => { f with scratch, outputs }) (fun _ => rfl) fun _ _ _ => rfl

end RowFilter

namespace RowLimit

def held (l : RowLimit) : Nat := l.outputs.held

theorem keeps_take (row : Row) : (take row).Keeps held := by
  refine Keeps.bind (keeps_read held _) fun toSkip => ?_
  split
  · -- the row is past the offset; before it, only the counter changes
    refine Keeps.bind (keeps_modifyState fun _ => rfl) fun _ => ?_
    refine Keeps.bind ?_ fun _ => keeps_pure held true
    exact (Outputs.keeps_project row).zoom_all (fun _ => rfl) fun _ _ => rfl
  · exact Keeps.bind (keeps_modifyState fun _ => rfl) fun _ => keeps_pure held false

theorem clears_release : Clears held release :=
  Outputs.clears_release.ofPart outputs (fun l outputs => { l with outputs }) (fun _ => rfl)
    fun _ _ => rfl

end RowLimit

namespace Collection

def held (c : Collection) : Nat := c.collector.held

theorem keeps_take (row : Row) : (take row).Keeps held :=
  (Collector.keeps_accumulate row).zoom_all (fun _ => rfl) fun _ _ => rfl

theorem keeps_finish : finish.Keeps held :=
  Keeps.bind (Collector.keeps_finish.zoom_all (fun _ => rfl) fun _ _ => rfl) fun _ =>
    keeps_modifyState fun _ => rfl

theorem clears_release : Clears held release :=
  Collector.clears_release.ofPart collector
    (fun c collector => { c with collector, results := [], current := [] }) (fun _ => rfl)
    fun _ _ => rfl

end Collection

namespace Operator

def held : Operator → Nat
  | filter f => f.held
  | limit l => l.held
  | collect c => c.held

theorem keeps_take (row : Row) : (take row).Keeps held
  | filter f, b => by
    rw [take, StepResult.left_within]
    exact RowFilter.keeps_take row f b
  | limit l, b => by
    rw [take, StepResult.left_within]
    exact RowLimit.keeps_take row l b
  | collect c, b => by
    -- a collection shows nothing for a row, so its run is looked at and not only lifted
    have htake := Collection.keeps_take row c b
    rw [take]
    rcases hrun : Collection.take row (c, b) with ⟨_, d, b'⟩ | ⟨e, d, b'⟩ <;>
    · rw [hrun] at htake
      exact htake

theorem keeps_finish : finish.Keeps held
  | filter f, b => .refl b f.held
  | limit l, b => .refl b l.held
  | collect c, b => by
    rw [finish, StepResult.left_within]
    exact Collection.keeps_finish c b

theorem held_next (op : Operator) : op.next.2.held = op.held := by
  cases op with
  | filter f => rfl
  | limit l => rfl
  | collect c =>
    show c.next.2.held = c.held
    unfold Collection.next
    -- handing out a finished row leaves what was charged for it
    cases c.results <;> rfl

theorem keeps_showNext : showNext.Keeps held := fun op b => by
  show Budget.Moves b op.held b op.next.2.held
  rw [op.held_next]
  exact .refl b op.held

theorem keeps_conclude : conclude.Keeps held := Keeps.bind keeps_finish fun _ => keeps_showNext

/-- **A released operator holds nothing**, whatever it was doing. -/
theorem clears_release : Clears held release
  | filter f, b => RowFilter.clears_release f b
  | limit l, b => RowLimit.clears_release l b
  | collect c, b => Collection.clears_release c b

end Operator

end RowStream
