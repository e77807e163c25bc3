import RowStream.Collector.Basic

/-!
# Operators

An operator is what a stage does with the rows of its source, one row after the other. It shows a
row of its own for a row that it takes, or goes on to the next; once its source is exhausted it
may have rows left to show. An operator that is complete takes no more rows, whatever its source
has.
-/

namespace RowStream

/-- Shows the rows that pass a predicate. -/
structure RowFilter where
  predicate : Expr
  scratch : Scratch
  outputs : Outputs

namespace RowFilter

def new (predicate : Expr) (outputs : List Expr) : RowFilter :=
  ⟨predicate, .new "filter", .new outputs "filter_output"⟩

/-- Takes a row and says whether it is shown. -/
def take (row : Row) : Metered.Op RowFilter Bool := do
  let predicate ← Metered.read (·.predicate)
  let passes ← Metered.zoom scratch (fun f scratch => { f with scratch }) (predicate.passes row)
  if passes then
    Metered.zoom outputs (fun f outputs => { f with outputs }) (Outputs.project row)
    pure true
  else pure false

/-- Gives everything back. -/
def release (f : RowFilter) (b : Budget) : RowFilter × Budget :=
  let (scratch, b) := f.scratch.release b
  let (outputs, b) := f.outputs.release b
  ({ f with scratch, outputs }, b)

end RowFilter

/-- Skips rows and shows the following, up to a limit if there is one. -/
structure RowLimit where
  toSkip : Nat
  remaining : Option Nat
  outputs : Outputs

namespace RowLimit

def new (offset : Nat) (limit : Option Nat) (outputs : List Expr) : RowLimit :=
  ⟨offset, limit, .new outputs "topn_output"⟩

def isReached (l : RowLimit) : Bool := l.remaining == some 0

/-- Takes a row and says whether it is shown. A row counts even if its outputs fail. -/
def take (row : Row) : Metered.Op RowLimit Bool := do
  let toSkip ← Metered.read (·.toSkip)
  if toSkip = 0 then
    Metered.modifyState fun l => { l with remaining := l.remaining.map (· - 1) }
    Metered.zoom outputs (fun l outputs => { l with outputs }) (Outputs.project row)
    pure true
  else
    Metered.modifyState fun l => { l with toSkip := l.toSkip - 1 }
    pure false

/-- Gives everything back. -/
def release (l : RowLimit) (b : Budget) : RowLimit × Budget :=
  let (outputs, b) := l.outputs.release b
  ({ l with outputs }, b)

end RowLimit

/-- Collects all rows and then shows those of its collector. -/
structure Collection where
  collector : Collector
  finished : Bool
  /-- The rows that are left to show. -/
  results : List Row
  current : Row

namespace Collection

def new (collector : Collector) : Collection := ⟨collector, false, [], []⟩

/-- Takes a row. -/
def take (row : Row) : Metered.Op Collection Unit :=
  Metered.zoom collector (fun c collector => { c with collector }) (Collector.accumulate row)

/-- Takes no more rows and has those of the collector to show. -/
def finish : Metered.Op Collection Unit := do
  let rows ← Metered.zoom collector (fun c collector => { c with collector }) Collector.finish
  Metered.modifyState fun c => { c with finished := true, results := rows }

/-- Shows the next row, if there is one. -/
def next (c : Collection) : Bool × Collection :=
  match c.results with
  | row :: results => (true, { c with results, current := row })
  | [] => (false, { c with current := [] })

/-- Drops all rows and gives everything back. -/
def release (c : Collection) (b : Budget) : Collection × Budget :=
  let (collector, b) := c.collector.release b
  ({ c with collector, results := [], current := [] }, b)

end Collection

/-- What a stage does with rows. -/
inductive Operator where
  | filter (f : RowFilter)
  | limit (l : RowLimit)
  | collect (c : Collection)

namespace Operator

/-- The name of the strategy that an operator follows. -/
def strategy : Operator → String
  | filter _ => "filter"
  | limit _ => "simple_topn"
  | collect c =>
    match c.collector with
    | .sort _ => "sorting"
    | .top _ => "sorting_topn"
    | .totals _ => "aggregation"
    | .group _ => "grouping"

/-- The word for an operator in reports of internal faults. -/
def word : Operator → String
  | filter _ => "filter"
  | limit _ => "limit"
  | collect _ => "collector"

/-- Takes a row and says whether a row is shown for it. -/
def take (row : Row) : Metered.Op Operator Bool
  | (filter f, b) => StepResult.within filter (RowFilter.take row (f, b))
  | (limit l, b) => StepResult.within limit (RowLimit.take row (l, b))
  | (collect c, b) =>
    match Collection.take row (c, b) with
    | .ok () (c, b) => .ok false (collect c, b)
    | .error e (c, b) => .error e (collect c, b)

/-- Takes note that the source has no more rows. -/
def finish : Metered.Op Operator Unit
  | (collect c, b) => StepResult.within collect (Collection.finish (c, b))
  | (other, b) => .ok () (other, b)

/-- Whether an operator takes no more rows. -/
def isComplete : Operator → Bool
  | filter _ => false
  | limit l => l.isReached
  | collect c => c.finished

/-- Shows the next row that it has left, if there is one. -/
def next : Operator → Bool × Operator
  | collect c =>
    let (shown, c) := c.next
    (shown, collect c)
  | other => (false, other)

/-- Shows the next row that an operator has left, if there is one. -/
def showNext : Metered.Op Operator Bool := fun (op, b) => .ok op.next.1 (op.next.2, b)

/-- Takes note that the source has no more rows, and shows the first row that is left. -/
def conclude : Metered.Op Operator Bool := do
  finish
  showNext

/-- The row that is shown, given the row that the source came to. -/
def current (input : Row) : Operator → Row
  | filter f => f.outputs.current input
  | limit l => l.outputs.current input
  | collect c => c.current

/-- Whether an operator needs no further page, given whether its source has none. Collected rows
can be shown only after the source is exhausted. -/
def allLoaded (source : Bool) : Operator → Bool
  | filter _ => source
  | limit l => l.isReached || source
  | collect c => c.finished

/-- The fault of asking a complete operator for a page. -/
def loadFault : Operator → ContractError
  | limit _ => .limitReached
  | _ => .allLoaded

/-- Gives everything back; collected rows are dropped. -/
def release (op : Operator) (b : Budget) : Operator × Budget :=
  match op with
  | filter f => (f.release b).map filter id
  | limit l => (l.release b).map limit id
  | collect c => (c.release b).map collect id

/-- How many rows an operator can show at most without taking another. -/
def backlog : Operator → Nat
  | collect c => if c.finished then c.results.length else c.collector.size
  | _ => 0

theorem backlog_of_take {row : Row} {op op' : Operator} {b b' : Budget} {shown : Bool}
    (h : take row (op, b) = .ok shown (op', b')) : op'.backlog + shown.toNat ≤ op.backlog + 1 := by
  cases op with
  | filter f =>
    obtain ⟨f', -, rfl⟩ := StepResult.within_eq_ok h
    simpa [backlog] using Bool.toNat_le shown
  | limit l =>
    obtain ⟨l', -, rfl⟩ := StepResult.within_eq_ok h
    simpa [backlog] using Bool.toNat_le shown
  | collect c =>
    rcases htake : Collection.take row (c, b) with ⟨⟨⟩, c', b₁⟩ | _
    · obtain ⟨rfl, rfl, rfl⟩ : false = shown ∧ collect c' = op' ∧ b₁ = b' := by
        simpa [take, htake] using h
      obtain ⟨collector, hcollector, hc⟩ := Metered.zoom_eq_ok.1 htake
      have := Collector.size_of_accumulate hcollector
      simp only at hc
      subst hc
      simp only [backlog, Bool.toNat_false]
      split <;> simp_all
    · simp [take, htake] at h

/-- Only a row that is shown can be the last one. -/
theorem isComplete_of_take {row : Row} {op op' : Operator} {b b' : Budget}
    (h : take row (op, b) = .ok false (op', b')) : op'.isComplete = op.isComplete := by
  cases op with
  | filter f =>
    obtain ⟨f', -, rfl⟩ := StepResult.within_eq_ok h
    rfl
  | limit l =>
    obtain ⟨l', hl, rfl⟩ := StepResult.within_eq_ok h
    obtain ⟨toSkip, r, hread, hl⟩ := Metered.bind_eq_ok.1 hl
    obtain ⟨rfl, rfl⟩ := Metered.read_eq_ok.1 hread
    split at hl
    · obtain ⟨⟨⟩, r, -, hl⟩ := Metered.bind_eq_ok.1 hl
      obtain ⟨⟨⟩, r, -, hl⟩ := Metered.bind_eq_ok.1 hl
      cases (Metered.pure_eq_ok.1 hl).1
    · obtain ⟨⟨⟩, r, hskip, hl⟩ := Metered.bind_eq_ok.1 hl
      cases Metered.modifyState_eq_ok.1 hskip
      cases (Metered.pure_eq_ok.1 hl).2
      rfl
  | collect c =>
    rcases htake : Collection.take row (c, b) with ⟨⟨⟩, c', b₁⟩ | _
    · obtain ⟨rfl, rfl⟩ : collect c' = op' ∧ b₁ = b' := by simpa [take, htake] using h
      obtain ⟨collector, -, hc⟩ := Metered.zoom_eq_ok.1 htake
      cases hc
      rfl
    · simp [take, htake] at h

theorem backlog_next (c : Collection) (h : c.finished = true) :
    (next (collect c)).2.backlog + (next (collect c)).1.toNat ≤ (collect c).backlog := by
  rcases hc : c.results with _ | ⟨row, results⟩ <;> simp [next, Collection.next, backlog, h, hc]

theorem backlog_of_showNext {op op' : Operator} {b b' : Budget} {shown : Bool}
    (hop : op.isComplete = true) (h : showNext (op, b) = .ok shown (op', b')) :
    op'.backlog + shown.toNat ≤ op.backlog := by
  cases h
  cases op with
  | collect c => exact backlog_next c hop
  | _ => simp [next, backlog]

theorem backlog_of_conclude {op op' : Operator} {b b' : Budget} {shown : Bool}
    (hop : op.isComplete = false) (h : conclude (op, b) = .ok shown (op', b')) :
    op'.backlog + shown.toNat ≤ op.backlog := by
  obtain ⟨⟨⟩, ⟨mid, b₁⟩, hfinish, h⟩ := Metered.bind_eq_ok.1 h
  cases h
  cases op with
  | filter f =>
    cases hfinish
    exact Nat.le_refl _
  | limit l =>
    cases hfinish
    exact Nat.le_refl _
  | collect c =>
    obtain ⟨c', hc, rfl⟩ := StepResult.within_eq_ok hfinish
    obtain ⟨rows, r, hrows, hc⟩ := Metered.bind_eq_ok.1 hc
    obtain ⟨collector, hcollector, -⟩ := Metered.zoom_eq_ok.1 hrows
    cases Metered.modifyState_eq_ok.1 hc
    have hc : c.finished = false := hop
    refine Nat.le_trans (backlog_next _ rfl) ?_
    simpa [backlog, hc] using Collector.length_of_finish hcollector

end Operator

end RowStream
