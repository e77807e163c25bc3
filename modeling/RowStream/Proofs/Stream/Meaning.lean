import RowStream.Engine.Plan
import RowStream.Proofs.Stream.Flow

/-!
# Meanings of operators

An operator in the middle of its work means a function on flows, too: what it will still show,
given what its source will still hand out. Each step of an operator takes one row off the flow and
leaves an operator that means the rest.

* `Operator.meaning` — the flow that is left to be shown.
* `Operator.take_spec` — one row taken (`Operator.Taken`).
* `Operator.conclude_spec` — the source exhausted (`Operator.Concluded`).
* `Operator.meaning_failed`, `Operator.meaning_of_isComplete` — a failure of the source goes
  through every operator that still takes rows, and no other.
-/

namespace RowStream

/-! ## One row

What the operators that handle rows one by one do with a row, before it is said what that means. -/

/-- **A filter takes a row**: the predicate decides, and outputs are evaluated only where it
holds. -/
theorem RowFilter.yields_take (row : Row) (f : RowFilter) :
    (take row).Yields f
      (OpError.ofEval ((Expr.valuesIf f.predicate f.outputs.exprs row).map Option.isSome))
      fun g => g.predicate = f.predicate ∧ g.outputs.exprs = f.outputs.exprs ∧
        ∀ out, Expr.valuesIf f.predicate f.outputs.exprs row = .ok (some out) →
          g.outputs.current row = out := by
  have hpasses : (Metered.zoom scratch (fun f scratch => { f with scratch })
      (f.predicate.passes row)).Yields f (OpError.ofEval (Expr.holds row f.predicate)) fun g =>
        g.predicate = f.predicate ∧ g.outputs = f.outputs :=
    (Expr.yields_passes row f.predicate f.scratch).zoom fun t _ => ⟨rfl, rfl⟩
  refine (Metered.follows_read RowFilter.predicate f).bind_yields ?_
  -- the predicate decides whether the outputs are evaluated at all
  cases hholds : Expr.holds row f.predicate with
  | error e =>
    have hvalues : Expr.valuesIf f.predicate f.outputs.exprs row = .error e := by
      unfold Expr.valuesIf
      rw [hholds]
      rfl
    rw [hholds] at hpasses
    rw [hvalues]
    exact hpasses.bind_error.mono fun g hg => ⟨hg.1, by rw [hg.2], nofun⟩
  | ok passes =>
    have hvalues : Expr.valuesIf f.predicate f.outputs.exprs row =
        if passes then (Expr.values row f.outputs.exprs).map some else .ok none := by
      unfold Expr.valuesIf
      rw [hholds]
      rfl
    rw [hholds] at hpasses
    rw [hvalues]
    refine hpasses.bind fun g hg => ?_
    obtain ⟨hpredicate, houtputs⟩ := hg
    cases passes with
    | false => exact (Metered.follows_pure false g).yields ⟨hpredicate, by rw [houtputs], nofun⟩
    | true =>
      have hresult : OpError.ofEval (((Expr.values row f.outputs.exprs).map some).map
          Option.isSome) = (OpError.ofEval (Expr.values row g.outputs.exprs)).map fun _ => true := by
        rw [houtputs]
        cases Expr.values row f.outputs.exprs <;> rfl
      simp only [if_true]
      rw [hresult]
      apply Outputs.yields_show
      rw [houtputs]
      intro o hexprs hcurrent
      refine ⟨hpredicate, hexprs, fun out hout => hcurrent out ?_⟩
      cases hvs : Expr.values row f.outputs.exprs with
      | error e => simp [hvs, Except.map] at hout
      | ok vs => simpa [hvs, Except.map] using hout

/-- **A limit takes a row**: it is skipped, or it counts and is projected. -/
theorem RowLimit.yields_take (row : Row) (l : RowLimit) :
    (l.toSkip = 0 ∧ (take row).Yields l
      ((OpError.ofEval (Expr.values row l.outputs.exprs)).map fun _ => true) fun m =>
        m.toSkip = 0 ∧ m.remaining = l.remaining.map (· - 1) ∧
        m.outputs.exprs = l.outputs.exprs ∧
        ∀ out, Expr.values row l.outputs.exprs = .ok out → m.outputs.current row = out) ∨
    (∃ k, l.toSkip = k + 1 ∧ (take row).Follows l [] (.ok false) { l with toSkip := k }) := by
  unfold take
  have hread := Metered.follows_read (ε := OpError) RowLimit.toSkip l
  rcases hskip : l.toSkip with _ | k
  · refine .inl ⟨rfl, hread.bind_yields ?_⟩
    rw [hskip, if_pos rfl]
    refine (Metered.follows_modifyState _ l).bind_yields ?_
    apply Outputs.yields_show
    intro o hexprs hcurrent
    exact ⟨hskip, rfl, hexprs, hcurrent⟩
  · refine .inr ⟨k, rfl, hread.bind ?_⟩
    rw [hskip, if_neg (by omega)]
    have hmodify := Metered.follows_modifyState (ε := OpError)
      (fun l : RowLimit => { l with toSkip := l.toSkip - 1 }) l
    rw [hskip] at hmodify
    exact hmodify.bind (Metered.follows_pure false _)

namespace Operator

/-- What an operator will still show, given what its source will still hand out. -/
def meaning : Operator → Flow → Flow
  | filter f => Flow.filter f.predicate f.outputs.exprs
  | limit l => Flow.slice l.toSkip l.remaining l.outputs.exprs
  | collect c => fun f => if c.finished then ⟨c.results, none⟩ else Flow.collect c.collector f

/-- The operator of a plan means what the plan means. -/
theorem meaning_operator (footprint : Footprint) (p : Projection) :
    (p.operator footprint).meaning = p.meaning footprint := by
  cases p <;> rfl

/-! ## Operators that take rows, and operators that do not

A complete operator shows what it has, and its source does not matter any more. One that takes rows
fails if the flow of its source does. -/

/-- A failure of the source ends an operator that still takes rows. -/
theorem meaning_failed {op : Operator} (h : op.isComplete = false) (e : OpError) :
    op.meaning (.failed e) = .failed e := by
  cases op with
  | filter f => rfl
  | limit l =>
    have hlimit : l.remaining ≠ some 0 := by simpa [isComplete, RowLimit.isReached] using h
    exact Flow.slice_failed hlimit l.toSkip l.outputs.exprs e
  | collect c =>
    have hfinished : c.finished = false := h
    simp [meaning, hfinished, Flow.collect, Flow.failed, Collector.takeAll]

/-- An operator that takes no more rows does not care for its source, and never fails. -/
theorem meaning_of_isComplete {op : Operator} (h : op.isComplete = true) :
    ∃ rows, ∀ f, op.meaning f = ⟨rows, none⟩ := by
  cases op with
  | filter f => cases h
  | limit l =>
    have hlimit : l.remaining = some 0 := by simpa [isComplete, RowLimit.isReached] using h
    refine ⟨[], fun f => ?_⟩
    rw [meaning, hlimit]
    exact Flow.slice_zero l.toSkip l.outputs.exprs f
  | collect c =>
    have hfinished : c.finished = true := h
    exact ⟨c.results, fun f => by simp [meaning, hfinished]⟩

/-- An operator that takes rows still has pages to load if its source has. -/
theorem allLoaded_false {op : Operator} (h : op.isComplete = false) :
    op.allLoaded false = false := by
  cases op with
  | filter f => rfl
  | limit l => simpa [allLoaded, isComplete] using h
  | collect c => exact h

/-! ## Showing what is left

Rows that are left over are shown one by one, each taking itself off the meaning. -/

/-- What showing the next row that is left says about the meaning: one row less, or nothing, now
and later. -/
def Shown (op : Operator) : Bool → Operator → Prop
  | true, op' => op'.isComplete = true ∧
      ∀ f input, op.meaning f = (op'.meaning f).cons (op'.current input)
  | false, op' => (∀ f, op.meaning f = .ended ∧ op'.meaning f = .ended) ∧
      ∀ source, op'.allLoaded source = true

theorem isComplete_next (op : Operator) : op.next.2.isComplete = op.isComplete := by
  cases op with
  | filter f => rfl
  | limit l => rfl
  | collect c => cases hresults : c.results <;> simp [next, Collection.next, isComplete, hresults]

theorem next_spec {op : Operator} (h : op.isComplete = true) : op.Shown op.next.1 op.next.2 := by
  cases op with
  | filter f => cases h
  -- a limit is complete only once it has nothing left to let through
  | limit l =>
    obtain ⟨rows, hrows⟩ := meaning_of_isComplete h
    have hlimit : l.remaining = some 0 := by simpa [isComplete, RowLimit.isReached] using h
    have hnothing (f : Flow) : (limit l).meaning f = .ended := by
      rw [meaning, hlimit]
      exact Flow.slice_zero l.toSkip l.outputs.exprs f
    refine ⟨fun f => ⟨hnothing f, hnothing f⟩, fun source => ?_⟩
    simp [next, allLoaded, RowLimit.isReached, hlimit]
  | collect c =>
    have hfinished : c.finished = true := h
    cases hresults : c.results with
    | nil =>
      simp [next, Collection.next, Shown, meaning, allLoaded, Flow.ended, hfinished, hresults]
    | cons row results =>
      simp [next, Collection.next, Shown, meaning, isComplete, current, Flow.cons, hfinished,
        hresults]

/-! ## Taking a row

The step: the operator takes the first row of a flow and is left meaning what is left of the flow.
What the row itself has become stands in front, or it was left out, or it failed. -/

/-- What taking a row says about the meaning: a row is shown and the rest is left, or the row is
left out, or it is the one that fails. -/
def Taken (op : Operator) (row : Row) : Except OpError Bool → Operator → Prop
  | .ok true, op' => ∀ f : Flow, op.meaning (f.cons row) = (op'.meaning f).cons (op'.current row)
  | .ok false, op' => op'.isComplete = false ∧ ∀ f : Flow, op.meaning (f.cons row) = op'.meaning f
  | .error e, _ => ∀ f : Flow, op.meaning (f.cons row) = .failed e

/-- Operators of one kind take rows as their own computation says. -/
theorem taken_of_yields {σ : Type} (whole : σ → Operator) {m : Metered.Op σ Bool} {s : σ}
    {row : Row} {r : Except OpError Bool} {post : σ → Prop} (hm : m.Yields s r post)
    (htake : ∀ b, take row (whole s, b) = StepResult.within whole (m (s, b)))
    (hpost : ∀ t, post t → Taken (whole s) row r (whole t)) :
    ∃ ms r op, Taken (whole s) row r op ∧ (take row).Follows (whole s) ms r op := by
  obtain ⟨ms, t, ht, hm⟩ := hm
  exact ⟨ms, r, whole t, hpost t ht, hm.within htake⟩

theorem take_filter (row : Row) (f : RowFilter) :
    ∃ ms r op, Taken (filter f) row r op ∧ (take row).Follows (filter f) ms r op := by
  refine taken_of_yields filter (f.yields_take row) (fun b => rfl) ?_
  rintro g ⟨hpredicate, hexprs, hcurrent⟩
  cases hvalues : Expr.valuesIf f.predicate f.outputs.exprs row with
  | error e =>
    intro rest
    simp only [meaning]
    rw [Flow.filter_cons, hvalues]
  | ok kept =>
    cases kept with
    | none =>
      refine ⟨rfl, fun rest => ?_⟩
      simp only [meaning]
      rw [Flow.filter_cons, hvalues, hpredicate, hexprs]
    | some out =>
      intro rest
      simp only [meaning, current]
      rw [Flow.filter_cons, hvalues, hpredicate, hexprs, hcurrent out hvalues]

theorem take_limit (row : Row) (l : RowLimit) (h : (limit l).isComplete = false) :
    ∃ ms r op, Taken (limit l) row r op ∧ (take row).Follows (limit l) ms r op := by
  have hlimit : l.remaining ≠ some 0 := by simpa [isComplete, RowLimit.isReached] using h
  -- the row is behind the offset, or it is skipped
  obtain ⟨hskip, htake⟩ | ⟨k, hskip, htake⟩ := l.yields_take row
  · refine taken_of_yields limit htake (fun b => rfl) ?_
    rintro m ⟨hskipped, hremaining, hexprs, hcurrent⟩
    cases hvalues : Expr.values row l.outputs.exprs with
    | error e =>
      intro rest
      simp only [meaning]
      rw [hskip, Flow.slice_cons_show hlimit, hvalues]
    | ok out =>
      intro rest
      simp only [meaning, current]
      rw [hskip, Flow.slice_cons_show hlimit, hvalues, hskipped, hremaining, hexprs,
        hcurrent out hvalues]
  · refine ⟨[], .ok false, limit { l with toSkip := k }, ⟨h, fun rest => ?_⟩,
      htake.within fun b => rfl⟩
    simp only [meaning]
    rw [hskip, Flow.slice_cons_skip]

/-- A collecting operator folds the row into its collector. -/
theorem take_collect (row : Row) (c : Collection) (h : c.finished = false) :
    ∃ ms r op, Taken (collect c) row r op ∧ (take row).Follows (collect c) ms r op := by
  obtain ⟨ms, r, d, htrace⟩ := Collector.traced_accumulate row c.collector
  have hfree := htrace.free_eq
  have htake : (Collection.take row).Follows c ms r { c with collector := d } := htrace.zoom
  -- taking a row shows none; the rows come out of the collector when it finishes
  refine ⟨ms, r.map fun () => false, collect { c with collector := d }, ?_, ?_, ?_⟩
  · cases r with
    | error e =>
      intro rest
      simp [meaning, h, Flow.collect, Collector.takeAll, hfree]
    | ok u =>
      refine ⟨h, fun rest => ?_⟩
      simp [meaning, h, Flow.collect, Collector.takeAll, hfree]
  · intro b b' hb
    unfold take
    simp only [htake.granted hb]
    cases r <;> rfl
  · intro b b' e hb
    obtain ⟨u, hu⟩ := htake.refused hb
    exact ⟨collect u, by simp [take, hu]⟩

/-- **One row taken.** An operator that takes rows comes to an outcome along a trace, and the
outcome says what is left of the meaning. -/
theorem take_spec (row : Row) {op : Operator} (h : op.isComplete = false) :
    ∃ ms r op', op.Taken row r op' ∧ (take row).Follows op ms r op' := by
  cases op with
  | filter f => exact take_filter row f
  | limit l => exact take_limit row l h
  | collect c => exact take_collect row c h

/-! ## The end of the source

A collector sorts or sums up when the source ends; from then on the operator has rows to show and
takes none. -/

/-- What the end of the source says about the meaning. -/
def Concluded (op : Operator) : Except OpError Bool → Operator → Prop
  | .ok true, op' => op'.isComplete = true ∧
      ∀ (f : Flow) (input : Row), op.meaning .ended = (op'.meaning f).cons (op'.current input)
  | .ok false, op' => (op.meaning .ended = .ended ∧ op'.meaning .ended = .ended) ∧
      op'.allLoaded true = true
  | .error e, _ => op.meaning .ended = .failed e

/-- A collecting operator has the rows of its collector to show from now on. -/
theorem follows_finish (c : Collection) {ms : List Movement} {r : Except OpError (List Row)}
    {d : Collector} (h : Collector.finish.Follows c.collector ms r d) :
    ∃ c', (∀ rows, r = .ok rows → c'.finished = true ∧ c'.results = rows) ∧
      finish.Follows (collect c) ms (r.map fun _ => ()) (collect c') := by
  have hzoom : (Metered.zoom Collection.collector (fun c collector => { c with collector })
      Collector.finish).Follows c ms r { c with collector := d } := h.zoom
  cases r with
  | error e =>
    exact ⟨_, nofun, Metered.Follows.within (fun b => rfl) hzoom.bind_error⟩
  | ok rows =>
    have hmodify := Metered.follows_modifyState (ε := OpError)
      (fun c : Collection => { c with finished := true, results := rows })
      { c with collector := d }
    have hfinish : Collection.finish.Follows c (ms ++ []) (.ok ()) _ := hzoom.bind hmodify
    rw [List.append_nil] at hfinish
    exact ⟨_, fun rows' hrows => by cases hrows; exact ⟨rfl, rfl⟩, hfinish.within fun b => rfl⟩

/-- **The source exhausted.** An operator that has taken all rows shows the first that is left. -/
theorem conclude_spec {op : Operator} (h : op.isComplete = false) :
    ∃ ms r op', op.Concluded r op' ∧ conclude.Follows op ms r op' := by
  have hnext (op : Operator) :
      showNext.Follows op [] (.ok op.next.1) op.next.2 := .still fun b => rfl
  cases op with
  | filter f =>
    have hfinish : finish.Follows (filter f) [] (.ok ()) (filter f) := .still fun b => rfl
    exact ⟨_, .ok false, filter f, ⟨⟨rfl, rfl⟩, rfl⟩, hfinish.bind (hnext (filter f))⟩
  | limit l =>
    have hfinish : finish.Follows (limit l) [] (.ok ()) (limit l) := .still fun b => rfl
    have hloaded : (limit l).allLoaded true = true := by simp [allLoaded]
    have hended : (limit l).meaning .ended = .ended := Flow.slice_ended _ _ _
    exact ⟨_, .ok false, limit l, ⟨⟨hended, hended⟩, hloaded⟩, hfinish.bind (hnext (limit l))⟩
  | collect c =>
    have hfinished : c.finished = false := h
    obtain ⟨ms, r, d, htrace⟩ := Collector.traced_finish c.collector
    have hfree := htrace.free_eq
    obtain ⟨c', hc', hfinish⟩ := follows_finish c htrace
    cases r with
    | error e =>
      refine ⟨_, .error e, _, ?_, hfinish.bind_error⟩
      simp [Concluded, meaning, hfinished, Flow.collect, Flow.ended, Collector.takeAll, hfree]
    | ok rows =>
      obtain ⟨hdone, hresults⟩ := hc' rows rfl
      have hmeaning : (collect c).meaning .ended = (collect c').meaning .ended := by
        simp [meaning, hfinished, Flow.collect, Flow.ended, Collector.takeAll, hfree, hdone,
          hresults]
      have hshown : (collect c').Shown (collect c').next.1 (collect c').next.2 := next_spec hdone
      refine ⟨_, .ok _, _, ?_, hfinish.bind (hnext (collect c'))⟩
      cases hshow : (collect c').next.1 with
      | true =>
        rw [hshow] at hshown
        refine ⟨hshown.1, fun f input => ?_⟩
        -- what a complete operator has left does not depend on a flow
        obtain ⟨left, hleft⟩ := meaning_of_isComplete hshown.1
        rw [hmeaning, hshown.2 .ended input, hleft, hleft]
      | false =>
        rw [hshow] at hshown
        obtain ⟨hended, hafter⟩ := hshown.1 .ended
        exact ⟨⟨hmeaning.trans hended, hafter⟩, hshown.2 true⟩

end Operator

end RowStream
