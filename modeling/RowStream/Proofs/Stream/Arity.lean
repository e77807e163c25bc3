import RowStream.Proofs.Collector.Arity
import RowStream.Proofs.Stream.Invariant

/-!
# Rows of one shape

What the rows of an iterator have in common does not depend on who asks for them, in which order, and what
failed before. A stage hands out rows of one arity over any source, also over one whose rows are ragged.

* `RowInvariant` — what every call of an iterator keeps, and what its rows have in common.
* `RowInvariant.feed_spec`, `RowInvariant.advance_spec`, `RowInvariant.stage` — a stage over any iterator.
-/

namespace RowStream

/-- An invariant that all calls keep, in any order and also where they fail, and under which all rows that are
handed out have something in common. -/
structure RowInvariant (σ : Type) [BatchIterator σ] (common : Row → Prop) where
  inv : σ → Prop
  moveNext_spec {s : σ} : inv s → ∀ job, StepResult.Leaves
    (fun more t => inv t ∧ (more = true → common (BatchIterator.current t))) inv (BatchIterator.moveNext (s, job))
  load_spec {s : σ} : inv s → ∀ job, StepResult.Leaves (fun _ => inv) inv (BatchIterator.load (s, job))
  close_spec {s : σ} : inv s → ∀ job, inv (BatchIterator.close s job).1

namespace RowInvariant

/-- Nothing is known of the rows of an iterator. -/
def any (σ : Type) [BatchIterator σ] : RowInvariant σ fun _ => True where
  inv _ := True
  moveNext_spec {s} _ job := by
    rcases BatchIterator.moveNext (s, job) with ⟨more, t, job'⟩ | ⟨e, t, job'⟩ <;>
      simp [StepResult.Leaves]
  load_spec {s} _ job := by
    rcases BatchIterator.load (s, job) with ⟨progress, t, job'⟩ | ⟨e, t, job'⟩ <;> trivial
  close_spec _ _ := trivial

variable {σ : Type} [BatchIterator σ] {common : Row → Prop} (I : RowInvariant σ common) {arity : Nat}

/-! ## Stages

A stage keeps the invariant of its source whatever it does with the rows, since it only calls it.
What it shows itself comes from its operator, or is a row of the source that the operator hands on;
that one has the right arity, or it would have been projected. -/

/-- An operator fits, and so does the row that it shows, if it shows one. -/
def Shown (arity : Nat) (shown : Bool) : Operator × σ → Prop
  | (op, t) => op.Fits arity ∧ I.inv t ∧
      (shown = true → (op.current (BatchIterator.current t)).length = arity)

/-- **Rows are taken** until one is shown, whatever they look like. -/
theorem feed_spec {op : Operator} (hop : op.Fits arity) {s : σ} (hs : I.inv s) (job : Job) :
    StepResult.Leaves (I.Shown arity) (fun p => I.inv p.2) (Stage.feed op s job) := by
  have hstep := I.moveNext_spec hs job
  fun_induction Stage.feed op s job with
  | case1 op s job e s' job' hmove =>
    -- the source fails
    rw [hmove] at hstep
    exact hstep
  | case2 op s job s' job' hmove =>
    -- the source has no row to give
    rw [hmove] at hstep
    exact ⟨hop, hstep.1, fun hshown => absurd hshown Bool.false_ne_true⟩
  | case3 op s job s' job' hmove e op' job'' htake =>
    -- the operator fails on the row
    rw [hmove] at hstep
    exact hstep.1
  | case4 op s job s' job' hmove op' job'' htake =>
    -- the operator has a row to show
    rw [hmove] at hstep
    obtain ⟨hop', hrow⟩ := Operator.fits_take hop (Running.spend_eq_ok htake)
    exact ⟨hop', hstep.1, hrow⟩
  | case5 op s job s' job' hmove op' job'' htake ih =>
    -- the operator swallowed the row, and the next one is asked for
    rw [hmove] at hstep
    obtain ⟨hop', -⟩ := Operator.fits_take hop (Running.spend_eq_ok htake)
    exact ih hop' hstep.1 (I.moveNext_spec hstep.1 job'')

theorem advance_spec {op : Operator} (hop : op.Fits arity) {s : σ} (hs : I.inv s) (job : Job) :
    StepResult.Leaves (I.Shown arity) (fun p => I.inv p.2) (Stage.advance op s job) := by
  unfold Stage.advance
  split
  · obtain ⟨hnext, hrow⟩ := Operator.fits_next hop (BatchIterator.current s)
    exact ⟨hnext, hs, hrow⟩
  · have hfeed := I.feed_spec hop hs job
    rcases hrun : Stage.feed op s job with ⟨_ | _, ⟨op', t⟩, job'⟩ | ⟨e, p, job'⟩ <;> rw [hrun] at hfeed
    · obtain ⟨hop', ht, -⟩ := hfeed
      simp only
      split
      · -- the rows came to an end, and the operator is asked for what it has left
        rcases hconclude : Running.spend Operator.conclude (op', job') with
          ⟨shown, op'', job''⟩ | ⟨e, op'', job''⟩
        · obtain ⟨hop'', hrow⟩ :=
            Operator.fits_conclude hop' (Running.spend_eq_ok hconclude) (BatchIterator.current t)
          exact ⟨hop'', ht, hrow⟩
        · exact ht
      · exact ⟨hop', ht, fun hshown => absurd hshown Bool.false_ne_true⟩
    · exact hfeed
    · exact hfeed

/-- A stage that is closed or has failed shows no more rows, so its operator may have given everything back. -/
def Staged (arity : Nat) (p : Stage × σ) : Prop := (p.1.IsOpen → p.1.operator.Fits arity) ∧ I.inv p.2

theorem stage_moveNext {p : Stage × σ} (hp : I.Staged arity p) (job : Job) :
    StepResult.Leaves (fun more q => I.Staged arity q ∧ (more = true → (BatchIterator.current q).length = arity))
      (I.Staged arity) (BatchIterator.moveNext (p, job)) := by
  obtain ⟨stage, s⟩ := p
  by_cases hopen : stage.IsOpen
  · have hadvance := I.advance_spec (hp.1 hopen) hp.2 job
    show StepResult.Leaves _ _ (Stage.moveNext ((stage, s), job))
    rw [show Stage.moveNext ((stage, s), job) = _ from congrFun (Stage.moveNext_eq hopen s) job]
    rcases hrun : Stage.advance stage.operator s job with ⟨shown, ⟨op, t⟩, job'⟩ | ⟨e, ⟨op, t⟩, job'⟩ <;>
      rw [hrun] at hadvance
    · exact ⟨⟨fun _ => hadvance.1, hadvance.2.1⟩, hadvance.2.2⟩
    · exact ⟨fun hopen => absurd rfl hopen.2, hadvance⟩
  · -- a closed stage and a failed one answer without asking their operator
    obtain ⟨op, state⟩ := stage
    cases state with
    | closed => exact hp
    | failed => exact hp
    | _ => exact absurd ⟨nofun, nofun⟩ hopen

theorem stage_load {p : Stage × σ} (hp : I.Staged arity p) (job : Job) :
    StepResult.Leaves (fun _ => I.Staged arity) (I.Staged arity) (BatchIterator.load (p, job)) := by
  obtain ⟨stage, s⟩ := p
  have hload := I.load_spec hp.2 job
  show StepResult.Leaves _ _ (Stage.load ((stage, s), job))
  unfold Stage.load
  simp only
  split
  · exact hp
  · split
    · exact hp
    · rcases hrun : BatchIterator.load (s, job) with ⟨progress, t, job'⟩ | ⟨e, t, job'⟩ <;> rw [hrun] at hload
      · exact ⟨hp.1, hload⟩
      · exact ⟨fun hopen => absurd rfl hopen.2, hload⟩

theorem stage_close {p : Stage × σ} (hp : I.Staged arity p) (job : Job) :
    I.Staged arity (BatchIterator.close p job).1 := by
  obtain ⟨stage, s⟩ := p
  show I.Staged arity (Stage.close (stage, s) job).1
  unfold Stage.close
  simp only
  split
  · exact hp
  · exact ⟨fun hopen => absurd rfl hopen.1, I.close_spec hp.2 _⟩

/-- **The rows of a stage have one arity**, and what its source keeps is kept. -/
def stage (arity : Nat) : RowInvariant (Stage × σ) fun row => row.length = arity where
  inv := I.Staged arity
  moveNext_spec := I.stage_moveNext
  load_spec := I.stage_load
  close_spec := I.stage_close

end RowInvariant

end RowStream
