import RowStream.Proofs.Stream.Simulation

/-!
# What pulling keeps

Whoever pulls an iterator asks for rows until there is none, and for a page only then. What holds of the
iterator along the way is an invariant of this kind of asking: it may say more where a row can be asked for
than where a page can be, and there more than where a step has failed. It may not depend on the job.

* `Stage.leaves_moveNext`, `Stage.leaves_load` — what a stage adds to its advance and to a load of its source.
* `PullInvariant` — such an invariant. Pages that it lets be asked for are there and bring no more rows
  than were left.
* `PullInvariant.feed_spec`, `PullInvariant.advance_spec`, `PullInvariant.stage` — what is kept below a
  stage, whatever its operator is.
* `Chain.invariant` — below chains of any length, by recursion on the length.
-/

namespace RowStream

/-- What a step leaves, whether it ends well or not. -/
def StepResult.Leaves {ε κ σ α : Type} (post : α → σ → Prop) (kept : σ → Prop) :
    StepResult ε κ σ α → Prop
  | .ok a (t, _) => post a t
  | .error _ (t, _) => kept t

theorem StepResult.Leaves.mono {ε κ σ α : Type} {post post' : α → σ → Prop} {kept kept' : σ → Prop}
    {r : StepResult ε κ σ α} (hr : r.Leaves post kept) (h : ∀ a t, post a t → post' a t)
    (hkept : ∀ t, kept t → kept' t) : r.Leaves post' kept' := by
  rcases r with ⟨a, t, k⟩ | ⟨e, t, k⟩
  · exact h a t hr
  · exact hkept t hr

/-- Once its source is exhausted an operator needs no page, and what it shows then is left over. -/
theorem Operator.isComplete_of_conclude {op op' : Operator} {b b' : Budget} {shown : Bool}
    (h : conclude (op, b) = .ok shown (op', b')) :
    op'.allLoaded true = true ∧ (shown = true → op'.isComplete = true) := by
  obtain ⟨⟨⟩, ⟨mid, b₁⟩, hfinish, h⟩ := Metered.bind_eq_ok.1 h
  cases h
  cases op with
  | filter f =>
    cases hfinish
    exact ⟨rfl, nofun⟩
  | limit l =>
    cases hfinish
    exact ⟨Bool.or_true _, nofun⟩
  | collect c =>
    obtain ⟨c', hc, rfl⟩ := StepResult.within_eq_ok hfinish
    obtain ⟨rows, r, -, hc⟩ := Metered.bind_eq_ok.1 hc
    cases Metered.modifyState_eq_ok.1 hc
    cases rows <;> exact ⟨rfl, fun _ => rfl⟩

/-! ## Frames of a stage

What a call of a stage does beside the calls of its source: it keeps books on its own state. -/

namespace Stage

variable {σ : Type} [BatchIterator σ] {stage : Stage} {s : σ} {job : Job} (kept : σ → Prop)

/-- Asked for a row, a stage leaves what its advance leaves. One that is closed or has failed asks nothing of
its source. -/
theorem leaves_moveNext {post : Bool → Operator × σ → Prop} (hkept : kept s)
    (hadvance : (advance stage.operator s job).Leaves post fun p => kept p.2) :
    StepResult.Leaves (fun more p => post more (p.1.operator, p.2)) (fun p => kept p.2)
      (moveNext ((stage, s), job)) := by
  by_cases hopen : stage.IsOpen
  · rw [show moveNext ((stage, s), job) = _ from congrFun (moveNext_eq hopen s) job]
    rcases hrun : advance stage.operator s job with ⟨more, p, job'⟩ | ⟨e, p, job'⟩ <;>
      rw [hrun] at hadvance <;>
      exact hadvance
  · obtain ⟨op, state⟩ := stage
    cases state with
    | closed => exact hkept
    | failed => exact hkept
    | _ => exact absurd ⟨nofun, nofun⟩ hopen

/-- Asked for a page, a stage keeps its operator and its backlog. -/
theorem leaves_load {live : σ → Prop} (hop : stage.operator.isComplete = false) (hkept : kept s)
    (hload : StepResult.Leaves (fun progress t => progress = .ready ∧ live t ∧
      BatchIterator.ready t + BatchIterator.pages t ≤ BatchIterator.ready s + BatchIterator.pages s) kept
      (BatchIterator.load (s, job))) :
    StepResult.Leaves (fun progress p => progress = .ready ∧ (p.1 = stage ∧ live p.2) ∧
      BatchIterator.ready p + BatchIterator.pages p ≤
        BatchIterator.ready (stage, s) + BatchIterator.pages (stage, s)) (fun p => kept p.2)
      (load ((stage, s), job)) := by
  unfold load
  by_cases hclosed : stage.state = .closed
  · simp only [hclosed, if_true]
    exact hkept
  · simp only [hclosed, hop]
    rcases hrun : BatchIterator.load (s, job) with ⟨progress, t, job'⟩ | ⟨e, t, job'⟩ <;>
      rw [hrun] at hload
    · obtain ⟨hready, hlive, hle⟩ := hload
      refine ⟨hready, ⟨rfl, hlive⟩, ?_⟩
      show stage.operator.backlog + _ + _ ≤ stage.operator.backlog + _ + _
      rw [Nat.add_assoc, Nat.add_assoc]
      exact Nat.add_le_add_left hle _
    · exact hload

end Stage

/-- What holds of an iterator while it is pulled. -/
structure PullInvariant (σ : Type) [BatchIterator σ] where
  /-- Where a row can be asked for. -/
  live : σ → Prop
  /-- Where the loaded pages are used up and there is another. -/
  waiting : σ → Prop
  /-- Where there are no more rows. -/
  ended : σ → Prop
  /-- Everywhere, and also where a step has failed. -/
  kept : σ → Prop
  moveNext_spec {s : σ} : live s → ∀ job, StepResult.Leaves
    (fun more t => if more then live t else if BatchIterator.allLoaded t then ended t else waiting t) kept
    (BatchIterator.moveNext (s, job))
  load_spec {s : σ} : waiting s → ∀ job, StepResult.Leaves
    (fun progress t => progress = .ready ∧ live t ∧
      BatchIterator.ready t + BatchIterator.pages t ≤ BatchIterator.ready s + BatchIterator.pages s) kept
    (BatchIterator.load (s, job))
  kept_of_live {s : σ} : live s → kept s
  kept_of_waiting {s : σ} : waiting s → kept s
  kept_of_ended {s : σ} : ended s → kept s

namespace PullInvariant

variable {σ : Type} [BatchIterator σ] (I : PullInvariant σ)

/-! ## Stages

A stage calls its source as whoever pulls does: for rows until there is none, then for a page. So an
invariant of pulling goes through a stage. -/

/-- What feeding an operator leaves. -/
def Fed (op : Operator) (more : Bool) : Operator × σ → Prop
  | (op', t) =>
    if more then I.live t
    else op'.isComplete = op.isComplete ∧
      if BatchIterator.allLoaded t then I.ended t else I.waiting t

theorem feed_spec (op : Operator) {s : σ} (hlive : I.live s) (job : Job) :
    StepResult.Leaves (I.Fed op) (fun p => I.kept p.2) (Stage.feed op s job) := by
  have hstep := I.moveNext_spec hlive job
  fun_induction Stage.feed op s job with
  | case1 op s job e s' job' hmove =>
    rw [hmove] at hstep
    exact hstep
  | case2 op s job s' job' hmove =>
    rw [hmove] at hstep
    exact ⟨rfl, hstep⟩
  | case3 op s job s' job' hmove e op' job'' htake =>
    rw [hmove] at hstep
    exact I.kept_of_live hstep
  | case4 op s job s' job' hmove op' job'' htake =>
    rw [hmove] at hstep
    exact hstep
  | case5 op s job s' job' hmove op' job'' htake ih =>
    rw [hmove] at hstep
    -- a row that shows nothing leaves the operator as incomplete as it was
    have hop' := Operator.isComplete_of_take (Running.spend_eq_ok htake)
    have hrest := ih hstep (I.moveNext_spec hstep job'')
    unfold Fed at hrest ⊢
    rwa [hop'] at hrest

/-- What advancing a stage leaves. -/
def Advanced (more : Bool) : Operator × σ → Prop
  | (op, t) =>
    if more then I.kept t ∧ (op.isComplete = false → I.live t)
    else if op.allLoaded (BatchIterator.allLoaded t) then I.kept t
    else op.isComplete = false ∧ I.waiting t

theorem advance_spec {op : Operator} {s : σ} (hkept : I.kept s)
    (hlive : op.isComplete = false → I.live s) (job : Job) :
    StepResult.Leaves I.Advanced (fun p => I.kept p.2) (Stage.advance op s job) := by
  unfold Stage.advance
  cases hop : op.isComplete with
  | true =>
    -- an operator stays complete when it shows what it has left
    have hnext := Operator.next_spec hop
    show I.Advanced op.next.1 (op.next.2, s)
    cases hshown : op.next.1 with
    | true =>
      rw [hshown] at hnext
      exact ⟨hkept, fun hincomplete => absurd (hnext.1.symm.trans hincomplete) nofun⟩
    | false =>
      rw [hshown] at hnext
      rw [Advanced, if_neg Bool.false_ne_true, if_pos (hnext.2 _)]
      exact hkept
  | false =>
    have hfeed := I.feed_spec op (hlive hop) job
    rw [if_neg Bool.false_ne_true]
    rcases hrun : Stage.feed op s job with ⟨_ | _, ⟨op', t⟩, job'⟩ | ⟨e, p, job'⟩ <;>
      rw [hrun] at hfeed
    · -- the loaded pages of the source are used up; an operator concludes if there is no other
      obtain ⟨hop', hused⟩ := hfeed
      simp only
      cases hloaded : BatchIterator.allLoaded t with
      | true =>
        rw [hloaded, if_pos rfl] at hused
        rw [if_pos rfl]
        have hkept' := I.kept_of_ended hused
        rcases hconclude : Running.spend Operator.conclude (op', job') with
          ⟨shown, op'', job''⟩ | ⟨e, op'', job''⟩
        · obtain ⟨hall, hcomplete⟩ := Operator.isComplete_of_conclude (Running.spend_eq_ok hconclude)
          show I.Advanced shown (op'', t)
          cases shown with
          | true => exact ⟨hkept', fun hincomplete => absurd ((hcomplete rfl).symm.trans hincomplete) nofun⟩
          | false =>
            rw [Advanced, if_neg Bool.false_ne_true, hloaded, if_pos hall]
            exact hkept'
        · exact hkept'
      | false =>
        rw [hloaded, if_neg Bool.false_ne_true] at hused
        rw [if_neg Bool.false_ne_true]
        rw [hop] at hop'
        show I.Advanced false (op', t)
        rw [Advanced, if_neg Bool.false_ne_true, hloaded, if_neg (by simp [Operator.allLoaded_false hop'])]
        exact ⟨hop', hused⟩
    · exact ⟨I.kept_of_live hfeed, fun _ => hfeed⟩
    · exact hfeed

/-- A row of a stage can be asked for if its operator has some left or one of its source can be. -/
def StageLive (p : Stage × σ) : Prop :=
  I.kept p.2 ∧ (p.1.operator.isComplete = false → I.live p.2)

def StageWaiting (p : Stage × σ) : Prop := p.1.operator.isComplete = false ∧ I.waiting p.2

theorem stage_moveNext {p : Stage × σ} (hlive : I.StageLive p) (job : Job) :
    StepResult.Leaves
      (fun more q => if more then I.StageLive q
        else if BatchIterator.allLoaded q then I.kept q.2 else I.StageWaiting q)
      (fun q => I.kept q.2) (BatchIterator.moveNext (p, job)) :=
  Stage.leaves_moveNext I.kept hlive.1 (I.advance_spec hlive.1 hlive.2 job)

theorem stage_load {p : Stage × σ} (hwaiting : I.StageWaiting p) (job : Job) :
    StepResult.Leaves
      (fun progress q => progress = .ready ∧ I.StageLive q ∧
        BatchIterator.ready q + BatchIterator.pages q ≤ BatchIterator.ready p + BatchIterator.pages p)
      (fun q => I.kept q.2) (BatchIterator.load (p, job)) := by
  obtain ⟨hop, hwaiting⟩ := hwaiting
  refine (Stage.leaves_load I.kept hop (I.kept_of_waiting hwaiting) (I.load_spec hwaiting job)).mono
    (fun progress q h => ?_) fun _ => id
  obtain ⟨hready, ⟨-, hlive⟩, hle⟩ := h
  exact ⟨hready, ⟨I.kept_of_live hlive, fun _ => hlive⟩, hle⟩

/-- **What a stage keeps of its source** does not depend on what it does with the rows. -/
def stage : PullInvariant (Stage × σ) where
  live := I.StageLive
  waiting := I.StageWaiting
  ended p := I.kept p.2
  kept p := I.kept p.2
  moveNext_spec := I.stage_moveNext
  load_spec := I.stage_load
  kept_of_live h := h.1
  kept_of_waiting h := I.kept_of_waiting h.2
  kept_of_ended h := h

end PullInvariant

/-! ## Chains

Induction on the number of stages. -/

namespace Chain

variable {β : Type} [BatchIterator β]

/-- **What a chain keeps of its source**, stage by stage. -/
def invariant (I : PullInvariant β) : (n : Nat) → PullInvariant (Chain β n)
  | 0 => I
  | n + 1 => (invariant I n).stage

theorem kept_invariant (I : PullInvariant β) {n : Nat} {c : Chain β n} :
    (invariant I n).kept c ↔ I.kept c.source := by
  induction n with
  | zero => rfl
  | succ n ih => exact ih

theorem live_invariant_build (I : PullInvariant β) {source : β} (h : I.live source)
    (ops : List Operator) : (invariant I ops.length).live (build source ops) := by
  induction ops with
  | nil => exact h
  | cons op ops ih => exact ⟨(invariant I ops.length).kept_of_live ih, fun _ => ih⟩

end Chain

end RowStream
