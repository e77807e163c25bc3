import RowStream.Proofs.Stream.Meaning
import RowStream.Proofs.Stream.Release
import RowStream.Proofs.Stream.Trace
import RowStream.Stream.Chain

/-!
# Iterators as flows

A simulation says of an iterator in any state which flow it will still hand out: `live` as long as
it can be asked for a row, `waiting` once its loaded pages are used up and a page has to be asked
for. Pages, batches and waiting are nowhere in the flow; the laws of a simulation say that they
make no difference.

* `Simulation` — the two relations and the laws of the steps.
* `Simulation.feed_spec` — a stage takes rows until it shows one.
* `Simulation.stage` — a stage over a simulated iterator is simulated, through the meaning of its
  operator.
* `Chain.simulation` — so is a chain of any length, by recursion on the length.
-/

namespace RowStream

theorem IteratorState.hasNext_ne : hasNext ≠ closed ∧ hasNext ≠ failed := ⟨nofun, nofun⟩

theorem IteratorState.idle_ne (allLoaded : Bool) :
    idle allLoaded ≠ closed ∧ idle allLoaded ≠ failed := by
  cases allLoaded <;> exact ⟨nofun, nofun⟩

section Outcomes

variable {σ α : Type} [BatchIterator σ]

/-- How stepping to the next row of a flow may end. Whoever came to the end can be asked again. -/
def Moved (live waiting : σ → Flow → Prop) (f : Flow) : Except OpError Bool → σ → Prop
  | .ok true, t => ∃ rest : Flow, f = rest.cons (BatchIterator.current t) ∧ live t rest
  | .ok false, t =>
      if BatchIterator.allLoaded t = true then f = .ended ∧ live t .ended else waiting t f
  | .error e, _ => f = .failed e

theorem Moved.ended {live waiting : σ → Flow → Prop} {f : Flow} {t : σ}
    (h : Moved live waiting f (.ok false) t) :
    if BatchIterator.allLoaded t = true then f = .ended else waiting t f := by
  unfold Moved at h
  cases hloaded : BatchIterator.allLoaded t <;> simp_all

/-- How asking for a page may end, given what is still to arrive. To wait is an answer only if
something is. -/
def Loaded (deliver : α → σ → σ) (live waiting : σ → List α → Flow → Prop) (as : List α)
    (f : Flow) : Except OpError Load → σ → Prop
  | .ok .ready, t => live t as f
  | .ok .pending, t => ∃ a rest, as = a :: rest ∧ waiting (deliver a t) rest f
  | .error e, _ => f = .failed e

end Outcomes

/-- Which flow an iterator will still hand out, given what is still to arrive at its source. -/
structure Simulation (σ α : Type) [BatchIterator σ] where
  /-- The iterator can be asked for a row. -/
  live : σ → List α → Flow → Prop
  /-- The loaded pages are used up, and there are pages to ask for. -/
  waiting : σ → List α → Flow → Prop
  /-- What an arrival does to the source. -/
  deliver : α → σ → σ
  moveNext_spec {s : σ} {as : List α} {f : Flow} : live s as f →
    JobStep.Settles (fun job => BatchIterator.moveNext (s, job))
      (Moved (live · as) (waiting · as) f)
  load_spec {s : σ} {as : List α} {f : Flow} : waiting s as f →
    JobStep.Settles (fun job => BatchIterator.load (s, job)) (Loaded deliver live waiting as f)
  close_spec (s : σ) : ∃ (t : σ) (sizes : List Nat), ∀ b,
    BatchIterator.close s (.live b) = (t, .live (sizes.foldl Budget.giveBack b))

/-! ## The steps of a stage, taken apart

A stage looks at its own state, asks its source, and lets its operator work. These are equations;
all that is proved of stages goes through them. -/

namespace Stage

variable {σ : Type} [BatchIterator σ]

theorem feed_eq (op : Operator) (s : σ) :
    feed op s = fun job =>
      StepResult.andThen (BatchIterator.moveNext (s, job))
        (fun more s job =>
          if more then
            StepResult.andThen (Running.spend (Operator.take (BatchIterator.current s)) (op, job))
              (fun shown op job => if shown then .ok true ((op, s), job) else feed op s job)
              fun e op job => .error e ((op, s), job)
          else .ok false ((op, s), job))
        fun e s job => .error e ((op, s), job) := by
  funext job
  rw [feed]
  split <;> rename_i hmove
  · simp [hmove, StepResult.andThen]
  · simp [hmove, StepResult.andThen]
  · simp only [hmove, StepResult.andThen, if_true]
    split <;> rename_i htake <;> simp only [htake] <;> rfl

theorem advance_eq {op : Operator} (h : op.isComplete = false) (s : σ) :
    advance op s = fun job =>
      StepResult.andThen (feed op s job)
        (fun shown p job =>
          if shown = false ∧ BatchIterator.allLoaded p.2 = true then
            StepResult.within (·, p.2) (Running.spend Operator.conclude (p.1, job))
          else .ok shown (p, job))
        fun e p job => .error e (p, job) := by
  funext job
  unfold advance
  simp only [h]
  rcases feed op s job with ⟨_ | _, ⟨op', s'⟩, job'⟩ | ⟨e, p, job'⟩
  · by_cases hloaded : BatchIterator.allLoaded s' = true <;>
      simp [StepResult.andThen, hloaded]
  · simp [StepResult.andThen]
  · simp [StepResult.andThen]

/-- A stage that was neither closed nor has failed. -/
def IsOpen (stage : Stage) : Prop := stage.state ≠ .closed ∧ stage.state ≠ .failed

omit [BatchIterator σ] in
theorem isOpen_idle (op : Operator) (allLoaded : Bool) :
    IsOpen ⟨op, IteratorState.idle allLoaded⟩ :=
  IteratorState.idle_ne allLoaded

theorem moveNext_eq {stage : Stage} (h : stage.IsOpen) (s : σ) :
    (fun job => moveNext ((stage, s), job)) = fun job =>
      StepResult.andThen (advance stage.operator s job)
        (fun shown p job =>
          .ok shown ((⟨p.1, if shown then .hasNext else .idle (allLoaded p.1 p.2)⟩, p.2), job))
        fun e p job => .error e (((fail p.1 job).1, p.2), (fail p.1 job).2) := by
  funext job
  obtain ⟨op, state⟩ := stage
  obtain ⟨hclosed, hfailed⟩ := h
  unfold moveNext
  cases state with
  | closed => exact absurd rfl hclosed
  | failed => exact absurd rfl hfailed
  | _ =>
    simp only
    rcases advance op s job with ⟨_ | _, ⟨op', s'⟩, job'⟩ | ⟨e, ⟨op', s'⟩, job'⟩ <;> rfl

theorem load_eq {stage : Stage} (h : stage.IsOpen) (hop : stage.operator.isComplete = false)
    (s : σ) :
    (fun job => load ((stage, s), job)) = fun job =>
      StepResult.andThen (BatchIterator.load (s, job))
        (fun progress s job => .ok progress ((stage, s), job))
        fun e s job => .error e (((fail stage.operator job).1, s), (fail stage.operator job).2) := by
  funext job
  unfold load
  simp only [h.1, hop]
  rcases BatchIterator.load (s, job) with ⟨progress, s', job'⟩ | ⟨e, s', job'⟩ <;> rfl

end Stage

/-- Failing keeps the error and gives back what the operator holds. -/
theorem Stage.settles_fail {σ α : Type} {post : Except OpError α → Stage × σ → Prop} (e : OpError)
    (op : Operator) (s : σ) (h : ∀ t, post (.error e) t) :
    JobStep.Settles (fun job => .error e (((fail op job).1, s), (fail op job).2)) post := by
  obtain ⟨op', sizes, hrelease⟩ := op.givesBack_release
  refine ⟨sizes.map .giveBack, .error e, (⟨op', .failed⟩, s), h _, ?_⟩
  refine JobStep.follows_giveBacks fun b => ?_
  simp only [fail, Job.giveBack, Job.live, hrelease]
  rfl

/-! ## A stage over a simulated iterator

If the source hands out a flow, the stage hands out what its operator means on that flow. The
induction is on the rows that are ready, within one call; from call to call the simulation carries
what is left. -/

namespace Simulation

variable {σ α : Type} [BatchIterator σ] (S : Simulation σ α)

/-- How feeding an operator with the rows of a flow may end. -/
def Fed (op : Operator) (as : List α) (f : Flow) : Except OpError Bool → Operator × σ → Prop
  | .ok true, (op', t) => ∃ rest : Flow, S.live t as rest ∧
      op.meaning f = (op'.meaning rest).cons (op'.current (BatchIterator.current t))
  | .ok false, (op', t) => op'.isComplete = false ∧ ∃ rest : Flow,
      op.meaning f = op'.meaning rest ∧
      if BatchIterator.allLoaded t = true then rest = .ended ∧ S.live t as .ended
      else S.waiting t as rest
  | .error e, _ => op.meaning f = .failed e

/-- **A stage takes rows until it shows one.** -/
theorem feed_spec {op : Operator} (hop : op.isComplete = false) {s : σ} {as : List α} {f : Flow}
    (hlive : S.live s as f) : JobStep.Settles (Stage.feed op s) (S.Fed op as f) := by
  -- induction on how many rows the flow has; each round takes one of them
  induction hn : f.rows.length using Nat.strongRecOn generalizing op s f with
  | ind n ih =>
    rw [Stage.feed_eq]
    refine (S.moveNext_spec hlive).andThen ?_ ?_ fun e t job => ⟨_, _, rfl⟩
    · intro more t hmoved
      cases more with
      | false =>
        -- the loaded pages are used up
        have hend : S.Fed op as f (.ok false) (op, t) := ⟨hop, f, rfl, hmoved⟩
        exact JobStep.settles_ok (fun b => rfl) hend
      | true =>
        obtain ⟨rest, rfl, hrest⟩ := hmoved
        obtain ⟨ms, r, op', htaken, htake⟩ := Operator.take_spec (BatchIterator.current t) hop
        have hspend : JobStep.Settles (fun job =>
            Running.spend (Operator.take (BatchIterator.current t)) (op, job))
            fun r op' => op.Taken (BatchIterator.current t) r op' :=
          ⟨ms, r, op', htaken, JobStep.follows_spend htake⟩
        refine hspend.andThen ?_ ?_ fun e t job => ⟨_, _, rfl⟩
        · intro shown op' htaken
          cases shown with
          | true =>
            have hshown : S.Fed op as (rest.cons (BatchIterator.current t)) (.ok true) (op', t) :=
              ⟨rest, hrest, htaken rest⟩
            exact JobStep.settles_ok (fun b => rfl) hshown
          | false =>
            obtain ⟨hop', hmeaning⟩ := htaken
            have hlt : rest.rows.length < n := by
              rw [← hn]
              exact Nat.lt_succ_self _
            have hround := ih rest.rows.length hlt hop' hrest rfl
            -- the row was left out: what the rest means is what the whole meant
            unfold Fed at hround ⊢
            rw [hmeaning rest]
            exact hround
        · intro e op' htaken
          have hfailed : S.Fed op as (rest.cons (BatchIterator.current t)) (.error e) (op', t) :=
            htaken rest
          exact JobStep.settles_error (fun b => rfl) hfailed
    · intro e t hmoved
      have hfailed : S.Fed op as f (.error e) (op, t) := by
        rw [Fed, show f = .failed e from hmoved]
        exact Operator.meaning_failed hop e
      exact JobStep.settles_error (fun b => rfl) hfailed

/-- What a stage will still show: what its operator makes of some flow, which is that of its source
unless the operator is complete. -/
def StageLive : Stage × σ → List α → Flow → Prop
  | (stage, s), as, f => stage.IsOpen ∧ ∃ g : Flow,
      (stage.operator.isComplete = false → S.live s as g) ∧ f = stage.operator.meaning g

def StageWaiting : Stage × σ → List α → Flow → Prop
  | (stage, s), as, f => stage.IsOpen ∧ stage.operator.isComplete = false ∧
      ∃ g : Flow, S.waiting s as g ∧ f = stage.operator.meaning g

/-- How advancing a stage may end: as stepping to the next row may, seen from its operator. -/
def Advanced (op : Operator) (as : List α) (g : Flow) : Except OpError Bool → Operator × σ → Prop
  | .ok true, (op', t) => ∃ rest : Flow, (op'.isComplete = false → S.live t as rest) ∧
      op.meaning g = (op'.meaning rest).cons (op'.current (BatchIterator.current t))
  | .ok false, (op', t) =>
      if op'.allLoaded (BatchIterator.allLoaded t) = true then
        op.meaning g = .ended ∧ op'.meaning .ended = .ended ∧
          (op'.isComplete = false → S.live t as .ended)
      else op'.isComplete = false ∧ ∃ rest : Flow, op.meaning g = op'.meaning rest ∧
        S.waiting t as rest
  | .error e, _ => op.meaning g = .failed e

/-- A complete operator shows what it has left. -/
theorem advance_complete {op : Operator} (hop : op.isComplete = true) (s : σ) (as : List α)
    (g : Flow) : JobStep.Settles (Stage.advance op s) (S.Advanced op as g) := by
  have hshow : JobStep.Settles (fun job => Running.spend Operator.showNext (op, job))
      fun r op' => r = .ok op.next.1 ∧ op' = op.next.2 :=
    JobStep.settles_ok (fun b => rfl) ⟨rfl, rfl⟩
  have hadvance : Stage.advance op s = fun job =>
      StepResult.within (·, s) (Running.spend Operator.showNext (op, job)) := by
    funext job
    simp [Stage.advance, hop]
  rw [hadvance]
  refine hshow.within ?_
  rintro r op' ⟨rfl, rfl⟩
  have hnext := Operator.next_spec hop
  cases hshown : op.next.1 with
  | true =>
    rw [hshown] at hnext
    refine ⟨g, fun hincomplete => ?_, hnext.2 g _⟩
    rw [hnext.1] at hincomplete
    cases hincomplete
  | false =>
    rw [hshown] at hnext
    rw [Advanced, if_pos (hnext.2 _)]
    refine ⟨(hnext.1 g).1, (hnext.1 .ended).2, fun hincomplete => ?_⟩
    -- an operator stays complete when it shows what it has left
    rw [Operator.isComplete_next, hop] at hincomplete
    cases hincomplete

/-- An operator that takes rows is fed; once the source is exhausted it shows what it has left. -/
theorem advance_incomplete {op : Operator} (hop : op.isComplete = false) {s : σ} {as : List α}
    {g : Flow} (hlive : S.live s as g) :
    JobStep.Settles (Stage.advance op s) (S.Advanced op as g) := by
  rw [Stage.advance_eq hop]
  refine (S.feed_spec hop hlive).andThen ?_ ?_ fun e p job => ⟨_, _, rfl⟩
  · rintro shown ⟨op', t⟩ hfed
    cases shown with
    | true =>
      obtain ⟨rest, hrest, hmeaning⟩ := hfed
      have hadvanced : S.Advanced op as g (.ok true) (op', t) := ⟨rest, fun _ => hrest, hmeaning⟩
      exact JobStep.settles_ok (fun b => by simp) hadvanced
    | false =>
      obtain ⟨hop', rest, hmeaning, hend⟩ := hfed
      cases hloaded : BatchIterator.allLoaded t with
      | true =>
        -- the source is exhausted: what the operator shows now, it shows over an ended flow
        rw [hloaded, if_pos rfl] at hend
        obtain ⟨hend, hlast⟩ := hend
        obtain ⟨ms, r, op'', hconcluded, hconclude⟩ := Operator.conclude_spec hop'
        have hspend : JobStep.Settles (fun job => Running.spend Operator.conclude (op', job))
            fun r op'' => op'.Concluded r op'' :=
          ⟨ms, r, op'', hconcluded, JobStep.follows_spend hconclude⟩
        have hwithin : JobStep.Settles (fun job =>
            StepResult.within (·, t) (Running.spend Operator.conclude (op', job)))
            (S.Advanced op as g) := by
          refine hspend.within ?_
          rw [hend] at hmeaning
          rintro r op'' hconcluded
          match r with
          | .ok true =>
            obtain ⟨hcomplete, hshown⟩ := hconcluded
            refine ⟨.ended, fun hincomplete => ?_, hmeaning.trans (hshown .ended _)⟩
            rw [hcomplete] at hincomplete
            cases hincomplete
          | .ok false =>
            obtain ⟨⟨hended, hafter⟩, hall⟩ := hconcluded
            rw [Advanced, hloaded, if_pos hall]
            exact ⟨hmeaning.trans hended, hafter, fun _ => hlast⟩
          | .error e => exact hmeaning.trans hconcluded
        simpa [hloaded] using hwithin
      | false =>
        -- there are more pages, which the operator still needs
        rw [hloaded, if_neg Bool.false_ne_true] at hend
        have hadvanced : S.Advanced op as g (.ok false) (op', t) := by
          rw [Advanced, hloaded, if_neg (by simp [Operator.allLoaded_false hop'])]
          exact ⟨hop', rest, hmeaning, hend⟩
        have hstill : JobStep.Settles (fun job => .ok false ((op', t), job))
            (S.Advanced op as g) := JobStep.settles_ok (fun b => rfl) hadvanced
        simpa [hloaded] using hstill
  · rintro e ⟨op', t⟩ hfed
    have hadvanced : S.Advanced op as g (.error e) (op', t) := hfed
    exact JobStep.settles_error (fun b => rfl) hadvanced

/-- **A stage over a simulated iterator is simulated.** -/
def stage : Simulation (Stage × σ) α where
  live := S.StageLive
  waiting := S.StageWaiting
  deliver a := fun (stage, s) => (stage, S.deliver a s)
  moveNext_spec := by
    rintro ⟨stage, s⟩ as f ⟨hopen, g, hlive, rfl⟩
    have hadvance : JobStep.Settles (Stage.advance stage.operator s)
        (S.Advanced stage.operator as g) := by
      -- a complete operator asks nothing of its source, whatever state that is in
      cases hop : stage.operator.isComplete with
      | true => exact S.advance_complete hop s as g
      | false => exact S.advance_incomplete hop (hlive hop)
    change JobStep.Settles (fun job => Stage.moveNext ((stage, s), job)) _
    rw [Stage.moveNext_eq hopen]
    refine hadvance.andThen ?_ ?_ fun e p job => ⟨_, _, rfl⟩
    · rintro shown ⟨op', t⟩ hadvanced
      cases shown with
      | true =>
        obtain ⟨rest, hrest, hmeaning⟩ := hadvanced
        have hmoved : Moved (S.StageLive · as) (S.StageWaiting · as) (stage.operator.meaning g)
            (.ok true) (⟨op', .hasNext⟩, t) :=
          ⟨op'.meaning rest, hmeaning, IteratorState.hasNext_ne, rest, hrest, rfl⟩
        exact JobStep.settles_ok (fun b => rfl) hmoved
      | false =>
        have hmoved : Moved (S.StageLive · as) (S.StageWaiting · as) (stage.operator.meaning g)
            (.ok false) (⟨op', .idle (Stage.allLoaded op' t)⟩, t) := by
          change if op'.allLoaded (BatchIterator.allLoaded t) = true then _ else _
          by_cases hall : op'.allLoaded (BatchIterator.allLoaded t) = true
          · rw [Advanced, if_pos hall] at hadvanced
            rw [if_pos hall]
            obtain ⟨hended, hafter, hlast⟩ := hadvanced
            exact ⟨hended, Stage.isOpen_idle op' _, .ended, hlast, hafter.symm⟩
          · rw [Advanced, if_neg hall] at hadvanced
            obtain ⟨hop', rest, hmeaning, hwaiting⟩ := hadvanced
            rw [if_neg hall]
            exact ⟨Stage.isOpen_idle op' _, hop', rest, hwaiting, hmeaning⟩
        exact JobStep.settles_ok (fun b => rfl) hmoved
    · rintro e ⟨op', t⟩ hadvanced
      exact Stage.settles_fail e op' t fun _ => hadvanced
  load_spec := by
    rintro ⟨stage, s⟩ as f ⟨hopen, hop, g, hwaiting, rfl⟩
    change JobStep.Settles (fun job => Stage.load ((stage, s), job)) _
    rw [Stage.load_eq hopen hop]
    refine (S.load_spec hwaiting).andThen ?_ ?_ fun e p job => ⟨_, _, rfl⟩
    · rintro progress t hloaded
      refine JobStep.settles_ok (fun b => rfl) ?_
      cases progress with
      | ready => exact ⟨hopen, g, fun _ => hloaded, rfl⟩
      | pending =>
        obtain ⟨a, rest, rfl, hdelivered⟩ := hloaded
        exact ⟨a, rest, rfl, hopen, hop, g, hdelivered, rfl⟩
    · rintro e t hloaded
      refine Stage.settles_fail e stage.operator t fun _ => ?_
      rw [Loaded, show g = .failed e from hloaded]
      exact Operator.meaning_failed hop e
  close_spec := by
    rintro ⟨stage, s⟩
    change ∃ (t : Stage × σ) (sizes : List Nat), ∀ b, Stage.close (stage, s) (.live b) = _
    by_cases hclosed : stage.state = .closed
    · exact ⟨(stage, s), [], fun b => by simp [Stage.close, hclosed]⟩
    · -- the operator gives back first, its source after it
      obtain ⟨op, sizes, hrelease⟩ := stage.operator.givesBack_release
      obtain ⟨t, more, hclose⟩ := S.close_spec s
      refine ⟨(⟨op, .closed⟩, t), sizes ++ more, fun b => ?_⟩
      have hjob : (Job.live b).giveBack Operator.release stage.operator =
          (op, .live (sizes.foldl Budget.giveBack b)) := by
        unfold Job.giveBack Job.live
        rw [hrelease]
      simp only [Stage.close, hclosed, if_false, hjob, hclose, List.foldl_append]

end Simulation

/-! ## Chains

Induction on the number of stages: the flow of a chain is what its operators mean, one after the
other, on the flow of its source. -/

namespace Chain

variable {β α : Type} [BatchIterator β]

/-- **A chain over a simulated source is simulated**, stage by stage. -/
def simulation (S : Simulation β α) : (n : Nat) → Simulation (Chain β n) α
  | 0 => S
  | n + 1 => (simulation S n).stage

theorem deliver_simulation (S : Simulation β α) (a : α) {n : Nat} (c : Chain β n) :
    (simulation S n).deliver a c = c.modifySource (S.deliver a) := by
  induction n with
  | zero => rfl
  | succ n ih =>
    obtain ⟨stage, inner⟩ := c
    exact congrArg (Prod.mk stage) (ih inner)

/-- Fresh stages over a source make of its flow what their operators mean, one after the other. -/
theorem live_build (S : Simulation β α) {source : β} {as : List α} {f : Flow}
    (h : S.live source as f) (ops : List Operator) :
    (simulation S ops.length).live (build source ops) as (ops.foldr Operator.meaning f) := by
  induction ops with
  | nil => exact h
  | cons op ops ih => exact ⟨⟨nofun, nofun⟩, _, fun _ => ih, rfl⟩

end Chain

end RowStream
