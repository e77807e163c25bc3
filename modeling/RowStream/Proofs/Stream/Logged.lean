import RowStream.Proofs.Stream.Arity

/-!
# Logs of the rows between stages

An iterator tells which row it came to last, and nothing of those before. To speak of all rows that pass from one
stage to the next, a log is put on every stage. The logs are seen by nobody: without them, all calls come to the
same.

* `Logged`, `LoggedChain` — an iterator with a log, and a chain with a log on each of its stages.
* `Erasure` — what a state is without its logs; `Erasure.stage` and `Erasure.logged` say that a stage and a log
  change nothing about that, `LoggedChain.erasure` is for whole chains.
* `LoggedChain.rowInvariant` — the logs of a chain whose operators fit have rows of one arity each.
-/

namespace RowStream

/-- An iterator with a log of the rows that it came to, in order. -/
structure Logged (σ : Type) where
  source : σ
  log : List Row

namespace Logged

variable {σ : Type}

def new (source : σ) : Logged σ := ⟨source, []⟩

variable [BatchIterator σ]

def moveNext : Running (Logged σ) Bool := fun (s, job) =>
  match BatchIterator.moveNext (s.source, job) with
  | .ok true (source, job) => .ok true (⟨source, s.log ++ [BatchIterator.current source]⟩, job)
  | .ok false (source, job) => .ok false ({ s with source }, job)
  | .error e (source, job) => .error e ({ s with source }, job)

def load : Running (Logged σ) Load := fun (s, job) =>
  StepResult.within (fun source => { s with source }) (BatchIterator.load (s.source, job))

theorem source_of_moveNext {s t : Logged σ} {job job' : Job} {more : Bool}
    (h : moveNext (s, job) = .ok more (t, job')) :
    BatchIterator.moveNext (s.source, job) = .ok more (t.source, job') := by
  unfold moveNext at h
  rcases hmove : BatchIterator.moveNext (s.source, job) with ⟨_ | _, source, job₁⟩ | ⟨e, source, job₁⟩ <;>
    simp only [hmove] at h <;> cases h
  · rfl
  · rfl

instance : BatchIterator (Logged σ) where
  moveNext := moveNext
  current s := BatchIterator.current s.source
  allLoaded s := BatchIterator.allLoaded s.source
  load := load
  close s job := (BatchIterator.close s.source job).map (fun source => { s with source }) id
  discard s job := (BatchIterator.discard s.source job).map (fun source => { s with source }) id
  state s := BatchIterator.state s.source
  ready s := BatchIterator.ready s.source
  pages s := BatchIterator.pages s.source
  ready_of_moveNext h := BatchIterator.ready_of_moveNext (source_of_moveNext h)
  pages_of_moveNext h := BatchIterator.pages_of_moveNext (source_of_moveNext h)
  pages_of_load h := by
    obtain ⟨source, hs, rfl⟩ := StepResult.within_eq_ok h
    exact BatchIterator.pages_of_load hs

end Logged

/-- What the rows of an iterator have in common, those in its log have. -/
def RowInvariant.logged {σ : Type} [BatchIterator σ] {common : Row → Prop} (I : RowInvariant σ common) :
    RowInvariant (Logged σ) common where
  inv s := I.inv s.source ∧ ∀ row ∈ s.log, common row
  moveNext_spec {s} hs job := by
    have hmove := I.moveNext_spec hs.1 job
    show StepResult.Leaves _ _ (Logged.moveNext (s, job))
    unfold Logged.moveNext
    rcases hrun : BatchIterator.moveNext (s.source, job) with ⟨_ | _, t, job'⟩ | ⟨e, t, job'⟩ <;>
      rw [hrun] at hmove <;> simp only [hrun]
    · exact ⟨⟨hmove.1, hs.2⟩, nofun⟩
    · refine ⟨⟨hmove.1, fun row hrow => ?_⟩, hmove.2⟩
      obtain hold | hnew := List.mem_append.1 hrow
      · exact hs.2 row hold
      · rw [List.mem_singleton.1 hnew]
        exact hmove.2 rfl
    · exact ⟨hmove, hs.2⟩
  load_spec {s} hs job := by
    have hload := I.load_spec hs.1 job
    show StepResult.Leaves _ _ (Logged.load (s, job))
    unfold Logged.load
    rcases hrun : BatchIterator.load (s.source, job) with ⟨progress, t, job'⟩ | ⟨e, t, job'⟩ <;>
    · rw [hrun] at hload
      simp only [hrun]
      exact ⟨hload, hs.2⟩
  close_spec hs job := ⟨I.close_spec hs.1 job, hs.2⟩

/-! ## Without the logs

A log is read by nobody. So forgetting it commutes with every call, and what is shown of the logged
chain holds of the chain. -/

/-- What is left of a state when something is forgotten that no call depends on. -/
structure Erasure (σ τ : Type) [BatchIterator σ] [BatchIterator τ] where
  erase : σ → τ
  current_erase (s : σ) : BatchIterator.current (erase s) = BatchIterator.current s
  allLoaded_erase (s : σ) : BatchIterator.allLoaded (erase s) = BatchIterator.allLoaded s
  moveNext_erase (s : σ) (job : Job) :
    BatchIterator.moveNext (erase s, job) = StepResult.within erase (BatchIterator.moveNext (s, job))
  load_erase (s : σ) (job : Job) :
    BatchIterator.load (erase s, job) = StepResult.within erase (BatchIterator.load (s, job))
  close_erase (s : σ) (job : Job) :
    BatchIterator.close (erase s) job = (BatchIterator.close s job).map erase id

namespace Erasure

/-- Nothing is forgotten. -/
def refl (σ : Type) [BatchIterator σ] : Erasure σ σ where
  erase := id
  current_erase _ := rfl
  allLoaded_erase _ := rfl
  moveNext_erase s job := by
    simp only [id]
    rcases BatchIterator.moveNext (s, job) with ⟨more, t, job'⟩ | ⟨e, t, job'⟩ <;> rfl
  load_erase s job := by
    simp only [id]
    rcases BatchIterator.load (s, job) with ⟨progress, t, job'⟩ | ⟨e, t, job'⟩ <;> rfl
  close_erase _ _ := rfl

variable {σ τ : Type} [BatchIterator σ] [BatchIterator τ] (E : Erasure σ τ)

/-- The log is forgotten. -/
def logged : Erasure (Logged σ) τ where
  erase s := E.erase s.source
  current_erase s := E.current_erase s.source
  allLoaded_erase s := E.allLoaded_erase s.source
  moveNext_erase s job := by
    rw [E.moveNext_erase]
    show _ = StepResult.within _ (Logged.moveNext (s, job))
    simp only [Logged.moveNext]
    rcases BatchIterator.moveNext (s.source, job) with ⟨_ | _, t, job'⟩ | ⟨e, t, job'⟩ <;> rfl
  load_erase s job := by
    rw [E.load_erase]
    show _ = StepResult.within _ (Logged.load (s, job))
    simp only [Logged.load]
    rcases BatchIterator.load (s.source, job) with ⟨progress, t, job'⟩ | ⟨e, t, job'⟩ <;> rfl
  close_erase s job := E.close_erase s.source job

/-! ### Stages

Forgetting in the source commutes with the calls of a stage, by induction on the rows that are
ready. -/

/-- A part of a state beside which something stands. -/
def beside {ρ : Type} (p : ρ × σ) : ρ × τ := (p.1, E.erase p.2)

theorem feed_erase (op : Operator) (s : σ) (job : Job) :
    Stage.feed op (E.erase s) job = StepResult.within E.beside (Stage.feed op s job) := by
  fun_induction Stage.feed op s job with
  | case1 op s job e s' job' hmove | case2 op s job s' job' hmove =>
    simp only [Stage.feed_eq op (E.erase s), E.moveNext_erase, hmove]
    rfl
  | case3 op s job s' job' hmove e op' job'' htake | case4 op s job s' job' hmove op' job'' htake =>
    simp only [Stage.feed_eq op (E.erase s), E.moveNext_erase, hmove, StepResult.within, StepResult.andThen,
      E.current_erase, htake]
    rfl
  | case5 op s job s' job' hmove op' job'' htake ih =>
    simp only [Stage.feed_eq op (E.erase s), E.moveNext_erase, hmove, StepResult.within, StepResult.andThen,
      E.current_erase, htake]
    exact ih

theorem advance_erase (op : Operator) (s : σ) (job : Job) :
    Stage.advance op (E.erase s) job = StepResult.within E.beside (Stage.advance op s job) := by
  unfold Stage.advance
  split
  · rcases Running.spend Operator.showNext (op, job) with ⟨shown, op', job'⟩ | ⟨e, op', job'⟩ <;> rfl
  · rw [E.feed_erase]
    rcases Stage.feed op s job with ⟨_ | _, ⟨op', t⟩, job'⟩ | ⟨e, p, job'⟩
    · simp only [StepResult.within, beside, E.allLoaded_erase]
      split
      · rcases Running.spend Operator.conclude (op', job') with ⟨shown, op'', job''⟩ | ⟨e, op'', job''⟩ <;> rfl
      · rfl
    · rfl
    · rfl

theorem moveNext_stage (stage : Stage) (s : σ) (job : Job) :
    Stage.moveNext ((stage, E.erase s), job) =
      StepResult.within E.beside (Stage.moveNext ((stage, s), job)) := by
  unfold Stage.moveNext
  simp only [E.advance_erase]
  split
  · rfl
  · rfl
  · rcases Stage.advance stage.operator s job with ⟨_ | _, ⟨op', t⟩, job'⟩ | ⟨e, ⟨op', t⟩, job'⟩
    · simp only [StepResult.within, beside, Stage.allLoaded, E.allLoaded_erase]
    · rfl
    · rfl

theorem load_stage (stage : Stage) (s : σ) (job : Job) :
    Stage.load ((stage, E.erase s), job) = StepResult.within E.beside (Stage.load ((stage, s), job)) := by
  unfold Stage.load
  simp only [E.load_erase]
  split
  · rfl
  · split
    · rfl
    · rcases BatchIterator.load (s, job) with ⟨progress, t, job'⟩ | ⟨e, t, job'⟩ <;> rfl

theorem close_stage (stage : Stage) (s : σ) (job : Job) :
    Stage.close (stage, E.erase s) job = (Stage.close (stage, s) job).map E.beside id := by
  unfold Stage.close
  simp only [E.close_erase]
  split <;> rfl

/-- **A stage** whose source is forgotten something of. -/
def stage : Erasure (Stage × σ) (Stage × τ) where
  erase := E.beside
  current_erase p := congrArg (fun row => p.1.operator.current row) (E.current_erase p.2)
  allLoaded_erase p := congrArg (fun loaded => p.1.operator.allLoaded loaded) (E.allLoaded_erase p.2)
  moveNext_erase p job := E.moveNext_stage p.1 p.2 job
  load_erase p job := E.load_stage p.1 p.2 job
  close_erase p job := E.close_stage p.1 p.2 job

end Erasure

/-! ## Chains

A chain with a log on each stage, and the same chain without. -/

/-- So many stages over a source, with a log on each of them. -/
def LoggedChain (β : Type) : Nat → Type
  | 0 => β
  | n + 1 => Logged (Stage × LoggedChain β n)

namespace LoggedChain

variable {β : Type}

instance iterator [BatchIterator β] : (n : Nat) → BatchIterator (LoggedChain β n)
  | 0 => inferInstanceAs (BatchIterator β)
  | n + 1 =>
    letI := iterator n
    inferInstanceAs (BatchIterator (Logged (Stage × LoggedChain β n)))

/-- Puts fresh stages with empty logs over a source; the first operator is that of the outermost one. -/
def build (source : β) : (operators : List Operator) → LoggedChain β operators.length
  | [] => source
  | op :: ops => Logged.new (Stage.new op, build source ops)

/-- Puts stages over a source, the first of them directly. -/
def compose (source : β) (operators : List Operator) : LoggedChain β operators.reverse.length :=
  build source operators.reverse

/-- The source at the bottom. -/
def source : {n : Nat} → LoggedChain β n → β
  | 0, s => s
  | _ + 1, ⟨(_, inner), _⟩ => source inner

/-- Works on the source at the bottom. -/
def modifySource (f : β → β) : {n : Nat} → LoggedChain β n → LoggedChain β n
  | 0, s => f s
  | _ + 1, ⟨(stage, inner), log⟩ => ⟨(stage, modifySource f inner), log⟩

/-- The logs, that of the stage over the source first. -/
def logs : {n : Nat} → LoggedChain β n → List (List Row)
  | 0, _ => []
  | _ + 1, ⟨(_, inner), log⟩ => logs inner ++ [log]

theorem length_logs {n : Nat} (c : LoggedChain β n) : c.logs.length = n := by
  induction n with
  | zero => rfl
  | succ n ih =>
    obtain ⟨⟨stage, inner⟩, log⟩ := c
    rw [logs, List.length_append, ih, List.length_singleton]

variable [BatchIterator β]

/-- **Logs change nothing**, however many stages there are. -/
def erasure : (n : Nat) → Erasure (LoggedChain β n) (Chain β n)
  | 0 => .refl β
  | n + 1 => (erasure n).stage.logged

/-- The chain without the logs. -/
def erase {n : Nat} (c : LoggedChain β n) : Chain β n := (erasure n).erase c

theorem erase_build (source : β) (ops : List Operator) : (build source ops).erase = Chain.build source ops := by
  induction ops with
  | nil => rfl
  | cons op ops ih => exact congrArg (Prod.mk (Stage.new op)) ih

theorem erase_modifySource (f : β → β) {n : Nat} (c : LoggedChain β n) :
    (c.modifySource f).erase = c.erase.modifySource f := by
  induction n with
  | zero => rfl
  | succ n ih =>
    obtain ⟨⟨stage, inner⟩, log⟩ := c
    exact congrArg (Prod.mk stage) (ih inner)

theorem source_erase {n : Nat} (c : LoggedChain β n) : c.erase.source = c.source := by
  induction n with
  | zero => rfl
  | succ n ih =>
    obtain ⟨⟨stage, inner⟩, log⟩ := c
    exact ih inner

/-! ### Arities

In each log stand the rows of one stage, and these have one arity. -/

variable (arity : Nat → Nat)

/-- What the rows of a chain have in common, if the stage with `i` stages below it is to hand out rows of
`arity i` columns. The rows of a source alone may be ragged. -/
def Common : Nat → Row → Prop
  | 0 => fun _ => True
  | n + 1 => fun row => row.length = arity n

/-- **The rows in each log have one arity**, whatever is asked of the chain. -/
def rowInvariant : (n : Nat) → RowInvariant (LoggedChain β n) (Common arity n)
  | 0 => .any β
  | n + 1 => ((rowInvariant n).stage (arity n)).logged

variable {arity}

theorem length_of_mem_logs {n : Nat} {c : LoggedChain β n} (h : (rowInvariant arity n).inv c) {i : Nat}
    {log : List Row} (hlog : c.logs[i]? = some log) : ∀ row ∈ log, row.length = arity i := by
  induction n with
  | zero => exact nomatch (show ([] : List (List Row))[i]? = some log from hlog)
  | succ n ih =>
    obtain ⟨⟨stage, inner⟩, last⟩ := c
    obtain ⟨⟨-, hinner⟩, hlast⟩ := h
    -- the log of the outermost stage is the last one, all others are those of the chain below it
    replace hlog : (inner.logs ++ [last])[i]? = some log := hlog
    by_cases hi : i < n
    · rw [List.getElem?_append_left (by rwa [length_logs])] at hlog
      exact ih hinner hlog
    · rw [List.getElem?_append_right (by rw [length_logs]; omega), length_logs,
        List.getElem?_singleton] at hlog
      split at hlog
      · obtain rfl : i = n := by omega
        cases hlog
        exact hlast
      · cases hlog

theorem inv_modifySource (f : β → β) {n : Nat} {c : LoggedChain β n} (h : (rowInvariant arity n).inv c) :
    (rowInvariant arity n).inv (c.modifySource f) := by
  induction n with
  | zero => trivial
  | succ n ih =>
    obtain ⟨⟨stage, inner⟩, log⟩ := c
    exact ⟨⟨h.1.1, ih h.1.2⟩, h.2⟩

theorem inv_build (source : β) {ops : List Operator}
    (h : ∀ (i : Nat) (op : Operator), ops.reverse[i]? = some op → op.Fits (arity i)) :
    (rowInvariant arity ops.length).inv (build source ops) := by
  induction ops with
  | nil => trivial
  | cons op ops ih =>
    rw [List.reverse_cons] at h
    refine ⟨⟨fun _ => h ops.length op ?_, ih fun i op' hop' => h i op' ?_⟩, nofun⟩
    · rw [← List.length_reverse, List.getElem?_concat_length]
    · obtain ⟨hi, -⟩ := List.getElem?_eq_some_iff.1 hop'
      rwa [List.getElem?_append_left hi]

end LoggedChain

end RowStream
