import RowStream.Proofs.Expr.History
import RowStream.Proofs.Expr.Outputs
import RowStream.Proofs.Memory.Custody

/-!
# Outputs with a past

A stage keeps one list of outputs for all its rows. The row buffer holds what was projected last, or
a part of it where an output failed, and whether a row is handed on past the buffer is decided
twice: when the row is projected, and when it is shown. No row sees any of that of the rows before.

* `Expr.InOrder` — what expressions come to that are evaluated one after the other.
* `Metered.Fixes` — computations that leave a part of the state alone, however they end.
* `Outputs.Call`, `Outputs.after` — the calls of a list of outputs, and what a history of them
  leaves.
* `Outputs.projected_after` — after any history, a row that is projected and shown, or projected
  into a row of its own, comes to the values of the outputs, each evaluated in a fresh evaluator.
-/

namespace RowStream

/-! ## One expression after the other

Fast paths are compared with plain evaluation, which is one expression after the other, each in the
scratch buffer that the one before has left. -/

namespace Expr

variable {ε : Type}

/-- The outcome of expressions that are evaluated in order, each of which comes to what `alone`
says: the values of all, or the error of the first that fails. -/
def InOrder (alone : Expr → Except ε Scalar) (es : List Expr) : Except ε Row → Prop
  | .ok row => es.map alone = row.map .ok
  | .error err => ∃ (done : List Expr) (next : Expr) (rest : List Expr) (row : Row),
      es = done ++ next :: rest ∧ done.map alone = row.map .ok ∧ alone next = .error err

/-- An expression that has a value goes before the rest. -/
theorem InOrder.cons {alone : Expr → Except ε Scalar} {e : Expr} {v : Scalar} {es : List Expr}
    {result : Except ε Row} (he : alone e = .ok v) (h : InOrder alone es result) :
    InOrder alone (e :: es) (result.map (v :: ·)) := by
  have hcons {before : List Expr} {row : Row} (h : before.map alone = row.map .ok) :
      (e :: before).map alone = (v :: row).map .ok := by
    rw [List.map_cons, List.map_cons, he, h]
  cases result with
  | ok row => exact hcons h
  | error err =>
    obtain ⟨done, next, rest, row, rfl, hdone, hnext⟩ := h
    exact ⟨e :: done, next, rest, v :: row, rfl, hcons hdone, hnext⟩

theorem inOrder_values (row : Row) (es : List Expr) :
    InOrder (fun e => OpError.ofEval (e.value row)) es (OpError.ofEval (values row es)) := by
  induction es with
  | nil =>
    rw [values]
    rfl
  | cons e es ih =>
    cases he : e.value row with
    | error err =>
      rw [values, he]
      exact ⟨[], e, es, [], rfl, rfl, congrArg OpError.ofEval he⟩
    | ok v =>
      have hcons := ih.cons (congrArg OpError.ofEval he)
      rw [values, he]
      cases hvs : values row es <;> rw [hvs] at hcons <;> exact hcons

end Expr

/-! ## What stays as it is

Which outputs a stage has is decided when it is set up. No call changes that, granted or refused, so
that a call after any history evaluates the same expressions. -/

namespace Metered

variable {ε σ τ γ α β : Type} {part : σ → γ}

/-- The computation leaves a part of the state alone, however it ends. -/
def Fixes (part : σ → γ) (m : Metered ε σ α) : Prop :=
  ∀ s b, part (StepResult.left (m (s, b))).1 = part s

theorem fixes_pure (a : α) : (pure a : Metered ε σ α).Fixes part := fun _ _ => rfl

theorem fixes_read (f : σ → α) : (read f : Metered ε σ α).Fixes part := fun _ _ => rfl

theorem fixes_modifyState {f : σ → σ} (h : ∀ s, part (f s) = part s) :
    (modifyState f : Metered ε σ Unit).Fixes part := fun s _ => h s

theorem Fixes.bind {m : Metered ε σ α} {f : α → Metered ε σ β} (hm : m.Fixes part)
    (hf : ∀ a, (f a).Fixes part) : (m >>= f).Fixes part := fun s b => by
  have hfirst := hm s b
  rcases hrun : m (s, b) with ⟨a, t, c⟩ | ⟨e, t, c⟩ <;> rw [hrun] at hfirst
  · rw [bind_of_ok hrun]
    exact (hf a t c).trans hfirst
  · rw [bind_of_error hrun]
    exact hfirst

theorem fixes_zoom {get : σ → τ} {set : σ → τ → σ} (h : ∀ s t, part (set s t) = part s)
    (m : Metered ε τ α) : (Metered.zoom get set m).Fixes part := fun s b => by
  show part (StepResult.within (set s) (m (get s, b))).left.1 = part s
  rw [StepResult.left_within]
  exact h s _

end Metered

namespace Outputs

open Metered

/-! No row changes the list of outputs, so that a history can be told from the row buffer and the
scratch buffer alone. -/

theorem fixes_evaluate {α : Type} (m : Metered.Op Scratch α) : (evaluate m).Fixes exprs := by
  refine fixes_zoom ?_ m
  exact fun _ _ => rfl

theorem fixes_fill (input : Row) (es : List Expr) : (fill input es).Fixes exprs := by
  induction es with
  | nil => exact fixes_pure ()
  | cons e es ih =>
    refine Fixes.bind (fixes_evaluate (e.eval input)) fun v => ?_
    exact Fixes.bind (fixes_modifyState fun _ => rfl) fun _ => ih

theorem fixes_project (input : Row) : (project input).Fixes exprs := by
  refine (fixes_read id).bind fun o => ?_
  split
  · exact fixes_pure ()
  · exact Fixes.bind (fixes_modifyState fun _ => rfl) fun _ => fixes_fill input o.exprs

theorem fixes_projectOwned (input : Row) : (projectOwned input).Fixes exprs := by
  refine (fixes_read id).bind fun o => ?_
  split
  · exact fixes_pure input
  · exact fixes_evaluate (Expr.evalAll input o.exprs)

/-! ## Histories

The buffer that a history leaves is arbitrary, and the theorem is proved for every buffer. So
nothing has to be known of the history but the outputs, which it leaves alone. -/

/-- A call of a list of outputs. -/
inductive Call where
  | project (input : Row)
  | projectOwned (input : Row)
  | current (input : Row)
  | release

/-- The outputs and the budget that a call leaves, whatever came out of it. -/
def Call.perform (o : Outputs) (b : Budget) : Call → Outputs × Budget
  | project input => StepResult.left (Outputs.project input (o, b))
  | projectOwned input => StepResult.left (Outputs.projectOwned input (o, b))
  | current input =>
    StepResult.left ((Metered.read fun o => o.current input : Metered.Op Outputs Row) (o, b))
  | release => o.release b

/-- The outputs after a history of calls. Between two of them the rest of the job and all other jobs
may have moved memory, so every call comes with the budget that it finds. -/
def after (exprs : List Expr) (label : String) (history : List (Call × Budget)) : Outputs :=
  history.foldl (fun o (c, b) => (c.perform o b).1) (.new exprs label)

theorem exprs_perform (o : Outputs) (b : Budget) (c : Call) : (c.perform o b).1.exprs = o.exprs := by
  cases c with
  | project input => exact fixes_project input o b
  | projectOwned input => exact fixes_projectOwned input o b
  | current input => rfl
  | release => rfl

theorem exprs_after (exprs : List Expr) (label : String) (history : List (Call × Budget)) :
    (after exprs label history).exprs = exprs := by
  suffices h : ∀ o : Outputs, (history.foldl (fun o (c, b) => (c.perform o b).1) o).exprs = o.exprs
    from h (.new exprs label)
  -- each call leaves the list to the next as it found it
  induction history with
  | nil => exact fun o => rfl
  | cons call history ih => exact fun o => (ih _).trans (exprs_perform o call.2 call.1)

/-- Projects a row and shows what came out. -/
def projected (input : Row) : Metered.Op Outputs Row := do
  project input
  Metered.read fun o => o.current input

theorem yields_projected (input : Row) (o : Outputs) :
    (projected input).Yields o (OpError.ofEval (Expr.values input o.exprs)) fun _ => True := by
  have hproject := yields_project input o
  cases hvalues : Expr.values input o.exprs with
  | error e =>
    rw [hvalues] at hproject
    exact (hproject.mono fun _ _ => trivial).bind_error
  | ok out =>
    rw [hvalues] at hproject
    refine hproject.bind fun p hp => ?_
    -- what is shown now are the values, whichever way the row took
    have hread := Metered.follows_read (ε := OpError) (fun o => o.current input) p
    rw [hp.2 out rfl] at hread
    exact hread.yields trivial

/-- **Handing rows on is evaluating the outputs**: after any history, and where memory is not
limited, a row that is projected and shown and a row that is projected into a row of its own come
to the same. It is what the outputs come to in order, each alone in a fresh evaluator; and outputs
that are the first columns cut the row, or fail at the first column that it does not have. -/
theorem projected_after (exprs : List Expr) (label fresh : String)
    (history : List (Call × Budget)) (input : Row) {b : Budget} (hb : b.Unlimited) :
    let o := after exprs label history
    let alone (e : Expr) := ((e.eval input).free (.new fresh)).1
    let shown := ((projected input).run (o, b)).1
    let owned := ((projectOwned input).run (o, b)).1
    shown = owned ∧ Expr.InOrder alone exprs owned ∧
      ∀ n, exprs = Expr.identity n → owned =
        if n ≤ input.length then .ok (input.take n)
        else .error (.evaluation (.columnOutOfBounds input.length input.length)) := by
  intro o alone shown owned
  have hexprs : o.exprs = exprs := exprs_after exprs label history
  have hshown : shown = OpError.ofEval (Expr.values input exprs) :=
    hexprs ▸ (yields_projected input o).run_eq_of_unlimited hb
  have howned : owned = OpError.ofEval (Expr.values input exprs) :=
    hexprs ▸ (yields_projectOwned input o).run_eq_of_unlimited hb
  have halone : alone = fun e => OpError.ofEval (e.value input) :=
    funext fun e => (Expr.yields_eval input e (.new fresh)).free_eq
  -- both entry points come to the slow values, so the shortcut is seen in the last part only
  refine ⟨hshown.trans howned.symm, ?_, fun n hn => ?_⟩
  · rw [howned, halone]
    exact Expr.inOrder_values input exprs
  · have hidentity := Expr.isIdentity_identity n
    have hvalues := Expr.values_of_isIdentityFrom [] input hidentity
    have hlen : (Expr.identity n).length = n := by simp [Expr.identity]
    rw [howned, hn]
    rw [List.nil_append, hlen] at hvalues
    rw [hvalues]
    split <;> rfl

/-- A projection that fails leaves a value in the row buffer. A row that is too wide is cut none the
less, and one that is too narrow fails where it ends. -/
theorem projected_after_failure :
    let b := Budget.unlimited "memory" .nil
    let wide : Row := [.int64 1, .int64 2, .int64 3]
    let history : List (Call × Budget) :=
      [(.project wide, b), (.current wide, b), (.project [.int64 9], b)]
    let o := after (Expr.identity 2) "limit" history
    o.row = [.int64 9] ∧ b.Unlimited ∧
      ((projected [.int64 6, .int64 7, .int64 8]).run (o, b)).1 = .ok [.int64 6, .int64 7] ∧
      ((projected [.int64 6]).run (o, b)).1 = .error (.evaluation (.columnOutOfBounds 1 1)) := by
  intro b wide history o
  have hb : b.Unlimited := Budget.unlimited_unlimited "memory" .nil
  have hwide := projected_after (Expr.identity 2) "limit" "limit" history
    [.int64 6, .int64 7, .int64 8] hb
  have hnarrow := projected_after (Expr.identity 2) "limit" "limit" history [.int64 6] hb
  exact ⟨rfl, hb, hwide.1.trans (hwide.2.2 2 rfl), hnarrow.1.trans (hnarrow.2.2 2 rfl)⟩

end Outputs

end RowStream
