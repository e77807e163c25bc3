import RowStream.Expr.Eval

/-!
# Properties that evaluations inherit

All that an evaluation does is to look at values, to write a text into its scratch buffer and to
fail. A property of computations on a scratch buffer that each of these has, and that goes through
sequences, is one of every evaluation: of expressions, of lists of them and of predicates.

* `Scratch.Closed` — such a property, one field for each step that an evaluation can take.
* `Scratch.Closed.eval`, `Scratch.Closed.evalAll` — evaluations, by induction on the expression.

What operators hold and what they know of the past are both read off an evaluation in this way.
-/

namespace RowStream

/-- A property of computations on a scratch buffer that goes through sequences and that the steps of
an evaluation have. -/
structure Scratch.Closed (P : ∀ α : Type, Metered.Op Scratch α → Prop) : Prop where
  pure {α : Type} (a : α) : P α (Pure.pure a)
  bind {α β : Type} {m : Metered.Op Scratch α} {f : α → Metered.Op Scratch β} :
    P α m → (∀ a, P β (f a)) → P β (m >>= f)
  read {α : Type} (f : Scratch → α) : P α (Metered.read f)
  clear : P Unit (Metered.modifyState Scratch.clear)
  append (text : String) : P Unit (Scratch.append text)
  appendChar (c : Char) : P Unit (Scratch.appendChar c)
  liftEval {α : Type} (x : Except EvalError α) : P α (Scratch.liftEval x)

namespace Scratch.Closed

variable {P : ∀ α : Type, Metered.Op Scratch α → Prop}

/-! ## Texts

Texts are written piece by piece, quoted names character by character. The buffer is cleared first
and read last. -/

theorem appendAll (h : Closed P) : (texts : List String) → P Unit (Scratch.appendAll texts)
  | [] => h.pure ()
  | text :: texts => h.bind (h.append text) fun _ => h.appendAll texts

theorem appendChars (h : Closed P) : (cs : List Char) → P Unit (Scratch.appendChars cs)
  | [] => h.pure ()
  | c :: cs => h.bind (h.appendChar c) fun _ => h.appendChars cs

theorem join (h : Closed P) (separator : String) (values : List Scalar) :
    P Scalar (ScalarFunction.join separator values) :=
  h.bind h.clear fun _ => h.bind (h.appendAll _) fun _ => h.read _

theorem quoteIdentifier (h : Closed P) (name : String) :
    P Scalar (ScalarFunction.quoteIdentifier name) := by
  unfold ScalarFunction.quoteIdentifier
  split
  · exact h.pure _
  · exact h.bind h.clear fun _ => h.bind (h.appendChars _) fun _ => h.read _

/-! ## Functions and expressions

Only joined and quoted texts are written into the buffer; the other functions give a value or fail.
Expressions are sequences of their operands and of a value that is looked at, by joint induction on
expressions and lists of expressions. -/

theorem apply (h : Closed P) (f : ScalarFunction) (args : List Scalar) :
    P Scalar (f.apply args) := by
  cases f with
  | concat => exact h.join "" args
  | concatWs =>
    rcases args with _ | ⟨v, values⟩
    · exact h.liftEval (.error _)
    · cases v with
      | null => exact h.pure _
      | text separator => exact h.join separator values
      | _ => exact h.liftEval (.error _)
  | exp =>
    rcases args with _ | ⟨v, _ | ⟨w, rest⟩⟩
    · exact h.liftEval (.error _)
    · cases v with
      | null | int32 n | int64 n | float32 x | float64 x => exact h.pure _
      | _ => exact h.liftEval (.error _)
    · cases v <;> exact h.liftEval (.error _)
  | quoteIdent =>
    rcases args with _ | ⟨v, _ | ⟨w, rest⟩⟩
    · exact h.liftEval (.error _)
    · cases v with
      | null => exact h.pure _
      | text name => exact h.quoteIdentifier name
      | _ => exact h.liftEval (.error _)
    · cases v <;> exact h.liftEval (.error _)

mutual

/-- **Evaluations inherit** what their steps have, wherever they fail. -/
theorem eval (h : Closed P) (row : Row) : (e : Expr) → P Scalar (Expr.eval row e)
  | .column i => by
    rw [Expr.eval]
    cases row[i]? with
    | none => exact h.liftEval _
    | some v => exact h.pure v
  | .literal v => by
    rw [Expr.eval]
    exact h.pure v
  | .compare op l r => by
    rw [Expr.eval]
    refine h.bind (h.eval row l) fun a => ?_
    exact h.bind (h.eval row r) fun b => h.liftEval _
  -- the right operand is evaluated only where the left one does not settle the result
  | .and l r => by
    rw [Expr.eval]
    refine h.bind (h.eval row l) fun v => h.bind (h.liftEval _) fun a => ?_
    split
    · exact h.pure _
    · refine h.bind (h.eval row r) fun w => ?_
      exact h.bind (h.liftEval _) fun b => h.pure _
  | .or l r => by
    rw [Expr.eval]
    refine h.bind (h.eval row l) fun v => h.bind (h.liftEval _) fun a => ?_
    split
    · exact h.pure _
    · refine h.bind (h.eval row r) fun w => ?_
      exact h.bind (h.liftEval _) fun b => h.pure _
  | .not e => by
    rw [Expr.eval]
    refine h.bind (h.eval row e) fun v => ?_
    exact h.bind (h.liftEval _) fun a => h.pure _
  | .isNull e => by
    rw [Expr.eval]
    exact h.bind (h.eval row e) fun v => h.pure _
  | .call f args => by
    rw [Expr.eval]
    exact h.bind (h.evalAll row args) fun vs => h.apply f vs

theorem evalAll (h : Closed P) (row : Row) :
    (es : List Expr) → P (List Scalar) (Expr.evalAll row es)
  | [] => by
    rw [Expr.evalAll]
    exact h.pure _
  | e :: es => by
    rw [Expr.evalAll]
    refine h.bind (h.eval row e) fun v => ?_
    exact h.bind (h.evalAll row es) fun vs => h.pure _

end

theorem passes (h : Closed P) (row : Row) (predicate : Expr) :
    P Bool (Expr.passes row predicate) :=
  h.bind (h.eval row predicate) fun _ => h.bind (h.liftEval _) fun _ => h.pure _

end Scratch.Closed

end RowStream
