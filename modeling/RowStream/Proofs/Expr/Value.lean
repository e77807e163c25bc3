import RowStream.Expr.Eval
import RowStream.Proofs.Memory.Trace

/-!
# Values of expressions

`Expr.value` is what an expression means on a row, without a scratch buffer and without memory.
The evaluator agrees with it: from any scratch buffer, whatever was evaluated in it before, it
moves some memory and comes to that value or to that evaluation error (`Expr.yields_eval`).

* `ScalarFunction.value` — the functions on values; a join is `String.intercalate` of the shown
  values that are not null, a quoted name is `Identifier.quote`.
* `Expr.value`, `Expr.values`, `Expr.holds` — expressions, lists of them, predicates.
* `Metered.Yields.bind_eval` — the rule by which the evaluator and the meaning are walked through
  side by side.
-/

namespace RowStream

/-- The outcome of an evaluation as that of an operator. -/
def OpError.ofEval {α : Type} (x : Except EvalError α) : Except OpError α := x.mapError .evaluation

namespace ScalarFunction

/-- The shown values that are not null, with a separator between them. -/
def joined (separator : String) (values : List Scalar) : String :=
  separator.intercalate ((values.filter (!·.isNull)).map Scalar.shown)

/-- The meaning of a function. -/
def value (f : ScalarFunction) (args : List Scalar) : Except EvalError Scalar :=
  match f, args with
  | concat, values => .ok (.text (joined "" values))
  | concatWs, [] => .error (.wrongArgumentCount f.name 1)
  | concatWs, .null :: _ => .ok .null
  | concatWs, .text separator :: values => .ok (.text (joined separator values))
  | concatWs, other :: _ => .error (.separatorNotText other.dataType)
  | exp, [.null] => .ok .null
  | exp, [v] =>
    match v.number? with
    | some x => .ok (.float64 x.exp)
    | none => .error (.exponentNotNumber v.dataType)
  | exp, _ => .error (.wrongArgumentCount f.name 1)
  | quoteIdent, [.null] => .ok .null
  | quoteIdent, [.text name] => .ok (.text (Identifier.quote name))
  | quoteIdent, [v] => .error (.identifierNotText v.dataType)
  | quoteIdent, _ => .error (.wrongArgumentCount f.name 1)

end ScalarFunction

namespace Expr

mutual

/-- The meaning of an expression on a row. -/
def value (row : Row) : Expr → Except EvalError Scalar
  | column i =>
    match row[i]? with
    | some v => .ok v
    | none => .error (.columnOutOfBounds i row.length)
  | literal v => .ok v
  | compare op l r => do
    let a ← value row l
    let b ← value row r
    a.compareBy op b
  | and l r => do
    let v ← value row l
    let a ← v.truth "AND"
    if a = some false then .ok (.bool false)
    else
      let w ← value row r
      let b ← w.truth "AND"
      .ok (.ofTruth (truthAnd a b))
  | or l r => do
    let v ← value row l
    let a ← v.truth "OR"
    if a = some true then .ok (.bool true)
    else
      let w ← value row r
      let b ← w.truth "OR"
      .ok (.ofTruth (truthOr a b))
  | not e => do
    let v ← value row e
    let a ← v.truth "NOT"
    .ok (.ofTruth (a.map Bool.not))
  | isNull e => do
    let v ← value row e
    .ok (.bool v.isNull)
  | call f args => do
    let vs ← values row args
    f.value vs

/-- The values of expressions, up to the first that has none. -/
def values (row : Row) : List Expr → Except EvalError Row
  | [] => .ok []
  | e :: es => do
    let v ← value row e
    let vs ← values row es
    .ok (v :: vs)

end

/-- Whether a predicate holds on a row: unknown does not. -/
def holds (row : Row) (predicate : Expr) : Except EvalError Bool := do
  let v ← value row predicate
  let truth ← v.truth "WHERE"
  .ok (truth == some true)

end Expr

/-! ## Texts in the scratch buffer

Appending never looks at what the buffer holds but to find out whether it has to grow. -/

namespace Scratch

theorem yields_reserve (additional : Nat) (s : Scratch) :
    (reserve additional).Yields s (.ok ()) fun t => t.text = s.text := by
  refine (Metered.follows_read id s).bind_yields ?_
  simp only [id]
  split
  · exact (Metered.follows_pure () s).yields rfl
  · exact (Metered.Follows.zoom (Scope.follows_add s.scope _)).yields rfl

/-- Making room and then changing the text, as both ways to append do. -/
theorem yields_reserve_modify {additional : Nat} {f : Scratch → Scratch} (s : Scratch)
    {post : Scratch → Prop} (h : ∀ t : Scratch, t.text = s.text → post (f t)) :
    (Metered.mapError OpError.memory
      (reserve additional >>= fun _ => Metered.modifyState f)).Yields s (.ok ()) post := by
  have hpush : (reserve additional >>= fun _ => Metered.modifyState f).Yields s (.ok ()) post := by
    refine (yields_reserve _ s).bind fun t ht => ?_
    exact (Metered.follows_modifyState _ t).yields (h t ht)
  obtain ⟨ms, t, ht, hm⟩ := hpush
  exact (hm.mapError fun _ => rfl).yields ht

theorem yields_append (text : String) (s : Scratch) :
    (append text).Yields s (.ok ()) fun t => t.text = s.text ++ text :=
  yields_reserve_modify s fun t ht => by rw [ht]

theorem yields_appendChar (c : Char) (s : Scratch) :
    (appendChar c).Yields s (.ok ()) fun t => t.text = s.text.push c :=
  yields_reserve_modify s fun t ht => by rw [ht]

/-- Texts end up one behind the other. -/
theorem yields_appendAll (texts : List String) (s : Scratch) :
    (appendAll texts).Yields s (.ok ()) fun t => t.text = s.text ++ String.join texts := by
  induction texts generalizing s with
  | nil => exact (Metered.follows_pure () s).yields (by simp)
  | cons text texts ih =>
    refine (yields_append text s).bind fun t ht => ?_
    refine (ih t).mono fun u hu => ?_
    rw [hu, ht, String.join_cons, String.append_assoc]

theorem yields_appendChars (cs : List Char) (s : Scratch) :
    (appendChars cs).Yields s (.ok ()) fun t => t.text = s.text ++ String.ofList cs := by
  induction cs generalizing s with
  | nil => exact (Metered.follows_pure () s).yields (by simp)
  | cons c cs ih =>
    refine (yields_appendChar c s).bind fun t ht => ?_
    refine (ih t).mono fun u hu => ?_
    rw [hu, ht, ← String.toList_inj]
    simp

/-- An evaluation error, or a value, without any movement. -/
theorem yields_liftEval {α : Type} (x : Except EvalError α) (s : Scratch) :
    (liftEval x).Yields s (OpError.ofEval x) fun _ => True := by
  refine (Metered.Follows.still (t := s) fun b => ?_).yields trivial
  cases x <;> rfl

end Scratch

namespace Metered

variable {σ α β : Type}

/-- **Evaluator and meaning side by side**: where the meaning goes on with a value, the evaluator
does so too, and an evaluation error ends both. -/
theorem Yields.bind_eval {m : Metered.Op σ α} {f : α → Metered.Op σ β} {x : Except EvalError α}
    {g : α → Except EvalError β} {s : σ} {post : σ → Prop}
    (hm : m.Yields s (OpError.ofEval x) post)
    (hf : ∀ a t, x = .ok a → post t → (f a).Yields t (OpError.ofEval (g a)) post) :
    (m >>= f).Yields s (OpError.ofEval (x >>= g)) post := by
  cases x with
  | error e => exact hm.bind_error
  | ok a => exact hm.bind fun t ht => hf a t rfl ht

end Metered

/-! ## Functions

A function forgets the text that is in the buffer before it appends anything. So what it comes to is
independent of the buffer, although it is read from there. -/

namespace ScalarFunction

/-- The pieces that a join appends are the joined text. -/
theorem join_joinPieces (separator : String) (values : List Scalar) :
    String.join (joinPieces separator values) = joined separator values := by
  unfold joinPieces joined
  cases values.filter (!·.isNull) with
  | nil => simp
  | cons v rest =>
    induction rest generalizing v with
    | nil => simp
    | cons w rest ih =>
      have hrest := ih w
      simp only [String.join_cons, List.map_cons, List.flatMap_cons, List.cons_append,
        List.nil_append, String.intercalate_cons_cons] at hrest ⊢
      rw [hrest, String.append_assoc]

/-- A join forgets the text that is in the buffer and appends its pieces. -/
theorem yields_join (separator : String) (values : List Scalar) (s : Scratch) :
    (join separator values).Yields s (.ok (.text (joined separator values))) fun t =>
      t.text = joined separator values := by
  refine (Metered.follows_modifyState Scratch.clear s).bind_yields ?_
  refine (Scratch.yields_appendAll _ s.clear).bind fun t ht => ?_
  have htext : t.text = joined separator values := by
    rw [ht, join_joinPieces]
    exact String.empty_append
  rw [← htext]
  exact (Metered.follows_read (fun s : Scratch => Scalar.text s.text) t).yields rfl

theorem yields_quoteIdentifier (name : String) (s : Scratch) :
    (quoteIdentifier name).Yields s (.ok (.text (Identifier.quote name))) fun _ => True := by
  unfold quoteIdentifier Identifier.quote
  split
  · exact (Metered.follows_pure _ s).yields trivial
  · refine (Metered.follows_modifyState Scratch.clear s).bind_yields ?_
    refine (Scratch.yields_appendChars _ s.clear).bind fun t ht => ?_
    have htext : t.text = String.ofList (Identifier.quotedChars name) := by
      rw [ht]
      exact String.empty_append
    rw [← htext]
    exact (Metered.follows_read (fun s : Scratch => Scalar.text s.text) t).yields trivial

/-- **A function comes to its meaning** from any scratch buffer. -/
theorem yields_apply (f : ScalarFunction) (args : List Scalar) (s : Scratch) :
    (f.apply args).Yields s (OpError.ofEval (f.value args)) fun _ => True := by
  have hpure (v : Scalar) :
      (pure v : Metered.Op Scratch Scalar).Yields s (OpError.ofEval (.ok v)) fun _ => True :=
    (Metered.follows_pure v s).yields trivial
  have herror (e : EvalError) (m : Metered.Op Scratch Scalar) (x : Except EvalError Scalar)
      (hm : m = Scratch.liftEval (.error e)) (hx : x = .error e) :
      m.Yields s (OpError.ofEval x) fun _ => True := by
    rw [hm, hx]
    exact Scratch.yields_liftEval _ s
  -- every function looks at its number of arguments first and at their types then
  cases f with
  | concat => exact (yields_join "" args s).mono fun _ _ => trivial
  | concatWs =>
    rcases args with _ | ⟨v, values⟩
    · exact herror _ _ _ rfl rfl
    · cases v with
      | null => exact hpure _
      | text separator => exact (yields_join separator values s).mono fun _ _ => trivial
      | _ => exact herror _ _ _ rfl rfl
  | exp =>
    rcases args with _ | ⟨v, _ | ⟨w, rest⟩⟩
    · exact herror _ _ _ rfl rfl
    · cases v with
      | null | int32 n | int64 n | float32 x | float64 x => exact hpure _
      | _ => exact herror _ _ _ rfl rfl
    · cases v <;> exact herror _ _ _ rfl rfl
  | quoteIdent =>
    rcases args with _ | ⟨v, _ | ⟨w, rest⟩⟩
    · exact herror _ _ _ rfl rfl
    · cases v with
      | null => exact hpure _
      | text name => exact yields_quoteIdentifier name s
      | _ => exact herror _ _ _ rfl rfl
    · cases v <;> exact herror _ _ _ rfl rfl

end ScalarFunction

namespace Expr

/-! ## Expressions

Induction on the expression; each case is the evaluator's own sequence of steps. -/

mutual

/-- **The evaluator comes to the meaning of the expression**, whatever its scratch buffer holds
from evaluations before. -/
theorem yields_eval (row : Row) :
    (e : Expr) → (s : Scratch) →
      (eval row e).Yields s (OpError.ofEval (value row e)) fun _ => True
  | column i, s => by
    rw [eval, value]
    cases row[i]? with
    | none => exact Scratch.yields_liftEval _ s
    | some v => exact (Metered.follows_pure v s).yields trivial
  | literal v, s => by
    rw [eval, value]
    exact (Metered.follows_pure v s).yields trivial
  | compare op l r, s => by
    rw [eval, value]
    refine (yields_eval row l s).bind_eval fun a t _ _ => ?_
    refine (yields_eval row r t).bind_eval fun b u _ _ => ?_
    exact Scratch.yields_liftEval _ u
  -- the right operand is evaluated only where the left one leaves the result open
  | and l r, s => by
    rw [eval, value]
    refine (yields_eval row l s).bind_eval fun v t _ _ => ?_
    refine (Scratch.yields_liftEval _ t).bind_eval fun a u _ _ => ?_
    split
    · exact (Metered.follows_pure _ u).yields trivial
    · refine (yields_eval row r u).bind_eval fun w t _ _ => ?_
      refine (Scratch.yields_liftEval _ t).bind_eval fun b u _ _ => ?_
      exact (Metered.follows_pure _ u).yields trivial
  | or l r, s => by
    rw [eval, value]
    refine (yields_eval row l s).bind_eval fun v t _ _ => ?_
    refine (Scratch.yields_liftEval _ t).bind_eval fun a u _ _ => ?_
    split
    · exact (Metered.follows_pure _ u).yields trivial
    · refine (yields_eval row r u).bind_eval fun w t _ _ => ?_
      refine (Scratch.yields_liftEval _ t).bind_eval fun b u _ _ => ?_
      exact (Metered.follows_pure _ u).yields trivial
  | not e, s => by
    rw [eval, value]
    refine (yields_eval row e s).bind_eval fun v t _ _ => ?_
    refine (Scratch.yields_liftEval _ t).bind_eval fun a u _ _ => ?_
    exact (Metered.follows_pure _ u).yields trivial
  | isNull e, s => by
    rw [eval, value]
    refine (yields_eval row e s).bind_eval fun v t _ _ => ?_
    exact (Metered.follows_pure _ t).yields trivial
  | call f args, s => by
    rw [eval, value]
    refine (yields_evalAll row args s).bind_eval fun vs t _ _ => ?_
    exact ScalarFunction.yields_apply f vs t

theorem yields_evalAll (row : Row) :
    (es : List Expr) → (s : Scratch) →
      (evalAll row es).Yields s (OpError.ofEval (values row es)) fun _ => True
  | [], s => by
    rw [evalAll, values]
    exact (Metered.follows_pure _ s).yields trivial
  | e :: es, s => by
    rw [evalAll, values]
    refine (yields_eval row e s).bind_eval fun v t _ _ => ?_
    refine (yields_evalAll row es t).bind_eval fun vs u _ _ => ?_
    exact (Metered.follows_pure _ u).yields trivial

end

theorem yields_passes (row : Row) (predicate : Expr) (s : Scratch) :
    (passes row predicate).Yields s (OpError.ofEval (holds row predicate)) fun _ => True := by
  unfold passes holds
  refine (yields_eval row predicate s).bind_eval fun v t _ _ => ?_
  refine (Scratch.yields_liftEval _ t).bind_eval fun truth u _ _ => ?_
  exact (Metered.follows_pure _ u).yields trivial

end Expr

end RowStream
