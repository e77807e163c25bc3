import RowStream.Proofs.Expr.History

/-!
# Nested concatenations

All calls of an evaluator write into one buffer, an inner call into the one that the outer call is going to
write into. An outer call begins to write only when all its arguments have been evaluated, so nothing is lost:
a concatenation inside a concatenation is written as its arguments would be in its place, at any depth.

* `Expr.written` — what a list of arguments is written as; `Expr.written_append` for lists one behind the other,
  `Expr.written_concat` for a nested list.
* `Expr.leaves` — an argument without the concatenations around its parts; `Expr.written_leaves`.
* `Expr.yields_concat` — a concatenation leaves its own text in the buffer, and nothing else.
* `Expr.same_flatten` — the laws on the evaluator.
-/

namespace RowStream

namespace Metered

variable {ε σ α : Type} [OfRefusal ε] {m : Metered ε σ α} {s : σ} {r : Except ε α} {post : σ → Prop}

theorem Yields.state_of_unlimited (hm : m.Yields s r post) {b : Budget} (hb : b.Unlimited) :
    post (m.run (s, b)).2.1 := by
  obtain ⟨ms, t, ht, hm⟩ := hm
  obtain ⟨b', hrun, -⟩ := hm.of_unlimited hb
  unfold run
  rw [hrun]
  cases r <;> exact ht

end Metered

theorem OpError.ofEval_inj {α : Type} {x y : Except EvalError α} (h : ofEval x = ofEval y) : x = y := by
  cases x <;> cases y <;> cases h <;> rfl

namespace ScalarFunction

/-! ## Texts one behind the other

What a concatenation writes is a function of its arguments alone, and on lists of arguments it is
additive. An inner concatenation shows the text that it wrote, so that its arguments can stand in
its place; errors come in the order of evaluation on either side. -/

/-- Without a separator, texts are just put one behind the other. -/
theorem joined_empty (values : List Scalar) :
    joined "" values = String.join ((values.filter (!·.isNull)).map Scalar.shown) := by
  unfold joined
  induction (values.filter (!·.isNull)).map Scalar.shown with
  | nil => simp
  | cons t rest ih =>
    cases rest with
    | nil => simp
    | cons u rest => rw [String.intercalate_cons_cons, String.append_empty, ih, ← String.join_cons]

theorem joined_append (values others : List Scalar) :
    joined "" (values ++ others) = joined "" values ++ joined "" others := by
  rw [joined_empty, List.filter_append, List.map_append, String.join_append, ← joined_empty, ← joined_empty]

/-- A text is shown as it is. -/
theorem joined_text (t : String) : joined "" [.text t] = t := by
  simp [joined_empty, Scalar.isNull, Scalar.shown]

end ScalarFunction

namespace Expr

variable (row : Row)

/-- What arguments are written as, one behind the other. -/
def written (es : List Expr) : Except EvalError String := (values row es).map (ScalarFunction.joined "")

theorem written_cons (e : Expr) (es : List Expr) :
    written row (e :: es) =
      (do
        let v ← e.value row
        let t ← written row es
        .ok (ScalarFunction.joined "" [v] ++ t)) := by
  unfold written
  rw [values]
  cases e.value row with
  | error _ => rfl
  | ok v =>
    cases values row es with
    | error _ => rfl
    | ok vs => exact congrArg Except.ok (ScalarFunction.joined_append [v] vs)

/-- The arguments are evaluated in order, so the first error is the same on both sides. -/
theorem written_append (es es' : List Expr) :
    written row (es ++ es') =
      (do
        let t ← written row es
        let u ← written row es'
        .ok (t ++ u)) := by
  -- the first failing argument stops both sides, whichever list it stands in
  induction es with
  | nil =>
    rw [List.nil_append]
    cases written row es' with
    | error _ => rfl
    | ok u => exact congrArg Except.ok String.empty_append.symm
  | cons e es ih =>
    rw [List.cons_append, written_cons, ih, written_cons]
    cases e.value row with
    | error _ => rfl
    | ok v =>
      cases written row es with
      | error _ => rfl
      | ok t =>
        cases written row es' with
        | error _ => rfl
        | ok u => exact congrArg Except.ok (String.append_assoc ..).symm

theorem value_concat (args : List Expr) :
    (call .concat args).value row = (written row args).map .text := by
  rw [value, written]
  cases values row args <;> rfl

/-- A nested concatenation is written as its arguments. -/
theorem written_concat (args : List Expr) : written row [call .concat args] = written row args := by
  rw [written_cons, value_concat]
  cases written row args with
  | error _ => rfl
  | ok t =>
    refine congrArg Except.ok ?_
    rw [ScalarFunction.joined_text]
    exact String.append_empty

/-- A concatenation is a join without a separator. -/
theorem value_concatWs_empty (args : List Expr) :
    (call .concatWs (literal (.text "") :: args)).value row = (call .concat args).value row := by
  rw [value, values, value, value]
  cases values row args <;> rfl

/-! ## Concatenations without concatenations in them

Taking concatenations apart until none is left, by joint induction on expressions and lists. Joins
stay as they are, also those with an empty separator. -/

mutual

/-- The parts of an argument, concatenations being taken apart at any depth. -/
def leaves : Expr → List Expr
  | call .concat args => leavesAll args
  | e => [e]

def leavesAll : List Expr → List Expr
  | [] => []
  | e :: es => leaves e ++ leavesAll es

end

mutual

theorem not_concat_of_mem_leaves : (e : Expr) → ∀ leaf ∈ leaves e, ∀ args, leaf ≠ call .concat args
  | call .concat args, leaf, h => not_concat_of_mem_leavesAll args leaf (by rwa [leaves] at h)
  | column _, leaf, h | literal _, leaf, h | compare .., leaf, h | and .., leaf, h | or .., leaf, h
  | not _, leaf, h | isNull _, leaf, h | call .concatWs _, leaf, h | call .exp _, leaf, h
  | call .quoteIdent _, leaf, h => by
    rw [leaves, List.mem_singleton] at h
    · subst h
      nofun
    · nofun

theorem not_concat_of_mem_leavesAll :
    (es : List Expr) → ∀ leaf ∈ leavesAll es, ∀ args, leaf ≠ call .concat args
  | [], _, h => nomatch h
  | e :: es, leaf, h => by
    rw [leavesAll, List.mem_append] at h
    obtain h | h := h
    · exact not_concat_of_mem_leaves e leaf h
    · exact not_concat_of_mem_leavesAll es leaf h

end

mutual

theorem written_leaves : (e : Expr) → written row (leaves e) = written row [e]
  | call .concat args => by rw [leaves, written_leavesAll args, written_concat]
  | column _ | literal _ | compare .. | and .. | or .. | not _ | isNull _ | call .concatWs _ | call .exp _
  | call .quoteIdent _ => by
    rw [leaves]
    nofun

theorem written_leavesAll : (es : List Expr) → written row (leavesAll es) = written row es
  | [] => by rw [leavesAll]
  | e :: es => by
    rw [leavesAll, written_append, written_leaves e, written_leavesAll es, ← written_append]
    rfl

end

/-! ## The buffer

From meanings back to evaluators. The buffer that an outer call writes into has been written over by
the inner ones, and that is no loss: it is emptied before the first piece of the outer text. -/

/-- A concatenation that succeeds leaves its text in the buffer. -/
theorem yields_concat (args : List Expr) (s : Scratch) :
    (eval row (call .concat args)).Yields s (OpError.ofEval ((written row args).map .text)) fun t =>
      ∀ text, written row args = .ok text → t.text = text := by
  rw [eval]
  have hargs := yields_evalAll row args s
  unfold written
  cases hvalues : values row args with
  | error e =>
    rw [hvalues] at hargs
    exact hargs.bind_error.mono fun _ _ => nofun
  | ok vs =>
    rw [hvalues] at hargs
    refine hargs.bind fun t _ => ?_
    refine (ScalarFunction.yields_join "" vs t).mono fun u hu text htext => ?_
    cases htext
    exact hu

/-- Arguments that have values when each of them has a buffer of its own have these values. -/
theorem values_of_free (label : String) {es : List Expr} {vs : Row}
    (h : (es.map fun e => ((e.eval row).free (.new label)).1) = vs.map .ok) : values row es = .ok vs := by
  induction es generalizing vs with
  | nil =>
    cases vs with
    | nil => rw [values]
    | cons => cases h
  | cons e es ih =>
    cases vs with
    | nil => cases h
    | cons v vs =>
      obtain ⟨hv, hvs⟩ := List.cons.inj h
      have hvalue : e.value row = .ok v :=
        OpError.ofEval_inj ((yields_eval row e (.new label)).free_eq.symm.trans hv)
      rw [values, hvalue, ih hvs]
      rfl

/-! ## The laws -/

/-- Two expressions come to the same value, or the same error, wherever memory is not limited and whatever was
evaluated in their buffers before. -/
def Same (e e' : Expr) : Prop :=
  ∀ (s s' : Scratch) (b b' : Budget), b.Unlimited → b'.Unlimited →
    ((e.eval row).run (s, b)).1 = ((e'.eval row).run (s', b')).1

variable {row} in
theorem same_of_value {e e' : Expr} (h : e.value row = e'.value row) : Same row e e' := by
  intro s s' b b' hb hb'
  rw [(yields_eval row e s).run_eq_of_unlimited hb, (yields_eval row e' s').run_eq_of_unlimited hb', h]

/-- **Nested concatenations flatten**: a concatenation in the place of an argument is as good as its arguments
there, and so it goes on until none is left. The inner calls do no harm to the outer one, which is written as if
each argument had a buffer of its own and which leaves its own text in the buffer. -/
theorem same_flatten (xs ys zs args : List Expr) :
    Same row (.call .concat (xs ++ [.call .concat ys] ++ zs)) (.call .concat (xs ++ ys ++ zs)) ∧
    Same row (.call .concat args) (.call .concatWs (.literal (.text "") :: args)) ∧
    Same row (.call .concat args) (.call .concat (leavesAll args)) ∧
    (∀ leaf ∈ leavesAll args, ∀ inner, leaf ≠ .call .concat inner) ∧
    ∀ (s : Scratch) (b : Budget), b.Unlimited →
      let outcome := ((Expr.call .concat args).eval row).run (s, b)
      (∀ label vs, (args.map fun e => ((e.eval row).free (.new label)).1) = vs.map .ok →
        outcome.1 = .ok (.text (ScalarFunction.joined "" vs))) ∧
      ∀ v, outcome.1 = .ok v → v = .text outcome.2.1.text := by
  refine ⟨same_of_value ?_, same_of_value (value_concatWs_empty row args).symm, same_of_value ?_,
    not_concat_of_mem_leavesAll args, fun s b hb => ?_⟩
  · rw [value_concat, value_concat]
    simp only [written_append, written_concat]
  · rw [value_concat, value_concat, written_leavesAll]
  -- what is left is the scratch text of a run that no budget stops
  intro outcome
  -- the state that the run leaves and the result that it gives both come from the written text
  have hyields := yields_concat row args s
  have hstate := hyields.state_of_unlimited hb
  have hresult : outcome.1 = OpError.ofEval ((written row args).map .text) := hyields.run_eq_of_unlimited hb
  rw [hresult]
  refine ⟨fun label vs hvs => ?_, fun v hv => ?_⟩
  · rw [written, values_of_free row label hvs]
    rfl
  · cases hwritten : written row args with
    | error e =>
      rw [hwritten] at hv
      cases hv
    | ok text =>
      rw [hwritten] at hv
      cases hv
      exact congrArg Scalar.text (hstate text hwritten).symm

/-- A null and an empty inner call, two levels deep, in a buffer in which a text was left half written. -/
theorem same_flatten_nested :
    let row : Row := [.text "b", .null]
    let inner : Expr := .call .concat [.column 1]
    let ys : List Expr := [.column 0, inner, .call .concat [.literal (.text "c"), .column 1]]
    let xs : List Expr := [.literal (.text "a"), .column 1]
    let zs : List Expr := [.literal (.text "d")]
    let nested : Expr := .call .concat (xs ++ [.call .concat ys] ++ zs)
    let s : Scratch := { Scratch.new "filter" with text := "half" }
    let b := Budget.unlimited "memory" .nil
    b.Unlimited ∧ Same row nested (.call .concat (xs ++ ys ++ zs)) ∧
      ((nested.eval row).run (s, b)).1 = .ok (.text "abcd") ∧
      ((nested.eval row).run (s, b)).2.1.text = "abcd" := by
  intro row inner ys xs zs nested s b
  have hb : b.Unlimited := Budget.unlimited_unlimited "memory" .nil
  obtain ⟨hflat, -, -, -, hrun⟩ := same_flatten row xs ys zs (xs ++ [.call .concat ys] ++ zs)
  obtain ⟨hown, htext⟩ := hrun s b hb
  have hresult := hown "own" [.text "a", .null, .text "bc", .text "d"] rfl
  have hjoined : ScalarFunction.joined "" [.text "a", .null, .text "bc", .text "d"] = "abcd" := by
    decide +kernel
  rw [hjoined] at hresult
  exact ⟨hb, hflat, hresult, (Scalar.text.inj (htext _ hresult)).symm⟩

end Expr

end RowStream
