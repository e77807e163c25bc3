import RowStream.Proofs.Expr.Value

/-!
# Histories of evaluators

One scratch buffer serves an operator for all its rows: it is kept from one text to the next, and
a refusal in the middle of a text leaves it half written. Nothing of that is seen by the
evaluations that follow.

* `Evaluator.Call`, `Evaluator.after` — the calls of an evaluator, and the buffer that a history
  of them leaves, each under the budget that it found.
* `Evaluator.eval_after` — after any history and under any budget, an expression comes to what it
  comes to in a fresh buffer where memory is not limited, unless memory is refused.
-/

namespace RowStream

namespace Metered

variable {ε σ α : Type} [OfRefusal ε] {m : Metered ε σ α} {s : σ} {r : Except ε α} {post : σ → Prop}

/-- What a computation yields, it comes to under every budget that does not refuse. -/
theorem Yields.run_eq (hm : m.Yields s r post) (b : Budget) :
    (m.run (s, b)).1 = r ∨ ∃ e, (m.run (s, b)).1 = .error (OfRefusal.ofRefusal e) := by
  obtain ⟨ms, t, -, hm⟩ := hm
  unfold run
  cases hreplay : b.replay ms with
  | ok u b' =>
    left
    rw [hm.granted hreplay]
    cases r <;> rfl
  | error e b' =>
    right
    obtain ⟨u, hu⟩ := hm.refused hreplay
    exact ⟨e, by rw [hu]⟩

theorem Yields.run_eq_of_unlimited (hm : m.Yields s r post) {b : Budget} (hb : b.Unlimited) :
    (m.run (s, b)).1 = r := by
  obtain ⟨ms, t, -, hm⟩ := hm
  obtain ⟨b', hrun, -⟩ := hm.of_unlimited hb
  unfold run
  rw [hrun]
  cases r <;> rfl

theorem Yields.free_eq (hm : m.Yields s r post) : (m.free s).1 = r := by
  obtain ⟨ms, t, -, hm⟩ := hm
  rw [hm.free_eq]

end Metered

namespace Evaluator

/-- A call of an evaluator. -/
inductive Call where
  | eval (e : Expr) (row : Row)
  | passes (predicate : Expr) (row : Row)
  | release

/-- The buffer and the budget that a call leaves, whatever came out of it. -/
def Call.perform (s : Scratch) (b : Budget) : Call → Scratch × Budget
  | eval e row => ((e.eval row).run (s, b)).2
  | passes predicate row => ((predicate.passes row).run (s, b)).2
  | release => s.release b

/-- The buffer of an evaluator after a history of calls. Between two of them the rest of the job
and all other jobs may have moved memory, so every call comes with the budget that it finds. -/
def after (label : String) (history : List (Call × Budget)) : Scratch :=
  history.foldl (fun s (c, b) => (c.perform s b).1) (.new label)

/-- **The past of an evaluator does not matter, and neither does memory**: an expression comes to
what a fresh evaluator without limits makes of it, which is its value or its evaluation error,
unless a request is refused, and in a job without a limit none is. -/
theorem eval_after (label fresh : String) (history : List (Call × Budget)) (e : Expr) (row : Row)
    (b : Budget) :
    let expected := ((e.eval row).free (.new fresh)).1
    let result := ((e.eval row).run (after label history, b)).1
    expected = OpError.ofEval (e.value row) ∧
      (result = expected ∨ ∃ refusal, result = .error (.memory refusal)) ∧
      (b.Unlimited → result = expected ∧ ∀ refusal, result ≠ .error (.memory refusal)) := by
  intro expected result
  have hexpected : expected = OpError.ofEval (e.value row) :=
    (Expr.yields_eval row e (.new fresh)).free_eq
  -- the evaluator comes to the value from every buffer, so also from the one that it has
  have hyields := Expr.yields_eval row e (after label history)
  have hmemory (refusal : MemoryError) :
      OpError.ofEval (e.value row) ≠ .error (.memory refusal) := by
    cases e.value row <;> exact fun h => nomatch h
  rw [hexpected]
  refine ⟨rfl, hyields.run_eq b, fun hb => ?_⟩
  have hresult : result = OpError.ofEval (e.value row) := hyields.run_eq_of_unlimited hb
  exact ⟨hresult, hresult ▸ hmemory⟩

/-- A refusal leaves the first piece of a text in the buffer, and the next text is written as if
nothing had been there. -/
theorem eval_after_refusal :
    let long := "0123456789012345678901234567890123456789012345678901234567890123"
    let refused : Call :=
      .eval (.call .concat [.literal (.text "left "), .literal (.text long)]) []
    let history := [(refused, ⟨.new "memory" 64, .new .nil none⟩)]
    let e := Expr.call .concat [.literal (.text "in "), .column 0]
    let b := Budget.unlimited "memory" .nil
    (after "filter" history).text = "left " ∧ b.Unlimited ∧
      ((e.eval [.text "order"]).run (after "filter" history, b)).1 = .ok (.text "in order") := by
  intro long refused history e b
  have hb : b.Unlimited := Budget.unlimited_unlimited "memory" .nil
  obtain ⟨hvalue, -, hresult⟩ := eval_after "filter" "filter" history e [.text "order"] b
  refine ⟨by decide +kernel, hb, ?_⟩
  rw [(hresult hb).1, hvalue]
  rfl

end Evaluator

end RowStream
