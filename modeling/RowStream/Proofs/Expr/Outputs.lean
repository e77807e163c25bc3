import RowStream.Expr.Outputs
import RowStream.Proofs.Expr.Value

/-!
# Values of outputs

Outputs come to the values of their expressions, whether they keep them in the row buffer, hand
the input row on as it is, or hand out a row of their own.

* `Expr.values_of_isIdentityFrom` — columns in order cut a row, or find it too narrow.
* `Expr.values_of_isIdentity` — handing a row on is evaluating the outputs on it;
  `Expr.valuesAll_identity` for all rows of an arity.
* `Outputs.yields_project` — what is shown after projecting is `Expr.values`.
* `Outputs.yields_projectAll` — projecting many rows is `Expr.valuesAll`.
-/

namespace RowStream

namespace Expr

/-- The output rows of input rows, up to the first that has none. -/
def valuesAll (outputs : List Expr) : List Row → Except EvalError (List Row)
  | [] => .ok []
  | row :: rows => do
    let out ← values row outputs
    let rest ← valuesAll outputs rows
    .ok (out :: rest)

/-- The first input rows have the first output rows. -/
theorem valuesAll_take {outputs : List Expr} {rows out : List Row}
    (h : valuesAll outputs rows = .ok out) (n : Nat) :
    valuesAll outputs (rows.take n) = .ok (out.take n) := by
  induction rows generalizing out n with
  | nil =>
    cases h
    rw [List.take_nil]
    rfl
  | cons row rows ih =>
    cases n with
    | zero => rfl
    | succ n =>
      rw [List.take_succ_cons, valuesAll]
      rw [valuesAll] at h
      -- neither the row nor a later one can have failed, as all of them together did not
      cases hrow : values row outputs with
      | error e =>
        rw [hrow] at h
        cases h
      | ok v =>
        cases hrest : valuesAll outputs rows with
        | error e =>
          rw [hrow, hrest] at h
          cases h
        | ok vs =>
          rw [hrow, hrest] at h
          cases h
          rw [ih hrest n]
          rfl

/-! ## Rows that are handed on

A row is handed on without evaluation if the outputs are its columns, in order, and it has no
others. Columns in order would cut a longer row; in one that is too narrow the first missing column
is the error that evaluation comes to. -/

/-- The columns from some place on are what stands in the row from that place on, as far as the
columns go. Where the row ends before they do, the first column behind its end is out of bounds. -/
theorem values_of_isIdentityFrom {outputs : List Expr} (before row : Row)
    (h : isIdentityFrom before.length outputs = true) :
    values (before ++ row) outputs =
      if outputs.length ≤ row.length then .ok (row.take outputs.length)
      else .error (.columnOutOfBounds (before ++ row).length (before ++ row).length) := by
  -- induction on the expressions, with the columns passed so far in front
  induction outputs generalizing before row with
  | nil => rfl
  | cons e rest ih =>
    cases e with
    | column i =>
      simp only [isIdentityFrom, Bool.and_eq_true, beq_iff_eq] at h
      obtain ⟨rfl, hrest⟩ := h
      obtain _ | ⟨v, row⟩ := row
      · have hv : value (before ++ []) (.column before.length) =
            .error (.columnOutOfBounds before.length before.length) := by simp [value]
        rw [values, hv]
        simp
        rfl
      · have hv : value (before ++ v :: row) (.column before.length) = .ok v := by simp [value]
        have hvs := ih (before ++ [v]) row (by simpa using hrest)
        rw [List.append_assoc, List.singleton_append] at hvs
        rw [values, hv, hvs]
        by_cases hle : rest.length ≤ row.length
        · simp [hle]
          rfl
        · simp [hle]
          rfl
    | _ => simp [isIdentityFrom] at h

/-- **Handing a row on is evaluating the outputs on it.** -/
theorem values_of_isIdentity {outputs : List Expr} {row : Row} (h : isIdentity outputs = true)
    (hlen : row.length = outputs.length) : values row outputs = .ok row := by
  have hvalues := values_of_isIdentityFrom [] row h
  rwa [if_pos (Nat.le_of_eq hlen.symm), List.take_of_length_le (Nat.le_of_eq hlen)] at hvalues

theorem isIdentityFrom_range' (first n : Nat) :
    isIdentityFrom first ((List.range' first n).map column) = true := by
  induction n generalizing first with
  | zero => rfl
  | succ n ih => simpa [List.range'_succ, isIdentityFrom] using ih (first + 1)

theorem isIdentity_identity (n : Nat) : isIdentity (identity n) = true := by
  rw [isIdentity, identity, List.range_eq_range']
  exact isIdentityFrom_range' 0 n

/-- Rows of as many columns as are asked for come out as they are. -/
theorem valuesAll_identity {arity : Nat} {rows : List Row}
    (h : ∀ row ∈ rows, row.length = arity) : valuesAll (identity arity) rows = .ok rows := by
  induction rows with
  | nil => rfl
  | cons row rows ih =>
    obtain ⟨hrow, hrows⟩ := List.forall_mem_cons.1 h
    have hvalues : values row (identity arity) = .ok row :=
      values_of_isIdentity (isIdentity_identity arity) (by simp [identity, hrow])
    rw [valuesAll, hvalues, ih hrows]
    rfl

end Expr

namespace Outputs

theorem values_of_passesThrough {o : Outputs} {input : Row} (h : o.passesThrough input = true) :
    Expr.values input o.exprs = .ok input := by
  simp only [passesThrough, Bool.and_eq_true, beq_iff_eq] at h
  exact Expr.values_of_isIdentity h.1 h.2

/-! ## Into the row buffer

Filling goes through the outputs from the first to the last. The induction is on the outputs, with
whatever is in the buffer already in front. -/

/-- Filling appends the values to what is in the row buffer. -/
theorem yields_fill (input : Row) (es : List Expr) (o : Outputs) :
    (fill input es).Yields o ((OpError.ofEval (Expr.values input es)).map fun _ => ()) fun p =>
      p.exprs = o.exprs ∧ ∀ vs, Expr.values input es = .ok vs → p.row = o.row ++ vs := by
  -- what is in the row buffer are the values of the outputs before
  induction es generalizing o with
  | nil =>
    refine (Metered.follows_pure () o).yields ⟨rfl, fun vs hvs => ?_⟩
    cases hvs
    exact (List.append_nil _).symm
  | cons e es ih =>
    have heval : (evaluate (e.eval input)).Yields o (OpError.ofEval (e.value input)) fun p =>
        p.exprs = o.exprs ∧ p.row = o.row :=
      (e.yields_eval input o.scratch).zoom fun t _ => ⟨rfl, rfl⟩
    cases hv : e.value input with
    | error err =>
      rw [hv] at heval
      have hvs : Expr.values input (e :: es) = .error err := by
        rw [Expr.values, hv]
        rfl
      rw [hvs]
      exact heval.bind_error.mono fun p hp => ⟨hp.1, nofun⟩
    | ok v =>
      rw [hv] at heval
      have hvs : Expr.values input (e :: es) = (Expr.values input es).map (v :: ·) := by
        rw [Expr.values, hv]
        rfl
      refine heval.bind fun p hp => ?_
      refine (Metered.follows_modifyState _ p).bind_yields ?_
      have hrest := ih { p with row := p.row ++ [v] }
      cases hws : Expr.values input es with
      | error err =>
        rw [hws] at hrest
        rw [hvs, hws]
        exact hrest.mono fun q hq => ⟨hq.1.trans hp.1, nofun⟩
      | ok ws =>
        rw [hws] at hrest
        rw [hvs, hws]
        refine hrest.mono fun q hq => ⟨hq.1.trans hp.1, fun vs hvs => ?_⟩
        cases hvs
        rw [hq.2 ws rfl]
        simp [hp.2]

/-- **What is shown after projecting** a row are the values of the outputs on it. -/
theorem yields_project (input : Row) (o : Outputs) :
    (project input).Yields o ((OpError.ofEval (Expr.values input o.exprs)).map fun _ => ())
      fun p => p.exprs = o.exprs ∧
        ∀ out, Expr.values input o.exprs = .ok out → p.current input = out := by
  refine (Metered.follows_read id o).bind_yields ?_
  -- the row is handed on as it is, or the outputs are evaluated into the row buffer
  by_cases hpass : o.passesThrough input = true
  · rw [values_of_passesThrough hpass]
    simp only [id, hpass, if_true]
    refine (Metered.follows_pure () o).yields ⟨rfl, fun out hout => ?_⟩
    cases hout
    simp [current, hpass]
  · simp only [id, hpass, Bool.false_eq_true, if_false]
    refine (Metered.follows_modifyState _ o).bind_yields ?_
    refine (yields_fill input o.exprs { o with row := [] }).mono fun p hp => ?_
    refine ⟨hp.1, fun out hout => ?_⟩
    have hsame : p.passesThrough input = o.passesThrough input := by
      unfold passesThrough
      rw [hp.1]
    simp [current, hsame, hpass, hp.2 out hout]

/-- Projecting and then showing the row, within a whole. -/
theorem yields_show {σ : Type} {get : σ → Outputs} {set : σ → Outputs → σ} {s : σ}
    {post : σ → Prop} (input : Row)
    (h : ∀ p : Outputs, p.exprs = (get s).exprs →
      (∀ out, Expr.values input (get s).exprs = .ok out → p.current input = out) →
      post (set s p)) :
    (do
      Metered.zoom get set (project input)
      pure true).Yields s ((OpError.ofEval (Expr.values input (get s).exprs)).map fun _ => true)
      post := by
  have hproject := yields_project input (get s)
  have hzoom : (Metered.zoom get set (project input)).Yields s
      ((OpError.ofEval (Expr.values input (get s).exprs)).map fun _ => ()) post :=
    hproject.zoom fun p hp => h p hp.1 hp.2
  cases hvalues : Expr.values input (get s).exprs with
  | error e =>
    rw [hvalues] at hzoom
    exact hzoom.bind_error
  | ok out =>
    rw [hvalues] at hzoom
    refine hzoom.bind fun t ht => ?_
    exact (Metered.follows_pure true t).yields ht

/-! ## Rows of their own -/

theorem yields_projectOwned (input : Row) (o : Outputs) :
    (projectOwned input).Yields o (OpError.ofEval (Expr.values input o.exprs)) fun p =>
      p.exprs = o.exprs := by
  refine (Metered.follows_read id o).bind_yields ?_
  by_cases hpass : o.passesThrough input = true
  · rw [values_of_passesThrough hpass]
    simp only [id, hpass, if_true]
    exact (Metered.follows_pure input o).yields rfl
  · have heval : (evaluate (Expr.evalAll input o.exprs)).Yields o
        (OpError.ofEval (Expr.values input o.exprs)) fun p => p.exprs = o.exprs :=
      (Expr.yields_evalAll input o.exprs o.scratch).zoom fun t _ => rfl
    simp only [id, hpass, Bool.false_eq_true, if_false]
    exact heval

/-- Rows are projected in order, up to the first that fails. -/
theorem yields_projectAll (rows : List Row) (o : Outputs) :
    (projectAll rows).Yields o (OpError.ofEval (Expr.valuesAll o.exprs rows)) fun p =>
      p.exprs = o.exprs := by
  induction rows generalizing o with
  | nil => exact (Metered.follows_pure [] o).yields rfl
  | cons row rows ih =>
    refine (yields_projectOwned row o).bind_eval fun out p _ hp => ?_
    have hrest := ih p
    rw [hp] at hrest
    refine hrest.bind_eval fun rest q _ hq => ?_
    exact (Metered.follows_pure _ q).yields hq

end Outputs

end RowStream
