import RowStream.Expr.Eval

/-!
# Output lists

A stage replaces each row it emits by the values of its output expressions. A list of outputs that
gives back the columns in order hands rows of the same arity on as they are. The values of other
rows are kept in a row buffer until the next row is projected.
-/

namespace RowStream

/-- The outputs of a stage with their scratch buffer and the last projected row. -/
structure Outputs where
  exprs : List Expr
  scratch : Scratch
  row : Row

namespace Outputs

def new (exprs : List Expr) (label : String) : Outputs := ⟨exprs, .new label, []⟩

/-- Whether a row is handed on as it is. -/
def passesThrough (o : Outputs) (input : Row) : Bool :=
  Expr.isIdentity o.exprs && input.length == o.exprs.length

/-- Runs an evaluation in the scratch buffer. -/
def evaluate {α : Type} (m : Metered.Op Scratch α) : Metered.Op Outputs α :=
  Metered.zoom scratch (fun o scratch => { o with scratch }) m

/-- Evaluates outputs and appends their values to the row buffer, up to the first that fails. -/
def fill (input : Row) : List Expr → Metered.Op Outputs Unit
  | [] => pure ()
  | e :: es => do
    let v ← evaluate (e.eval input)
    Metered.modifyState fun o => { o with row := o.row ++ [v] }
    fill input es

/-- Evaluates the outputs on a row, to be read with `current`. -/
def project (input : Row) : Metered.Op Outputs Unit := do
  let o ← Metered.read id
  if o.passesThrough input then pure ()
  else
    Metered.modifyState fun o => { o with row := [] }
    fill input o.exprs

/-- What the outputs show for the row that was projected last. -/
def current (o : Outputs) (input : Row) : Row := if o.passesThrough input then input else o.row

/-- The output row of an input row; the row buffer is not used. -/
def projectOwned (input : Row) : Metered.Op Outputs Row := do
  let o ← Metered.read id
  if o.passesThrough input then pure input else evaluate (Expr.evalAll input o.exprs)

/-- The output rows of input rows, up to the first that fails. -/
def projectAll : List Row → Metered.Op Outputs (List Row)
  | [] => pure []
  | row :: rows => do
    let projected ← projectOwned row
    let rest ← projectAll rows
    pure (projected :: rest)

theorem length_of_projectAll {rows out : List Row} {p q : Outputs × Budget}
    (h : projectAll rows p = .ok out q) : out.length = rows.length := by
  induction rows generalizing out p q with
  | nil =>
    obtain ⟨rfl, -⟩ := Metered.pure_eq_ok.1 h
    rfl
  | cons row rows ih =>
    obtain ⟨first, r, -, h⟩ := Metered.bind_eq_ok.1 h
    obtain ⟨rest, s, hrest, h⟩ := Metered.bind_eq_ok.1 h
    obtain ⟨rfl, -⟩ := Metered.pure_eq_ok.1 h
    simp [ih hrest]

/-- Forgets the last row and gives the scratch memory back. -/
def release (o : Outputs) (b : Budget) : Outputs × Budget :=
  let (scratch, b) := o.scratch.release b
  ({ o with scratch, row := [] }, b)

end Outputs

end RowStream
