import RowStream.Proofs.Expr.History

/-!
# Laws of three-valued logic

`AND` and `OR` leave their right operand alone when the left one decides, so an error in it may never show.
The laws of logic hold all the same, for errors too: what the one side does not look at, the other does not
look at either. Only the text of an error may differ, for it names the operator that met the operand.

* `Expr.Equivalent` — two expressions come to the same value on a row, or both to an evaluation error;
  `Expr.equivalent_iff` says so by what they mean.
* `shortAnd`, `shortOr` — conjunction and disjunction of operands that may fail; `negated_shortAnd`,
  `negated_shortOr`, `shortAnd_assoc`, `shortOr_assoc` are the laws on them.
* `CompareOp.complement` — the comparison that passes where another does not.
* `Expr.Context` — an expression with a hole; `Expr.Context.known_fill` says that its value depends only on
  that of what fills the hole.
* `Expr.equivalent_logic` — the laws, and that they may be applied anywhere in an expression.
-/

namespace RowStream

/-! ## Equivalent expressions

Two expressions are compared by what their evaluators come to, from any buffer. That is the same as
comparing their meanings, up to the text of an error; so from here on only meanings are looked at,
and an operand that fails has none. -/

/-- Two results agree if they are the same value or both evaluation errors, whatever these say. -/
inductive AgreeUpToError : Except OpError Scalar → Except OpError Scalar → Prop where
  | value (v : Scalar) : AgreeUpToError (.ok v) (.ok v)
  | failure (e e' : EvalError) : AgreeUpToError (.error (.evaluation e)) (.error (.evaluation e'))

theorem agreeUpToError_ofEval_iff (x y : Except EvalError Scalar) :
    AgreeUpToError (OpError.ofEval x) (OpError.ofEval y) ↔ x.toOption = y.toOption := by
  cases x with
  | error e =>
    cases y with
    | error e' => exact iff_of_true (.failure e e') rfl
    | ok w => exact iff_of_false nofun nofun
  | ok v =>
    cases y with
    | error e' => exact iff_of_false nofun nofun
    | ok w =>
      constructor
      · rintro ⟨⟩
        rfl
      · rintro ⟨⟩
        exact .value v

theorem toOption_bind {α β : Type} (x : Except EvalError α) (f : α → Except EvalError β) :
    (x >>= f).toOption = x.toOption.bind fun a => (f a).toOption := by
  cases x <;> rfl

namespace Expr

/-- Two expressions are equivalent on a row if they agree wherever memory is not limited, whatever was
evaluated in their scratch buffers before. -/
def Equivalent (row : Row) (e e' : Expr) : Prop :=
  ∀ (s s' : Scratch) (b b' : Budget), b.Unlimited → b'.Unlimited →
    AgreeUpToError ((e.eval row).run (s, b)).1 ((e'.eval row).run (s', b')).1

/-- The value of an expression on a row, if it has one. -/
def known (row : Row) (e : Expr) : Option Scalar := (e.value row).toOption

/-- The values of expressions, if all have one. -/
def knownAll (row : Row) (es : List Expr) : Option Row := (values row es).toOption

theorem equivalent_iff {row : Row} {e e' : Expr} :
    Equivalent row e e' ↔ e.known row = e'.known row := by
  rw [known, known, ← agreeUpToError_ofEval_iff]
  constructor
  · intro h
    have hb : (Budget.unlimited "memory" .nil).Unlimited := Budget.unlimited_unlimited "memory" .nil
    have hagree := h (.new "e") (.new "e'") _ _ hb hb
    rwa [(yields_eval row e _).run_eq_of_unlimited hb,
      (yields_eval row e' _).run_eq_of_unlimited hb] at hagree
  · intro h s s' b b' hb hb'
    rwa [(yields_eval row e s).run_eq_of_unlimited hb,
      (yields_eval row e' s').run_eq_of_unlimited hb']

end Expr

/-! ## Operands that may fail

An operand either has a truth value, which may be unknown, or fails. -/

/-- An operator whose left operand may decide: where it does, the right one does not matter. -/
def shortCircuit (deciding : Bool) (combine : Option Bool → Option Bool → Option Bool)
    (x y : Option (Option Bool)) : Option (Option Bool) :=
  x.bind fun a => if a = some deciding then some (some deciding) else y.map (combine a)

def shortAnd : Option (Option Bool) → Option (Option Bool) → Option (Option Bool) :=
  shortCircuit false truthAnd

def shortOr : Option (Option Bool) → Option (Option Bool) → Option (Option Bool) :=
  shortCircuit true truthOr

def negated (x : Option (Option Bool)) : Option (Option Bool) := x.map (Option.map Bool.not)

section Laws

variable (x y z : Option (Option Bool))

theorem negated_shortAnd : negated (shortAnd x y) = shortOr (negated x) (negated y) := by
  rcases x with _ | _ | _ | _ <;> rcases y with _ | _ | _ | _ <;> rfl

theorem negated_shortOr : negated (shortOr x y) = shortAnd (negated x) (negated y) := by
  rcases x with _ | _ | _ | _ <;> rcases y with _ | _ | _ | _ <;> rfl

theorem shortAnd_assoc : shortAnd (shortAnd x y) z = shortAnd x (shortAnd y z) := by
  rcases x with _ | _ | _ | _ <;> rcases y with _ | _ | _ | _ <;> rcases z with _ | _ | _ | _ <;> rfl

theorem shortOr_assoc : shortOr (shortOr x y) z = shortOr x (shortOr y z) := by
  rcases x with _ | _ | _ | _ <;> rcases y with _ | _ | _ | _ <;> rcases z with _ | _ | _ | _ <;> rfl

end Laws

namespace Scalar

/-- A scalar as a truth value, if it is one. -/
def truth? : Scalar → Option (Option Bool)
  | null => some none
  | bool b => some (some b)
  | _ => none

@[simp] theorem toOption_truth (operator : String) (v : Scalar) : (v.truth operator).toOption = v.truth? := by
  cases v <;> rfl

@[simp] theorem truth?_ofTruth (a : Option Bool) : (ofTruth a).truth? = some a := by
  cases a <;> rfl

end Scalar

/-! ## Complementary comparisons

A comparison that is negated is the complementary one. Unknown operands make both unknown, and
operands that cannot be compared make both fail. -/

/-- The comparison that passes exactly where the other one does not. -/
def CompareOp.complement : CompareOp → CompareOp
  | eq => notEq
  | notEq => eq
  | lt => gtEq
  | ltEq => gt
  | gt => ltEq
  | gtEq => lt

theorem CompareOp.accepts_complement (op : CompareOp) (o : Ordering) :
    op.complement.accepts o = !op.accepts o := by
  cases op <;> cases o <;> rfl

/-- Comparisons are complementary where both operands are known, and unknown or in error together. -/
theorem Scalar.compareBy_complement (op : CompareOp) (a b : Scalar) :
    (a.compareBy op.complement b).toOption =
      (negated ((a.compareBy op b).toOption.bind truth?)).map ofTruth := by
  unfold compareBy
  split
  · rfl
  · split
    · rfl
    · rw [op.accepts_complement]
      rfl

namespace Expr

/-! ## Values of the operators

The meaning of each operator from the meanings of its operands. An operand that is not looked at may
have none. -/

/-- The truth value of an operand, if it has one. -/
def truth (row : Row) (e : Expr) : Option (Option Bool) := (e.known row).bind Scalar.truth?

section Operators

variable {row : Row} {l r e : Expr}

/-- How `AND` and `OR` evaluate: the left operand first, and the right one only if it does not decide. -/
theorem toOption_shortCircuit (deciding : Bool) (combine : Option Bool → Option Bool → Option Bool)
    (operator : String) (x y : Except EvalError Scalar) :
    (do
      let v ← x
      let a ← v.truth operator
      if a = some deciding then .ok (.bool deciding)
      else
        let w ← y
        let b ← w.truth operator
        .ok (.ofTruth (combine a b)) : Except EvalError Scalar).toOption =
      (shortCircuit deciding combine (x.toOption.bind Scalar.truth?) (y.toOption.bind Scalar.truth?)).map
        .ofTruth := by
  have hoperand (z : Except EvalError Scalar) :
      (z >>= Scalar.truth operator).toOption = z.toOption.bind Scalar.truth? := by
    simp only [toOption_bind, Scalar.toOption_truth]
  rw [← bind_assoc, toOption_bind, hoperand]
  cases x.toOption.bind Scalar.truth? with
  | none => rfl
  | some a =>
    unfold shortCircuit
    rw [Option.bind_some, Option.bind_some]
    split
    · rfl
    · rw [← bind_assoc, toOption_bind, hoperand]
      cases y.toOption.bind Scalar.truth? <;> rfl

theorem known_and : (and l r).known row = (shortAnd (l.truth row) (r.truth row)).map .ofTruth := by
  rw [known, value]
  exact toOption_shortCircuit false truthAnd "AND" (l.value row) (r.value row)

theorem known_or : (or l r).known row = (shortOr (l.truth row) (r.truth row)).map .ofTruth := by
  rw [known, value]
  exact toOption_shortCircuit true truthOr "OR" (l.value row) (r.value row)

theorem known_not : (not e).known row = (negated (e.truth row)).map .ofTruth := by
  rw [known, value, toOption_bind, truth, known]
  cases (e.value row).toOption with
  | none => rfl
  | some v =>
    rw [Option.bind_some, Option.bind_some, toOption_bind, Scalar.toOption_truth]
    cases v.truth? <;> rfl

theorem known_isNull : (isNull e).known row = (e.known row).map fun v => .bool v.isNull := by
  rw [known, value, toOption_bind]
  exact Option.map_eq_bind.symm

theorem known_compare (op : CompareOp) :
    (compare op l r).known row =
      (l.known row).bind fun a => (r.known row).bind fun b => (a.compareBy op b).toOption := by
  simp only [known, value, toOption_bind]

theorem known_call (f : ScalarFunction) (args : List Expr) :
    (call f args).known row = (knownAll row args).bind fun vs => (f.value vs).toOption := by
  rw [known, value, toOption_bind, knownAll]

theorem knownAll_cons (es : List Expr) :
    knownAll row (e :: es) = (e.known row).bind fun v => (knownAll row es).map (v :: ·) := by
  rw [knownAll, values]
  simp only [toOption_bind]
  simp only [known, knownAll, Option.map_eq_bind]
  rfl

/-- The truth value of an operand that is itself a logical operator. -/
theorem truth_of_known {x : Option (Option Bool)} (h : e.known row = x.map .ofTruth) : e.truth row = x := by
  rw [truth, h]
  cases x <;> simp

end Operators

/-! ## Expressions with a hole

Congruence, by induction on the context: all that an operator uses of an operand is its value, if it
has one. -/

/-- An expression in which one subexpression is left open. -/
inductive Context where
  | hole
  | compareLeft (op : CompareOp) (left : Context) (right : Expr)
  | compareRight (op : CompareOp) (left : Expr) (right : Context)
  | andLeft (left : Context) (right : Expr)
  | andRight (left : Expr) (right : Context)
  | orLeft (left : Context) (right : Expr)
  | orRight (left : Expr) (right : Context)
  | not (inner : Context)
  | isNull (inner : Context)
  | arg (function : ScalarFunction) (before : List Expr) (inner : Context) (after : List Expr)

/-- The expression with the hole filled. -/
def Context.fill (e : Expr) : Context → Expr
  | hole => e
  | compareLeft op left right => .compare op (left.fill e) right
  | compareRight op left right => .compare op left (right.fill e)
  | andLeft left right => .and (left.fill e) right
  | andRight left right => .and left (right.fill e)
  | orLeft left right => .or (left.fill e) right
  | orRight left right => .or left (right.fill e)
  | not inner => .not (inner.fill e)
  | isNull inner => .isNull (inner.fill e)
  | arg f before inner after => .call f (before ++ inner.fill e :: after)

section Congruence

variable {row : Row} {e e' : Expr}

theorem truth_congr (h : e.known row = e'.known row) : e.truth row = e'.truth row := by
  rw [truth, h, truth]

theorem knownAll_congr (h : e.known row = e'.known row) (before after : List Expr) :
    knownAll row (before ++ e :: after) = knownAll row (before ++ e' :: after) := by
  induction before with
  | nil => rw [List.nil_append, List.nil_append, knownAll_cons, h, knownAll_cons]
  | cons first before ih => rw [List.cons_append, List.cons_append, knownAll_cons, ih, knownAll_cons]

/-- **Congruence**: what an expression comes to depends on a subexpression only by what that comes to. -/
theorem Context.known_fill (h : e.known row = e'.known row) (c : Context) :
    (c.fill e).known row = (c.fill e').known row := by
  induction c with
  | hole => exact h
  | compareLeft op left right ih => rw [fill, known_compare, ih, fill, known_compare]
  | compareRight op left right ih => rw [fill, known_compare, ih, fill, known_compare]
  | andLeft left right ih => rw [fill, known_and, truth_congr ih, fill, known_and]
  | andRight left right ih => rw [fill, known_and, truth_congr ih, fill, known_and]
  | orLeft left right ih => rw [fill, known_or, truth_congr ih, fill, known_or]
  | orRight left right ih => rw [fill, known_or, truth_congr ih, fill, known_or]
  | not inner ih => rw [fill, known_not, truth_congr ih, fill, known_not]
  | isNull inner ih => rw [fill, known_isNull, ih, fill, known_isNull]
  | arg f before inner after ih => rw [fill, known_call, knownAll_congr ih, fill, known_call]

end Congruence

/-! ## The laws -/

/-- **Three-valued logic obeys the laws of logic.** On every row, also where operands fail: De Morgan's laws,
associativity, and a negated comparison is the complementary one. These and all other equivalences on a row may
be used inside any expression. -/
theorem equivalent_logic (row : Row) (l r e : Expr) :
    Equivalent row (.not (.and l r)) (.or (.not l) (.not r)) ∧
    Equivalent row (.not (.or l r)) (.and (.not l) (.not r)) ∧
    Equivalent row (.and (.and l r) e) (.and l (.and r e)) ∧
    Equivalent row (.or (.or l r) e) (.or l (.or r e)) ∧
    (∀ op : CompareOp, Equivalent row (.not (.compare op l r)) (.compare op.complement l r)) ∧
    ∀ (c : Context) (a a' : Expr), Equivalent row a a' → Equivalent row (c.fill a) (c.fill a') := by
  simp only [equivalent_iff]
  refine ⟨?_, ?_, ?_, ?_, fun op => ?_, fun c a a' h => c.known_fill h⟩
  · rw [known_not, truth_of_known known_and, negated_shortAnd, known_or, truth_of_known known_not,
      truth_of_known known_not]
  · rw [known_not, truth_of_known known_or, negated_shortOr, known_and, truth_of_known known_not,
      truth_of_known known_not]
  · rw [known_and, truth_of_known known_and, shortAnd_assoc, known_and, truth_of_known known_and]
  · rw [known_or, truth_of_known known_or, shortOr_assoc, known_or, truth_of_known known_or]
  · rw [known_not, truth, known_compare, known_compare]
    cases l.known row with
    | none => rfl
    | some a =>
      cases r.known row with
      | none => rfl
      | some b => exact (a.compareBy_complement op b).symm

/-- De Morgan's law inside a text, with a right operand that would fail, but that neither side looks at. -/
theorem equivalent_logic_unread :
    let row : Row := [.bool false, .text "x"]
    let l : Expr := .column 0
    let failing : Expr := .compare .lt (.column 0) (.column 1)
    let c : Context := .arg .concat [.column 1] .hole []
    let b := Budget.unlimited "memory" .nil
    b.Unlimited ∧ failing.known row = none ∧
      Equivalent row (.not (.and l failing)) (.or (.not l) (.not failing)) ∧
      Equivalent row (c.fill (.not (.and l failing))) (c.fill (.or (.not l) (.not failing))) ∧
      (((c.fill (.or (.not l) (.not failing))).eval row).run (.new "filter", b)).1 =
        .ok (.text "xtrue") := by
  intro row l failing c b
  have hb : b.Unlimited := Budget.unlimited_unlimited "memory" .nil
  obtain ⟨hmorgan, -, -, -, -, hcongr⟩ := equivalent_logic row l failing failing
  refine ⟨hb, by decide +kernel, hmorgan, hcongr c _ _ hmorgan, ?_⟩
  rw [(yields_eval row _ (.new "filter")).run_eq_of_unlimited hb]
  rfl

end Expr

end RowStream
