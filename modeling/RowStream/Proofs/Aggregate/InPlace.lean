import RowStream.Aggregate.Set

/-!
# Failed updates

Aggregates work on their states in place, so that a failure could leave a state half written. It does not:
nothing is written before the last check. A row that is refused by one of several aggregates has been taken
by those before it, and by no other.

* `AggState.settle` — what an update comes to that checks before it writes.
* `AggregateKind.iterateInPlace_eq`, `AggregateKind.mergeInPlace_eq` — each aggregate works in this way.
* `Aggregates.updateAll_cons` — one aggregate after the other.
* `Aggregates.update_failed` — where a row is refused.
-/

namespace RowStream

namespace AggState

/-- What an update in place comes to if it writes nothing before its last check. -/
def settle (state : AggState) : Except OpError AggState → EStateM.Result OpError AggState Unit
  | .ok next => .ok () next
  | .error e => .error e state

theorem eq_of_settle_error {state after : AggState} {e : OpError} {r : Except OpError AggState}
    (h : state.settle r = .error e after) : after = state := by
  cases r with
  | ok next => cases h
  | error e => cases h; rfl

end AggState

namespace Updating

theorem get_bind {α : Type} (f : AggState → Updating α) (state : AggState) :
    (get >>= f) state = f state state := rfl

end Updating

namespace AggregateKind

open Updating

theorem addToSumInPlace_eq (v : Scalar) (state : AggState) :
    addToSumInPlace v state = state.settle (addToSum state v) := by
  unfold addToSumInPlace addToSum
  rw [get_bind]
  -- a branch for each check; only the last one that passes is followed by a write
  cases state with
  | sum total =>
    cases v.isNull with
    | true => rfl
    | false =>
      cases Total.ofScalar? v with
      | none => rfl
      | some summand =>
        cases total with
        | none => rfl
        | some t =>
          simp only
          cases t.add? summand <;> rfl
  | _ => rfl

theorem addToExtremeInPlace_eq (kind : AggregateKind) (wanted : Ordering) (v : Scalar)
    (state : AggState) :
    kind.addToExtremeInPlace wanted v state = state.settle (addToExtreme kind wanted state v) := by
  unfold addToExtremeInPlace addToExtreme
  rw [get_bind]
  cases state with
  | value best =>
    cases v.isNull with
    | true => rfl
    | false =>
      cases best with
      | none => rfl
      | some b =>
        simp only [Bool.false_eq_true, ↓reduceIte]
        split <;> rfl
  | _ => rfl

theorem addToArbitraryInPlace_eq (v : Scalar) (state : AggState) :
    addToArbitraryInPlace v state = state.settle (addToArbitrary state v) := by
  unfold addToArbitraryInPlace addToArbitrary
  rw [get_bind]
  cases state with
  | value slot =>
    cases slot with
    | none => cases v.isNull <;> rfl
    | some _ => rfl
  | _ => rfl

/-- **Every aggregate checks before it writes**, when it takes an input value. -/
theorem iterateInPlace_eq (kind : AggregateKind) (value : Option Scalar) (state : AggState) :
    kind.iterateInPlace value state = state.settle (kind.iterate state value) := by
  -- both sides look at the same things in the same order, so each case ends in the same branch
  cases kind with
  | count =>
    cases state with
    | count n =>
      simp only [iterateInPlace, iterate, get_bind]
      cases (value.getD .null).isNull <;> rfl
    | _ => rfl
  | countStar => cases state <;> rfl
  | sum =>
    cases value with
    | none => rfl
    | some v => exact addToSumInPlace_eq v state
  | avg =>
    cases state with
    | avg total n =>
      simp only [iterateInPlace, iterate, get_bind]
      cases (value.getD .null).isNull with
      | true => rfl
      | false => cases (value.getD .null).number? <;> rfl
    | _ => rfl
  | min => exact addToExtremeInPlace_eq min .lt _ state
  | max => exact addToExtremeInPlace_eq max .gt _ state
  | arbitrary => exact addToArbitraryInPlace_eq _ state

/-- So it does when it takes a written state. -/
theorem mergeInPlace_eq (kind : AggregateKind) (v : Scalar) (state : AggState) :
    kind.mergeInPlace v state = state.settle (kind.merge state v) := by
  -- counts and averages read what was written; the others take it like an input value
  cases kind with
  | count | countStar =>
    cases state with
    | count n =>
      simp only [mergeInPlace, merge, get_bind]
      cases v.integer? <;> rfl
    | _ => rfl
  | sum =>
    simp only [mergeInPlace, merge]
    split
    · rfl
    · exact addToSumInPlace_eq v state
  | avg =>
    cases state with
    | avg total n =>
      simp only [mergeInPlace, merge, get_bind]
      cases v with
      | array items =>
        rcases items with _ | ⟨s, _ | ⟨c, rest⟩⟩
        · rfl
        · rfl
        · -- both halves are read before the sum and the count are written
          simp only
          cases s.number? <;> cases c.integer? <;> rfl
      | _ => rfl
    | _ => rfl
  | min => exact addToExtremeInPlace_eq min .lt _ state
  | max => exact addToExtremeInPlace_eq max .gt _ state
  | arbitrary => exact addToArbitraryInPlace_eq _ state

end AggregateKind

theorem Aggregation.absorbInPlace_eq (a : Aggregation) (mode : AggregateMode) (row : Row)
    (state : AggState) : a.absorbInPlace mode row state = state.settle (a.absorb mode row state) := by
  unfold absorbInPlace absorb
  cases a.value row with
  | error e => rfl
  | ok value =>
    cases mode.consumesPartial with
    | false => exact a.kind.iterateInPlace_eq value state
    | true =>
      cases value with
      | none => rfl
      | some v => exact a.kind.mergeInPlace_eq v state

namespace Aggregates

theorem updateAll_cons (mode : AggregateMode) (row : Row) (a : Aggregation) (as : List Aggregation)
    (state : AggState) (states : List AggState) :
    updateAll mode row (a :: as) (state :: states) =
      match a.absorb mode row state with
      | .error e => (.error e, state :: states)
      | .ok next =>
        let (r, nexts) := updateAll mode row as states
        (r, next :: nexts) := by
  rw [updateAll, a.absorbInPlace_eq]
  cases a.absorb mode row state <;> rfl

/-! ## Where a row is refused

A set of aggregates takes a row from the first to the last and stops at the first that refuses it.
By induction on the aggregates there is a position up to which all states are new, and from which on
all are old; the state at the position is old as well, since no aggregate writes before its last
check. -/

/-- The aggregate at a position refuses a row, and leaves states behind. -/
structure FailsAt (s : Aggregates) (states : List AggState) (row : Row) (e : OpError)
    (after : List AggState) (i : Nat) : Prop where
  /-- On its own state it fails, and leaves that as it was. -/
  fails : ∃ a state, s.aggregations[i]? = some a ∧ states[i]? = some state ∧
    a.absorbInPlace s.mode row state = .error e state
  /-- The aggregates before it have taken the row. -/
  taken : ∀ j < i, ∃ a state next, s.aggregations[j]? = some a ∧ states[j]? = some state ∧
    a.absorbInPlace s.mode row state = .ok () next ∧ after[j]? = some next
  /-- From there on nothing is written. -/
  untouched : after.drop i = states.drop i

variable {mode : AggregateMode} {row : Row} {a : Aggregation} {as : List Aggregation}
  {state next : AggState} {states after : List AggState} {e : OpError}

theorem failsAt_zero (h : a.absorb mode row state = .error e) :
    FailsAt ⟨a :: as, mode⟩ (state :: states) row e (state :: states) 0 where
  fails := ⟨a, state, rfl, rfl, by rw [a.absorbInPlace_eq, h]; rfl⟩
  taken _ hj := absurd hj (Nat.not_lt_zero _)
  untouched := rfl

/-- Aggregates before the one that fails have taken the row. -/
theorem FailsAt.succ {i : Nat} (h : a.absorb mode row state = .ok next)
    (hrest : FailsAt ⟨as, mode⟩ states row e after i) :
    FailsAt ⟨a :: as, mode⟩ (state :: states) row e (next :: after) (i + 1) where
  fails := hrest.fails
  taken j hj := by
    cases j with
    | zero => exact ⟨a, state, next, rfl, rfl, by rw [a.absorbInPlace_eq, h]; rfl, rfl⟩
    | succ j => exact hrest.taken j (Nat.lt_of_succ_lt_succ hj)
  untouched := hrest.untouched

theorem exists_failsAt {s : Aggregates} (h : s.update states row = (.error e, after)) :
    ∃ i, s.FailsAt states row e after i := by
  obtain ⟨as, mode⟩ := s
  replace h : updateAll mode row as states = (.error e, after) := h
  -- by the recursion of the update: one aggregate with one state, until either list ends
  induction as generalizing states after with
  | nil => cases h
  | cons a as ih =>
    cases states with
    | nil => cases h
    | cons state states =>
      rw [updateAll_cons] at h
      cases habsorb : a.absorb mode row state with
      | error e' =>
        rw [habsorb] at h
        cases h
        exact ⟨0, failsAt_zero habsorb⟩
      | ok next =>
        rw [habsorb] at h
        rcases hrest : updateAll mode row as states with ⟨r, nexts⟩
        rw [hrest] at h
        cases h
        obtain ⟨i, hi⟩ := ih hrest
        exact ⟨i + 1, hi.succ habsorb⟩

/-- **A failed update leaves the states well defined.** Where aggregates fail to take a row, those before the
first that fails have taken it and no other state has changed; and no aggregate that fails has changed its
state, whatever the state and the value are. -/
theorem update_failed :
    (∀ (s : Aggregates) (states : List AggState) (row : Row) (e : OpError) (after : List AggState),
      s.update states row = (.error e, after) → ∃ i, s.FailsAt states row e after i) ∧
    ∀ (kind : AggregateKind) (state : AggState) (e : OpError) (after : AggState),
      (∀ value, kind.iterateInPlace value state = .error e after → after = state) ∧
      ∀ v, kind.mergeInPlace v state = .error e after → after = state := by
  refine ⟨fun _ _ _ _ _ => exists_failsAt, fun kind _ _ _ => ⟨fun _ h => ?_, fun _ h => ?_⟩⟩
  · rw [kind.iterateInPlace_eq] at h
    exact AggState.eq_of_settle_error h
  · rw [kind.mergeInPlace_eq] at h
    exact AggState.eq_of_settle_error h

/-- A sum that gets too large, between two aggregates that can take the row; and an average that is given
half a written state. -/
theorem update_failed_overflow :
    ∃ after, update ⟨[⟨.count, [0]⟩, ⟨.sum, [0]⟩, ⟨.max, [0]⟩], .iterFinal⟩
        [.count 4, .sum (some (.integer Int64.maxValue)), .value none] [.int64 1] =
          (.error (.evaluation .sumOutOfRange), after) ∧
      (∃ i, FailsAt ⟨[⟨.count, [0]⟩, ⟨.sum, [0]⟩, ⟨.max, [0]⟩], .iterFinal⟩
        [.count 4, .sum (some (.integer Int64.maxValue)), .value none] [.int64 1]
        (.evaluation .sumOutOfRange) after i) ∧
      ∃ after, AggregateKind.avg.mergeInPlace (.array [.int32 1, .null]) (.avg .zero 2) =
          .error (AggregateKind.avg.notMergeable (.array [.int32 1, .null])) after ∧
        after = .avg .zero 2 :=
  ⟨_, rfl, update_failed.1 _ _ _ _ _ rfl, _, rfl,
    (update_failed.2 .avg _ _ _).2 (.array [.int32 1, .null]) rfl⟩

end Aggregates

end RowStream
