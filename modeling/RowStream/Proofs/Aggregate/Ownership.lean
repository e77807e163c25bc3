import Mathlib.Data.List.Forall2
import RowStream.Projection
import RowStream.Proofs.Aggregate.InPlace

/-!
# Aggregates and their states

An aggregate refuses a state that is not its own, a value that it does not get and a written state
for which there is no column. None of that happens to aggregates of a plan without fault: they begin
with states of their own, every row leaves them with such states, and where one fails it is because of
a value in the row.

* `AggregateKind.Owns` — the states of an aggregate.
* `OpError.IsEvaluation`, `AggregateKind.Stepped` — how one aggregate may take a value.
* `AggregateKind.iterate_stepped`, `AggregateKind.merge_stepped` — one case for each aggregate.
* `Aggregates.Valid`, `Aggregates.Owns`, `Aggregates.update_spec` — aggregates side by side.
-/

namespace RowStream

/-- Whether an error is about a value. -/
def OpError.IsEvaluation (e : OpError) : Prop := ∃ cause, e = .evaluation cause

namespace AggregateKind

/-- The states of an aggregate. -/
inductive Owns : AggregateKind → AggState → Prop where
  | count (n : Int64) : Owns count (.count n)
  | countStar (n : Int64) : Owns countStar (.count n)
  | sum (total : Option Total) : Owns sum (.sum total)
  | avg (total : Binary64) (n : Int64) : Owns avg (.avg total n)
  | min (v : Option Scalar) : Owns min (.value v)
  | max (v : Option Scalar) : Owns max (.value v)
  | arbitrary (v : Option Scalar) : Owns arbitrary (.value v)

theorem owns_init (kind : AggregateKind) : kind.Owns kind.init := by
  cases kind <;> constructor

/-- An aggregate is left with a state of its own, or fails because of a value. -/
def Stepped (kind : AggregateKind) : Except OpError AggState → Prop
  | .ok state => kind.Owns state
  | .error e => e.IsEvaluation

theorem addToSum_stepped (total : Option Total) (v : Scalar) :
    sum.Stepped (addToSum (.sum total) v) := by
  unfold addToSum
  simp only
  split
  · exact .sum total
  · split
    · exact ⟨_, rfl⟩
    · split
      · exact .sum _
      · split
        · exact .sum _
        · exact ⟨_, rfl⟩

/-- An aggregate of values is left with a value: the old one or the new one. -/
theorem addToExtreme_stepped {kind : AggregateKind} (howns : ∀ best, kind.Owns (.value best))
    (wanted : Ordering) (best : Option Scalar) (v : Scalar) :
    kind.Stepped (kind.addToExtreme wanted (.value best) v) := by
  unfold addToExtreme
  simp only
  split
  · exact howns best
  · split
    · exact howns _
    · split <;> exact howns _

theorem addToArbitrary_stepped (best : Option Scalar) (v : Scalar) :
    arbitrary.Stepped (addToArbitrary (.value best) v) := by
  unfold addToArbitrary
  cases best with
  | some b => exact .arbitrary _
  | none =>
    simp only
    split <;> exact .arbitrary _

variable {kind : AggregateKind} {state : AggState}

/-- **Input values.** An aggregate that gets a value, or needs none, fails only because of it. -/
theorem iterate_stepped (h : kind.Owns state) {value : Option Scalar}
    (hvalue : kind = .countStar ∨ value.isSome = true) :
    kind.Stepped (kind.iterate state value) := by
  -- the state is that of the kind, so no case meets a foreign one
  cases h with
  | count n =>
    simp only [iterate]
    split <;> exact .count _
  | countStar n => exact .countStar _
  | sum total =>
    cases value with
    | none => simp at hvalue
    | some v => exact addToSum_stepped total v
  | avg total n =>
    simp only [iterate]
    split
    · exact .avg total n
    · split
      · exact .avg _ _
      · exact ⟨_, rfl⟩
  | min best => exact addToExtreme_stepped .min .lt best _
  | max best => exact addToExtreme_stepped .max .gt best _
  | arbitrary best => exact addToArbitrary_stepped best _

/-- **Written states.** An aggregate that cannot read one fails because of it. -/
theorem merge_stepped (h : kind.Owns state) (v : Scalar) : kind.Stepped (kind.merge state v) := by
  cases h with
  | count n =>
    simp only [merge]
    split
    · exact .count _
    · exact ⟨_, rfl⟩
  | countStar n =>
    simp only [merge]
    split
    · exact .countStar _
    · exact ⟨_, rfl⟩
  | sum total =>
    simp only [merge]
    split
    · exact ⟨_, rfl⟩
    · exact addToSum_stepped total v
  | avg total n =>
    simp only [merge]
    split
    · split
      · exact .avg _ _
      · exact ⟨_, rfl⟩
    · exact ⟨_, rfl⟩
  | min best => exact addToExtreme_stepped .min .lt best v
  | max best => exact addToExtreme_stepped .max .gt best v
  | arbitrary best => exact addToArbitrary_stepped best v

end AggregateKind

/-! ## Aggregates of a plan

A plan without fault gives every aggregate that reads a column its column. Then a step never meets a
foreign state or a missing input, and the invariant that each aggregate owns its state goes on from
row to row, also past rows that fail. -/

/-- An aggregate that has the column it needs is left with a state of its own, or fails because of a
value. -/
theorem Aggregation.absorb_stepped {a : Aggregation} {mode : AggregateMode} {state : AggState}
    (hinput : a.needsInput mode = true → a.inputs ≠ []) (h : a.kind.Owns state) (row : Row) :
    a.kind.Stepped (a.absorb mode row state) := by
  unfold absorb value input?
  cases hinputs : a.inputs with
  | nil =>
    -- without a column there is nothing to merge, and only rows themselves are counted
    obtain ⟨hmode, hkind⟩ : mode.consumesPartial = false ∧ a.kind = .countStar := by
      simpa [needsInput, hinputs] using hinput
    simp only [List.head?_nil, hmode]
    exact AggregateKind.iterate_stepped h (.inl hkind)
  | cons i is =>
    simp only [List.head?_cons]
    cases hcell : row[i]? with
    | none => exact ⟨_, rfl⟩
    | some v =>
      simp only
      split
      · exact AggregateKind.merge_stepped h v
      · exact AggregateKind.iterate_stepped h (.inr rfl)

namespace Aggregates

/-- Every aggregate has the column it needs. -/
def Valid (s : Aggregates) : Prop := checkAggregations s.mode s.aggregations = .ok ()

/-- Each aggregate has a state of its own. -/
def Owns (s : Aggregates) (states : List AggState) : Prop :=
  List.Forall₂ (fun a state => a.kind.Owns state) s.aggregations states

theorem owns_init (s : Aggregates) : s.Owns s.init := by
  obtain ⟨as, mode⟩ := s
  show List.Forall₂ _ as (as.map (·.kind.init))
  induction as with
  | nil => exact .nil
  | cons a as ih => exact .cons a.kind.owns_init ih

/-- The first aggregate of a plan without fault has its column, and so have the others. -/
theorem valid_cons {a : Aggregation} {as : List Aggregation} {mode : AggregateMode}
    (h : Valid ⟨a :: as, mode⟩) : (a.needsInput mode = true → a.inputs ≠ []) ∧ Valid ⟨as, mode⟩ := by
  unfold Valid checkAggregations at h
  simp only at h
  split at h
  · cases h
  · rename_i hneeds
    refine ⟨fun hneed hinputs => hneeds ?_, h⟩
    rw [hneed, hinputs]
    rfl

/-- **A row leaves aggregates with states of their own**, and fails only because of a value. -/
theorem update_spec {s : Aggregates} (hvalid : s.Valid) {states : List AggState}
    (h : s.Owns states) (row : Row) :
    s.Owns (s.update states row).2 ∧ ∀ e, (s.update states row).1 = .error e → e.IsEvaluation := by
  obtain ⟨as, mode⟩ := s
  replace h : List.Forall₂ _ as states := h
  show List.Forall₂ _ as (updateAll mode row as states).2 ∧
    ∀ e, (updateAll mode row as states).1 = .error e → e.IsEvaluation
  -- an aggregate that fails leaves its own state and those behind it as they were
  induction h with
  | nil => exact ⟨.nil, nofun⟩
  | @cons a state as states hstate hrest ih =>
    obtain ⟨hinput, hvalid⟩ := valid_cons hvalid
    have hstep := Aggregation.absorb_stepped hinput hstate row
    rw [updateAll_cons]
    cases habsorb : a.absorb mode row state with
    | error e =>
      rw [habsorb] at hstep
      refine ⟨.cons hstate hrest, fun e' he => ?_⟩
      cases he
      exact hstep
    | ok next =>
      rw [habsorb] at hstep
      obtain ⟨howns, herror⟩ := ih hvalid
      exact ⟨.cons hstep howns, herror⟩

end Aggregates

end RowStream
