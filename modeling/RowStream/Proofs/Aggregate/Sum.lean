import Mathlib.Data.List.Induction
import Mathlib.Data.Nat.Find
import RowStream.Proofs.Aggregate.Merging

/-!
# Sums of any values

A sum is exact as long as it has only integers to add, and is refused once it is out of range. From the
first floating-point number on it is a floating-point number, which nothing drives out of range. What is
no number is refused at any time. A value that is refused leaves the sum as it was before.

* `AggregateKind.iterateAll` — values one after the other, up to the first that is refused.
* `AggregateKind.Refuses` — the values that are refused.
* `AggregateKind.Sums` — the states that a sum can be in; `Sums.refused` and `Sums.taken` are the step.
* `AggregateKind.iterateAll_sum_spec` — what a sum comes to.
-/

namespace RowStream

/-- Whether a value is of a floating-point type. -/
def Scalar.isFloat : Scalar → Bool
  | float32 _ | float64 _ => true
  | _ => false

namespace Scalar

theorem isFloat_iff {v : Scalar} : v.isFloat = true ↔ v.integer? = none ∧ v.number? ≠ none := by
  cases v <;> simp [isFloat, integer?, number?]

theorem number?_ne_none_of_integer? {v : Scalar} (h : v.integer?.isSome = true) :
    v.number? ≠ none := by
  cases v <;> simp_all [integer?, number?]

end Scalar

/-- What is summed of a value: the integer it is, or else the number. -/
theorem Total.ofScalar?_eq (v : Scalar) :
    ofScalar? v = (v.integer?.map integer).or (v.number?.map float) := by
  cases v <;> rfl

namespace AggregateKind

/-! ## Values one after the other

Iterating stops at the first failure, and nulls pass without a trace. So the values that are not
null are all there is to a sum. -/

/-- Folds values into a state, up to the first that fails. That one leaves the state as it was. -/
def iterateAll (kind : AggregateKind) (state : AggState) :
    List Scalar → Except OpError Unit × AggState
  | [] => (.ok (), state)
  | v :: vs =>
    match kind.iterate state (some v) with
    | .error e => (.error e, state)
    | .ok state => iterateAll kind state vs

variable {kind : AggregateKind} {state later : AggState} {us vs : List Scalar} {v : Scalar}

theorem iterateAll_append (h : kind.iterateAll state us = (.ok (), later)) (vs : List Scalar) :
    kind.iterateAll state (us ++ vs) = kind.iterateAll later vs := by
  induction us generalizing state with
  | nil =>
    cases h
    rfl
  | cons u us ih =>
    rw [iterateAll] at h
    rw [List.cons_append, iterateAll]
    cases hstep : kind.iterate state (some u) with
    | error e =>
      rw [hstep] at h
      cases h
    | ok next =>
      rw [hstep] at h
      exact ih h

/-- The values that are not null. -/
def present (vs : List Scalar) : List Scalar := vs.filter fun v => !v.isNull

theorem isNull_of_mem_present (h : v ∈ present vs) : v.isNull = false := by
  simpa using (List.mem_filter.1 h).2

/-- A sum passes over nulls. -/
theorem iterateAll_present (start : Option Total) (vs : List Scalar) :
    sum.iterateAll (.sum start) (present vs) = sum.iterateAll (.sum start) vs := by
  induction vs generalizing start with
  | nil => rfl
  | cons v vs ih =>
    -- nulls are skipped on the left, and change nothing on the right
    cases hnull : v.isNull with
    | true =>
      have hskip : present (v :: vs) = present vs := by simp [present, hnull]
      have hstep : sum.iterate (.sum start) (some v) = .ok (.sum start) := addToSum_null start hnull
      rw [hskip, ih, iterateAll, hstep]
    | false =>
      have hkeep : present (v :: vs) = v :: present vs := by simp [present, hnull]
      have howns : sum.Stepped (sum.iterate (.sum start) (some v)) := addToSum_stepped start v
      rw [hkeep, iterateAll, iterateAll]
      cases hstep : sum.iterate (.sum start) (some v) with
      | error e => rfl
      | ok next =>
        rw [hstep] at howns
        cases howns
        exact ih _

/-! ## One value more

The invariant of a sum: before any value it is empty, after integers it is their sum, which is in
range, and after a number of floating-point type it is one. Each value is either refused, and
changes nothing, or leads from one of these to one of these. -/

/-- What a sum refuses after values: what is no number, and an integer after integers with which their
sum is out of range. -/
def Refuses (us : List Scalar) (v : Scalar) : Prop :=
  v.number? = none ∨
    (∀ u ∈ us ++ [v], u.integer?.isSome = true) ∧ ¬ Total.InRange (total (us ++ [v]))

instance (us : List Scalar) (v : Scalar) : Decidable (Refuses us v) :=
  inferInstanceAs (Decidable (_ ∨ _ ∧ ¬ _))

/-- How a value is refused. -/
def refusal (v : Scalar) : OpError :=
  .evaluation (if v.number? = none then .notSummable sum.name v.dataType else .sumOutOfRange)

/-- The states of a sum after values that were not refused. -/
inductive Sums (us : List Scalar) : AggState → Prop where
  | integral (integers : ∀ u ∈ us, u.integer?.isSome = true) (inRange : Total.InRange (total us)) :
    Sums us (sum.summary us)
  | floating (someFloat : ∃ u ∈ us, u.isFloat = true) (x : Binary64) :
    Sums us (.sum (some (.float x)))

/-- Integers are not of floating-point type. -/
theorem not_exists_isFloat (h : ∀ u ∈ us, u.integer?.isSome = true) : ¬ ∃ u ∈ us, u.isFloat = true := by
  rintro ⟨u, hu, hfloat⟩
  have hint := h u hu
  rw [(Scalar.isFloat_iff.1 hfloat).1] at hint
  cases hint

/-- After a number of floating-point type no integer is refused. -/
theorem not_refuses_of_isFloat (hus : ∃ u ∈ us, u.isFloat = true)
    (hv : v.integer?.isSome = true) : ¬ Refuses us v := by
  rintro (hnone | ⟨hintegers, -⟩)
  · exact Scalar.number?_ne_none_of_integer? hv hnone
  · exact not_exists_isFloat (fun u hu => hintegers u (List.mem_append_left _ hu)) hus

/-- One summand of floating-point type makes the sum one. -/
theorem addToSum_float {start : Option Total} (hv : v.number? ≠ none)
    (hfloat : v.isFloat = true ∨ ∃ y, start = some (.float y)) :
    ∃ x, addToSum (.sum start) v = .ok (.sum (some (.float x))) := by
  have hnull : v.isNull = false := by
    cases v <;> first | rfl | exact absurd rfl hv
  unfold addToSum
  simp only [hnull, Total.ofScalar?_eq]
  cases hint : v.integer? with
  | some n =>
    obtain hfloat | ⟨y, rfl⟩ := hfloat
    · rw [(Scalar.isFloat_iff.1 hfloat).1] at hint
      cases hint
    · exact ⟨_, rfl⟩
  | none =>
    obtain ⟨x, hx⟩ := Option.ne_none_iff_exists'.1 hv
    rw [hx]
    rcases start with _ | n | y <;> exact ⟨_, rfl⟩

/-- **A value that is refused.** -/
theorem Sums.refused (h : Sums us state) (hnull : v.isNull = false) (hv : Refuses us v) :
    addToSum state v = .error (refusal v) := by
  obtain hnone | ⟨hintegers, hrange⟩ := hv
  · have hint : v.integer? = none := by
      by_contra hint
      exact Scalar.number?_ne_none_of_integer? (Option.isSome_iff_ne_none.2 hint) hnone
    have hsummand : Total.ofScalar? v = none := by rw [Total.ofScalar?_eq, hint, hnone]; rfl
    cases h <;> simp [addToSum, summary, hnull, hsummand, refusal, hnone]
  · have hv := hintegers v (by simp)
    obtain ⟨n, hn⟩ := Option.isSome_iff_exists.1 hv
    cases h with
    | integral _ inRange =>
      rw [total_concat_of_integer hn] at hrange
      rw [addToSum_outOfRange hn inRange hrange, refusal,
        if_neg (Scalar.number?_ne_none_of_integer? hv)]
    | floating someFloat x =>
      exact absurd (.inr ⟨hintegers, hrange⟩) (not_refuses_of_isFloat someFloat hv)

/-- **A value that is taken.** -/
theorem Sums.taken (h : Sums us state) (hv : ¬ Refuses us v) :
    ∃ next, addToSum state v = .ok next ∧ Sums (us ++ [v]) next := by
  have hnumber : v.number? ≠ none := fun hnone => hv (.inl hnone)
  -- a floating-point number, after which the sum is one; or an integer, which has to fit
  cases hint : v.integer? with
  | none =>
    have hfloat : v.isFloat = true := Scalar.isFloat_iff.2 ⟨hint, hnumber⟩
    obtain ⟨x, hx⟩ : ∃ x, addToSum state v = .ok (.sum (some (.float x))) := by
      cases h <;> exact addToSum_float hnumber (.inl hfloat)
    exact ⟨_, hx, .floating ⟨v, by simp, hfloat⟩ x⟩
  | some n =>
    cases h with
    | integral integers inRange =>
      have hintegers : ∀ u ∈ us ++ [v], u.integer?.isSome = true :=
        List.forall_mem_append.2 ⟨integers, by simp [hint]⟩
      have hrange : Total.InRange (total (us ++ [v])) := by
        by_contra hrange
        exact hv (.inr ⟨hintegers, hrange⟩)
      have hmerge := (merge_sum_eq_ok_iff (.inr (by simp [hint])) inRange _).2 ⟨hrange, rfl⟩
      have hadd : addToSum (sum.summary us) v = .ok (sum.summary (us ++ [v])) := by
        simpa [merge, Total.ofScalar?_of_integer? hint] using hmerge
      exact ⟨_, hadd, .integral hintegers hrange⟩
    | floating someFloat x =>
      obtain ⟨u, hu, hfloat⟩ := someFloat
      obtain ⟨y, hy⟩ := addToSum_float hnumber (.inr ⟨x, rfl⟩)
      exact ⟨_, hy, .floating ⟨u, List.mem_append_left _ hu, hfloat⟩ y⟩

/-! ## What a sum comes to

By induction on the values the invariant holds up to the first refusal. What is refused is said
without the states: no number, or an integer whose sum with all integers before it is out of range
while no floating-point number has come. -/

/-- Whether the value at a place is refused after those before it. -/
def RefusedAt (us : List Scalar) (i : Nat) : Prop := ∃ v, us[i]? = some v ∧ Refuses (us.take i) v

instance (us : List Scalar) (i : Nat) : Decidable (RefusedAt us i) :=
  inferInstanceAs (Decidable (∃ v ∈ us[i]?, Refuses (us.take i) v))

theorem lt_of_refusedAt {i : Nat} (h : RefusedAt us i) : i < us.length := by
  obtain ⟨v, hv, -⟩ := h
  exact (List.getElem?_eq_some_iff.1 hv).1

theorem refusedAt_take {i j : Nat} : RefusedAt (us.take i) j ↔ j < i ∧ RefusedAt us j := by
  unfold RefusedAt
  rw [List.getElem?_take, List.take_take]
  by_cases hlt : j < i
  · simp [hlt, Nat.min_eq_left (Nat.le_of_lt hlt)]
  · simp [hlt]

/-- **Values that are not refused** are taken, all of them. -/
theorem exists_sums (h : ∀ i, ¬ RefusedAt us i) :
    ∃ state, sum.iterateAll sum.init us = (.ok (), state) ∧ Sums us state := by
  induction us using List.reverseRecOn with
  | nil => exact ⟨_, rfl, .integral nofun (by decide : Total.InRange 0)⟩
  | append_singleton us v ih =>
    obtain ⟨state, hstate, hsums⟩ := ih fun i hi => by
      have htake : (us ++ [v]).take us.length = us := List.take_left
      rw [← htake, refusedAt_take] at hi
      exact h i hi.2
    obtain ⟨next, hnext, hsums'⟩ := hsums.taken fun hv =>
      h us.length ⟨v, by simp, by rwa [List.take_left]⟩
    have hstep : sum.iterate state (some v) = .ok next := hnext
    refine ⟨next, ?_, hsums'⟩
    rw [iterateAll_append hstate, iterateAll, hstep]
    rfl

/-- **The first value that is refused** ends the sum. -/
theorem exists_refused (hnull : ∀ u ∈ us, u.isNull = false) {i : Nat} (hi : RefusedAt us i)
    (hbefore : ∀ j < i, ¬ RefusedAt us j) : ∃ v state, us[i]? = some v ∧
      sum.iterateAll sum.init (us.take i) = (.ok (), state) ∧
      sum.iterate state (some v) = .error (refusal v) ∧
      sum.iterateAll sum.init us = (.error (refusal v), state) := by
  obtain ⟨v, hv, hrefuses⟩ := hi
  have htake : ∀ j, ¬ RefusedAt (us.take i) j := fun j hj =>
    hbefore j (refusedAt_take.1 hj).1 (refusedAt_take.1 hj).2
  obtain ⟨state, hstate, hsums⟩ := exists_sums htake
  have hstep : sum.iterate state (some v) = .error (refusal v) :=
    hsums.refused (hnull v (List.mem_of_getElem? hv)) hrefuses
  refine ⟨v, state, hv, hstate, hstep, ?_⟩
  obtain ⟨hlt, hget⟩ := List.getElem?_eq_some_iff.1 hv
  have hsplit := List.take_append_drop i us
  rw [List.drop_eq_getElem_cons hlt, hget] at hsplit
  rw [← hsplit, iterateAll_append hstate, iterateAll, hstep]

/-- The result of a sum tells what the values were. -/
theorem Sums.finalize_spec (h : Sums us state) (hnull : ∀ u ∈ us, u.isNull = false) :
    (sum.finalize state = .null ↔ us = []) ∧
    ((∃ n, sum.finalize state = .int64 n ∧ n.toInt = total us) ↔
      us ≠ [] ∧ ∀ u ∈ us, u.integer?.isSome = true) ∧
    ((∃ x, sum.finalize state = .float64 x) ↔ ∃ u ∈ us, u.isFloat = true) := by
  cases h with
  | integral integers inRange =>
    have hfloat := not_exists_isFloat integers
    -- an empty sum is a null, so that the integer zero is told apart from no values
    by_cases hempty : us = []
    · subst hempty
      simp [summary, finalize, toPartial]
    · obtain ⟨u, hu⟩ := List.exists_mem_of_ne_nil us hempty
      have hall : us.all (·.isNull) = false := List.all_eq_false.2 ⟨u, hu, by simp [hnull u hu]⟩
      have hfinal : sum.finalize (sum.summary us) = .int64 (.ofInt (total us)) := by
        simp [summary, finalize, toPartial, Total.toScalar, hall]
      have hexact := Total.toInt_ofInt inRange
      rw [hfinal]
      refine ⟨by simp [hempty], ?_, by simp [hfloat]⟩
      exact ⟨fun _ => ⟨hempty, integers⟩, fun _ => ⟨_, rfl, hexact⟩⟩
  | floating someFloat x =>
    have hfinal : sum.finalize (.sum (some (.float x))) = .float64 x := rfl
    have hempty : us ≠ [] := by
      obtain ⟨u, hu, -⟩ := someFloat
      exact List.ne_nil_of_mem hu
    have hintegers : ¬ ∀ u ∈ us, u.integer?.isSome = true := fun h =>
      not_exists_isFloat h someFloat
    rw [hfinal]
    exact ⟨by simp [hempty], by simp [hintegers], by simp [someFloat]⟩

/-- **What a sum comes to.** Of the values that are not null, the first that is no number, or with which
integers from the first value on have a sum out of range, is refused, and the sum stays what the values
before it come to. If there is none, the sum is null if there are no values, the sum of integers if there
are only integers, of either width, and a floating-point number if one of them is; and then no integer is
refused any more. -/
theorem iterateAll_sum_spec (vs : List Scalar) :
    let us := present vs
    let run := sum.iterateAll sum.init
    (∀ i, RefusedAt us i → (∀ j < i, ¬ RefusedAt us j) → ∃ v state, us[i]? = some v ∧
      run (us.take i) = (.ok (), state) ∧ sum.iterate state (some v) = .error (refusal v) ∧
      run vs = (.error (refusal v), state)) ∧
    ((∀ i, ¬ RefusedAt us i) → ∃ state, run vs = (.ok (), state)) ∧
    ∀ state, run vs = (.ok (), state) →
      (sum.finalize state = .null ↔ us = []) ∧
      ((∃ n, sum.finalize state = .int64 n ∧ n.toInt = total us) ↔
        us ≠ [] ∧ ∀ u ∈ us, u.integer?.isSome = true) ∧
      ((∃ x, sum.finalize state = .float64 x) ↔ ∃ u ∈ us, u.isFloat = true) ∧
      ((∃ u ∈ us, u.isFloat = true) → ∀ v, v.integer?.isSome = true →
        ∃ next, sum.iterate state (some v) = .ok next) := by
  intro us run
  -- nulls are skipped, so the places are those of the other values
  have hrun : run vs = run us := (iterateAll_present none vs).symm
  have hnull : ∀ u ∈ us, u.isNull = false := fun u hu => isNull_of_mem_present hu
  rw [hrun]
  refine ⟨fun i => exists_refused hnull, fun h => ?_, fun state hstate => ?_⟩
  · obtain ⟨state, hstate, -⟩ := exists_sums h
    exact ⟨state, hstate⟩
  · -- a first value that is refused would have ended the sum
    have hnever : ∀ i, ¬ RefusedAt us i := by
      by_contra hsome
      obtain ⟨i, hi, hfirst⟩ := Nat.findX (not_forall_not.1 hsome)
      obtain ⟨v, next, -, -, -, herror⟩ := exists_refused hnull hi hfirst
      rw [show run us = _ from herror] at hstate
      cases hstate
    obtain ⟨next, hnext, hsums⟩ := exists_sums hnever
    obtain rfl : next = state := (Prod.mk.inj (hnext.symm.trans hstate)).2
    obtain ⟨hempty, hints, hfloats⟩ := hsums.finalize_spec hnull
    refine ⟨hempty, hints, hfloats, fun hfloat v hv => ?_⟩
    obtain ⟨later, hlater, -⟩ := hsums.taken (not_refuses_of_isFloat hfloat hv)
    exact ⟨later, hlater⟩

/-- One more than the greatest integer is out of range, even if it is taken back at once; as a
floating-point number it is not, and another integer is added to it. -/
theorem iterateAll_sum_spec_greatest :
    sum.iterateAll sum.init [.int64 Int64.maxValue, .null, .int32 1, .int32 (-1)] =
      (.error (.evaluation .sumOutOfRange), .sum (some (.integer Int64.maxValue))) ∧
    ∃ state, sum.iterateAll sum.init [.int64 Int64.maxValue, .float32 ⟨0x3f800000⟩, .null] =
        (.ok (), state) ∧
      (∃ x, sum.finalize state = .float64 x) ∧
      ∃ next, sum.iterate state (some (.int64 Int64.maxValue)) = .ok next := by
  obtain ⟨hrefused, -, -⟩ :=
    iterateAll_sum_spec [.int64 Int64.maxValue, .null, .int32 1, .int32 (-1)]
  obtain ⟨v, state, hv, hbefore, -, hrun⟩ := hrefused 1 (by decide) (by decide)
  cases hv
  cases hbefore
  obtain ⟨-, htaken, hresult⟩ :=
    iterateAll_sum_spec [.int64 Int64.maxValue, .float32 ⟨0x3f800000⟩, .null]
  have hnever : ∀ i < 2, ¬ RefusedAt [.int64 Int64.maxValue, .float32 ⟨0x3f800000⟩] i := by decide
  obtain ⟨state, hstate⟩ := htaken fun i hi => hnever i (lt_of_refusedAt hi) hi
  obtain ⟨-, -, hfloat, hnext⟩ := hresult state hstate
  exact ⟨hrun, state, hstate, hfloat.2 (by decide), hnext (by decide) _ rfl⟩

end AggregateKind

end RowStream
