import Mathlib.Data.List.Infix
import RowStream.Aggregate.Function
import RowStream.Proofs.Scalar.Order

/-!
# Summaries of values

What an aggregate has after values is said without a fold: how many they are, what they add up to,
which of them is the best. From this it is read off that values can be looked through piece by
piece: the state of a piece, written and merged, does what the values of the piece would have done.
The average is the exception, because floating-point sums depend on the pieces.

* `AggregateKind.Accepts` — the values for which this holds.
* `AggregateKind.summary` — the state after values; `iterate_summary` is the step.
* `AggregateKind.merge_summary` — a written state in place of the values.
* `AggregateKind.merged` — the state after written states, averages included.
-/

namespace RowStream

/-- The integers of eight bytes. -/
def Total.InRange (n : Int) : Prop := Int64.minValue.toInt ≤ n ∧ n ≤ Int64.maxValue.toInt

instance (n : Int) : Decidable (Total.InRange n) := inferInstanceAs (Decidable (_ ∧ _))

theorem Total.toInt_ofInt {n : Int} (h : InRange n) : (Int64.ofInt n).toInt = n := by
  unfold InRange at h
  rw [Int64.toInt_minValue, Int64.toInt_maxValue] at h
  exact Int64.toInt_ofInt_of_le h.1 (by omega)

namespace AggregateKind

/-! ## What values come to

What a state holds is said of the values as a whole. Sums of integers are added up in any pieces,
the first of several values that are best is the first of the best of the pieces. Sums are asked to
stay in range for all values next to each other, because any of them may become the sum of a piece.
-/

/-- What a value adds to a sum of integers. -/
def weight (v : Scalar) : Int := (v.integer?.map Int64.toInt).getD 0

/-- The sum of the integers among values. -/
def total : List Scalar → Int
  | [] => 0
  | v :: vs => weight v + total vs

/-- How many values are not null. -/
def countPresent (vs : List Scalar) : Nat := vs.countP fun v => !v.isNull

/-- The numbers among values, added one by one. -/
def addNumbers (x : Binary64) (vs : List Scalar) : Binary64 :=
  (vs.filterMap (·.number?)).foldl (· + ·) x

/-- The values that an aggregate takes, in whatever pieces they come: sums take integers and nulls,
where no sum of values next to each other is out of range; averages take numbers and nulls; and the
order has to be a total preorder for an extreme. -/
def Accepts (kind : AggregateKind) (vs : List Scalar) : Prop :=
  match kind with
  | sum =>
    (∀ v ∈ vs, v.isNull = true ∨ v.integer?.isSome = true) ∧
      ∀ part, part <:+: vs → Total.InRange (total part)
  | avg => ∀ v ∈ vs, v.isNull = true ∨ v.number?.isSome = true
  | min | max => Scalar.TotalOn vs
  | count | countStar | arbitrary => True

/-- Sums of values next to each other are sums of the first of the last values. -/
theorem inRange_infix_iff (vs : List Scalar) :
    (∀ part, part <:+: vs → Total.InRange (total part)) ↔
      ∀ last ∈ vs.tails, ∀ part ∈ last.inits, Total.InRange (total part) := by
  constructor
  · intro h last hlast part hpart
    have hinits := (List.mem_inits _ _).1 hpart
    have htails := (List.mem_tails _ _).1 hlast
    exact h part (hinits.isInfix.trans htails.isInfix)
  · intro h part hpart
    obtain ⟨last, hinits, htails⟩ := List.infix_iff_prefix_suffix.1 hpart
    exact h last ((List.mem_tails _ _).2 htails) part ((List.mem_inits _ _).2 hinits)

instance (kind : AggregateKind) (vs : List Scalar) : Decidable (kind.Accepts vs) :=
  match kind with
  | sum => decidable_of_iff _ (and_congr_right fun _ => (inRange_infix_iff vs).symm)
  | avg => inferInstanceAs (Decidable (∀ v ∈ vs, v.isNull = true ∨ v.number?.isSome = true))
  | min | max => inferInstanceAs (Decidable (Scalar.TotalOn vs))
  | count | countStar | arbitrary => inferInstanceAs (Decidable True)

/-- The state after values. -/
def summary (kind : AggregateKind) (vs : List Scalar) : AggState :=
  match kind with
  | count => .count (.ofNat (countPresent vs))
  | countStar => .count (.ofNat vs.length)
  | sum => .sum (if vs.all (·.isNull) then none else some (.integer (.ofInt (total vs))))
  | avg => .avg (addNumbers .zero vs) (.ofNat (countPresent vs))
  | min => .value (Scalar.extreme .lt vs)
  | max => .value (Scalar.extreme .gt vs)
  | arbitrary => .value (vs.find? fun v => !v.isNull)

theorem total_append (us vs : List Scalar) : total (us ++ vs) = total us + total vs := by
  induction us with
  | nil => exact (Int.zero_add _).symm
  | cons u us ih =>
    have hfirst : total (u :: us) = weight u + total us := rfl
    rw [List.cons_append, total, ih, hfirst, Int.add_assoc]

theorem total_singleton (v : Scalar) : total [v] = weight v := Int.add_zero _

theorem countPresent_append (us vs : List Scalar) :
    countPresent (us ++ vs) = countPresent us + countPresent vs :=
  List.countP_append

theorem countPresent_concat (vs : List Scalar) (v : Scalar) :
    countPresent (vs ++ [v]) = if v.isNull then countPresent vs else countPresent vs + 1 := by
  rw [countPresent_append]
  by_cases hnull : v.isNull = true <;> simp [countPresent, hnull]

theorem addNumbers_append (x : Binary64) (us vs : List Scalar) :
    addNumbers x (us ++ vs) = addNumbers (addNumbers x us) vs := by
  rw [addNumbers, List.filterMap_append, List.foldl_append]
  rfl

theorem total_of_all_isNull {vs : List Scalar} (h : vs.all (·.isNull) = true) : total vs = 0 := by
  induction vs with
  | nil => rfl
  | cons v vs ih =>
    rw [List.all_cons, Bool.and_eq_true] at h
    rw [total, ih h.2]
    cases v <;> first | rfl | cases h.1

theorem total_concat_of_isNull {v : Scalar} (h : v.isNull = true) (vs : List Scalar) :
    total (vs ++ [v]) = total vs := by
  have hnone : total [v] = 0 := total_of_all_isNull (by simp [h])
  rw [total_append, hnone, Int.add_zero]

theorem total_concat_of_integer {v : Scalar} {n : Int64} (h : v.integer? = some n)
    (vs : List Scalar) : total (vs ++ [v]) = total vs + n.toInt := by
  rw [total_append, total_singleton, weight, h]
  rfl

/-- Pieces of accepted values are accepted. -/
theorem Accepts.mono {kind : AggregateKind} {vs part : List Scalar} (h : kind.Accepts vs)
    (hpart : part <:+: vs) : kind.Accepts part := by
  cases kind with
  | sum =>
    exact ⟨fun v hv => h.1 v (hpart.subset hv), fun piece hpiece => h.2 piece (hpiece.trans hpart)⟩
  | avg => exact fun v hv => h v (hpart.subset hv)
  | min | max => exact Scalar.TotalOn.mono h hpart.subset
  | count | countStar | arbitrary => trivial

theorem init_eq_summary (kind : AggregateKind) : kind.init = kind.summary [] := by
  cases kind <;> rfl

/-! ## One value more

The step over input values: the state stays the summary of the values. Each kind of aggregate has a
case of its own, and nulls one in each. -/

theorem addToExtreme_value (kind : AggregateKind) (wanted : Ordering) (best : Option Scalar)
    (v : Scalar) :
    addToExtreme kind wanted (.value best) v = .ok (.value (Scalar.better wanted best v)) := by
  unfold addToExtreme Scalar.better
  cases v.isNull <;> cases best <;> simp
  split <;> rfl

theorem addToArbitrary_value (best : Option Scalar) (v : Scalar) :
    addToArbitrary (.value best) v = .ok (.value (best.or (if v.isNull then none else some v))) := by
  cases best with
  | none =>
    unfold addToArbitrary
    cases v.isNull <;> rfl
  | some b => rfl

theorem find?_concat (vs : List Scalar) (v : Scalar) :
    (vs ++ [v]).find? (fun v => !v.isNull) =
      (vs.find? fun v => !v.isNull).or (if v.isNull then none else some v) := by
  rw [List.find?_append, List.find?_singleton]
  cases v.isNull <;> rfl

theorem Total.ofScalar?_of_integer? {v : Scalar} {n : Int64} (h : v.integer? = some n) :
    Total.ofScalar? v = some (.integer n) := by
  cases v <;> simp_all [Scalar.integer?, Total.ofScalar?]

/-- An integer is added to what there is. -/
theorem addToSum_integer {us : List Scalar} {v : Scalar} {n : Int64} (hn : v.integer? = some n)
    (hus : Total.InRange (total us)) (hsum : Total.InRange (total us + n.toInt)) :
    addToSum (sum.summary us) v = .ok (.sum (some (.integer (.ofInt (total us + n.toInt))))) := by
  have hnull : v.isNull = false := by
    cases v <;> first | rfl | cases hn
  unfold addToSum summary
  simp only [hnull, Bool.false_eq_true, if_false, Total.ofScalar?_of_integer? hn]
  cases hall : us.all (·.isNull) with
  | true => simp [total_of_all_isNull hall]
  | false =>
    have hadd : Total.addIntegers? (.ofInt (total us)) n = some (.ofInt (total us + n.toInt)) := by
      unfold Total.addIntegers?
      rw [Total.toInt_ofInt hus]
      exact if_pos hsum
    simp [Total.add?, hadd]

theorem addToSum_null (state : Option Total) {v : Scalar} (h : v.isNull = true) :
    addToSum (.sum state) v = .ok (.sum state) := by
  simp [addToSum, h]

/-- **One value more** is folded into the state as it stands in the summary. -/
theorem iterate_summary {kind : AggregateKind} {vs : List Scalar} {v : Scalar}
    (h : kind.Accepts (vs ++ [v])) :
    kind.iterate (kind.summary vs) (some v) = .ok (kind.summary (vs ++ [v])) := by
  cases kind with
  | count =>
    simp only [iterate, summary, countPresent_concat, Option.getD_some]
    by_cases hnull : v.isNull = true <;> simp [hnull, Int64.ofNat_add]
  | countStar => simp [iterate, summary, Int64.ofNat_add]
  | sum =>
    obtain ⟨hints, hrange⟩ := h
    have hv := hints v (List.mem_append_right _ List.mem_cons_self)
    have hvs := hrange vs (List.prefix_append vs [v]).isInfix
    have hall := hrange _ List.infix_rfl
    cases hnull : v.isNull with
    | true =>
      -- a null leaves the sum, also if there is none yet
      rw [iterate, summary, addToSum_null _ hnull, summary, total_concat_of_isNull hnull]
      simp [hnull]
    | false =>
      obtain ⟨n, hn⟩ := Option.isSome_iff_exists.1 (hv.resolve_left (Bool.eq_false_iff.1 hnull))
      have hlast := total_concat_of_integer hn vs
      rw [hlast] at hall
      rw [iterate, addToSum_integer hn hvs hall, summary, hlast]
      simp [hnull]
  | avg =>
    have hv := h v (List.mem_append_right _ List.mem_cons_self)
    simp only [iterate, summary, countPresent_concat, addNumbers_append, Option.getD_some]
    by_cases hnull : v.isNull = true
    · have hnone : v.number? = none := by
        cases v <;> first | rfl | cases hnull
      simp [hnull, addNumbers, hnone]
    · obtain ⟨x, hx⟩ := Option.isSome_iff_exists.1 (hv.resolve_left hnull)
      simp [hnull, addNumbers, hx, Int64.ofNat_add]
  | min => rw [iterate, summary, summary, addToExtreme_value, Scalar.extreme_concat]; rfl
  | max => rw [iterate, summary, summary, addToExtreme_value, Scalar.extreme_concat]; rfl
  | arbitrary => rw [iterate, summary, summary, addToArbitrary_value, find?_concat]; rfl

/-- An aggregate without an input column takes a null for every row; only sums refuse to. -/
theorem iterate_none {kind : AggregateKind} (h : kind ≠ sum) (state : AggState) :
    kind.iterate state none = kind.iterate state (some .null) := by
  cases kind <;> first | rfl | exact absurd rfl h

/-! ## A written state more

The step over written states: what a piece comes to is written as one value, and merging it does
what its values would have done one by one. Averages are left out, whose sums were rounded in the
piece. -/

/-- The sum of a piece is written as a null, if there are only nulls, or as an integer, which is added
like an input value. -/
theorem merge_sum {us vs : List Scalar} (h : sum.Accepts (us ++ vs)) :
    merge sum (sum.summary us) (toPartial sum (sum.summary vs)) = .ok (sum.summary (us ++ vs)) := by
  obtain ⟨-, hrange⟩ := h
  have hus := hrange us (List.prefix_append us vs).isInfix
  have hvs := hrange vs (List.suffix_append us vs).isInfix
  have hall := hrange _ List.infix_rfl
  rw [total_append] at hall
  -- a piece without integers is written as a null, and not as the sum zero
  cases hnull : vs.all (·.isNull) with
  | true =>
    have hright : toPartial sum (sum.summary vs) = .null := by simp [summary, toPartial, hnull]
    have hsum : sum.summary (us ++ vs) = sum.summary us := by
      simp only [summary, List.all_append, hnull, Bool.and_true, total_append,
        total_of_all_isNull hnull, Int.add_zero]
    have hnone : merge sum (sum.summary us) .null = .ok (sum.summary us) :=
      addToSum_null _ (v := .null) rfl
    rw [hright, hsum, hnone]
  | false =>
    have hright : toPartial sum (sum.summary vs) = .int64 (.ofInt (total vs)) := by
      simp [summary, toPartial, hnull, Total.toScalar]
    have hsum : sum.summary (us ++ vs) =
        .sum (some (.integer (.ofInt (total us + total vs)))) := by
      simp [summary, hnull, total_append]
    have hadd := addToSum_integer (v := .int64 (.ofInt (total vs))) rfl hus
      (by rwa [Total.toInt_ofInt hvs])
    rw [Total.toInt_ofInt hvs] at hadd
    rw [hright, hsum]
    exact hadd

/-- **A written state does what its values would have done**, unless numbers are averaged. -/
theorem merge_summary {kind : AggregateKind} (hkind : kind ≠ avg) {us vs : List Scalar}
    (h : kind.Accepts (us ++ vs)) :
    kind.merge (kind.summary us) (kind.toPartial (kind.summary vs)) =
      .ok (kind.summary (us ++ vs)) := by
  cases kind with
  | avg => exact absurd rfl hkind
  | count => simp [merge, summary, toPartial, Scalar.integer?, countPresent_append, Int64.ofNat_add]
  | countStar => simp [merge, summary, toPartial, Scalar.integer?, Int64.ofNat_add]
  | sum => exact merge_sum h
  | min =>
    rw [summary, summary, summary, Scalar.extreme_append (by decide) h, merge]
    cases hbest : Scalar.extreme .lt vs <;> exact addToExtreme_value min .lt _ _
  | max =>
    rw [summary, summary, summary, Scalar.extreme_append (by decide) h, merge]
    cases hbest : Scalar.extreme .gt vs <;> exact addToExtreme_value max .gt _ _
  | arbitrary =>
    rw [summary, summary, summary, List.find?_append, merge]
    -- a piece of nulls only is written as a null, which is passed over
    cases hfirst : vs.find? fun v => !v.isNull with
    | none => exact addToArbitrary_value _ .null
    | some v =>
      have hnull := List.find?_some hfirst
      rw [toPartial, addToArbitrary_value]
      simp_all

/-! ## Written states one after the other

By induction on the pieces. For averages the merged sum is stated as it is: the sums of the pieces,
added from the first on. -/

/-- The state after the written states of pieces. The sum of an average is that of the sums of the
pieces, from the first on. -/
def merged (kind : AggregateKind) (pieces : List (List Scalar)) : AggState :=
  match kind with
  | avg =>
    .avg ((pieces.map (addNumbers .zero)).foldl (· + ·) .zero)
      (.ofNat (countPresent pieces.flatten))
  | kind => kind.summary pieces.flatten

theorem merged_of_ne {kind : AggregateKind} (h : kind ≠ avg) (pieces : List (List Scalar)) :
    kind.merged pieces = kind.summary pieces.flatten := by
  cases kind <;> first | rfl | exact absurd rfl h

theorem init_eq_merged (kind : AggregateKind) : kind.init = kind.merged [] := by
  cases kind <;> rfl

/-- **One piece more.** -/
theorem merge_merged {kind : AggregateKind} {pieces : List (List Scalar)} {vs : List Scalar}
    (h : kind.Accepts (pieces ++ [vs]).flatten) :
    kind.merge (kind.merged pieces) (kind.toPartial (kind.summary vs)) =
      .ok (kind.merged (pieces ++ [vs])) := by
  rw [List.flatten_append, List.flatten_singleton] at h
  by_cases hkind : kind = avg
  · subst hkind
    simp [merge, merged, toPartial, summary, Scalar.number?, Scalar.integer?, countPresent_append,
      Int64.ofNat_add]
  · rw [merged_of_ne hkind, merged_of_ne hkind, List.flatten_append, List.flatten_singleton]
    exact merge_summary hkind h

/-- What written states come to, compared with the state after all values: the same result, where
numbers are not averaged. An average has the same count, and the sum of the written sums from the
first on. -/
structure Merges (kind : AggregateKind) (written : List Scalar) (state whole : AggState) : Prop where
  result : kind ≠ avg → kind.finalize state = kind.finalize whole
  average : kind = avg → ∃ (cells : List (Binary64 × Int64)) (x : Binary64) (n : Int64),
    written = cells.map (fun c => .array [.float64 c.1, .int64 c.2]) ∧
    state = .avg ((cells.map (·.1)).foldl (· + ·) .zero) n ∧ whole = .avg x n

theorem merges_merged (kind : AggregateKind) (pieces : List (List Scalar)) :
    kind.Merges (pieces.map fun vs => kind.toPartial (kind.summary vs)) (kind.merged pieces)
      (kind.summary pieces.flatten) where
  result hkind := by rw [merged_of_ne hkind]
  average hkind := by
    subst hkind
    refine ⟨pieces.map fun vs => (addNumbers .zero vs, .ofNat (countPresent vs)), _, _, ?_, ?_, rfl⟩
    · rw [List.map_map]
      rfl
    · rw [List.map_map]
      rfl

end AggregateKind

end RowStream
