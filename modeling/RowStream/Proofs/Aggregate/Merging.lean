import RowStream.Proofs.Aggregate.Fold
import RowStream.Proofs.Aggregate.Ownership
import RowStream.Proofs.Aggregate.Split

/-!
# Written states in any order

Counts, sums and extremes are merged from written states that come in any order. What they come to
depends on the order in two ways: a sum that goes out of range on the way stays lost, and of values
that are equal in order the first one is handed out.

* `AggregateKind.gathered` — the state after written states; `merge_eq_ok_iff` is the step.
* `Aggregation.Readable`, `Aggregation.Overflows` — when rows cannot be merged.
* `Aggregates.fold_merging_iff` — when they can, and what they come to.
* `AggregateKind.Alike`, `Aggregation.alike_result` — what they come to in another order.
-/

namespace RowStream

namespace AggregateKind

/-- The aggregates that do not depend on which value is first, nor on floating-point sums. -/
def Orderless (kind : AggregateKind) : Prop := kind ∈ [count, countStar, sum, min, max]

instance (kind : AggregateKind) : Decidable kind.Orderless :=
  inferInstanceAs (Decidable (kind ∈ [count, countStar, sum, min, max]))

/-- Whether an aggregate can read a value as a written state. -/
def Reads (kind : AggregateKind) (v : Scalar) : Prop :=
  match kind with
  | count | countStar => v.integer?.isSome = true
  | sum => v.isNull = true ∨ (Total.ofScalar? v).isSome = true
  | _ => True

/-- Values that are null or integers. -/
def Integral (vs : List Scalar) : Prop := ∀ v ∈ vs, v.isNull = true ∨ v.integer?.isSome = true

instance (vs : List Scalar) : Decidable (Integral vs) :=
  inferInstanceAs (Decidable (∀ v ∈ vs, v.isNull = true ∨ v.integer?.isSome = true))

/-- The state after written states: counts are added up, and the others take them like values. -/
def gathered (kind : AggregateKind) (vs : List Scalar) : AggState :=
  match kind with
  | count | countStar => .count (.ofInt (total vs))
  | kind => kind.summary vs

theorem init_eq_gathered (kind : AggregateKind) : kind.init = kind.gathered [] := by
  cases kind <;> rfl

/-! ## One written state more

The step: what has been gathered from written states, with one more of them. Counts and extremes
take whatever they can read. Only a sum can be refused although it was read, when the running sum
leaves the range, and then it is the order of the states that decided. -/

/-- An integer is not added to what there is, if the sum is out of range. -/
theorem addToSum_outOfRange {us : List Scalar} {v : Scalar} {n : Int64} (hn : v.integer? = some n)
    (hus : Total.InRange (total us)) (hsum : ¬ Total.InRange (total us + n.toInt)) :
    addToSum (sum.summary us) v = .error (.evaluation .sumOutOfRange) := by
  have hnull : v.isNull = false := by
    cases v <;> first | rfl | cases hn
  unfold addToSum summary
  simp only [hnull, Bool.false_eq_true, if_false, Total.ofScalar?_of_integer? hn]
  cases hall : us.all (·.isNull) with
  | true =>
    -- the first integer is a sum in range
    rw [total_of_all_isNull hall, Int.zero_add] at hsum
    exact absurd ⟨n.minValue_le_toInt, n.toInt_le⟩ hsum
  | false =>
    have hadd : Total.addIntegers? (.ofInt (total us)) n = none := by
      unfold Total.addIntegers?
      rw [Total.toInt_ofInt hus]
      exact if_neg hsum
    simp [Total.add?, hadd]

/-- A null or an integer is merged into a sum, unless that goes out of range. -/
theorem merge_sum_eq_ok_iff {us : List Scalar} {v : Scalar}
    (hv : v.isNull = true ∨ v.integer?.isSome = true) (hus : Total.InRange (total us))
    (next : AggState) :
    sum.merge (sum.summary us) v = .ok next ↔
      Total.InRange (total (us ++ [v])) ∧ next = sum.summary (us ++ [v]) := by
  cases hnull : v.isNull with
  | true =>
    -- a null is no summand, so that the sum stays in range
    have hstays : sum.summary (us ++ [v]) = sum.summary us := by
      simp [summary, hnull, total_concat_of_isNull hnull]
    have hmerge : sum.merge (sum.summary us) v = .ok (sum.summary us) := by
      rw [merge, hnull]
      exact addToSum_null _ hnull
    rw [hmerge, hstays, total_concat_of_isNull hnull]
    simp [hus, eq_comm]
  | false =>
    obtain ⟨n, hn⟩ := Option.isSome_iff_exists.1 (hv.resolve_left (Bool.eq_false_iff.1 hnull))
    -- an integer is added, unless that is what takes the sum out of range
    have hmerge : sum.merge (sum.summary us) v = addToSum (sum.summary us) v := by
      simp [merge, Total.ofScalar?_of_integer? hn]
    have hlast := total_concat_of_integer hn us
    have hnext : sum.summary (us ++ [v]) = .sum (some (.integer (.ofInt (total us + n.toInt)))) := by
      simp [summary, hnull, hlast]
    rw [hmerge, hlast, hnext]
    by_cases hsum : Total.InRange (total us + n.toInt)
    · rw [addToSum_integer hn hus hsum]
      simp [hsum, eq_comm]
    · rw [addToSum_outOfRange hn hus hsum]
      simp [hsum]

/-- **One written state more** is merged if it can be read, and if a sum stays in range. -/
theorem merge_eq_ok_iff {kind : AggregateKind} (hkind : kind.Orderless) {vs : List Scalar}
    {v : Scalar} (hv : kind = sum → (v.isNull = true ∨ v.integer?.isSome = true))
    (hrange : kind = sum → Total.InRange (total vs)) (next : AggState) :
    kind.merge (kind.gathered vs) v = .ok next ↔
      kind.Reads v ∧ (kind = sum → Total.InRange (total (vs ++ [v]))) ∧
        next = kind.gathered (vs ++ [v]) := by
  cases kind with
  | count | countStar =>
    unfold merge gathered Reads
    cases hn : v.integer? with
    | none => simp
    | some n =>
      -- counts wrap around, and so does their sum
      simp [total_concat_of_integer hn, eq_comm]
  | sum =>
    have hreads : sum.Reads v := (hv rfl).imp_right fun hn => by
      obtain ⟨n, hn⟩ := Option.isSome_iff_exists.1 hn
      simp [Total.ofScalar?_of_integer? hn]
    have hmerge := merge_sum_eq_ok_iff (hv rfl) (hrange rfl) next
    simpa [hreads, gathered] using hmerge
  | min =>
    have hmerge := addToExtreme_value min .lt (Scalar.extreme .lt vs) v
    rw [← Scalar.extreme_concat] at hmerge
    simp [merge, gathered, summary, Reads, hmerge, eq_comm]
  | max =>
    have hmerge := addToExtreme_value max .gt (Scalar.extreme .gt vs) v
    rw [← Scalar.extreme_concat] at hmerge
    simp [merge, gathered, summary, Reads, hmerge, eq_comm]
  | avg | arbitrary => simp [Orderless] at hkind

/-! ## In any order

Counts and sums of integers are the same for a permutation. The extremes are not: of values that are
equal in order the first is kept, so that results in another order are equal in order and no more.
-/

theorem total_perm {us vs : List Scalar} (h : us.Perm vs) : total us = total vs := by
  induction h with
  | nil => rfl
  | cons v _ ih => rw [total, total, ih]
  | swap u v vs => rw [total, total, total, total, Int.add_left_comm]
  | trans _ _ ihu ihv => exact ihu.trans ihv

theorem gathered_perm {kind : AggregateKind} (hkind : kind.Orderless) (hmin : kind ≠ min)
    (hmax : kind ≠ max) {us vs : List Scalar} (h : us.Perm vs) :
    kind.gathered us = kind.gathered vs := by
  cases kind with
  | count | countStar => rw [gathered, gathered, total_perm h]
  | sum => simp [gathered, summary, total_perm h, h.all_eq]
  | min => exact absurd rfl hmin
  | max => exact absurd rfl hmax
  | avg | arbitrary => simp [Orderless] at hkind

/-- The least and the greatest of written states. -/
theorem exists_finalize_extreme {kind : AggregateKind} (h : kind = min ∨ kind = max) :
    ∃ wanted, wanted ≠ Ordering.eq ∧ ∀ vs,
      kind.finalize (kind.gathered vs) = (Scalar.extreme wanted vs).getD .null := by
  rcases h with rfl | rfl
  · refine ⟨.lt, by decide, fun vs => ?_⟩
    show finalize min (.value _) = _
    cases Scalar.extreme .lt vs <;> rfl
  · refine ⟨.gt, by decide, fun vs => ?_⟩
    show finalize max (.value _) = _
    cases Scalar.extreme .gt vs <;> rfl

/-- How results of the same written states compare: they are the same, but for the least and the
greatest value. These are the same or equal in order, where the order is one. -/
structure Alike (kind : AggregateKind) (vs : List Scalar) (v w : Scalar) : Prop where
  same : kind ≠ min → kind ≠ max → v = w
  tied : kind = min ∨ kind = max → Scalar.TotalOn vs →
    v = w ∨ v ∈ vs ∧ w ∈ vs ∧ v.order w = .eq

/-- **Written states in another order** come to results that are alike. -/
theorem alike_of_perm {kind : AggregateKind} (hkind : kind.Orderless) {vs us : List Scalar}
    (h : vs.Perm us) :
    kind.Alike vs (kind.finalize (kind.gathered vs)) (kind.finalize (kind.gathered us)) where
  same hmin hmax := by rw [gathered_perm hkind hmin hmax h]
  tied hextreme htotal := by
    obtain ⟨wanted, hwanted, hbest⟩ := exists_finalize_extreme hextreme
    rw [hbest, hbest]
    rcases htotal.extreme_perm hwanted h with heq | ⟨a, b, ha, hb, htie⟩
    · exact .inl (by rw [heq])
    · rw [ha, hb]
      exact .inr htie

end AggregateKind

/-! ## Rows of written states

From one column to rows of several. By induction on the rows an aggregate comes to the state that
its column stands for, if and only if it can read every row and no sum of first rows is out of
range. Neither condition depends on the order except the second, which is asked for in both orders.
-/

namespace Aggregation

/-- Whether a row has a written state that an aggregate can read. -/
def Readable (a : Aggregation) (row : Row) : Prop :=
  ∃ v, a.value row = .ok (some v) ∧ a.kind.Reads v

/-- Whether the sum of some first rows is out of range. -/
def Overflows (a : Aggregation) (rows : List Row) : Prop :=
  a.kind = .sum ∧ ∃ first ∈ rows.inits, ¬ Total.InRange (AggregateKind.total (a.column first))

instance (a : Aggregation) (rows : List Row) : Decidable (a.Overflows rows) :=
  inferInstanceAs (Decidable (_ ∧ _))

/-- The result of an aggregate after rows of written states. -/
def result (a : Aggregation) (rows : List Row) : Scalar :=
  a.kind.finalize (a.kind.gathered (a.column rows))

variable {a : Aggregation} {rows : List Row} {row : Row}

theorem shown_of_value {v : Scalar} (h : a.value row = .ok (some v)) : a.shown row = v := by
  unfold value at h
  unfold shown
  cases hinput : a.input? with
  | none => simp [hinput] at h
  | some i =>
    rw [hinput] at h
    cases hcell : row[i]? <;> simp_all

theorem not_overflows_nil (a : Aggregation) : ¬ a.Overflows [] := by
  rintro ⟨-, first, hfirst, hrange⟩
  rw [List.mem_inits, List.prefix_nil] at hfirst
  rw [hfirst] at hrange
  exact hrange (by decide : Total.InRange 0)

theorem overflows_concat : a.Overflows (rows ++ [row]) ↔ a.Overflows rows ∨
    a.kind = .sum ∧ ¬ Total.InRange (AggregateKind.total (a.column (rows ++ [row]))) := by
  simp only [Overflows, List.mem_inits, List.prefix_concat_iff]
  constructor
  · rintro ⟨hsum, first, rfl | hfirst, hrange⟩
    · exact .inr ⟨hsum, hrange⟩
    · exact .inl ⟨hsum, first, hfirst, hrange⟩
  · rintro (⟨hsum, first, hfirst, hrange⟩ | ⟨hsum, hrange⟩)
    · exact ⟨hsum, first, .inr hfirst, hrange⟩
    · exact ⟨hsum, _, .inl rfl, hrange⟩

theorem inRange_of_not_overflows (h : ¬ a.Overflows rows) (hsum : a.kind = .sum) :
    Total.InRange (AggregateKind.total (a.column rows)) := by
  by_contra hrange
  exact h ⟨hsum, rows, (List.mem_inits _ _).2 List.prefix_rfl, hrange⟩

/-- **One row more.** -/
theorem absorb_eq_ok_iff (hkind : a.kind.Orderless)
    (hints : a.kind = .sum → AggregateKind.Integral (a.column [row]))
    (hrange : a.kind = .sum → Total.InRange (AggregateKind.total (a.column rows)))
    (next : AggState) :
    a.absorb .partialFinal row (a.kind.gathered (a.column rows)) = .ok next ↔
      a.Readable row ∧
        (a.kind = .sum → Total.InRange (AggregateKind.total (a.column (rows ++ [row])))) ∧
        next = a.kind.gathered (a.column (rows ++ [row])) := by
  unfold absorb Readable
  rcases hvalue : a.value row with e | _ | v
  · simp
  · simp [AggregateMode.consumesPartial]
  · have hshown := shown_of_value hvalue
    have hcolumn : a.column (rows ++ [row]) = a.column rows ++ [v] := by
      rw [column_append, ← hshown]
      rfl
    have hv : a.kind = .sum → (v.isNull = true ∨ v.integer?.isSome = true) := fun hsum =>
      hshown ▸ hints hsum _ List.mem_cons_self
    rw [hcolumn]
    simpa [AggregateMode.consumesPartial] using
      AggregateKind.merge_eq_ok_iff hkind hv hrange next

/-- **All rows.** -/
theorem fold_merging_iff (hkind : a.kind.Orderless)
    (hints : a.kind = .sum → AggregateKind.Integral (a.column rows)) (state : AggState) :
    a.fold .partialFinal a.kind.init rows = .ok state ↔
      (∀ row ∈ rows, a.Readable row) ∧ ¬ a.Overflows rows ∧
        state = a.kind.gathered (a.column rows) := by
  induction rows using List.reverseRecOn generalizing state with
  | nil =>
    rw [fold, AggregateKind.init_eq_gathered]
    simp [not_overflows_nil, column, eq_comm]
  | append_singleton rows row ih =>
    -- the last row is folded in if the rows before it are, and adds one sum of first rows
    have hbefore : a.kind = .sum → AggregateKind.Integral (a.column rows) := fun hsum v hv =>
      hints hsum v (by rw [column_append]; exact List.mem_append_left _ hv)
    have hrow : a.kind = .sum → AggregateKind.Integral (a.column [row]) := fun hsum v hv =>
      hints hsum v (by rw [column_append]; exact List.mem_append_right _ hv)
    have hlast (hno : ¬ a.Overflows rows) :=
      absorb_eq_ok_iff hkind hrow (inRange_of_not_overflows hno)
    rw [fold_concat, List.forall_mem_append, List.forall_mem_singleton, overflows_concat]
    constructor
    · intro h
      cases hfold : a.fold .partialFinal a.kind.init rows with
      | error e =>
        rw [hfold] at h
        cases h
      | ok next =>
        obtain ⟨hall, hno, rfl⟩ := (ih hbefore _).1 hfold
        rw [hfold] at h
        obtain ⟨hreadable, hrange, rfl⟩ := (hlast hno _).1 h
        refine ⟨⟨hall, hreadable⟩, ?_, rfl⟩
        rintro (hover | ⟨hsum, hover⟩)
        · exact hno hover
        · exact hover (hrange hsum)
    · rintro ⟨⟨hall, hreadable⟩, hno, rfl⟩
      have hnever : ¬ a.Overflows rows := fun hover => hno (.inl hover)
      rw [(ih hbefore _).2 ⟨hall, hnever, rfl⟩]
      refine (hlast hnever _).2 ⟨hreadable, fun hsum => ?_, rfl⟩
      by_contra hover
      exact hno (.inr ⟨hsum, hover⟩)

theorem column_perm {others : List Row} (h : rows.Perm others) :
    (a.column rows).Perm (a.column others) :=
  h.map a.shown

/-- **Rows in another order** come to results that are alike. -/
theorem alike_result (hkind : a.kind.Orderless) {others : List Row} (h : rows.Perm others) :
    a.kind.Alike (a.column rows) (a.result rows) (a.result others) :=
  AggregateKind.alike_of_perm hkind (column_perm h)

end Aggregation

namespace Aggregates

variable {as : List Aggregation} {rows : List Row}

/-- **Side by side.** Aggregates come to states if each can read all rows and no sum of first rows is
out of range. -/
theorem fold_merging_iff (hkinds : ∀ a ∈ as, a.kind.Orderless)
    (hints : ∀ a ∈ as, a.kind = .sum → AggregateKind.Integral (a.column rows))
    (states : List AggState) :
    fold ⟨as, .partialFinal⟩ (init ⟨as, .partialFinal⟩) rows = .ok states ↔
      (∀ a ∈ as, (∀ row ∈ rows, a.Readable row) ∧ ¬ a.Overflows rows) ∧
        states = as.map fun a => a.kind.gathered (a.column rows) := by
  induction as generalizing states with
  | nil =>
    rw [fold_nil]
    simp [init, eq_comm]
  | cons a as ih =>
    have hfirst := Aggregation.fold_merging_iff (hkinds a List.mem_cons_self)
      (hints a List.mem_cons_self)
    have hrest := ih (fun b hb => hkinds b (List.mem_cons_of_mem _ hb))
      (fun b hb => hints b (List.mem_cons_of_mem _ hb))
    rw [List.forall_mem_cons, List.map_cons]
    constructor
    · intro h
      obtain ⟨state', states', rfl, hstate, hstates⟩ := exists_of_fold_cons h
      obtain ⟨hall, hno, rfl⟩ := (hfirst _).1 hstate
      obtain ⟨hothers, rfl⟩ := (hrest _).1 hstates
      exact ⟨⟨⟨hall, hno⟩, hothers⟩, rfl⟩
    · rintro ⟨⟨⟨hall, hno⟩, hothers⟩, rfl⟩
      exact fold_cons ((hfirst _).2 ⟨hall, hno, rfl⟩) ((hrest _).2 ⟨hothers, rfl⟩)

/-- Where aggregates of a plan without fault fail, it is because of a value. -/
theorem isEvaluation_of_fold {s : Aggregates} (hvalid : s.Valid) {states : List AggState}
    (howns : s.Owns states) {e : OpError} (h : s.fold states rows = .error e) :
    e.IsEvaluation := by
  induction rows generalizing states with
  | nil => cases h
  | cons row rows ih =>
    obtain ⟨hlater, herror⟩ := update_spec hvalid howns row
    rw [fold] at h
    rcases hupdate : s.update states row with ⟨e' | _, later⟩ <;> rw [hupdate] at h hlater herror
    · cases h
      exact herror e rfl
    · exact ih hlater h

end Aggregates

end RowStream
