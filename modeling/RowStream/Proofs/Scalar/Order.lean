import Mathlib.Data.List.Induction
import Mathlib.Order.Compare
import RowStream.Scalar.Order

/-!
# The order of scalars

Turning the operands around turns the order of scalars around, whatever they are. Transitivity is
another matter: it fails between large integers and floating-point numbers, so it is asked for where
it is needed. Of values in total order there is a least and a greatest, and it does not matter in
which pieces they are looked through.

* `Scalar.swap_order` — operands the other way round.
* `Scalar.TotalOn` — an order that is a total preorder on some scalars.
* `Scalar.better`, `Scalar.extreme` — the first of the least or the greatest.
* `Scalar.extreme_append` — piece by piece.
* `Scalar.TotalOn.extreme_perm` — in any order.
-/

namespace RowStream

theorem swap_compare {α : Type} [Ord α] [Std.OrientedOrd α] (a b : α) :
    (compare a b).swap = compare b a :=
  Std.OrientedOrd.eq_swap.symm

theorem Binary64.swap_order (x y : Binary64) : (x.order y).swap = y.order x := by
  unfold order
  cases x.isNaN <;> cases y.isNaN
  · exact swap_compare x.key y.key
  · rfl
  · rfl
  · rfl

namespace Scalar

theorem swap_orderBytes : (a b : List UInt8) → (orderBytes a b).swap = orderBytes b a
  | [], [] | [], _ :: _ | _ :: _, [] => rfl
  | a :: as, b :: bs => by
    rw [orderBytes, orderBytes, Ordering.swap_then, swap_orderBytes as bs, swap_compare]

theorem swap_orderMixed (a b : Scalar) : (orderMixed a b).swap = orderMixed b a := by
  unfold orderMixed
  cases a.integer? <;> cases b.integer? <;> simp only [swap_compare] <;>
    cases a.number? <;> cases b.number? <;> simp only [swap_compare, Binary64.swap_order]

mutual

/-- **Operands the other way round** compare the other way round. -/
theorem swap_order : (a b : Scalar) → (a.order b).swap = b.order a
  | array as, b => by
    cases b <;> simp only [order, swap_orderMixed, swap_orderItems as, Ordering.swap_gt]
  | null, b => by cases b <;> simp only [order, Ordering.swap_lt, Ordering.swap_eq]
  | bool _, b | int32 _, b | int64 _, b | float32 _, b | float64 _, b | text _, b
  | bytes _, b => by
    cases b <;> simp only [order, swap_orderMixed, swap_orderBytes, swap_compare, Ordering.swap_gt]

theorem swap_orderItems : (a b : List Scalar) → (orderItems a b).swap = orderItems b a
  | [], [] | [], _ :: _ | _ :: _, [] => rfl
  | a :: as, b :: bs => by
    rw [orderItems, orderItems, Ordering.swap_then, swap_order a b, swap_orderItems as bs]

end

/-! ## Extremes

The best of several values is found from the first to the last, a value staying the best unless
another compares to it as wanted. That the best of all is the best of the bests of two pieces needs
transitivity, for values that are at hand only. -/

/-- The order is a total preorder on those of some scalars that are not null. -/
structure TotalOn (vs : List Scalar) : Prop where
  total : ∀ a ∈ vs, ∀ b ∈ vs, a.isNull = false → b.isNull = false →
    (a.order b).isLE = true ∨ (b.order a).isLE = true
  trans : ∀ a ∈ vs, ∀ b ∈ vs, ∀ c ∈ vs, a.isNull = false → b.isNull = false → c.isNull = false →
    (a.order b).isLE = true → (b.order c).isLE = true → (a.order c).isLE = true

instance (vs : List Scalar) : Decidable (TotalOn vs) :=
  decidable_of_iff _ ⟨fun h => ⟨h.1, h.2⟩, fun h => And.intro h.total h.trans⟩

theorem TotalOn.mono {vs fewer : List Scalar} (h : TotalOn vs) (hsub : fewer ⊆ vs) :
    TotalOn fewer where
  total a ha b hb := h.total a (hsub ha) b (hsub hb)
  trans a ha b hb c hc := h.trans a (hsub ha) b (hsub hb) c (hsub hc)

/-- What compares to the best value as wanted replaces it; the first of equal ones stays. -/
def better (wanted : Ordering) (best : Option Scalar) (v : Scalar) : Option Scalar :=
  if v.isNull then best
  else
    match best with
    | none => some v
    | some b => if v.order b == wanted then some v else some b

/-- The best of several values. -/
def extreme (wanted : Ordering) (vs : List Scalar) : Option Scalar := vs.foldl (better wanted) none

theorem extreme_concat (wanted : Ordering) (vs : List Scalar) (v : Scalar) :
    extreme wanted (vs ++ [v]) = better wanted (extreme wanted vs) v :=
  List.foldl_append

theorem better_of_isNull {v : Scalar} (h : v.isNull = true) (wanted : Ordering)
    (best : Option Scalar) : better wanted best v = best := by
  unfold better
  rw [if_pos h]

theorem better_none {v : Scalar} (h : v.isNull = false) (wanted : Ordering) :
    better wanted none v = some v := by
  unfold better
  rw [if_neg (Bool.eq_false_iff.1 h)]

/-- Whether a value stays the best when another comes. -/
def stays (wanted : Ordering) (best v : Scalar) : Bool := v.order best != wanted

theorem better_some {v : Scalar} (h : v.isNull = false) (wanted : Ordering) (best : Scalar) :
    better wanted (some best) v = if stays wanted best v then some best else some v := by
  unfold better stays
  rw [if_neg (Bool.eq_false_iff.1 h)]
  cases hbest : v.order best == wanted <;> simp [bne, hbest]

theorem mem_of_extreme {wanted : Ordering} {vs : List Scalar} {b : Scalar}
    (h : extreme wanted vs = some b) : b ∈ vs ∧ b.isNull = false := by
  -- the best is the one of the values before, or the last value
  induction vs using List.reverseRecOn generalizing b with
  | nil => cases h
  | append_singleton vs v ih =>
    have hold : extreme wanted vs = some b → b ∈ vs ++ [v] ∧ b.isNull = false := fun hb =>
      ⟨List.mem_append_left _ (ih hb).1, (ih hb).2⟩
    have hnew : v.isNull = false → v ∈ vs ++ [v] ∧ v.isNull = false := fun hnull =>
      ⟨List.mem_append_right _ List.mem_cons_self, hnull⟩
    rw [extreme_concat] at h
    cases hnull : v.isNull with
    | true =>
      rw [better_of_isNull hnull] at h
      exact hold h
    | false =>
      cases hbest : extreme wanted vs with
      | none =>
        rw [hbest, better_none hnull] at h
        cases h
        exact hnew hnull
      | some best =>
        rw [hbest, better_some hnull] at h
        split at h
        · exact hold (hbest.trans h)
        · cases h
          exact hnew hnull

section Assoc

variable {wanted : Ordering} {vs : List Scalar} {a b c : Scalar}

/-- Of two values one stays. -/
theorem stays_total (hwanted : wanted ≠ .eq) (a b : Scalar) (h : stays wanted a b = false) :
    stays wanted b a = true := by
  unfold stays at h ⊢
  rw [← swap_order b a]
  cases hba : b.order a <;> cases wanted <;> simp_all

/-- What stays before one that stays before another stays before it. -/
theorem TotalOn.stays_trans (h : TotalOn vs) (hwanted : wanted ≠ .eq) (ha : a ∈ vs) (hb : b ∈ vs)
    (hc : c ∈ vs) (hanull : a.isNull = false) (hbnull : b.isNull = false)
    (hcnull : c.isNull = false) (hab : stays wanted a b = true) (hbc : stays wanted b c = true) :
    stays wanted a c = true := by
  have hle (x y : Scalar) : stays .lt x y = (x.order y).isLE := by
    unfold stays
    rw [← swap_order x y]
    cases x.order y <;> rfl
  have hge (x y : Scalar) : stays .gt x y = (y.order x).isLE := by
    unfold stays
    cases y.order x <;> rfl
  cases wanted with
  | eq => exact absurd rfl hwanted
  | lt =>
    rw [hle] at hab hbc ⊢
    exact h.trans a ha b hb c hc hanull hbnull hcnull hab hbc
  | gt =>
    rw [hge] at hab hbc ⊢
    exact h.trans c hc b hb a ha hcnull hbnull hanull hbc hab

/-- **The best of three** is found from either side. -/
theorem better_assoc (h : TotalOn vs) (hwanted : wanted ≠ .eq) (ha : a ∈ vs) (hb : b ∈ vs)
    (hc : c ∈ vs) (hanull : a.isNull = false) (hbnull : b.isNull = false)
    (hcnull : c.isNull = false) :
    better wanted (better wanted (some a) b) c =
      better wanted (some a) ((better wanted (some b) c).getD .null) := by
  rw [better_some hbnull, better_some hcnull]
  cases hab : stays wanted a b <;> cases hbc : stays wanted b c
  · -- if `a` stayed before `c`, so would `b`, which comes before `a`
    have hac : stays wanted a c = false := Bool.eq_false_iff.2 fun hac => by
      have := h.stays_trans hwanted hb ha hc hbnull hanull hcnull (stays_total hwanted a b hab) hac
      rw [hbc] at this
      cases this
    simp [better_some, hcnull, hbc, hac]
  · simp [better_some, hbnull, hcnull, hbc, hab]
  · simp [better_some, hcnull]
  · have hac := h.stays_trans hwanted ha hb hc hanull hbnull hcnull hab hbc
    simp [better_some, hbnull, hcnull, hac, hab]

/-- **Piece by piece.** The best of all values is that of the best of two pieces. -/
theorem extreme_append {us vs : List Scalar} (hwanted : wanted ≠ .eq) (h : TotalOn (us ++ vs)) :
    extreme wanted (us ++ vs) =
      better wanted (extreme wanted us) ((extreme wanted vs).getD .null) := by
  -- by the right piece, value by value; as long as these are null it has no best
  induction vs using List.reverseRecOn with
  | nil => rw [List.append_nil]; rfl
  | append_singleton vs v ih =>
    have hvs : us ++ vs ⊆ us ++ (vs ++ [v]) := by
      rw [← List.append_assoc]
      exact List.subset_append_left _ _
    rw [← List.append_assoc, extreme_concat, extreme_concat, ih (h.mono hvs)]
    cases hnull : v.isNull with
    | true => rw [better_of_isNull hnull, better_of_isNull hnull]
    | false =>
      cases hright : extreme wanted vs with
      | none =>
        have hnone := better_of_isNull (v := .null) rfl wanted (extreme wanted us)
        rw [better_none hnull, Option.getD_none, Option.getD_some, hnone]
      | some b =>
        obtain ⟨hb, hbnull⟩ := mem_of_extreme hright
        rw [Option.getD_some]
        cases hleft : extreme wanted us with
        | none =>
          rw [better_none hbnull, better_some hnull]
          split
          · rw [Option.getD_some, better_none hbnull]
          · rw [Option.getD_some, better_none hnull]
        | some a =>
          obtain ⟨ha, hanull⟩ := mem_of_extreme hleft
          exact better_assoc h hwanted (by simp [ha]) (by simp [hb]) (by simp) hanull hbnull hnull

/-! ## In any order

Every value stays behind the best one, and so does the best one of another order: the two are equal
in order. They need not be the same. -/

theorem stays_self (hwanted : wanted ≠ .eq) (a : Scalar) : stays wanted a a = true :=
  (Bool.eq_false_or_eq_true _).elim id (stays_total hwanted a a)

/-- Two values that stay before each other are equal in order. -/
theorem order_eq_of_stays (hwanted : wanted ≠ .eq) (hab : stays wanted a b = true)
    (hba : stays wanted b a = true) : a.order b = .eq := by
  unfold stays at hab hba
  rw [← swap_order a b] at hab
  cases horder : a.order b <;> cases wanted <;> simp_all

theorem extreme_eq_none_iff : extreme wanted vs = none ↔ ∀ v ∈ vs, v.isNull = true := by
  induction vs using List.reverseRecOn with
  | nil => exact ⟨fun _ => nofun, fun _ => rfl⟩
  | append_singleton vs v ih =>
    rw [extreme_concat, List.forall_mem_append, ← ih]
    cases hnull : v.isNull with
    | true => simp [better_of_isNull hnull, hnull]
    | false =>
      -- there is a best value now
      have hsome : better wanted (extreme wanted vs) v ≠ none := by
        cases extreme wanted vs with
        | none => simp [better_none hnull]
        | some best => rw [better_some hnull]; split <;> simp
      simp [hsome, hnull]

/-- **The best of all values** stays before each of them. -/
theorem TotalOn.stays_extreme (h : TotalOn vs) (hwanted : wanted ≠ .eq)
    (hbest : extreme wanted vs = some b) (v : Scalar) (hv : v ∈ vs) (hnull : v.isNull = false) :
    stays wanted b v = true := by
  -- by induction on the values, the last one off: it is passed over, the first of all, or compared
  induction vs using List.reverseRecOn generalizing b v with
  | nil => cases hbest
  | append_singleton vs last ih =>
    have hvs := h.mono (List.subset_append_left vs [last])
    rw [extreme_concat] at hbest
    rw [List.mem_append, List.mem_singleton] at hv
    cases hlast : last.isNull with
    | true =>
      rw [better_of_isNull hlast] at hbest
      rcases hv with hv | rfl
      · exact ih hvs hbest v hv hnull
      · rw [hlast] at hnull
        cases hnull
    | false =>
      cases hold : extreme wanted vs with
      | none =>
        rw [hold, better_none hlast] at hbest
        cases hbest
        rcases hv with hv | rfl
        · rw [extreme_eq_none_iff.1 hold v hv] at hnull
          cases hnull
        · exact stays_self hwanted v
      | some best =>
        obtain ⟨hmem, hbestnull⟩ := mem_of_extreme hold
        rw [hold, better_some hlast] at hbest
        cases hstays : stays wanted best last <;> rw [hstays] at hbest <;> cases hbest
        · -- the last value replaces the best, so it stays before what the best stays before
          rcases hv with hv | rfl
          · exact h.stays_trans hwanted (by simp) (by simp [hmem]) (by simp [hv]) hlast hbestnull
              hnull (stays_total hwanted best last hstays) (ih hvs hold v hv hnull)
          · exact stays_self hwanted v
        · rcases hv with hv | rfl
          · exact ih hvs hold v hv hnull
          · exact hstays

/-- **In another order** the best is the same value, or another one that is equal in order. -/
theorem TotalOn.extreme_perm {us : List Scalar} (h : TotalOn vs) (hwanted : wanted ≠ .eq)
    (hperm : vs.Perm us) :
    extreme wanted vs = extreme wanted us ∨ ∃ a b, extreme wanted vs = some a ∧
      extreme wanted us = some b ∧ a ∈ vs ∧ b ∈ vs ∧ a.order b = .eq := by
  cases hleft : extreme wanted vs with
  | none =>
    have hnull := extreme_eq_none_iff.1 hleft
    exact .inl (extreme_eq_none_iff.2 fun v hv => hnull v (hperm.mem_iff.2 hv)).symm
  | some a =>
    obtain ⟨ha, hanull⟩ := mem_of_extreme hleft
    cases hright : extreme wanted us with
    | none =>
      rw [extreme_eq_none_iff.1 hright a (hperm.mem_iff.1 ha)] at hanull
      cases hanull
    | some b =>
      obtain ⟨hb, hbnull⟩ := mem_of_extreme hright
      have hab := h.stays_extreme hwanted hleft b (hperm.mem_iff.2 hb) hbnull
      have hba := (h.mono hperm.symm.subset).stays_extreme hwanted hright a (hperm.mem_iff.1 ha) hanull
      exact .inr ⟨a, b, rfl, rfl, ha, hperm.mem_iff.2 hb, order_eq_of_stays hwanted hab hba⟩

end Assoc

end Scalar

end RowStream
