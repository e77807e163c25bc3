import RowStream.Proofs.Numeric.Widening
import RowStream.Scalar.Key
import RowStream.Proofs.Scalar.Preorder

/-!
# Grouping and ordering agree

Rows are grouped by one equality and sorted by another. The first tells types apart and the second compares
numbers of all types by value; so they differ on an integer and a floating-point number of one value, and
there only: scalars that have one shape, at any depth, belong to one group if and only if they are equal in
order.

* `Scalar.SameShape` — of one type, arrays item by item.
* `Scalar.sameKey32_iff`, `Scalar.sameKey64_iff` — floating-point numbers; single precision numbers are
  compared in double precision.
* `Scalar.sameKey_spec` — all scalars.
-/

namespace RowStream.Scalar

mutual

/-- Whether scalars are of one type, and so are the items of arrays, position by position. -/
def SameShape : Scalar → Scalar → Prop
  | array as, array bs => SameShapes as bs
  | a, b => a.dataType = b.dataType

/-- Whether lists of scalars have one length and one shape at each position. -/
def SameShapes : List Scalar → List Scalar → Prop
  | [], [] => True
  | a :: as, b :: bs => SameShape a b ∧ SameShapes as bs
  | _, _ => False

end

/-! ## Floating-point numbers

Two NaNs are in one group and equal in order, and so are two zeros. For single precision the order
looks at the widened numbers, which are equal only if the numbers were. -/

theorem sameKey64_iff (x y : Binary64) : sameKey64 x y = true ↔ x.order y = .eq := by
  unfold sameKey64 Binary64.equals Binary64.order
  cases hx : x.isNaN <;> cases hy : y.isNaN <;> simp

/-- Single precision numbers are widened before they are compared, and meet no other there. -/
theorem sameKey32_iff (x y : Binary32) :
    sameKey32 x y = true ↔ (Binary64.ofBinary32 x).order (.ofBinary32 y) = .eq := by
  unfold sameKey32 Binary32.equals Binary64.order
  rw [Binary64.isNaN_ofBinary32, Binary64.isNaN_ofBinary32]
  cases hx : x.isNaN <;> cases hy : y.isNaN <;> simp
  exact (Binary64.key_ofBinary32_inj hx hy).symm

/-! ## All scalars

Joint induction on the scalars and on the lists of their items: equal length comes from the shape,
and the items decide position by position. -/

theorem orderBytes_eq_eq_iff : (a b : List UInt8) → (orderBytes a b = .eq ↔ a = b)
  | [], [] | [], _ :: _ | _ :: _, [] => by simp [orderBytes]
  | a :: as, b :: bs => by
    rw [orderBytes, Ordering.then_eq_eq, orderBytes_eq_eq_iff as bs, Std.compare_eq_iff_eq,
      List.cons.injEq]

mutual

/-- **Scalars belong to one group** if they are equal in order and have one shape. -/
theorem sameKey_iff_order : (a b : Scalar) → (sameKey a b = true ↔ a.order b = .eq ∧ SameShape a b)
  | array as, b => by
    cases b with
    | array bs => exact sameKeys_iff_orderItems as bs
    | _ => simp [sameKey, SameShape, dataType]
  | float32 x, b => by
    cases b with
    | float32 y => simpa [sameKey, SameShape, dataType, order, orderMixed, integer?, number?] using
        sameKey32_iff x y
    | _ => simp [sameKey, SameShape, dataType]
  | float64 x, b => by
    cases b with
    | float64 y => simpa [sameKey, SameShape, dataType, order, orderMixed, integer?, number?] using
        sameKey64_iff x y
    | _ => simp [sameKey, SameShape, dataType]
  | int32 m, b => by
    cases b with
    | int32 n => simp [sameKey, SameShape, dataType, order, orderMixed, integer?, Int32.toInt_inj]
    | _ => simp [sameKey, SameShape, dataType]
  | int64 m, b => by
    cases b with
    | int64 n => simp [sameKey, SameShape, dataType, order, orderMixed, integer?, Int64.toInt_inj]
    | _ => simp [sameKey, SameShape, dataType]
  | null, b | bool _, b | text _, b => by
    cases b <;> simp [sameKey, SameShape, dataType, order]
  | bytes l, b => by
    cases b <;> simp [sameKey, SameShape, dataType, order, orderBytes_eq_eq_iff]

theorem sameKeys_iff_orderItems : (as bs : List Scalar) →
    (sameKeys as bs = true ↔ orderItems as bs = .eq ∧ SameShapes as bs)
  | [], [] | [], _ :: _ | _ :: _, [] => by simp [sameKeys, orderItems, SameShapes]
  | a :: as, b :: bs => by
    rw [sameKeys, orderItems, SameShapes, Bool.and_eq_true, Ordering.then_eq_eq, sameKey_iff_order a b,
      sameKeys_iff_orderItems as bs, and_and_and_comm]

end

/-- **Grouping and ordering agree.** To belong to one group is an equivalence among all scalars, and it is to
be equal in order and to have one shape. -/
theorem sameKey_spec :
    Equivalence (fun a b => sameKey a b = true) ∧
      ∀ a b, sameKey a b = true ↔ a.order b = .eq ∧ SameShape a b := by
  refine ⟨⟨fun a => ?_, fun {a b} h => ?_, fun {a b c} hab hbc => ?_⟩, sameKey_iff_order⟩
  · exact (sameKey_iff a a).2 rfl
  · exact (sameKey_iff b a).2 ((sameKey_iff a b).1 h).symm
  · exact (sameKey_iff a c).2 (((sameKey_iff a b).1 hab).trans ((sameKey_iff b c).1 hbc))

end RowStream.Scalar
