import RowStream.Proofs.Numeric.Rounding
import RowStream.Proofs.Scalar.Order

/-!
# Where the order of scalars is a preorder

Two integers compare exactly, an integer and a floating-point number in double precision. From
`2 ^ 53` on two integers can be rounded to one number, which is then equal to both of them although
they differ, and the order is not transitive. That is all that can go wrong: among scalars in which
no floating-point number is equal to two integers, at any depth, the order is a total preorder.

The proof goes through three comparisons at a time. They are put together lexicographically: the
kind of value first, then, of numbers, the number in double precision, then the integer.

* `Scalar.not_trans_order` — three numbers that show the failure.
* `Coherent` — three comparisons that fit together; `Coherent.andThen` puts two triples together.
* `Scalar.Discernible` — no floating-point number is equal to two integers.
* `Scalar.order_spec` — the order is a total preorder there.
-/

namespace RowStream

/-! ## Three comparisons

Transitivity alone does not go through a lexicographic order: one needs to know what becomes of
ties. So three comparisons are taken together, and it is their fitting together that goes through.
-/

/-- The comparisons of `a` with `b`, of `b` with `c` and of `a` with `c` fit together: what is
equal compares alike, and a direction is kept. -/
structure Coherent (ab bc ac : Ordering) : Prop where
  of_left : ab = .eq → ac = bc
  of_right : bc = .eq → ac = ab
  of_same : ab = bc → ac = ab

namespace Coherent

variable {ab bc ac : Ordering}

theorem isLE_trans (h : Coherent ab bc ac) (hab : ab.isLE = true) (hbc : bc.isLE = true) :
    ac.isLE = true := by
  obtain ⟨hleft, hright, hsame⟩ := h
  cases ab <;> cases bc <;> simp_all

/-- The second comparison of each pair counts only where all the first ones are equal. -/
theorem andThen {ab' bc' ac' : Ordering} (h : Coherent ab bc ac)
    (htie : ab = .eq → bc = .eq → Coherent ab' bc' ac') :
    Coherent (ab.then ab') (bc.then bc') (ac.then ac') := by
  cases hab : ab with
  | eq =>
    rw [h.of_left hab]
    cases hbc : bc with
    | eq => exact htie hab hbc
    | lt | gt => constructor <;> simp [eq_comm]
  | lt | gt =>
    cases hbc : bc with
    | eq =>
      rw [h.of_right hbc, hab]
      constructor <;> simp
    | lt | gt =>
      -- opposite directions say nothing, equal ones are kept
      have hsame := h.of_same
      constructor <;> simp_all

/-- A lawful comparison is coherent. -/
theorem of_cmp {α : Type} (cmp : α → α → Ordering) [Std.TransCmp cmp] (a b c : α) :
    Coherent (cmp a b) (cmp b c) (cmp a c) where
  of_left := Std.TransCmp.congr_left
  of_right h := (Std.TransCmp.congr_right h).symm
  of_same h := by
    cases hab : cmp a b with
    | eq => exact Std.TransCmp.eq_trans hab (h.symm.trans hab)
    | lt => exact Std.TransCmp.lt_trans hab (h.symm.trans hab)
    | gt => exact Std.TransCmp.gt_trans hab (h.symm.trans hab)

theorem of_order (x y z : Binary64) : Coherent (x.order y) (y.order z) (x.order z) := by
  unfold Binary64.order
  cases x.isNaN <;> cases y.isNaN <;> cases z.isNaN
  · exact of_cmp compare x.key y.key z.key
  all_goals constructor <;> simp [eq_comm]

end Coherent

/-- Integers that do not meet in double precision compare there as they do exactly. -/
theorem Binary64.order_ofInt_then (m n : Int) :
    ((ofInt m).order (ofInt n)).then (compare m n) = compare m n := by
  simp only [order, isNaN_ofInt]
  cases hcompare : compare m n with
  | lt =>
    obtain hlt | heq := (key_ofInt_mono (compare_lt_iff_lt.1 hcompare).le).lt_or_eq
    · rw [compare_lt_iff_lt.2 hlt]; rfl
    · rw [compare_eq_iff_eq.2 heq]; rfl
  | eq => rw [compare_eq_iff_eq.1 hcompare, compare_eq_iff_eq.2 rfl]; rfl
  | gt =>
    obtain hlt | heq := (key_ofInt_mono (compare_gt_iff_gt.1 hcompare).le).lt_or_eq
    · rw [compare_gt_iff_gt.2 hlt]; rfl
    · rw [compare_eq_iff_eq.2 heq.symm]; rfl

namespace Scalar

/-! ## Kinds of values

Values of different kinds are ordered by their kinds, nulls first. What is left to show is about
values of one kind. -/

/-- The place of a value's kind in the order; all numbers are of one kind. -/
def kind : Scalar → Nat
  | null => 0
  | bool _ => 1
  | int32 _ | int64 _ | float32 _ | float64 _ => 2
  | text _ => 3
  | bytes _ => 4
  | array _ => 5

theorem order_of_kind_ne {a b : Scalar} (h : a.kind ≠ b.kind) :
    a.order b = compare a.kind b.kind := by
  revert h
  cases a <;> cases b <;>
    simp [kind, order, orderMixed, rank, integer?, number?, compare, compareOfLessAndEq]

/-- Kinds come before values. -/
theorem order_eq_then (a b : Scalar) : a.order b = (compare a.kind b.kind).then (a.order b) := by
  by_cases h : a.kind = b.kind
  · rw [Nat.compare_eq_eq.2 h, Ordering.eq_then]
  · rw [order_of_kind_ne h]
    cases compare a.kind b.kind <;> rfl

theorem coherent_of_kind {a b c : Scalar} (h : a.kind = b.kind → b.kind = c.kind →
    Coherent (a.order b) (b.order c) (a.order c)) :
    Coherent (a.order b) (b.order c) (a.order c) := by
  rw [order_eq_then a b, order_eq_then b c, order_eq_then a c]
  exact (Coherent.of_cmp compare a.kind b.kind c.kind).andThen fun hab hbc =>
    h (Nat.compare_eq_eq.1 hab) (Nat.compare_eq_eq.1 hbc)

/-! ## Numbers

The order of numbers is not lexicographic as it stands: integers are compared exactly, all other
pairs in double precision. But integers that differ in double precision differ there as they do
exactly, so that the exact comparison can be put behind, as one that breaks ties. -/

theorem exists_number {v : Scalar} (h : v.kind = 2) : ∃ x, v.number? = some x := by
  cases v <;> simp [kind, number?] at h ⊢

theorem number_of_integer {v : Scalar} {n : Int64} (h : v.integer? = some n) :
    v.number? = some (.ofInt n.toInt) := by
  cases v <;> cases h
  · rw [number?, Int32.toInt_toInt64]
  · rfl

theorem order_of_number {a b : Scalar} {x y : Binary64} (ha : a.number? = some x)
    (hb : b.number? = some y) : a.order b = orderMixed a b := by
  cases a <;> cases ha <;> cases b <;> cases hb <;> rfl

/-- The comparison of two integers; anything else is a tie. -/
def tieBreak (a b : Scalar) : Ordering :=
  match a.integer?, b.integer? with
  | some m, some n => compare m.toInt n.toInt
  | _, _ => .eq

/-- **Numbers** compare in double precision first; the exact comparison of integers only decides
between those that meet there. -/
theorem order_eq_then_tieBreak {a b : Scalar} {x y : Binary64} (ha : a.number? = some x)
    (hb : b.number? = some y) : a.order b = (x.order y).then (tieBreak a b) := by
  rw [order_of_number ha hb, orderMixed, tieBreak, ha, hb]
  cases hm : a.integer? with
  | none => exact Ordering.then_eq.symm
  | some m =>
    cases hn : b.integer? with
    | none => exact Ordering.then_eq.symm
    | some n =>
      obtain rfl : Binary64.ofInt m.toInt = x := by simpa [number_of_integer hm] using ha
      obtain rfl : Binary64.ofInt n.toInt = y := by simpa [number_of_integer hn] using hb
      exact (Binary64.order_ofInt_then m.toInt n.toInt).symm

/-! ## Discernible integers

Where a floating-point number ties with two integers that differ, the tie-breaking comparison is not
coherent. This is the one case that has to be excluded, and it is excluded for all scalars at hand,
with the items of arrays. -/

mutual

/-- The values in a scalar that are not arrays, at any depth. -/
def leaves : Scalar → List Scalar
  | array items => leavesAll items
  | v => [v]

/-- The values in several scalars that are not arrays. -/
def leavesAll : List Scalar → List Scalar
  | [] => []
  | v :: vs => leaves v ++ leavesAll vs

end

/-- No floating-point number in some scalars, at any depth, compares equal to two integers there. -/
def Discernible (vs : List Scalar) : Prop :=
  ∀ x ∈ leavesAll vs, ∀ a ∈ leavesAll vs, ∀ b ∈ leavesAll vs,
    a.integer?.isSome = true → b.integer?.isSome = true →
      x.order a = .eq → x.order b = .eq → a.integer? = b.integer?

instance (vs : List Scalar) : Decidable (Discernible vs) :=
  inferInstanceAs (Decidable (∀ x ∈ leavesAll vs, ∀ a ∈ leavesAll vs, ∀ b ∈ leavesAll vs,
    a.integer?.isSome = true → b.integer?.isSome = true →
      x.order a = .eq → x.order b = .eq → a.integer? = b.integer?))

theorem Discernible.mono {vs fewer : List Scalar} (h : Discernible vs)
    (hsub : leavesAll fewer ⊆ leavesAll vs) : Discernible fewer :=
  fun x hx a ha b hb => h x (hsub hx) a (hsub ha) b (hsub hb)

theorem mem_leavesAll {vs : List Scalar} {v : Scalar} :
    v ∈ leavesAll vs ↔ ∃ w ∈ vs, v ∈ leaves w := by
  induction vs with
  | nil => simp [leavesAll]
  | cons w vs ih => simp [leavesAll, ih]

theorem leavesAll_subset {vs fewer : List Scalar} (h : fewer ⊆ vs) :
    leavesAll fewer ⊆ leavesAll vs := fun v hv => by
  obtain ⟨w, hw, hvw⟩ := mem_leavesAll.1 hv
  exact mem_leavesAll.2 ⟨w, h hw, hvw⟩

theorem mem_leaves_of_number {v : Scalar} {x : Binary64} (h : v.number? = some x) :
    v ∈ leaves v := by
  cases v <;> simp [leaves, number?] at h ⊢

/-- Among numbers that all meet in double precision, one of which is a floating-point number, the
integers are all the same. -/
theorem Discernible.tieBreak_eq {vs : List Scalar} (h : Discernible vs)
    (hnumber : ∀ v ∈ vs, ∃ x, v.number? = some x)
    (hmeet : ∀ v ∈ vs, ∀ w ∈ vs, ∀ x ∈ v.number?, ∀ y ∈ w.number?, x.order y = .eq)
    {v a b : Scalar} (hv : v ∈ vs) (hfloat : v.integer? = none) (ha : a ∈ vs) (hb : b ∈ vs) :
    tieBreak a b = .eq := by
  have hleaf (w : Scalar) (hw : w ∈ vs) : w ∈ leavesAll vs := by
    obtain ⟨x, hx⟩ := hnumber w hw
    exact mem_leavesAll.2 ⟨w, hw, mem_leaves_of_number hx⟩
  -- whatever meets the floating-point number is equal to it
  have hequal (w : Scalar) (hw : w ∈ vs) : v.order w = .eq := by
    obtain ⟨x, hx⟩ := hnumber v hv
    obtain ⟨y, hy⟩ := hnumber w hw
    rw [order_eq_then_tieBreak hx hy, hmeet v hv w hw x hx y hy, tieBreak, hfloat]
    rfl
  unfold tieBreak
  cases hm : a.integer? with
  | none => rfl
  | some m =>
    cases hn : b.integer? with
    | none => rfl
    | some n =>
      -- two integers that are equal to it have to be one
      have hsame := h v (hleaf v hv) a (hleaf a ha) b (hleaf b hb) (by simp [hm]) (by simp [hn])
        (hequal a ha) (hequal b hb)
      rw [hm, hn] at hsame
      cases hsame
      exact compare_eq_iff_eq.2 rfl

section Numbers

variable {a b c : Scalar} {x y z : Binary64}

theorem coherent_tieBreak (h : Discernible [a, b, c]) (hx : a.number? = some x)
    (hy : b.number? = some y) (hz : c.number? = some z) (hxy : x.order y = .eq)
    (hyz : y.order z = .eq) : Coherent (tieBreak a b) (tieBreak b c) (tieBreak a c) := by
  have hxz : x.order z = .eq := ((Coherent.of_order x y z).of_left hxy).trans hyz
  have hswap {r s : Binary64} (hrs : r.order s = .eq) : s.order r = .eq := by
    rw [← Binary64.swap_order, hrs]; rfl
  have hself (r : Binary64) : r.order r = .eq := by
    have := Binary64.swap_order r r
    cases hr : r.order r <;> simp_all
  -- with a floating-point number among the three nothing is left to decide; without, integers compare
  by_cases hfloat : ∃ v ∈ [a, b, c], v.integer? = none
  · obtain ⟨v, hv, hfloat⟩ := hfloat
    have hnumber : ∀ v ∈ [a, b, c], ∃ x, v.number? = some x := by simp [hx, hy, hz]
    have hmeet : ∀ v ∈ [a, b, c], ∀ w ∈ [a, b, c], ∀ x ∈ v.number?, ∀ y ∈ w.number?,
        x.order y = .eq := by
      simp [hx, hy, hz, hself, hxy, hyz, hxz, hswap hxy, hswap hyz, hswap hxz]
    have htie {v w : Scalar} := h.tieBreak_eq hnumber hmeet hv hfloat (a := v) (b := w)
    rw [htie (by simp) (by simp), htie (by simp) (by simp), htie (by simp) (by simp)]
    exact ⟨id, id, id⟩
  · have hinteger (v : Scalar) (hv : v ∈ [a, b, c]) : ∃ n, v.integer? = some n :=
      Option.ne_none_iff_exists'.1 fun hnone => hfloat ⟨v, hv, hnone⟩
    obtain ⟨l, hl⟩ := hinteger a (by simp)
    obtain ⟨m, hm⟩ := hinteger b (by simp)
    obtain ⟨n, hn⟩ := hinteger c (by simp)
    simp only [tieBreak, hl, hm, hn]
    exact Coherent.of_cmp compare l.toInt m.toInt n.toInt

theorem coherent_numbers (h : Discernible [a, b, c]) (hx : a.number? = some x)
    (hy : b.number? = some y) (hz : c.number? = some z) :
    Coherent (a.order b) (b.order c) (a.order c) := by
  rw [order_eq_then_tieBreak hx hy, order_eq_then_tieBreak hy hz, order_eq_then_tieBreak hx hz]
  exact (Coherent.of_order x y z).andThen (coherent_tieBreak h hx hy hz)

end Numbers

/-! ## The order

Joint induction on three scalars and on three lists of items. -/

theorem orderBytes_eq : (a b : List UInt8) → orderBytes a b = List.compareLex compare a b
  | [], [] | [], _ :: _ | _ :: _, [] => rfl
  | a :: as, b :: bs => by
    rw [orderBytes, List.compareLex_cons_cons, orderBytes_eq as bs]

mutual

/-- Three comparisons of discernible scalars fit together. -/
theorem coherent_order : (a b c : Scalar) → Discernible [a, b, c] →
    Coherent (a.order b) (b.order c) (a.order c)
  | array as, b, c, h => coherent_of_kind fun hab hbc => by
    cases b <;> simp [kind] at hab
    cases c <;> simp [kind] at hbc
    rename_i bs cs
    simp only [order]
    refine coherent_orderItems as bs cs (h.mono fun v hv => ?_)
    simpa [leavesAll, leaves, mem_leavesAll, or_and_right, exists_or] using hv
  | null, b, c, h => coherent_of_kind fun hab hbc => by
    cases b <;> simp [kind] at hab
    cases c <;> simp [kind] at hbc
    simp only [order]
    exact ⟨id, id, id⟩
  | bool l, b, c, h => coherent_of_kind fun hab hbc => by
    cases b <;> simp [kind] at hab
    cases c <;> simp [kind] at hbc
    simp only [order]
    exact Coherent.of_cmp compare ..
  | text s, b, c, h => coherent_of_kind fun hab hbc => by
    cases b <;> simp [kind] at hab
    cases c <;> simp [kind] at hbc
    simp only [order]
    exact Coherent.of_cmp compare ..
  | bytes l, b, c, h => coherent_of_kind fun hab hbc => by
    cases b <;> simp [kind] at hab
    cases c <;> simp [kind] at hbc
    simp only [order, orderBytes_eq]
    exact Coherent.of_cmp (List.compareLex compare) ..
  | int32 _, b, c, h | int64 _, b, c, h | float32 _, b, c, h | float64 _, b, c, h =>
    coherent_of_kind fun hab hbc => by
      obtain ⟨y, hy⟩ := exists_number hab.symm
      obtain ⟨z, hz⟩ := exists_number (hbc.symm.trans hab.symm)
      exact coherent_numbers h rfl hy hz

theorem coherent_orderItems : (as bs cs : List Scalar) → Discernible (as ++ bs ++ cs) →
    Coherent (orderItems as bs) (orderItems bs cs) (orderItems as cs)
  | [], [], [], _ | [], [], _ :: _, _ | [], _ :: _, [], _ | [], _ :: _, _ :: _, _
  | _ :: _, [], [], _ | _ :: _, [], _ :: _, _ | _ :: _, _ :: _, [], _ => by
    constructor <;> simp [orderItems, eq_comm]
  | a :: as, b :: bs, c :: cs, h => by
    simp only [orderItems]
    refine (coherent_order a b c (h.mono (leavesAll_subset (by grind)))).andThen fun _ _ => ?_
    exact coherent_orderItems as bs cs (h.mono (leavesAll_subset (by grind)))

end

/-- **The order of discernible scalars is a total preorder**: what is turned around compares the
other way round, whatever the scalars are; and where no floating-point number is equal to two
integers, "not after" carries on, and equal scalars compare alike with every third one. -/
theorem order_spec (a b c : Scalar) :
    (a.order b).swap = b.order a ∧
    (Discernible [a, b, c] →
      ((a.order b).isLE = true → (b.order c).isLE = true → (a.order c).isLE = true) ∧
      (a.order b = .eq → a.order c = b.order c)) :=
  ⟨swap_order a b, fun h => ⟨(coherent_order a b c h).isLE_trans, (coherent_order a b c h).of_left⟩⟩

/-- Arrays that are equal but for the types of their numbers, and a third one behind both. -/
theorem order_spec_arrays :
    let a := array [int32 7, .null]
    let b := array [float64 ⟨0x401c000000000000⟩, .null]
    let c := array [float64 ⟨0x7ff8000000000000⟩, int64 9007199254740993]
    (a.order b).swap = b.order a ∧ Discernible [a, b, c] ∧
    (a.order b).isLE = true ∧ (b.order c).isLE = true ∧ (a.order c).isLE = true ∧
    a.order b = .eq ∧ a.order c = b.order c :=
  have h := order_spec (array [int32 7, .null]) (array [float64 ⟨0x401c000000000000⟩, .null])
    (array [float64 ⟨0x7ff8000000000000⟩, int64 9007199254740993])
  have hdiscernible : Discernible [array [int32 7, .null],
      array [float64 ⟨0x401c000000000000⟩, .null],
      array [float64 ⟨0x7ff8000000000000⟩, int64 9007199254740993]] := by decide
  have htrans := (h.2 hdiscernible).1 (by decide) (by decide)
  have halike := (h.2 hdiscernible).2 (by decide)
  ⟨h.1, hdiscernible, by decide, by decide, htrans, by decide, halike⟩

/-- **A floating-point number between two integers** that are both rounded to it: `2 ^ 53 + 1` does
not come after the number, which does not come after `2 ^ 53`, and yet comes after `2 ^ 53`. With
arrays around them the three even form a circle. -/
theorem not_trans_order :
    let a := int64 9007199254740993
    let b := float64 ⟨0x4340000000000000⟩
    let c := int64 9007199254740992
    (a.order b = .eq ∧ b.order c = .eq ∧ a.order c = .gt) ∧
    ((array [a, int32 0]).order (array [b, int32 1]) = .lt ∧
      (array [b, int32 1]).order (array [c, int32 2]) = .lt ∧
      (array [c, int32 2]).order (array [a, int32 0]) = .lt) := by
  decide

/-! ## Sorting discernible scalars

What sorts and extremes ask for. -/

/-- The order is total on discernible scalars. -/
theorem Discernible.totalOn {vs : List Scalar} (h : Discernible vs) : TotalOn vs where
  total a _ b _ _ _ := by
    rw [← swap_order a b]
    cases a.order b <;> simp
  trans a ha b hb c hc _ _ _ :=
    (coherent_order a b c (h.mono (leavesAll_subset (by simp [ha, hb, hc])))).isLE_trans

end Scalar

end RowStream
