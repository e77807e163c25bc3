import RowStream.Row.Order

/-!
# Stable sorts

Sorting rows stably leaves rows that compare equal in the order in which they came. There is one
such arrangement only, as long as the order is a total preorder on the rows at hand; on other rows
it may be anything.

* `RowOrder.TotalOn` — an order that is a total preorder on some rows.
* `RowOrder.SortsStably` — the rows in order, ties as they came; `SortsStably.unique` says that this
  leaves no choice.
* `RowOrder.sortsStably_mergeSort` — sorting at the end.
-/

namespace RowStream

namespace RowOrder

/-- The order is a total preorder on some rows. -/
structure TotalOn (order : RowOrder) (rows : List Row) : Prop where
  total : ∀ a ∈ rows, ∀ b ∈ rows, order.le a b = true ∨ order.le b a = true
  trans : ∀ a ∈ rows, ∀ b ∈ rows, ∀ c ∈ rows,
    order.le a b = true → order.le b c = true → order.le a c = true

/-- Whether neither row has to stand before the other. -/
def ties (order : RowOrder) (a b : Row) : Bool := order.le a b && order.le b a

/-- The rows in order, each tie as it came. -/
structure SortsStably (order : RowOrder) (rows sorted : List Row) : Prop where
  perm : sorted.Perm rows
  inOrder : sorted.Pairwise fun a b => order.le a b = true
  stable : ∀ a ∈ rows, sorted.filter (order.ties a) = rows.filter (order.ties a)

variable {order : RowOrder} {rows : List Row}

theorem TotalOn.mono {fewer : List Row} (h : order.TotalOn rows)
    (hsub : ∀ a ∈ fewer, a ∈ rows) : order.TotalOn fewer where
  total a ha b hb := h.total a (hsub a ha) b (hsub b hb)
  trans a ha b hb c hc := h.trans a (hsub a ha) b (hsub b hb) c (hsub c hc)

theorem TotalOn.refl (h : order.TotalOn rows) {a : Row} (ha : a ∈ rows) :
    order.le a a = true := by
  obtain hle | hle := h.total a ha a ha <;> exact hle

/-! ## There is only one

Induction on the sorted rows: the least row of a tie that came first has to stand in front, in every
arrangement that is ordered and leaves ties alone. -/

theorem eq_of_ties {xs ys : List Row} (h : order.TotalOn xs) (hperm : xs.Perm ys)
    (hxs : xs.Pairwise fun a b => order.le a b = true)
    (hys : ys.Pairwise fun a b => order.le a b = true)
    (hties : ∀ a ∈ xs, xs.filter (order.ties a) = ys.filter (order.ties a)) : xs = ys := by
  -- the first rows are in one tie, which has the same row first on both sides
  induction xs generalizing ys with
  | nil => exact hperm.nil_eq
  | cons a xs ih =>
    cases ys with
    | nil => exact absurd hperm.eq_nil (List.cons_ne_nil a xs)
    | cons b ys =>
      have hself := h.refl List.mem_cons_self
      have hab : order.le a b = true := by
        obtain rfl | hmem := List.mem_cons.1 (hperm.mem_iff.2 List.mem_cons_self)
        · exact hself
        · exact List.rel_of_pairwise_cons hxs hmem
      have hba : order.le b a = true := by
        obtain rfl | hmem := List.mem_cons.1 (hperm.mem_iff.1 List.mem_cons_self)
        · exact hself
        · exact List.rel_of_pairwise_cons hys hmem
      have hfirst := hties a List.mem_cons_self
      have hsame : a = b := by
        simp only [List.filter_cons, ties, hself, hab, hba, Bool.and_self, if_true] at hfirst
        exact (List.cons.inj hfirst).1
      subst hsame
      have htail : xs = ys := by
        refine ih (h.mono fun x hx => List.mem_cons_of_mem _ hx) hperm.cons_inv hxs.of_cons
          hys.of_cons fun x hx => ?_
        have hx' := hties x (List.mem_cons_of_mem _ hx)
        rw [List.filter_cons, List.filter_cons] at hx'
        split at hx'
        · exact (List.cons.inj hx').2
        · exact hx'
      rw [htail]

theorem SortsStably.unique (h : order.TotalOn rows) {xs ys : List Row}
    (hxs : order.SortsStably rows xs) (hys : order.SortsStably rows ys) : xs = ys := by
  refine eq_of_ties (h.mono fun a ha => hxs.perm.mem_iff.1 ha) (hxs.perm.trans hys.perm.symm)
    hxs.inOrder hys.inOrder fun a ha => ?_
  have hmem := hxs.perm.mem_iff.1 ha
  rw [hxs.stable a hmem, hys.stable a hmem]

/-! ## Sorting at the end

The library sorts stably where the order is a total preorder on everything, so the rows are taken
together with the fact that they are there. -/

/-- The order of rows that are known to be there. -/
def leAmong (order : RowOrder) (rows : List Row) (a b : { row // row ∈ rows }) : Bool :=
  order.le a.1 b.1

theorem map_mergeSort_leAmong (order : RowOrder) (rows : List Row) :
    (rows.attach.mergeSort (order.leAmong rows)).map Subtype.val = rows.mergeSort order.le := by
  have hmap := List.map_mergeSort (r := order.leAmong rows) (s := order.le) (f := Subtype.val)
    (l := rows.attach) fun _ _ _ _ => rfl
  rw [hmap, List.attach_map_subtype_val]

theorem sortsStably_mergeSort (h : order.TotalOn rows) :
    order.SortsStably rows (rows.mergeSort order.le) := by
  have htrans : ∀ a b c, order.leAmong rows a b = true → order.leAmong rows b c = true →
      order.leAmong rows a c = true := fun a b c => h.trans a.1 a.2 b.1 b.2 c.1 c.2
  have htotal : ∀ a b, (order.leAmong rows a b || order.leAmong rows b a) = true := fun a b => by
    rw [Bool.or_eq_true]
    exact h.total a.1 a.2 b.1 b.2
  have hperm := List.mergeSort_perm rows order.le
  refine ⟨hperm, ?_, fun a ha => ?_⟩
  · rw [← map_mergeSort_leAmong]
    exact List.pairwise_map.2 (List.pairwise_mergeSort htrans htotal _)
  · -- the rows of one tie are in order already, so they are all found in the sorted rows
    have hties : (rows.attach.filter fun x => order.ties a x.1).Pairwise fun x y =>
        order.leAmong rows x y = true := by
      refine List.pairwise_of_forall_mem_list fun x hx y hy => ?_
      have hx' := (List.mem_filter.1 hx).2
      have hy' := (List.mem_filter.1 hy).2
      simp only [ties, Bool.and_eq_true] at hx' hy'
      exact h.trans x.1 x.2 a ha y.1 y.2 hx'.2 hy'.1
    have hsub := (List.sublist_mergeSort htrans htotal hties List.filter_sublist).map Subtype.val
    have hfilter : (rows.attach.filter fun x => order.ties a x.1).map Subtype.val =
        rows.filter (order.ties a) := by
      conv => rhs; rw [← List.attach_map_subtype_val rows, List.filter_map]
      rfl
    rw [hfilter, map_mergeSort_leAmong] at hsub
    have hsub' := hsub.filter (order.ties a)
    rw [List.filter_filter, show (fun x => order.ties a x && order.ties a x) = order.ties a from
      funext fun x => Bool.and_self _] at hsub'
    exact (hsub'.eq_of_length (hperm.filter _).length_eq.symm).symm

end RowOrder

end RowStream
