import Mathlib.Data.Set.Defs
import RowStream.Proofs.Row.StableSort
import RowStream.Proofs.Scalar.Order

/-!
# Where the order of rows is a preorder

Rows are compared key by key. Turning the rows around turns the comparison around, whatever they are.
The order of rows carries on wherever that of the values in each column does, and a null stands on the
side that its key says, whatever it is compared with.

* `SortKey.transCmp`, `RowOrder.transCmp` — one key, and keys one after the other.
* `RowOrder.KeysTotalOn` — values in total order, column by column; `KeysTotalOn.totalOn` makes a total
  preorder on rows of it.
* `RowOrder.order_eq_of_ties` — the first key without a tie decides.
* `RowOrder.ofColumns_order_spec` — the laws of an order that is given column by column.
* `RowOrder.SortsStably.andThen` — sorting by some keys and then by others before them.
-/

namespace RowStream

/-! ## One key

A key turns the order of values around or leaves it, and has its own place for nulls. Neither breaks
transitivity where the values have it. -/

namespace SortKey

theorem swap_orderValues (key : SortKey) (a b : Scalar) :
    (key.orderValues a b).swap = key.orderValues b a := by
  unfold orderValues
  cases a.isNull <;> cases b.isNull
  · cases key.descending <;> simp [Scalar.swap_order]
  · simp
  · rfl
  · rfl

theorem swap_order (key : SortKey) (a b : Row) : (key.order a b).swap = key.order b a :=
  key.swap_orderValues _ _

/-- Values in total order are in total order under a key. Nulls are equal to each other and stand all on
one side. -/
theorem isLE_trans_orderValues (key : SortKey) {a b c : Scalar} (h : Scalar.TotalOn [a, b, c])
    (hab : (key.orderValues a b).isLE = true) (hbc : (key.orderValues b c).isLE = true) :
    (key.orderValues a c).isLE = true := by
  unfold orderValues nullSide at *
  cases ha : a.isNull <;> cases hb : b.isNull <;> cases hc : c.isNull <;>
    simp only [ha, hb, hc] at hab hbc ⊢
  case false.false.false =>
    cases hdescending : key.descending <;>
      simp only [hdescending, if_true, Bool.false_eq_true, if_false, Scalar.swap_order] at hab hbc ⊢
    · exact h.trans a (by simp) b (by simp) c (by simp) ha hb hc hab hbc
    · exact h.trans c (by simp) b (by simp) a (by simp) hc hb ha hbc hab
  all_goals cases hfirst : key.nullsFirst <;> simp_all

/-- **One key** orders rows whose values are in total order. -/
theorem transCmp (key : SortKey) {rows : Set Row}
    (h : ∀ part : List Row, (∀ row ∈ part, row ∈ rows) → Scalar.TotalOn (part.map key.value)) :
    Std.TransCmp fun a b : { row // row ∈ rows } => key.order a.1 b.1 where
  eq_swap := (key.swap_order _ _).symm
  isLE_trans {a b c} := by
    refine key.isLE_trans_orderValues (h [a.1, b.1, c.1] ?_)
    simp [a.2, b.2, c.2]

theorem order_of_isNull (key : SortKey) {a b : Row} (ha : (key.value a).isNull = true)
    (hb : (key.value b).isNull = false) : key.order a b = key.nullSide := by
  simp only [order, orderValues, ha, hb]

end SortKey

/-! ## Keys one after the other

A list of keys compares lexicographically. By induction on the keys, the rows are in total order if
the values that they show to each key are. -/

namespace RowOrder

theorem order_append (keys more : RowOrder) (a b : Row) :
    (keys ++ more).order a b = (keys.order a b).then (more.order a b) := by
  induction keys with
  | nil => rfl
  | cons key keys ih =>
    rw [List.cons_append, order, ih, order, Ordering.then_assoc]

theorem swap_order (order : RowOrder) (a b : Row) : (order.order a b).swap = order.order b a := by
  induction order with
  | nil => rfl
  | cons key keys ih => rw [RowOrder.order, RowOrder.order, Ordering.swap_then, key.swap_order, ih]

theorem order_self (order : RowOrder) (a : Row) : order.order a a = .eq := by
  have hswap := order.swap_order a a
  cases horder : order.order a a <;> simp_all

/-- The values that rows of a set show to each key are in total order, however many are taken; nulls
are left aside. -/
def KeysTotalOn (order : RowOrder) (rows : Set Row) : Prop :=
  ∀ key ∈ order, ∀ part : List Row, (∀ row ∈ part, row ∈ rows) →
    Scalar.TotalOn (part.map key.value)

/-- Of the rows of a list, all can be taken at once. -/
theorem keysTotalOn_iff {order : RowOrder} {rows : List Row} :
    order.KeysTotalOn {row | row ∈ rows} ↔ ∀ key ∈ order, Scalar.TotalOn (rows.map key.value) :=
  forall₂_congr fun key _ =>
    ⟨fun h => h rows fun _ => id, fun h _ hpart => h.mono (List.map_subset key.value hpart)⟩

/-- **Keys one after the other** order rows, if each of them orders their values. -/
theorem transCmp {order : RowOrder} {rows : Set Row} (h : order.KeysTotalOn rows) :
    Std.TransCmp fun a b : { row // row ∈ rows } => order.order a.1 b.1 := by
  induction order with
  | nil => exact { eq_swap := rfl, isLE_trans := fun _ _ => rfl }
  | cons key keys ih =>
    have hkey := key.transCmp (h key List.mem_cons_self)
    have hkeys := ih fun k hk => h k (List.mem_cons_of_mem key hk)
    exact inferInstanceAs (Std.TransCmp (compareLex
      (fun a b : { row // row ∈ rows } => key.order a.1 b.1) fun a b => order keys a.1 b.1))

/-- Of two rows one may stand before the other. -/
theorem le_total (order : RowOrder) (a b : Row) : order.le a b = true ∨ order.le b a = true := by
  unfold le
  rw [← order.swap_order a b]
  cases order.order a b <;> simp

theorem KeysTotalOn.totalOn {order : RowOrder} {rows : List Row}
    (h : order.KeysTotalOn {row | row ∈ rows}) : order.TotalOn rows where
  total a _ b _ := order.le_total a b
  trans a ha b hb c hc :=
    have := transCmp h
    this.isLE_trans (a := ⟨a, ha⟩) (b := ⟨b, hb⟩) (c := ⟨c, hc⟩)

/-! ## Which key decides

The same, told from the rows: the first key under which two rows differ decides, and a column that a
row does not have counts as null. -/

/-- The first key that tells two rows apart decides. -/
theorem order_eq_of_ties {order : RowOrder} {i : Nat} {key : SortKey} (hkey : order[i]? = some key)
    {a b : Row} (hties : ∀ k ∈ order.take i, k.order a b = .eq) (hne : key.order a b ≠ .eq) :
    order.order a b = key.order a b := by
  induction order generalizing i with
  | nil => cases hkey
  | cons first keys ih =>
    rw [RowOrder.order]
    cases i with
    | zero =>
      obtain rfl : first = key := by simpa using hkey
      cases hfirst : SortKey.order first a b
      · rfl
      · exact absurd hfirst hne
      · rfl
    | succ i =>
      rw [List.take_succ_cons, List.forall_mem_cons] at hties
      rw [hties.1]
      exact ih hkey hties.2

theorem getElem?_ofColumns {columns : List Nat} {descending : List Bool}
    {nullsFirst : List (Option Bool)} {i column : Nat} {desc : Bool} {nulls : Option Bool}
    (hcolumn : columns[i]? = some column) (hdesc : descending[i]? = some desc)
    (hnulls : nullsFirst[i]? = some nulls) :
    (ofColumns columns descending nullsFirst)[i]? = some ⟨column, desc, nulls.getD desc⟩ := by
  have hzip : ((columns.zip descending).zip nullsFirst)[i]? = some ((column, desc), nulls) :=
    List.getElem?_zip_eq_some.2 ⟨List.getElem?_zip_eq_some.2 ⟨hcolumn, hdesc⟩, hnulls⟩
  rw [ofColumns, List.getElem?_map, hzip]
  rfl

/-- **The laws of a row order.** Rows the other way round compare the other way round, whatever they
are. On rows whose values are in total order, column by column, the order carries on, and standing side
by side is an equivalence. And of two rows that tie on all keys before one, the row that has a null
there, or no such column, comes first if nulls are to come first, or if that is left open and the key
is descending; otherwise it comes last. -/
theorem ofColumns_order_spec (columns : List Nat) (descending : List Bool)
    (nullsFirst : List (Option Bool)) :
    let order := ofColumns columns descending nullsFirst
    (∀ a b, (order.order a b).swap = order.order b a) ∧
    (∀ rows : Set Row, order.KeysTotalOn rows →
      (∀ a ∈ rows, ∀ b ∈ rows, ∀ c ∈ rows,
        (order.le a b = true → order.le b c = true → order.le a c = true) ∧
        (order.order a b = .lt → order.order b c = .lt → order.order a c = .lt)) ∧
      Equivalence fun a b : { row // row ∈ rows } => order.order a.1 b.1 = .eq) ∧
    ∀ i column desc nulls, columns[i]? = some column → descending[i]? = some desc →
      nullsFirst[i]? = some nulls →
      ∀ a b : Row, (∀ key ∈ order.take i, key.order a b = .eq) →
        (a[column]?.getD .null).isNull = true → (b[column]?.getD .null).isNull = false →
        order.order a b = if nulls = some true ∨ nulls = none ∧ desc = true then .lt else .gt := by
  intro order
  -- turning around needs nothing, transitivity a set of rows, and nulls the first key without a tie
  refine ⟨order.swap_order, fun rows h => ?_, ?_⟩
  · have htrans := transCmp h
    refine ⟨fun a ha b hb c hc => ⟨?_, ?_⟩, fun a => order.order_self a.1, fun {a b} hab => ?_, ?_⟩
    · exact htrans.isLE_trans (a := ⟨a, ha⟩) (b := ⟨b, hb⟩) (c := ⟨c, hc⟩)
    · exact htrans.lt_trans (a := ⟨a, ha⟩) (b := ⟨b, hb⟩) (c := ⟨c, hc⟩)
    · rw [← order.swap_order a.1 b.1, hab]
      rfl
    · exact htrans.eq_trans
  · intro i column desc nulls hcolumn hdesc hnulls a b hties ha hb
    have hkey := getElem?_ofColumns hcolumn hdesc hnulls
    have hside := SortKey.order_of_isNull ⟨column, desc, nulls.getD desc⟩ ha hb
    have hne : SortKey.nullSide ⟨column, desc, nulls.getD desc⟩ ≠ .eq := by
      unfold SortKey.nullSide
      split <;> decide
    rw [order_eq_of_ties hkey hties (hside ▸ hne), hside, SortKey.nullSide]
    cases nulls with
    | none => simp
    | some first => simp

/-- A null, a greater value, and sevens of three types, one of them in a row that ends there. -/
def sevens : List Row :=
  [[.null, .text "x"], [.int32 9], [.float64 ⟨0x401c000000000000⟩], [.int64 7, .text "x"],
    [.int32 7, .text "x"]]

/-- From the greatest down: the null comes first, the sevens tie, and of these the row that ends
comes first, as nulls are to do in the second column. -/
theorem ofColumns_order_spec_sevens :
    let order := ofColumns [0, 1] [true, false] [none, some true]
    let rows : Set Row := {row | row ∈ sevens}
    (order.KeysTotalOn rows ∧ order.order sevens[0] sevens[3] = .lt ∧
      order.le sevens[2] sevens[4] = true) ∧
    order.order sevens[4] sevens[3] = .eq ∧
    order.order sevens[0] sevens[1] = .lt ∧ order.order sevens[2] sevens[3] = .lt := by
  intro order rows
  have htotal : order.KeysTotalOn rows := keysTotalOn_iff.2 (by decide)
  have hmem (i : Nat) (h : i < sevens.length) : sevens[i] ∈ rows := List.getElem_mem h
  obtain ⟨-, hpreorder, hnulls⟩ := ofColumns_order_spec [0, 1] [true, false] [none, some true]
  obtain ⟨htrans, hequal⟩ := hpreorder rows htotal
  have hlt := (htrans _ (hmem 0 (by decide)) _ (hmem 1 (by decide)) _ (hmem 3 (by decide))).2
    (by decide) (by decide)
  have hle := (htrans _ (hmem 2 (by decide)) _ (hmem 3 (by decide)) _ (hmem 4 (by decide))).1
    (by decide) (by decide)
  have hties : order.order sevens[3] sevens[4] = .eq := by decide
  have hsymm := hequal.symm (x := ⟨_, hmem 3 (by decide)⟩) (y := ⟨_, hmem 4 (by decide)⟩) hties
  exact ⟨⟨htotal, hlt, hle⟩, hsymm,
    hnulls 0 0 true none rfl rfl rfl _ _ nofun rfl rfl,
    hnulls 1 1 false (some true) rfl rfl rfl _ _ (by decide) rfl rfl⟩

/-! ## Sorting twice

A stable sort keeps ties as they were. So rows that were sorted before come out of a second sort
ordered by the second keys, and among those that tie by the first. -/

/-- In one tie are the rows that are compared as equal. -/
theorem ties_eq (order : RowOrder) (a b : Row) : order.ties a b = (order.order a b == .eq) := by
  unfold ties le
  rw [← order.swap_order a b]
  cases order.order a b <;> rfl

theorem ties_append (keys more : RowOrder) (a : Row) :
    (keys ++ more).ties a = fun b => more.ties a b && keys.ties a b := by
  funext b
  simp only [ties_eq, order_append]
  cases keys.order a b <;> cases more.order a b <;> rfl

/-- **Sorting by some keys and then by others** is sorting by the others and, where these tie, by
the first ones: what ties is left as it was after the first sort. -/
theorem SortsStably.andThen {keys more : RowOrder} {rows middle sorted : List Row}
    (hmore : more.SortsStably rows middle) (hkeys : keys.SortsStably middle sorted) :
    (keys ++ more).SortsStably rows sorted where
  perm := hkeys.perm.trans hmore.perm
  inOrder := by
    rw [List.pairwise_iff_forall_sublist]
    intro a b hab
    have hle := List.pairwise_iff_forall_sublist.1 hkeys.inOrder hab
    unfold le at hle ⊢
    rw [order_append]
    cases horder : keys.order a b with
    | lt => rfl
    | gt =>
      rw [horder] at hle
      cases hle
    | eq =>
      -- both rows are in one tie, and so they stand as they did in the middle
      have ha : a ∈ middle := hkeys.perm.mem_iff.1 (hab.subset List.mem_cons_self)
      have htie : [a, b].filter (keys.ties a) = [a, b] := by
        simp [ties_eq, order_self, horder]
      have hfilter := hab.filter (keys.ties a)
      rw [htie, hkeys.stable a ha] at hfilter
      exact List.pairwise_iff_forall_sublist.1 hmore.inOrder (hfilter.trans List.filter_sublist)
  stable a ha := by
    have hmiddle : a ∈ middle := hmore.perm.mem_iff.2 ha
    have hcomm (rows : List Row) : (rows.filter (keys.ties a)).filter (more.ties a) =
        (rows.filter (more.ties a)).filter (keys.ties a) := by
      simp only [List.filter_filter, Bool.and_comm]
    calc sorted.filter ((keys ++ more).ties a)
        = (sorted.filter (keys.ties a)).filter (more.ties a) := by
          rw [List.filter_filter, ties_append]
      _ = (middle.filter (more.ties a)).filter (keys.ties a) := by
          rw [hkeys.stable a hmiddle, hcomm]
      _ = (rows.filter (keys.ties a)).filter (more.ties a) := by
          rw [hmore.stable a ha, hcomm]
      _ = rows.filter ((keys ++ more).ties a) := by
          rw [List.filter_filter, ties_append]

end RowOrder

end RowStream
