import Mathlib.Data.List.Induction
import RowStream.Proofs.Row.StableSort
import RowStream.Proofs.Stream.Flow

/-!
# Ordered top-N

A sort buffer sorts all rows at the end; a top buffer puts each row in its place when it comes, and
keeps as many as its capacity. Both come to the same rows.

* `RowOrder.arrange` — all rows in place, as a buffer without a capacity has them;
  `RowOrder.sortsStably_arrange` says that this is a stable sort.
* `RowOrder.IsLeading` — the invariant: what is kept are the first rows of those arranged, and
  `RowOrder.isLeading_keep` is its step.
* `RowOrder.take_reverse_eq` — the first rows of all.
* `TopBuffer.Fresh`, `TopBuffer.rows_keep` — a top buffer whose numbers are those of rows that have come
  keeps rows like that: the number of the row that comes is the greatest.
* `Collector.exists_takeAll_top` — the rows that come out of a top buffer.
* `Flow.result_collect_sort`, `Flow.result_collect_top` — what the two collectors make of a flow.
-/

namespace RowStream

namespace RowOrder

variable {order : RowOrder}

theorem order_eq_gt_iff {a b : Row} : order.order a b = .gt ↔ order.le a b = false := by
  unfold le
  cases order.order a b <;> simp

/-! ## Putting rows in place

Lists have their last row in front here, as the buffer has them. -/

/-- Puts a row behind those it does not stand before. -/
def insertRow (order : RowOrder) (row : Row) : List Row → List Row
  | [] => [row]
  | worst :: rest =>
    if order.order worst row = .gt then worst :: insertRow order row rest else row :: worst :: rest

theorem insertRow_of_gt {row worst : Row} (h : order.order worst row = .gt) (rest : List Row) :
    insertRow order row (worst :: rest) = worst :: insertRow order row rest := if_pos h

theorem insertRow_of_le {row worst : Row} (h : order.order worst row ≠ .gt) (rest : List Row) :
    insertRow order row (worst :: rest) = row :: worst :: rest := if_neg h

theorem length_insertRow (row : Row) (rows : List Row) :
    (insertRow order row rows).length = rows.length + 1 := by
  induction rows with
  | nil => rfl
  | cons worst rest ih =>
    unfold insertRow
    split <;> simp [ih]

theorem insertRow_perm (row : Row) (rows : List Row) :
    (insertRow order row rows).Perm (row :: rows) := by
  induction rows with
  | nil => exact .refl _
  | cons worst rest ih =>
    unfold insertRow
    split
    · exact (ih.cons worst).trans (.swap row worst rest)
    · exact .refl _

section InPlace

variable {all : List Row} (h : order.TotalOn all)

include h

/-- A row that is put in place stands behind those it does not have to stand before. -/
theorem pairwise_insertRow {row : Row} (hrow : row ∈ all) {rows : List Row}
    (hrows : ∀ a ∈ rows, a ∈ all) (hsorted : rows.Pairwise fun a b => order.le b a = true) :
    (insertRow order row rows).Pairwise fun a b => order.le b a = true := by
  induction rows with
  | nil => exact List.pairwise_singleton _ row
  | cons worst rest ih =>
    have hworst : worst ∈ all := hrows worst List.mem_cons_self
    have hrest : ∀ a ∈ rest, a ∈ all := fun a ha => hrows a (List.mem_cons_of_mem _ ha)
    unfold insertRow
    -- the row goes on past every row that it does not stand behind
    split
    · next hgt =>
      refine List.pairwise_cons.2 ⟨fun a ha => ?_, ih hrest hsorted.of_cons⟩
      obtain rfl | ha := List.mem_cons.1 ((insertRow_perm row rest).mem_iff.1 ha)
      · have hnot := RowOrder.order_eq_gt_iff.1 hgt
        obtain hle | hle := h.total a hrow worst hworst
        · exact hle
        · rw [hnot] at hle
          cases hle
      · exact List.rel_of_pairwise_cons hsorted ha
    · next hgt =>
      have hle : order.le worst row = true := by
        rw [RowOrder.order_eq_gt_iff] at hgt
        simpa using hgt
      refine List.pairwise_cons.2 ⟨fun a ha => ?_, hsorted⟩
      obtain rfl | ha := List.mem_cons.1 ha
      · exact hle
      · have hbefore := List.rel_of_pairwise_cons hsorted ha
        exact h.trans a (hrest a ha) worst hworst row hrow hbefore hle

/-- Among the rows of a tie, the row that is put in place is the last. -/
theorem filter_insertRow {a row : Row} (ha : a ∈ all) (hrow : row ∈ all) {rows : List Row}
    (hrows : ∀ a ∈ rows, a ∈ all) :
    (insertRow order row rows).filter (order.ties a) = (row :: rows).filter (order.ties a) := by
  induction rows with
  | nil => rfl
  | cons worst rest ih =>
    have hworst : worst ∈ all := hrows worst List.mem_cons_self
    have hrest : ∀ a ∈ rest, a ∈ all := fun a ha => hrows a (List.mem_cons_of_mem _ ha)
    unfold insertRow
    split
    · next hgt =>
      rw [List.filter_cons, ih hrest]
      cases htie : order.ties a row with
      | false => simp [List.filter_cons, htie]
      | true =>
        -- a row that has to stand before another is not in one tie with it
        have hapart : order.ties a worst = false := by
          rw [Bool.eq_false_iff]
          intro htie'
          simp only [RowOrder.ties, Bool.and_eq_true] at htie htie'
          have hle := h.trans worst hworst a ha row hrow htie'.2 htie.1
          rw [RowOrder.order_eq_gt_iff.1 hgt] at hle
          cases hle
        simp [htie, hapart]
    · rfl

end InPlace

/-- Rows in place, as a buffer without a capacity would have them. -/
def arrange (order : RowOrder) (rows : List Row) : List Row :=
  rows.foldl (fun arranged row => insertRow order row arranged) []

theorem arrange_concat (rows : List Row) (row : Row) :
    arrange order (rows ++ [row]) = insertRow order row (arrange order rows) := by
  simp [arrange]

theorem arrange_perm (rows : List Row) : (arrange order rows).Perm rows := by
  induction rows using List.reverseRecOn with
  | nil => exact .refl _
  | append_singleton rows row ih =>
    rw [arrange_concat]
    exact ((insertRow_perm row _).trans (ih.cons row)).trans (List.perm_append_singleton row rows).symm

/-- **Putting each row in its place is a stable sort.** -/
theorem sortsStably_arrange {rows : List Row} (h : order.TotalOn rows) :
    order.SortsStably rows (arrange order rows).reverse := by
  have hall : ∀ seen : List Row, (∀ a ∈ seen, a ∈ rows) →
      ((arrange order seen).Pairwise fun a b => order.le b a = true) ∧
      ∀ a ∈ rows, (arrange order seen).filter (order.ties a) =
        (seen.filter (order.ties a)).reverse := by
    intro seen hseen
    -- the last row is put in place last, so rows are taken off at the end
    induction seen using List.reverseRecOn with
    | nil => exact ⟨List.Pairwise.nil, fun a _ => rfl⟩
    | append_singleton seen row ih =>
      have hrow : row ∈ rows := hseen row (by simp)
      have hbefore : ∀ a ∈ seen, a ∈ rows := fun a ha => hseen a (List.mem_append_left _ ha)
      obtain ⟨hsorted, hties⟩ := ih hbefore
      have harranged : ∀ a ∈ arrange order seen, a ∈ rows := fun a ha =>
        hbefore a ((arrange_perm seen).mem_iff.1 ha)
      rw [arrange_concat]
      refine ⟨pairwise_insertRow h hrow harranged hsorted, fun a ha => ?_⟩
      rw [filter_insertRow h ha hrow harranged, List.filter_cons, hties a ha, List.filter_append,
        List.reverse_append]
      cases htie : order.ties a row <;> simp [htie]
  obtain ⟨hsorted, hties⟩ := hall rows fun a ha => ha
  refine ⟨(List.reverse_perm _).trans (arrange_perm rows), List.pairwise_reverse.2 hsorted, ?_⟩
  intro a ha
  rw [List.filter_reverse, hties a ha, List.reverse_reverse]

/-! ## What is kept

The capacity cuts off what stands behind the kept rows. What was cut off once can be left out of all
that follows, as everything that is kept stands before it. -/

/-- What is kept of rows in place: all of them, or as many of the first as there may be. -/
def IsLeading (capacity : Nat) (arranged kept : List Row) : Prop :=
  ∃ beyond, arranged = beyond ++ kept ∧ kept.length ≤ capacity ∧
    (beyond ≠ [] → kept.length = capacity)

/-- A row that does not come before the worst row that is kept goes behind all of them. -/
theorem insertRow_append_of_le {row worst : Row} {rest : List Row}
    (hworst : order.order worst row ≠ .gt) (beyond : List Row) :
    insertRow order row (beyond ++ worst :: rest) = insertRow order row beyond ++ worst :: rest := by
  induction beyond with
  | nil => exact insertRow_of_le hworst rest
  | cons a beyond ih =>
    rw [List.cons_append]
    by_cases hgt : order.order a row = .gt
    · rw [insertRow_of_gt hgt, insertRow_of_gt hgt, ih, List.cons_append]
    · rw [insertRow_of_le hgt, insertRow_of_le hgt]
      rfl

/-- A row goes past all that it has to stand before. -/
theorem insertRow_append_of_gt {row : Row} {beyond : List Row}
    (hbeyond : ∀ a ∈ beyond, order.order a row = .gt) (kept : List Row) :
    insertRow order row (beyond ++ kept) = beyond ++ insertRow order row kept := by
  induction beyond with
  | nil => rfl
  | cons a beyond ih =>
    rw [List.cons_append, insertRow_of_gt (hbeyond a List.mem_cons_self),
      ih fun b hb => hbeyond b (List.mem_cons_of_mem _ hb), List.cons_append]

/-- What is kept once a row has come: the worst row goes if there is no room, and the row that has come
does if it has to stand behind it. -/
def keep (order : RowOrder) (capacity : Nat) (kept : List Row) (row : Row) : List Row :=
  if kept.length < capacity then insertRow order row kept
  else
    match kept with
    | [] => []
    | worst :: rest =>
      if order.order worst row = .gt then insertRow order row rest else worst :: rest

/-- **Taking a row keeps the first rows.** The worst kept row decides: what stands behind it stands
behind whatever comes before it. -/
theorem isLeading_keep {capacity : Nat} {all seen kept : List Row} {row : Row} (h : order.TotalOn all)
    (hrow : row ∈ all) (hseen : ∀ a ∈ seen, a ∈ all)
    (hkept : IsLeading capacity (arrange order seen) kept) :
    IsLeading capacity (arrange order (seen ++ [row])) (keep order capacity kept row) := by
  obtain ⟨beyond, harranged, hle, hfull⟩ := hkept
  have hall : ∀ a ∈ beyond ++ kept, a ∈ all := fun a ha =>
    hseen a ((arrange_perm seen).mem_iff.1 (harranged ▸ ha))
  have hsorted := (sortsStably_arrange (h.mono hseen)).inOrder
  rw [List.pairwise_reverse, harranged] at hsorted
  rw [arrange_concat, harranged]
  unfold keep
  by_cases hroom : kept.length < capacity
  · -- as long as there is room, nothing was cut off
    have hnothing : beyond = [] := by
      by_contra hbeyond
      have hlength := hfull hbeyond
      omega
    rw [if_pos hroom, hnothing]
    refine ⟨[], rfl, ?_, fun hne => absurd rfl hne⟩
    rw [length_insertRow]
    omega
  · have hlength : kept.length = capacity := by omega
    rw [if_neg hroom]
    cases kept with
    | nil => exact ⟨insertRow order row beyond, by simp, hle, fun _ => hlength⟩
    | cons worst rest =>
      have hworst : worst ∈ all := hall worst (by simp)
      by_cases hgt : order.order worst row = .gt
      · -- the worst row is cut off, and all that was cut off before stands behind it
        have hpast : ∀ a ∈ beyond ++ [worst], order.order a row = .gt := by
          intro a ha
          obtain ha | ha := List.mem_append.1 ha
          · -- otherwise the row would also stand behind the worst one
            rw [order_eq_gt_iff, ← Bool.not_eq_true]
            intro hbefore
            have hle := (List.pairwise_append.1 hsorted).2.2 a ha worst List.mem_cons_self
            have hnot := h.trans worst hworst a (hall a (List.mem_append_left _ ha)) row hrow hle
              hbefore
            rw [order_eq_gt_iff.1 hgt] at hnot
            cases hnot
          · rw [List.mem_singleton.1 ha]
            exact hgt
        have hsplit : beyond ++ worst :: rest = (beyond ++ [worst]) ++ rest := by simp
        rw [hsplit, insertRow_append_of_gt hpast]
        simp only [if_pos hgt]
        refine ⟨beyond ++ [worst], rfl, ?_, fun _ => ?_⟩
        · rw [length_insertRow]
          exact Nat.le_of_eq hlength
        · rw [length_insertRow]
          exact hlength
      · -- the row itself is cut off
        rw [insertRow_append_of_le hgt]
        simp only [if_neg hgt]
        exact ⟨insertRow order row beyond, rfl, hle, fun _ => hlength⟩

/-- What is kept once some rows have come. -/
def keepAll (order : RowOrder) (capacity : Nat) (kept rows : List Row) : List Row :=
  rows.foldl (keep order capacity) kept

theorem keepAll_cons (capacity : Nat) (kept : List Row) (row : Row) (rows : List Row) :
    keepAll order capacity kept (row :: rows) =
      keepAll order capacity (keep order capacity kept row) rows := rfl

theorem keepAll_concat (capacity : Nat) (kept rows : List Row) (row : Row) :
    keepAll order capacity kept (rows ++ [row]) =
      keep order capacity (keepAll order capacity kept rows) row :=
  List.foldl_append

/-- **Taking rows keeps the first of all**, row by row. -/
theorem isLeading_keepAll {capacity : Nat} {all rows : List Row} (h : order.TotalOn all)
    (hrows : ∀ a ∈ rows, a ∈ all) :
    IsLeading capacity (arrange order rows) (keepAll order capacity [] rows) := by
  induction rows using List.reverseRecOn with
  | nil => exact ⟨[], rfl, Nat.zero_le _, fun hne => absurd rfl hne⟩
  | append_singleton rows row ih =>
    obtain ⟨hbefore, hrow⟩ := List.forall_mem_append.1 hrows
    rw [keepAll_concat]
    exact isLeading_keep h (hrow row (by simp)) hbefore (ih hbefore)

theorem IsLeading.reverse_eq {capacity : Nat} {arranged kept : List Row}
    (h : IsLeading capacity arranged kept) : kept.reverse = arranged.reverse.take capacity := by
  obtain ⟨beyond, rfl, hle, hfull⟩ := h
  rw [List.reverse_append]
  cases beyond with
  | nil => simpa using (List.take_of_length_le (by simpa using hle)).symm
  | cons a beyond =>
    rw [← hfull (List.cons_ne_nil _ _), ← List.length_reverse, List.take_left]

/-- **The first rows** that are kept are those that come out of the sort. A capacity that is cut off at
the greatest size still has room for all rows. -/
theorem take_reverse_eq {limit offset : Nat} {kept rows : List Row} (h : order.TotalOn rows)
    (hkept : IsLeading (addSizes limit offset) (arrange order rows) kept)
    (hsize : limit + offset ≤ maxSize ∨ rows.length ≤ maxSize) {sorted : List Row}
    (hsorted : order.SortsStably rows sorted) :
    (kept.reverse.drop offset).take limit = (sorted.drop offset).take limit := by
  rw [hkept.reverse_eq, (sortsStably_arrange h).unique h hsorted]
  -- the capacity is the sum, or the sum was cut off and there are no more rows than sizes
  by_cases hsum : limit + offset ≤ maxSize
  · have hcapacity : addSizes limit offset = limit + offset := Nat.min_eq_left hsum
    rw [hcapacity, List.drop_take, Nat.add_sub_cancel, List.take_take, Nat.min_self]
  · have hcapacity : addSizes limit offset = maxSize := Nat.min_eq_right (by omega)
    have hlength : sorted.length ≤ maxSize := by
      rw [hsorted.perm.length_eq]
      omega
    rw [hcapacity, List.take_of_length_le hlength]

end RowOrder

/-! ## What a buffer keeps

Among entries, rows that compare equal are told apart by their numbers. The row that comes has the
greatest, so that it stands behind all that it ties with, as among rows alone. -/

namespace TopBuffer

/-- The kept rows have the numbers of rows that have come. -/
def Fresh (t : TopBuffer) : Prop := ∀ e ∈ t.worstFirst, e.seq < t.seq

theorem insert_perm (order : RowOrder) (entry : HeapEntry) (entries : List HeapEntry) :
    (insert order entry entries).Perm (entry :: entries) := by
  induction entries with
  | nil => exact .refl _
  | cons worst rest ih =>
    unfold insert
    split
    · exact (ih.cons worst).trans (.swap entry worst rest)
    · exact .refl _

theorem compare_eq_gt_iff {order : RowOrder} {worst entry : HeapEntry}
    (h : worst.seq < entry.seq) :
    worst.compare order entry = .gt ↔ order.order worst.row entry.row = .gt := by
  have hseq : compare worst.seq entry.seq = .lt := Nat.compare_eq_lt.2 h
  unfold HeapEntry.compare
  rw [hseq]
  cases order.order worst.row entry.row <;> simp

/-- The latest entry stands where its row does. -/
theorem map_row_insert (order : RowOrder) {entry : HeapEntry} {entries : List HeapEntry}
    (h : ∀ e ∈ entries, e.seq < entry.seq) :
    (insert order entry entries).map (·.row) =
      RowOrder.insertRow order entry.row (entries.map (·.row)) := by
  induction entries with
  | nil => rfl
  | cons worst rest ih =>
    obtain ⟨hworst, hrest⟩ := List.forall_mem_cons.1 h
    rw [insert, List.map_cons, RowOrder.insertRow]
    simp only [compare_eq_gt_iff hworst]
    split
    · rw [List.map_cons, ih hrest]
    · rfl

theorem keep_of_room {t : TopBuffer} (h : t.worstFirst.length < t.capacity) (row : Row) :
    t.keep row = insert t.order ⟨row, t.seq, t.footprint.row row⟩ t.worstFirst := by
  have hroom : t.isFull = false := by simpa [isFull] using h
  simp [keep, admits, hroom]

/-- Without room, a row is kept in place of the worst one, if it has to stand before it. -/
theorem keep_of_full {t : TopBuffer} (h : t.capacity ≤ t.worstFirst.length) (row : Row) :
    t.keep row =
      match t.worstFirst with
      | [] => []
      | worst :: rest =>
        if t.order.order worst.row row = .gt then
          insert t.order ⟨row, t.seq, t.footprint.row row⟩ rest
        else worst :: rest := by
  have hfull : t.isFull = true := by simpa [isFull] using h
  cases hkept : t.worstFirst with
  | nil => simp [keep, admits, hfull, hkept]
  | cons worst rest => simp [keep, admits, hfull, hkept]

theorem mem_of_mem_keep {t : TopBuffer} {row : Row} {e : HeapEntry} (he : e ∈ t.keep row) :
    e = ⟨row, t.seq, t.footprint.row row⟩ ∨ e ∈ t.worstFirst := by
  unfold keep at he
  split at he
  · obtain rfl | he := List.mem_cons.1 ((insert_perm _ _ _).mem_iff.1 he)
    · exact .inl rfl
    · split at he
      · exact .inr (List.mem_of_mem_tail he)
      · exact .inr he
  · exact .inr he

/-- **A row is kept as among rows alone.** -/
theorem rows_keep {t : TopBuffer} (h : t.Fresh) (row : Row) :
    (t.keep row).map (·.row) = RowOrder.keep t.order t.capacity t.rows row := by
  have hlength : t.rows.length = t.worstFirst.length := List.length_map _
  unfold RowOrder.keep
  rw [hlength]
  by_cases hroom : t.worstFirst.length < t.capacity
  · have hentry : ∀ e ∈ t.worstFirst, e.seq < (HeapEntry.mk row t.seq (t.footprint.row row)).seq := h
    rw [if_pos hroom, keep_of_room hroom, map_row_insert _ hentry]
    rfl
  · rw [if_neg hroom, keep_of_full (Nat.not_lt.1 hroom), rows]
    cases hkept : t.worstFirst with
    | nil => rfl
    | cons worst rest =>
      have hrest : ∀ e ∈ rest, e.seq < t.seq := fun e he => h e (hkept ▸ List.mem_cons_of_mem _ he)
      simp only [List.map_cons]
      split
      · exact map_row_insert _ hrest
      · rfl

/-- The row that comes next has a number of its own. -/
theorem Fresh.keep {t : TopBuffer} (h : t.Fresh) (row : Row) (scope : Scope) :
    Fresh { t with scope, worstFirst := t.keep row, seq := t.seq + 1 } := by
  intro e he
  obtain rfl | he := mem_of_mem_keep he
  · exact Nat.lt_succ_self t.seq
  · exact Nat.lt_succ_of_lt (h e he)

end TopBuffer

/-! ## All rows of a flow

A flow is taken row by row. Where the order is a preorder on its rows, what a buffer keeps are the
first rows of the one stable sort, and both kinds of buffers hand out the same. -/

namespace Collector

theorem free_accumulate_top (row : Row) (t : TopBuffer) : ∃ scope, (accumulate row).free (top t) =
    (.ok (), top { t with scope, worstFirst := t.keep row, seq := t.seq + 1 }) := by
  obtain ⟨ms, u, ⟨scope, rfl⟩, hfollows⟩ := t.yields_accumulate row
  have htop : (accumulate row).Follows (top t) ms (.ok ()) _ := hfollows.within fun b => rfl
  exact ⟨scope, htop.free_eq⟩

/-- **A top buffer takes all rows**, in whatever order it compares them. -/
theorem exists_takeAll_top {t : TopBuffer} (h : t.Fresh) (rows : List Row) : ∃ u,
    (top t).takeAll rows = .ok (top u) ∧ u.outputs.exprs = t.outputs.exprs ∧
      u.leading = ((RowOrder.keepAll t.order t.capacity t.rows rows).reverse.drop t.offset).take
        t.limit := by
  induction rows generalizing t with
  | nil => exact ⟨t, rfl, rfl, rfl⟩
  | cons row rows ih =>
    obtain ⟨scope, htake⟩ := free_accumulate_top row t
    obtain ⟨u, hrest, hexprs, hleading⟩ := ih (h.keep row scope)
    refine ⟨u, ?_, hexprs, ?_⟩
    · rw [takeAll, htake]
      exact hrest
    · rw [hleading, RowOrder.keepAll_cons, ← TopBuffer.rows_keep h row]
      rfl

/-- A sort buffer takes all rows and keeps them all. -/
theorem takeAll_sort (s : SortBuffer) (rows : List Row) :
    ∃ scope bucket, (sort s).takeAll rows = .ok (sort { s with scope, rows := bucket }) ∧
      bucket.toList = s.rows.toList ++ rows := by
  induction rows generalizing s with
  | nil => exact ⟨s.scope, s.rows, rfl, (List.append_nil _).symm⟩
  | cons row rows ih =>
    have hsort : (accumulate row).Follows (sort s) _ (.ok ()) (sort (s.withRow row)) :=
      (s.follows_accumulate row).within fun b => rfl
    obtain ⟨scope, bucket, hrest, hbucket⟩ := ih (s.withRow row)
    refine ⟨scope, bucket, ?_, ?_⟩
    · rw [takeAll, hsort.free_eq]
      exact hrest
    · rw [hbucket, SortBuffer.withRow, Bucket.toList_push, List.append_assoc]
      rfl

theorem free_finish_top (t : TopBuffer) :
    (finish.free (top t)).1 = OpError.ofEval (Expr.valuesAll t.outputs.exprs t.leading) := by
  obtain ⟨ms, u, -, hfollows⟩ := t.yields_finish
  have htop : finish.Follows (top t) ms _ (top u) := hfollows.within fun b => rfl
  rw [htop.free_eq]

theorem free_finish_sort (s : SortBuffer) :
    (finish.free (sort s)).1 = OpError.ofEval (Expr.valuesAll s.outputs.exprs s.sorted) := by
  obtain ⟨ms, u, -, hfollows⟩ := s.yields_finish
  have hsort : finish.Follows (sort s) ms _ (sort u) := hfollows.within fun b => rfl
  rw [hsort.free_eq]

end Collector

namespace Flow

theorem result_collect {c d : Collector} {rows : List Row} (h : c.takeAll rows = .ok d) :
    (collect c ⟨rows, none⟩).result = (Collector.finish.free d).1.map .ofList := by
  unfold collect
  simp only [h]
  cases (Collector.finish.free d).1 <;> rfl

/-- **With a limit**, in so far as rows can be counted. -/
theorem result_collect_top {order : RowOrder} {limit offset : Nat} {outputs : List Expr}
    {footprint : Footprint} {rows sorted : List Row} (h : order.TotalOn rows)
    (hsize : limit + offset ≤ maxSize ∨ rows.length ≤ maxSize)
    (hsorted : order.SortsStably rows sorted) :
    (collect (.top (.new order limit offset outputs footprint)) ⟨rows, none⟩).result =
      (OpError.ofEval (Expr.valuesAll outputs ((sorted.drop offset).take limit))).map .ofList := by
  have hfresh : (TopBuffer.new order limit offset outputs footprint).Fresh := fun _ he => nomatch he
  obtain ⟨u, htake, hexprs, hleading⟩ := Collector.exists_takeAll_top hfresh rows
  have hkept : RowOrder.IsLeading (addSizes limit offset) _ _ :=
    RowOrder.isLeading_keepAll h fun _ ha => ha
  have hrows : u.leading = (sorted.drop offset).take limit :=
    hleading.trans (RowOrder.take_reverse_eq h hkept hsize hsorted)
  rw [result_collect htake, Collector.free_finish_top, hrows, hexprs]
  rfl

/-- **Without a limit.** -/
theorem result_collect_sort {order : RowOrder} {offset : Nat} {outputs : List Expr}
    {footprint : Footprint} {rows sorted : List Row} (h : order.TotalOn rows)
    (hsorted : order.SortsStably rows sorted) :
    (collect (.sort (.new order offset outputs footprint)) ⟨rows, none⟩).result =
      (OpError.ofEval (Expr.valuesAll outputs (sorted.drop offset))).map .ofList := by
  obtain ⟨scope, bucket, htake, hbucket⟩ :=
    Collector.takeAll_sort (.new order offset outputs footprint) rows
  have hrows : bucket.toList = rows := hbucket
  have hdrop : (rows.mergeSort order.le).drop offset = sorted.drop offset := by
    rw [(RowOrder.sortsStably_mergeSort h).unique h hsorted]
  rw [result_collect htake, Collector.free_finish_sort, ← hdrop, ← hrows]
  rfl

end Flow

end RowStream
