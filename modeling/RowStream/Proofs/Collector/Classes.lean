import Mathlib.Data.List.Induction
import Mathlib.Data.List.Perm.Basic
import RowStream.Collector.GroupTable
import RowStream.Scalar.Key

/-!
# Classes of rows

Rows belong to one class if their keys belong together. Of each class one key comes first, and the
keys that do divide the rows among them.

* `GroupTable.part`, `GroupTable.firstKeys` — the rows of a class, and one key for each class.
* `GroupTable.Apart` — keys of different classes.
* `GroupTable.IsPartition` — what keys and classes have to do with the rows; `isPartition_firstKeys`.
-/

namespace RowStream

namespace GroupTable

open Scalar

/-! ## Classes of rows

A class is given by a key, and its rows are filtered from all rows. So pieces of the rows have
pieces of the class, and it does not matter which of several keys that belong together gives it. -/

/-- Whether the key of a row belongs to the given one. -/
def inClass (keys : List Nat) (key row : Row) : Bool :=
  match keyOf row keys with
  | .ok k => sameKeys key k
  | .error _ => false

/-- The rows of a class, in order. -/
def part (keys : List Nat) (key : Row) (rows : List Row) : List Row :=
  rows.filter (inClass keys key)

/-- A key that belongs to none of the others is the next one. -/
def addKey (firsts : List Row) (key : Row) : List Row :=
  if firsts.any (sameKeys · key) then firsts else firsts ++ [key]

/-- The keys that rows have. -/
def keysOf (keys : List Nat) (rows : List Row) : List Row :=
  rows.filterMap fun row => (keyOf row keys).toOption

/-- The keys that come first in their class, in order. -/
def firstKeys (keys : List Nat) (rows : List Row) : List Row := (keysOf keys rows).foldl addKey []

theorem inClass_of_keyOf {keys : List Nat} {row key : Row} (h : keyOf row keys = .ok key)
    (other : Row) : inClass keys other row = sameKeys other key := by
  rw [inClass, h]

theorem inClass_congr {keys : List Nat} {key other : Row} (h : sameKeys key other = true) :
    inClass keys key = inClass keys other := by
  funext row
  unfold inClass
  split
  · exact sameKeys_congr h _
  · rfl

theorem part_congr {keys : List Nat} {key other : Row} (h : sameKeys key other = true)
    (rows : List Row) : part keys key rows = part keys other rows := by
  rw [part, part, inClass_congr h]

theorem part_append (keys : List Nat) (key : Row) (xs ys : List Row) :
    part keys key (xs ++ ys) = part keys key xs ++ part keys key ys :=
  List.filter_append xs ys

theorem part_singleton {keys : List Nat} {row key : Row} (h : keyOf row keys = .ok key)
    (other : Row) : part keys other [row] = if sameKeys other key then [row] else [] := by
  rw [part, List.filter_cons, inClass_of_keyOf h]
  rfl

/-! ## Keys that come first

Keys are gathered from the first row on, and one that belongs to an earlier one is passed over. By
induction on the keys no two that were gathered belong together, and each key that came belongs to
one of them. -/

theorem keysOf_append (keys : List Nat) (xs ys : List Row) :
    keysOf keys (xs ++ ys) = keysOf keys xs ++ keysOf keys ys :=
  List.filterMap_append

theorem keysOf_singleton {keys : List Nat} {row key : Row} (h : keyOf row keys = .ok key) :
    keysOf keys [row] = [key] := by
  simp [keysOf, h, Except.toOption]

/-- One more row has the next key, if its key is a new one. -/
theorem firstKeys_concat {keys : List Nat} {row key : Row} (h : keyOf row keys = .ok key)
    (rows : List Row) : firstKeys keys (rows ++ [row]) = addKey (firstKeys keys rows) key := by
  rw [firstKeys, keysOf_append, keysOf_singleton h, List.foldl_append]
  rfl

/-- A key belongs to one of those that came first if it belongs to any that came. -/
theorem any_foldl_addKey (firsts ks : List Row) (key : Row) :
    (ks.foldl addKey firsts).any (sameKeys · key) =
      (firsts.any (sameKeys · key) || ks.any (sameKeys · key)) := by
  induction ks generalizing firsts with
  | nil => simp
  | cons k ks ih =>
    rw [List.foldl_cons, ih, List.any_cons, ← Bool.or_assoc]
    congr 1
    unfold addKey
    split
    · rename_i hany
      obtain ⟨first, hmem, hsame⟩ := List.any_eq_true.1 hany
      -- the key that is left out belongs to one that is there
      cases hk : sameKeys k key with
      | false => rw [Bool.or_false]
      | true =>
        rw [Bool.or_true, List.any_eq_true]
        exact ⟨first, hmem, by rw [sameKeys_congr hsame, hk]⟩
    · simp

theorem any_keysOf (keys : List Nat) (rows : List Row) (key : Row) :
    (keysOf keys rows).any (sameKeys · key) = rows.any (inClass keys key) := by
  induction rows with
  | nil => rfl
  | cons row rows ih =>
    rw [show row :: rows = [row] ++ rows from rfl, keysOf_append, List.any_append, List.any_append, ih]
    congr 1
    cases hkey : keyOf row keys with
    | error e => simp [keysOf, inClass, hkey, Except.toOption]
    | ok k =>
      rw [keysOf_singleton hkey]
      simp [inClass_of_keyOf hkey, sameKeys_comm k key]

theorem any_firstKeys (keys : List Nat) (rows : List Row) (key : Row) :
    (firstKeys keys rows).any (sameKeys · key) = rows.any (inClass keys key) := by
  rw [firstKeys, any_foldl_addKey, any_keysOf]
  rfl

/-- A class that none of the keys stands for has no rows. -/
theorem part_eq_nil {keys : List Nat} {rows : List Row} {key : Row}
    (h : (firstKeys keys rows).any (sameKeys · key) = false) : part keys key rows = [] := by
  rw [any_firstKeys, List.any_eq_false] at h
  exact List.filter_eq_nil_iff.2 h

theorem exists_inClass_firstKeys {keys : List Nat} {rows : List Row} {row key : Row}
    (hrow : row ∈ rows) (h : keyOf row keys = .ok key) :
    ∃ first ∈ firstKeys keys rows, inClass keys first row = true := by
  simp only [inClass_of_keyOf h]
  rw [← List.any_eq_true, any_firstKeys, List.any_eq_true]
  exact ⟨row, hrow, by rw [inClass_of_keyOf h, sameKeys_refl]⟩

/-- A key that comes first in some rows belongs to one that comes first in more rows. -/
theorem exists_firstKeys {keys : List Nat} {rows more : List Row} (hsub : rows ⊆ more) {key : Row}
    (h : key ∈ firstKeys keys rows) : ∃ k ∈ firstKeys keys more, sameKeys k key = true := by
  have hany : (firstKeys keys rows).any (sameKeys · key) = true :=
    List.any_eq_true.2 ⟨key, h, sameKeys_refl key⟩
  rw [any_firstKeys] at hany
  obtain ⟨row, hrow, hin⟩ := List.any_eq_true.1 hany
  rw [← List.any_eq_true, any_firstKeys, List.any_eq_true]
  exact ⟨row, hsub hrow, hin⟩

/-- No two of the keys belong together. -/
abbrev Apart (firsts : List Row) : Prop := firsts.Pairwise fun k l => sameKeys k l = false

theorem apart_addKey {firsts : List Row} (key : Row) (h : Apart firsts) :
    Apart (addKey firsts key) := by
  unfold addKey
  split
  · exact h
  · rename_i hnew
    refine List.pairwise_append.2 ⟨h, List.pairwise_singleton _ _, fun k hk l hl => ?_⟩
    rw [List.mem_singleton.1 hl]
    exact Bool.eq_false_iff.2 fun hsame => hnew (List.any_eq_true.2 ⟨k, hk, hsame⟩)

theorem apart_foldl_addKey {firsts : List Row} (ks : List Row) (h : Apart firsts) :
    Apart (ks.foldl addKey firsts) := by
  induction ks generalizing firsts with
  | nil => exact h
  | cons k ks ih => exact ih (apart_addKey k h)

theorem apart_firstKeys (keys : List Nat) (rows : List Row) : Apart (firstKeys keys rows) :=
  apart_foldl_addKey _ .nil

/-- Among keys that do not belong together there is one of a class. -/
theorem filter_sameKeys {firsts : List Row} (h : Apart firsts) {k key : Row} (hk : k ∈ firsts)
    (hsame : sameKeys k key = true) : firsts.filter (sameKeys key) = [k] := by
  have hcongr : ∀ l, sameKeys key l = sameKeys k l := fun l => (sameKeys_congr hsame l).symm
  induction h with
  | nil => cases hk
  | @cons first rest hfirst _ ih =>
    rw [List.filter_cons, hcongr]
    obtain rfl | hk := List.mem_cons.1 hk
    · have hrest : rest.filter (sameKeys key) = [] := by
        rw [List.filter_eq_nil_iff]
        intro l hl
        rw [hcongr, hfirst l hl]
        exact Bool.false_ne_true
      rw [sameKeys_refl, if_pos rfl, hrest]
    · rw [sameKeys_comm, hfirst k hk, if_neg Bool.false_ne_true, ih hk]

theorem eq_of_sameKeys {firsts : List Row} (h : Apart firsts) {k l key : Row} (hk : k ∈ firsts)
    (hl : l ∈ firsts) (hkey : sameKeys k key = true) (hlkey : sameKeys l key = true) : k = l := by
  have hmem : l ∈ firsts.filter (sameKeys key) :=
    List.mem_filter.2 ⟨hl, by rw [sameKeys_comm, hlkey]⟩
  rw [filter_sameKeys h hk hkey] at hmem
  exact (List.mem_singleton.1 hmem).symm

/-! ## Partitions

What the gathered keys mean: each row is in the class of exactly one of them, and they stand in the
order of the first rows of their classes. This is how a statement about groups says what a group is
without a table. -/

/-- The rows are divided into the classes of some keys. No two of these belong together; each of them
is that of the first row of its class, and they stand in the order of these rows; every row is in the
class of exactly one, and the classes have each row as often as it is there. -/
structure IsPartition (keys : List Nat) (rows firsts : List Row) : Prop where
  distinct : Apart firsts
  first : ∀ key ∈ firsts, ∃ row, rows.find? (inClass keys key) = some row ∧
    keyOf row keys = .ok key
  inOrder : firsts.Pairwise fun k l =>
    rows.findIdx (inClass keys k) < rows.findIdx (inClass keys l)
  covered : ∀ row ∈ rows, ∃ key ∈ firsts, row ∈ part keys key rows ∧
    ∀ other ∈ firsts, row ∈ part keys other rows → other = key
  counted : (firsts.flatMap fun key => part keys key rows).Perm rows

/-- Each key is that of the first row of its class, and they stand in the order of these rows. -/
def InOrder (keys : List Nat) (rows firsts : List Row) : Prop :=
  (∀ key ∈ firsts, ∃ row, rows.find? (inClass keys key) = some row ∧ keyOf row keys = .ok key) ∧
  firsts.Pairwise fun k l => rows.findIdx (inClass keys k) < rows.findIdx (inClass keys l)

/-- The place of a class that was met does not change. -/
theorem findIdx_append_of_find {keys : List Nat} {rows : List Row} {key row : Row}
    (h : rows.find? (inClass keys key) = some row) (more : List Row) :
    (rows ++ more).findIdx (inClass keys key) = rows.findIdx (inClass keys key) ∧
      rows.findIdx (inClass keys key) < rows.length := by
  have hlt : rows.findIdx (inClass keys key) < rows.length :=
    List.findIdx_lt_length.2 ⟨row, List.mem_of_find?_eq_some h, List.find?_some h⟩
  rw [List.findIdx_append, if_pos hlt]
  exact ⟨rfl, hlt⟩

/-- Rows that come later change nothing for the classes that were met. -/
theorem InOrder.append {keys : List Nat} {rows firsts : List Row} (h : InOrder keys rows firsts)
    (more : List Row) : InOrder keys (rows ++ more) firsts := by
  obtain ⟨hfirst, horder⟩ := h
  refine ⟨fun k hk => ?_, horder.imp_of_mem fun {k l} hk hl hkl => ?_⟩
  · obtain ⟨row, hfind, hrow⟩ := hfirst k hk
    exact ⟨row, by rw [List.find?_append, hfind]; rfl, hrow⟩
  · obtain ⟨_, hfind, -⟩ := hfirst k hk
    obtain ⟨_, hfind', -⟩ := hfirst l hl
    rw [(findIdx_append_of_find hfind more).1, (findIdx_append_of_find hfind' more).1]
    exact hkl

/-- The first row of a new class stands behind all others. -/
theorem InOrder.concat {keys : List Nat} {rows firsts : List Row} {row key : Row}
    (h : InOrder keys rows firsts) (hkey : keyOf row keys = .ok key)
    (hnew : rows.any (inClass keys key) = false) :
    InOrder keys (rows ++ [row]) (firsts ++ [key]) := by
  obtain ⟨hfirst, horder⟩ := h.append [row]
  have hnone : rows.find? (inClass keys key) = none :=
    List.find?_eq_none.2 (List.any_eq_false.1 hnew)
  -- so the new class is first met at the new row, behind all others
  have hlast : rows.length ≤ (rows ++ [row]).findIdx (inClass keys key) := by
    rw [List.findIdx_append, if_neg]
    · exact Nat.le_add_left _ _
    · intro hlt
      obtain ⟨r, hr, hin⟩ := List.findIdx_lt_length.1 hlt
      exact List.find?_eq_none.1 hnone r hr hin
  refine ⟨fun k hk => ?_, List.pairwise_append.2 ⟨horder, List.pairwise_singleton _ _, ?_⟩⟩
  · obtain hk | hk := List.mem_append.1 hk
    · exact hfirst k hk
    · rw [List.mem_singleton.1 hk]
      refine ⟨row, ?_, hkey⟩
      rw [List.find?_append, hnone]
      simp [inClass_of_keyOf hkey, sameKeys_refl]
  · intro k hk l hl
    rw [List.mem_singleton.1 hl]
    obtain ⟨_, hfind, -⟩ := h.1 k hk
    obtain ⟨hsame, hlt⟩ := findIdx_append_of_find hfind [row]
    exact Nat.lt_of_lt_of_le (hsame ▸ hlt) hlast

theorem inOrder_firstKeys {keys : List Nat} {rows : List Row}
    (h : ∀ row ∈ rows, ∃ key, keyOf row keys = .ok key) :
    InOrder keys rows (firstKeys keys rows) := by
  induction rows using List.reverseRecOn with
  | nil => exact ⟨nofun, List.Pairwise.nil⟩
  | append_singleton rows row ih =>
    have hrows := ih fun r hr => h r (List.mem_append_left _ hr)
    obtain ⟨key, hkey⟩ := h row (List.mem_append_right _ List.mem_cons_self)
    rw [firstKeys_concat hkey, addKey]
    split
    · exact hrows.append [row]
    · rename_i hnew
      rw [any_firstKeys] at hnew
      exact hrows.concat hkey (Bool.eq_false_iff.2 hnew)

/-- A row is in the class of one key, if these do not belong together. -/
theorem flatMap_part_singleton {keys : List Nat} {firsts : List Row} {row k : Row}
    (h : Apart firsts) (hk : k ∈ firsts) (hin : inClass keys k row = true) :
    (firsts.flatMap fun k => part keys k [row]) = [row] := by
  cases hkey : keyOf row keys with
  | error e => simp only [inClass, hkey, Bool.false_eq_true] at hin
  | ok key =>
    rw [inClass_of_keyOf hkey] at hin
    have hone : firsts.filter (sameKeys key) = [k] := filter_sameKeys h hk hin
    have hrows (ks : List Row) : (ks.flatMap fun k => part keys k [row]) =
        (ks.filter (sameKeys key)).map fun _ => row := by
      induction ks with
      | nil => rfl
      | cons k ks ih =>
        rw [List.flatMap_cons, ih, part_singleton hkey, List.filter_cons, sameKeys_comm]
        split <;> rfl
    rw [hrows, hone]
    rfl

/-- Classes that cover the rows have each as often as it is there. -/
theorem flatMap_part_perm {keys : List Nat} {firsts rows : List Row} (h : Apart firsts)
    (hcover : ∀ row ∈ rows, ∃ k ∈ firsts, inClass keys k row = true) :
    (firsts.flatMap fun k => part keys k rows).Perm rows := by
  induction rows with
  | nil => simp [part]
  | cons row rows ih =>
    obtain ⟨k, hk, hin⟩ := hcover row List.mem_cons_self
    have hsplit (k : Row) : part keys k (row :: rows) = part keys k [row] ++ part keys k rows :=
      part_append keys k [row] rows
    have hrest := ih fun r hr => hcover r (List.mem_cons_of_mem _ hr)
    simp only [hsplit]
    refine (List.flatMap_append_perm firsts _ _).symm.trans ?_
    rw [flatMap_part_singleton h hk hin]
    exact hrest.cons row

/-- **The keys that come first divide the rows into their classes.** -/
theorem isPartition_firstKeys {keys : List Nat} {rows : List Row}
    (h : ∀ row ∈ rows, ∃ key, keyOf row keys = .ok key) :
    IsPartition keys rows (firstKeys keys rows) where
  distinct := apart_firstKeys keys rows
  first := (inOrder_firstKeys h).1
  inOrder := (inOrder_firstKeys h).2
  covered row hrow := by
    obtain ⟨key, hkey⟩ := h row hrow
    obtain ⟨first, hfirst, hin⟩ := exists_inClass_firstKeys hrow hkey
    refine ⟨first, hfirst, List.mem_filter.2 ⟨hrow, hin⟩, fun other hother hpart => ?_⟩
    have hin' := (List.mem_filter.1 hpart).2
    rw [inClass_of_keyOf hkey] at hin hin'
    exact eq_of_sameKeys (apart_firstKeys keys rows) hother hfirst hin' hin
  counted := flatMap_part_perm (apart_firstKeys keys rows) fun row hrow => by
    obtain ⟨key, hkey⟩ := h row hrow
    exact exists_inClass_firstKeys hrow hkey

end GroupTable

end RowStream
