import Mathlib.Data.List.Basic
import RowStream.Proofs.Collector.Groups

/-!
# Groups of groups

The rows of groups have their keys in front, and can be grouped again by them. Groups of pieces of the
rows, put one behind the other and grouped again, are the groups of all rows: the same keys come
first, and each class is put together from its parts in the pieces.

* `GroupTable.foldl_addKey_firstKeys` — keys that come first in a piece stand for all of its keys.
* `GroupTable.grouped`, `GroupTable.firstKeys_grouped` — the rows of the groups of pieces.
* `GroupTable.shares`, `GroupTable.part_grouped` — the rows of one class among these.
-/

namespace RowStream

namespace GroupTable

open Scalar

/-! ## Keys in front

A row of a group has the scalars of its key in the first columns, so that the key of the row is the
key of the group. -/

theorem keyOf_of_lt {row : Row} {keys : List Nat} (h : ∀ i ∈ keys, i < row.length) :
    keyOf row keys = .ok (keys.map fun i => row[i]?.getD .null) := by
  induction keys with
  | nil => rfl
  | cons i is ih =>
    have hi := h i List.mem_cons_self
    rw [keyOf, ih fun j hj => h j (List.mem_cons_of_mem _ hj)]
    simp [List.getElem?_eq_getElem hi]

theorem length_of_keyOf {row key : Row} {keys : List Nat} (h : keyOf row keys = .ok key) :
    key.length = keys.length := by
  induction keys generalizing key with
  | nil =>
    cases h
    rfl
  | cons i is ih =>
    rw [keyOf] at h
    cases hi : row[i]? with
    | none => simp only [hi, reduceCtorEq] at h
    | some v =>
      cases hrest : keyOf row is with
      | error e => simp only [hi, hrest, reduceCtorEq] at h
      | ok vs =>
        simp only [hi, hrest, Except.ok.injEq] at h
        rw [← h, List.length_cons, List.length_cons, ih hrest]

/-- A key in front of other values is the key of the first columns. -/
theorem keyOf_range {k : Nat} {key : Row} (h : key.length = k) (values : Row) :
    keyOf (key ++ values) (List.range k) = .ok key := by
  subst h
  rw [keyOf_of_lt fun i hi => ?_]
  · refine congrArg Except.ok (List.ext_getElem (by simp) fun i hi hi' => ?_)
    simp [List.getElem?_append_left hi', List.getElem?_eq_getElem hi']
  · rw [List.length_append]
    exact Nat.lt_add_right _ (List.mem_range.1 hi)

theorem length_of_mem_firstKeys {keys : List Nat} {rows : List Row} {key : Row}
    (h : key ∈ firstKeys keys rows) : key.length = keys.length := by
  have hsub : ∀ (ks firsts : List Row), ks.foldl addKey firsts ⊆ firsts ++ ks := fun ks => by
    induction ks with
    | nil => simp
    | cons k ks ih =>
      intro firsts
      refine List.Subset.trans (ih _) ?_
      unfold addKey
      split <;> simp
  obtain ⟨row, -, hrow⟩ := List.mem_filterMap.1 (hsub _ [] h)
  cases hkey : keyOf row keys with
  | error e => simp [hkey, Except.toOption] at hrow
  | ok k =>
    rw [hkey] at hrow
    cases hrow
    exact length_of_keyOf hkey

/-! ## Keys that come first, piece by piece

Gathering the keys of the pieces and then those of all pieces is gathering the keys of all rows.
What was passed over in a piece belongs to a key that stands before it there. -/

/-- **Keys that come first in a piece stand for all of its keys.** -/
theorem foldl_addKey_firstKeys (firsts ks : List Row) :
    (ks.foldl addKey []).foldl addKey firsts = ks.foldl addKey firsts := by
  induction ks using List.reverseRecOn with
  | nil => rfl
  | append_singleton ks key ih =>
    rw [List.foldl_append, List.foldl_append, List.foldl_cons, List.foldl_nil, List.foldl_cons,
      List.foldl_nil, addKey]
    split
    · rename_i hany
      -- a key that is left out in the piece is left out behind the others
      rw [ih, addKey, any_foldl_addKey]
      rw [any_foldl_addKey, List.any_nil, Bool.false_or] at hany
      rw [hany, Bool.or_true, if_pos rfl]
    · rw [List.foldl_append, ih]
      rfl

theorem foldl_addKey_flatMap (keys : List Nat) (pieces : List (List Row)) (firsts : List Row) :
    (pieces.flatMap (firstKeys keys)).foldl addKey firsts =
      (keysOf keys pieces.flatten).foldl addKey firsts := by
  induction pieces generalizing firsts with
  | nil => rfl
  | cons piece pieces ih =>
    rw [List.flatMap_cons, List.flatten_cons, keysOf_append, List.foldl_append, List.foldl_append,
      ih, firstKeys, foldl_addKey_firstKeys]

variable {keys : List Nat} {values : List Row → Row → Row}

/-- The rows of the groups of a piece: each key and its values. -/
def groupRows (keys : List Nat) (values : List Row → Row → Row) (piece : List Row) : List Row :=
  (firstKeys keys piece).map fun key => key ++ values piece key

/-- The rows of the groups of pieces, piece by piece. -/
def grouped (keys : List Nat) (values : List Row → Row → Row) (pieces : List (List Row)) :
    List Row :=
  pieces.flatMap (groupRows keys values)

theorem keyOf_groupRows {piece : List Row} {key : Row} (h : key ∈ firstKeys keys piece)
    (values : Row) : keyOf (key ++ values) (List.range keys.length) = .ok key :=
  keyOf_range (length_of_mem_firstKeys h) values

theorem keysOf_groupRows (piece : List Row) :
    keysOf (List.range keys.length) (groupRows keys values piece) = firstKeys keys piece := by
  rw [keysOf, groupRows, List.filterMap_map]
  refine (List.filterMap_congr fun key hkey => ?_).trans List.filterMap_some
  rw [Function.comp_apply, keyOf_groupRows hkey, Except.toOption]

theorem exists_keyOf_grouped {pieces : List (List Row)} {row : Row}
    (h : row ∈ grouped keys values pieces) :
    ∃ key, keyOf row (List.range keys.length) = .ok key := by
  obtain ⟨piece, -, hrow⟩ := List.mem_flatMap.1 h
  obtain ⟨key, hkey, rfl⟩ := List.mem_map.1 hrow
  exact ⟨key, keyOf_groupRows hkey _⟩

/-- **The groups of groups have the keys of the groups of all rows.** -/
theorem firstKeys_grouped (pieces : List (List Row)) :
    firstKeys (List.range keys.length) (grouped keys values pieces) =
      firstKeys keys pieces.flatten := by
  have hkeysOf : keysOf (List.range keys.length) (grouped keys values pieces) =
      pieces.flatMap (firstKeys keys) := by
    rw [grouped, keysOf, List.filterMap_flatMap]
    exact congrArg (pieces.flatMap ·) (funext keysOf_groupRows)
  rw [firstKeys, hkeysOf, foldl_addKey_flatMap]
  rfl

/-! ## One class, piece by piece

A class has at most one group in each piece. Its rows in the second phase are these groups, in
order, and the rows behind them are those of the class. -/

/-- What a piece has of a class: the key of the class there and its rows, unless there are none. -/
def sharesOf (keys : List Nat) (key : Row) (piece : List Row) : List (Row × List Row) :=
  ((firstKeys keys piece).filter (sameKeys key)).map fun k => (k, part keys k piece)

/-- What pieces have of a class. -/
def shares (keys : List Nat) (key : Row) (pieces : List (List Row)) : List (Row × List Row) :=
  pieces.flatMap (sharesOf keys key)

theorem length_of_mem_shares {key : Row} {pieces : List (List Row)} {c : Row × List Row}
    (h : c ∈ shares keys key pieces) : c.1.length = keys.length := by
  obtain ⟨piece, -, hc⟩ := List.mem_flatMap.1 h
  obtain ⟨k, hk, rfl⟩ := List.mem_map.1 hc
  exact length_of_mem_firstKeys (List.mem_filter.1 hk).1

/-- A piece has one share of a class at most, and in it all rows of the class. -/
theorem flatMap_sharesOf (key : Row) (piece : List Row) :
    ((sharesOf keys key piece).map (·.2)).flatten = part keys key piece := by
  rw [sharesOf, List.map_map]
  cases hany : (firstKeys keys piece).any (sameKeys · key) with
  | false =>
    have hnone : (firstKeys keys piece).filter (sameKeys key) = [] := by
      rw [List.filter_eq_nil_iff]
      intro k hk
      rw [sameKeys_comm]
      exact List.any_eq_false.1 hany k hk
    rw [hnone, part_eq_nil hany]
    rfl
  | true =>
    obtain ⟨k, hk, hsame⟩ := List.any_eq_true.1 hany
    rw [filter_sameKeys (apart_firstKeys keys piece) hk hsame, List.map_singleton,
      List.flatten_singleton]
    exact part_congr hsame piece

/-- The shares of a class are all its rows. -/
theorem flatten_shares (key : Row) (pieces : List (List Row)) :
    ((shares keys key pieces).map (·.2)).flatten = part keys key pieces.flatten := by
  induction pieces with
  | nil => rfl
  | cons piece pieces ih =>
    rw [shares, List.flatMap_cons, List.map_append, List.flatten_append, flatMap_sharesOf]
    rw [shares] at ih
    rw [ih, List.flatten_cons, part_append]

/-- **One class of the groups of groups** has a row for each share. -/
theorem part_grouped (key : Row) (pieces : List (List Row)) (values : List Row → Row) :
    part (List.range keys.length) key
        (grouped keys (fun piece k => values (part keys k piece)) pieces) =
      (shares keys key pieces).map fun c => c.1 ++ values c.2 := by
  rw [grouped, part, List.filter_flatMap, shares, List.map_flatMap]
  refine congrArg (pieces.flatMap ·) (funext fun piece => ?_)
  rw [groupRows, List.filter_map, sharesOf, List.map_map]
  have hfilter : (firstKeys keys piece).filter (inClass (List.range keys.length) key ∘
      fun k => k ++ values (part keys k piece)) = (firstKeys keys piece).filter (sameKeys key) :=
    List.filter_congr fun k hk => inClass_of_keyOf (keyOf_groupRows hk _) key
  rw [hfilter]
  rfl

end GroupTable

end RowStream
