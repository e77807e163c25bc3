import RowStream.Proofs.Aggregate.Fold
import RowStream.Proofs.Collector.Classes
import RowStream.Proofs.Collector.Trace

/-!
# Groups as parts

A group table folds each class of its rows on its own. So what it has after some rows is said without
a table: the keys that came first, and for each of them the states of the rows of its class.

* `GroupTable.failure?`, `GroupTable.firstFailure` — how a row fails after others, and the first row
  that does; `GroupTable.Foldable` — none does.
* `GroupTable.Tracks` — the invariant; `Tracks.accumulate` is the step and `Tracks.takeAll` the run.
* `GroupTable.exists_takeAll` — the groups after all rows, if none fails.
-/

namespace RowStream

namespace GroupTable

open Scalar

/-! ## Rows that fail

The first failure is said of the rows alone: a row fails for want of a key column, or where the
states of its class, folded from the rows of the class before it, cannot take it. -/

/-- How a row fails after others that did not: it lacks a key column, or it cannot be folded into the
states of its class. -/
def failure? (keys : List Nat) (s : Aggregates) (before : List Row) (row : Row) : Option OpError :=
  match keyOf row keys with
  | .error cause => some (.evaluation cause)
  | .ok key =>
    match s.fold s.init (part keys key before) with
    | .error _ => none
    | .ok states =>
      match (s.update states row).1 with
      | .error e => some e
      | .ok () => none

/-- The failure of the first row that fails, after others that did not. -/
def firstFailure (keys : List Nat) (s : Aggregates) (before : List Row) : List Row → Option OpError
  | [] => none
  | row :: rows => (failure? keys s before row).or (firstFailure keys s (before ++ [row]) rows)

/-- No row fails after the rows before it. -/
def Foldable (keys : List Nat) (s : Aggregates) (rows : List Row) : Prop :=
  ∀ xs x ys, rows = xs ++ x :: ys → failure? keys s xs x = none

theorem firstFailure_eq_none {keys : List Nat} {s : Aggregates} {before rows : List Row} :
    firstFailure keys s before rows = none ↔
      ∀ xs x ys, rows = xs ++ x :: ys → failure? keys s (before ++ xs) x = none := by
  induction rows generalizing before with
  | nil =>
    refine ⟨fun _ xs x ys h => ?_, fun _ => rfl⟩
    cases xs <;> cases h
  | cons first rows ih =>
    rw [firstFailure, Option.or_eq_none_iff, ih]
    constructor
    · rintro ⟨hfirst, hrest⟩ xs x ys h
      cases xs with
      | nil =>
        obtain ⟨rfl, -⟩ := List.cons.inj h
        rw [List.append_nil, hfirst]
      | cons x' xs =>
        obtain ⟨rfl, rfl⟩ := List.cons.inj h
        rw [← hrest xs x ys rfl, List.append_assoc]
        rfl
    · intro h
      refine ⟨by simpa using h [] first rows rfl, fun xs x ys hrows => ?_⟩
      subst hrows
      rw [← h (first :: xs) x ys rfl, List.append_assoc]
      rfl

theorem foldable_iff {keys : List Nat} {s : Aggregates} {rows : List Row} :
    Foldable keys s rows ↔ firstFailure keys s [] rows = none := by
  rw [firstFailure_eq_none]
  rfl

theorem firstFailure_eq_some {keys : List Nat} {s : Aggregates} {before rows : List Row}
    {e : OpError} : firstFailure keys s before rows = some e ↔
      ∃ ok row after, rows = ok ++ row :: after ∧ failure? keys s (before ++ ok) row = some e ∧
        firstFailure keys s before ok = none := by
  induction rows generalizing before with
  | nil =>
    refine ⟨nofun, ?_⟩
    rintro ⟨ok, row, after, hrows, -⟩
    cases ok <;> cases hrows
  | cons first rows ih =>
    rw [firstFailure]
    cases hfirst : failure? keys s before first with
    | some e' =>
      rw [Option.some_or]
      constructor
      · rintro ⟨rfl⟩
        exact ⟨[], first, rows, rfl, by rw [List.append_nil, hfirst], rfl⟩
      · rintro ⟨_ | ⟨y, ok⟩, row, after, hrows, hfailure, hok⟩ <;>
          obtain ⟨rfl, -⟩ := List.cons.inj hrows
        · rw [List.append_nil, hfirst] at hfailure
          exact hfailure
        · rw [firstFailure, hfirst] at hok
          cases hok
    | none =>
      rw [Option.none_or, ih]
      constructor
      · rintro ⟨ok, row, after, rfl, hfailure, hok⟩
        refine ⟨first :: ok, row, after, rfl, ?_, by rw [firstFailure, hfirst, Option.none_or, hok]⟩
        rw [← hfailure, List.append_assoc]
        rfl
      · rintro ⟨_ | ⟨y, ok⟩, row, after, hrows, hfailure, hok⟩ <;>
          obtain ⟨rfl, rfl⟩ := List.cons.inj hrows
        · rw [List.append_nil, hfirst] at hfailure
          cases hfailure
        · rw [firstFailure, hfirst, Option.none_or] at hok
          refine ⟨ok, row, after, rfl, ?_, hok⟩
          rw [← hfailure, List.append_assoc]
          rfl

/-! ## The table

The running table finds groups through an index. Here it is told without one: the groups of a list,
of which the first with the key takes the row. The invariant of the index is what makes the two the
same, and from here on the index does not occur any more. -/

/-- Whether there is a group for a key. -/
def contains (groups : List GroupState) (key : Row) : Bool := groups.any fun g => sameKeys g.key key

/-- The groups once there is one for a key. -/
def opened (s : Aggregates) (key : Row) (groups : List GroupState) : List GroupState :=
  if contains groups key then groups else groups ++ [⟨key, s.init⟩]

/-- Folds a row into the states of the first group of its key. -/
def foldRow (s : Aggregates) (key row : Row) :
    List GroupState → Except OpError Unit × List GroupState
  | [] => (.ok (), [])
  | g :: gs =>
    if sameKeys g.key key then
      let (r, states) := s.update g.states row
      (r, { g with states } :: gs)
    else
      let (r, gs) := foldRow s key row gs
      (r, g :: gs)

section Everywhere

variable {s : Aggregates} {P : GroupState → Prop} {groups : List GroupState}

/-- A new group begins with the first states. -/
theorem forall_opened (key : Row) (h : ∀ g ∈ groups, P g) (hinit : P ⟨key, s.init⟩) :
    ∀ g ∈ opened s key groups, P g := by
  unfold opened
  split
  · exact h
  · intro g hg
    obtain hold | hnew := List.mem_append.1 hg
    · exact h g hold
    · obtain rfl := List.mem_singleton.1 hnew
      exact hinit

/-- What folding a row into the states of a group keeps holds of all groups afterwards. -/
theorem forall_foldRow {row : Row} (h : ∀ g ∈ groups, P g)
    (hupdate : ∀ g, P g → P { g with states := (s.update g.states row).2 }) (key : Row) :
    ∀ g ∈ (foldRow s key row groups).2, P g := by
  induction groups with
  | nil => nofun
  | cons g gs ih =>
    obtain ⟨hfirst, hrest⟩ := List.forall_mem_cons.1 h
    unfold foldRow
    split
    · exact List.forall_mem_cons.2 ⟨hupdate g hfirst, hrest⟩
    · exact List.forall_mem_cons.2 ⟨hfirst, ih hrest⟩

/-- Folding a row in fails in one of the groups. -/
theorem exists_of_foldRow_error {key row : Row} {e : OpError}
    (h : (foldRow s key row groups).1 = .error e) :
    ∃ g ∈ groups, (s.update g.states row).1 = .error e := by
  induction groups with
  | nil => cases h
  | cons g gs ih =>
    unfold foldRow at h
    split at h
    · exact ⟨g, List.mem_cons_self, h⟩
    · obtain ⟨g', hg', herror⟩ := ih h
      exact ⟨g', List.mem_cons_of_mem _ hg', herror⟩

end Everywhere

theorem isSome_slot? (groups : IndexedGroups) (key : Row) :
    (groups.slot? key).isSome = contains groups.list key := by
  rw [IndexedGroups.slot?, groups.indexed, List.findIdx?_isSome]
  rfl

theorem list_opened (s : Aggregates) (key : Row) (groups : IndexedGroups) :
    (groups.opened key s.init).list = opened s key groups.list := by
  rw [IndexedGroups.list_opened, isSome_slot?, opened]

/-- The place of the first group of a key is where a row is folded in. -/
theorem foldRow_of_findIdx? {key : Row} {list : List GroupState} {slot : Nat}
    (h : (list.findIdx? fun g => sameKeys g.key key) = some slot) (s : Aggregates) (row : Row) :
    ∃ g, list[slot]? = some g ∧ foldRow s key row list = ((s.update g.states row).1,
      list.modify slot fun g' => { g' with states := (s.update g.states row).2 }) := by
  induction list generalizing slot with
  | nil => cases h
  | cons first list ih =>
    rw [List.findIdx?_cons] at h
    unfold foldRow
    cases hfirst : sameKeys first.key key with
    | true =>
      rw [hfirst, if_pos rfl] at h
      cases h
      exact ⟨first, rfl, rfl⟩
    | false =>
      rw [hfirst, if_neg Bool.false_ne_true] at h
      obtain ⟨slot, hslot, rfl⟩ := Option.map_eq_some_iff.1 h
      obtain ⟨g, hg, hfold⟩ := ih hslot
      refine ⟨g, hg, ?_⟩
      simp [hfold]

/-- **The index leads to the group of the key**, so that a row that is folded in by its place is folded
into that group. -/
theorem absorb_eq {groups : IndexedGroups} {key : Row} {slot : Nat} (h : groups.slot? key = some slot)
    (s : Aggregates) (row : Row) :
    (absorb s slot row groups).1 = (foldRow s key row groups.list).1 ∧
      (absorb s slot row groups).2.list = (foldRow s key row groups.list).2 := by
  rw [IndexedGroups.slot?, groups.indexed] at h
  obtain ⟨g, hg, hfold⟩ := foldRow_of_findIdx? h s row
  rw [hfold]
  constructor <;> simp only [absorb, hg, IndexedGroups.setStates]

/-- The place of the group that a key has or gets. -/
def slotFor (groups : IndexedGroups) (key : Row) : Nat := (groups.slot? key).getD groups.list.length

/-- The groups once a row with a key was folded in, and how that ended. -/
def taken (s : Aggregates) (key row : Row) (groups : IndexedGroups) :
    Except OpError Unit × IndexedGroups :=
  absorb s (slotFor groups key) row (groups.opened key s.init)

/-- **The groups with a row**, as they are without an index. -/
theorem taken_eq (s : Aggregates) (key row : Row) (groups : IndexedGroups) :
    (taken s key row groups).1 = (foldRow s key row (opened s key groups.list)).1 ∧
      (taken s key row groups).2.list = (foldRow s key row (opened s key groups.list)).2 := by
  have hslot : (groups.opened key s.init).slot? key = some (slotFor groups key) := by
    rw [IndexedGroups.slot?_opened, slotFor]
    cases groups.slot? key <;> rfl
  rw [← list_opened]
  exact absorb_eq hslot s row

theorem follows_openGroup (key : Row) (t : GroupTable) : ∃ ms scope,
    (openGroup key).Follows t ms (.ok (slotFor t.slots key))
      { t with scope, slots := t.slots.opened key t.aggregates.init } := by
  have hread := Metered.follows_read (ε := OpError) (fun t => t.slots.slot? key) t
  unfold slotFor
  cases hfound : t.slots.slot? key with
  | some slot =>
    rw [hfound] at hread
    rw [IndexedGroups.opened_of_isSome (by rw [hfound]; rfl)]
    exact ⟨_, t.scope, hread.bind (Metered.follows_pure slot t)⟩
  | none =>
    rw [hfound] at hread
    -- a new key is charged before its group is opened, and its slot is the one behind the last
    have hbytes := Metered.follows_read (ε := OpError)
      (fun t => t.footprint.group key t.aggregates.size) t
    have hcharge : (Metered.zoom scope (fun t scope => { t with scope })
        (Scope.charge (t.footprint.group key t.aggregates.size))).Follows t _ _ _ :=
      (Scope.follows_charge t.scope _).zoom
    have hlast := Metered.follows_read (ε := OpError) (fun t : GroupTable => t.slots.list.length)
    have hopen := Metered.follows_modifyState (ε := OpError)
      (fun t : GroupTable => { t with slots := t.slots.opened key t.aggregates.init })
    exact ⟨_, _, hread.bind (hbytes.bind (hcharge.bind ((hlast _).bind ((hopen _).bind
      (Metered.follows_pure _ _)))))⟩

/-- A table that has a key for a row opens a group for it if there is none, and folds the row in. -/
theorem follows_accumulate {row key : Row} {t : GroupTable} (h : keyOf row t.keys = .ok key) :
    ∃ ms scope, (accumulate row).Follows t ms
      (foldRow t.aggregates key row (opened t.aggregates key t.groups)).1
      { t with scope, slots := (taken t.aggregates key row t.slots).2 } := by
  obtain ⟨ms, scope, hopen⟩ := follows_openGroup key t
  have hboth := hopen.bind (f := fold row) (follows_fold row _ _)
  refine ⟨ms ++ [], scope, ?_⟩
  rw [groups, ← (taken_eq t.aggregates key row t.slots).1]
  exact hboth.congr (accumulate_eq_bind h)

/-- The groups after that. -/
theorem groups_taken (t : GroupTable) (key row : Row) (scope : Scope) :
    groups { t with scope, slots := (taken t.aggregates key row t.slots).2 } =
      (foldRow t.aggregates key row (opened t.aggregates key t.groups)).2 :=
  (taken_eq t.aggregates key row t.slots).2

theorem free_accumulate {row key : Row} {t : GroupTable} (h : keyOf row t.keys = .ok key) :
    ∃ scope, (Collector.accumulate row).free (.group t) =
      ((foldRow t.aggregates key row (opened t.aggregates key t.groups)).1,
        .group { t with scope, slots := (taken t.aggregates key row t.slots).2 }) := by
  obtain ⟨ms, scope, hrow⟩ := follows_accumulate h
  have hcollector : (Collector.accumulate row).Follows (.group t) _ _ (.group _) :=
    hrow.within fun b => rfl
  exact ⟨scope, hcollector.free_eq⟩

theorem free_accumulate_error {row : Row} {t : GroupTable} {cause : EvalError}
    (h : keyOf row t.keys = .error cause) :
    (Collector.accumulate row).free (.group t) = (.error (.evaluation cause), .group t) := by
  simp [Metered.free, Metered.run, Collector.accumulate, accumulate, StepResult.within, h]

/-- A row is folded into the one group of its key. -/
theorem foldRow_append {s : Aggregates} {key row : Row} {xs ys : List GroupState} {g : GroupState}
    (hxs : ∀ x ∈ xs, sameKeys x.key key = false) (hg : sameKeys g.key key = true) :
    foldRow s key row (xs ++ g :: ys) =
      ((s.update g.states row).1, xs ++ { g with states := (s.update g.states row).2 } :: ys) := by
  induction xs with
  | nil =>
    rw [List.nil_append, foldRow, if_pos hg]
    rfl
  | cons x xs ih =>
    have hx := hxs x List.mem_cons_self
    rw [List.cons_append, foldRow, if_neg (by rw [hx]; exact Bool.false_ne_true),
      ih fun y hy => hxs y (List.mem_cons_of_mem _ hy)]
    rfl

/-! ## What a table has after rows

The invariant: the table has one group for each key that came first, in that order, and each group
has the states of the rows of its class. One row changes one class; by induction the table follows
the rows up to the first that fails. -/

/-- The table has one group for each class, with the states of the rows of the class. -/
structure Tracks (t : GroupTable) (rows : List Row) : Prop where
  keys : t.groups.map (·.key) = firstKeys t.keys rows
  states : ∀ g ∈ t.groups,
    t.aggregates.fold t.aggregates.init (part t.keys g.key rows) = .ok g.states

theorem tracks_new (keys : List Nat) (s : Aggregates) (footprint : Footprint) :
    (new keys s footprint).Tracks [] :=
  ⟨rfl, nofun⟩

section Step

variable {t : GroupTable} {rows : List Row} {row key : Row}

/-- A group that was opened has the states of the rows of its class before this one. -/
theorem Tracks.opened (h : t.Tracks rows) (hkey : keyOf row t.keys = .ok key) :
    (opened t.aggregates key t.groups).map (·.key) = firstKeys t.keys (rows ++ [row]) ∧
      (∀ g ∈ opened t.aggregates key t.groups,
        t.aggregates.fold t.aggregates.init (part t.keys g.key rows) = .ok g.states) ∧
      ∃ g ∈ opened t.aggregates key t.groups, sameKeys g.key key = true := by
  have hcontains : contains t.groups key = (firstKeys t.keys rows).any (sameKeys · key) := by
    rw [← h.keys, List.any_map]
    rfl
  rw [firstKeys_concat hkey, addKey, ← hcontains]
  unfold GroupTable.opened
  cases hfound : contains t.groups key with
  | true =>
    refine ⟨h.keys, h.states, ?_⟩
    obtain ⟨g, hg, hsame⟩ := List.any_eq_true.1 hfound
    exact ⟨g, hg, hsame⟩
  | false =>
    refine ⟨by simp [h.keys], fun g hg => ?_, ⟨key, t.aggregates.init⟩, by simp, sameKeys_refl key⟩
    obtain hg | hg := List.mem_append.1 hg
    · exact h.states g hg
    · -- no row before this one is in the new class
      rw [hcontains] at hfound
      rw [List.mem_singleton.1 hg, part_eq_nil hfound]
      rfl

/-- Among groups that do not belong together, a key belongs to one at most. -/
theorem eq_false_of_pairwise {xs ys : List GroupState} {g : GroupState}
    (h : (xs ++ g :: ys).Pairwise fun x y => sameKeys x.key y.key = false)
    (hg : sameKeys g.key key = true) :
    (∀ x ∈ xs, sameKeys x.key key = false) ∧ ∀ y ∈ ys, sameKeys y.key key = false := by
  obtain ⟨-, hcons, hacross⟩ := List.pairwise_append.1 h
  refine ⟨fun x hx => ?_, fun y hy => ?_⟩
  · rw [← sameKeys_congr_right hg]
    exact hacross x hx g List.mem_cons_self
  · rw [sameKeys_comm, ← sameKeys_congr hg]
    exact List.rel_of_pairwise_cons hcons hy

/-- The row does not count for the groups of other keys. -/
theorem part_concat_of_ne (hkey : keyOf row t.keys = .ok key) {other : Row}
    (hother : sameKeys other key = false) :
    part t.keys other (rows ++ [row]) = part t.keys other rows := by
  rw [part_append, part_singleton hkey, hother, if_neg Bool.false_ne_true, List.append_nil]

/-- How a row fails is how its fold into the group of its key does. -/
theorem failure?_eq {s : Aggregates} {keys : List Nat} {states : List AggState}
    (hkey : keyOf row keys = .ok key) (hstates : s.fold s.init (part keys key rows) = .ok states) :
    failure? keys s rows row =
      match (s.update states row).1 with
      | .error e => some e
      | .ok () => none := by
  simp only [failure?, hkey, hstates]

/-- **One row.** The table folds it into the states of its class, or fails as the row fails. -/
theorem Tracks.accumulate (h : t.Tracks rows) (hkey : keyOf row t.keys = .ok key) :
    (∃ e u, (Collector.accumulate row).free (.group t) = (.error e, u) ∧
      failure? t.keys t.aggregates rows row = some e) ∨
    ∃ scope slots, (Collector.accumulate row).free (.group t) =
        (.ok (), .group { t with scope, slots }) ∧
      failure? t.keys t.aggregates rows row = none ∧
      Tracks { t with scope, slots } (rows ++ [row]) := by
  obtain ⟨hkeys, hstates, g, hg, hsame⟩ := h.opened hkey
  obtain ⟨scope, hrun⟩ := free_accumulate hkey
  have hnext := groups_taken t key row scope
  obtain ⟨xs, ys, hgroups⟩ := List.append_of_mem hg
  rw [hgroups] at hkeys hstates hrun hnext
  have hapart : (xs ++ g :: ys).Pairwise fun x y => sameKeys x.key y.key = false :=
    List.pairwise_map.1 (hkeys ▸ apart_firstKeys t.keys (rows ++ [row]))
  -- the keys are apart, so the row belongs to one group and to no other
  obtain ⟨hxs, hys⟩ := eq_false_of_pairwise hapart hsame
  rw [foldRow_append hxs hsame] at hrun hnext
  have hg : t.aggregates.fold t.aggregates.init (part t.keys g.key rows) = .ok g.states :=
    hstates g (List.mem_append_right _ List.mem_cons_self)
  have hfailure := failure?_eq hkey (part_congr hsame rows ▸ hg)
  -- from here on one update decides both the run and the specification
  rcases hupdate : t.aggregates.update g.states row with ⟨e | ⟨⟩, states⟩ <;>
    rw [hupdate] at hrun hnext hfailure
  · exact .inl ⟨e, _, hrun, hfailure⟩
  · refine .inr ⟨scope, _, hrun, hfailure, ⟨by rw [hnext]; simpa using hkeys, fun x hx => ?_⟩⟩
    rw [hnext] at hx
    have hothers : ∀ y ∈ xs ++ ys, t.aggregates.fold t.aggregates.init
        (part t.keys y.key (rows ++ [row])) = .ok y.states := fun y hy => by
      rw [part_concat_of_ne hkey ((List.mem_append.1 hy).elim (hxs y) (hys y))]
      exact hstates y (by
        obtain hy | hy := List.mem_append.1 hy
        · exact List.mem_append_left _ hy
        · exact List.mem_append_right _ (List.mem_cons_of_mem _ hy))
    obtain hx | hx := List.mem_append.1 hx
    · exact hothers x (List.mem_append_left _ hx)
    · obtain rfl | hx := List.mem_cons.1 hx
      · -- the row counts for the group of its key
        rw [part_append, part_singleton hkey, if_pos hsame, Aggregates.fold_append_of_ok hg,
          Aggregates.fold_singleton, hupdate]
      · exact hothers x (List.mem_append_right _ hx)

end Step

/-- **All rows.** The table takes them up to the first that fails, or ends with the states of the
rows of every class. -/
theorem Tracks.takeAll {t : GroupTable} {before : List Row} (h : t.Tracks before)
    (rows : List Row) :
    (∃ e, (Collector.group t).takeAll rows = .error e ∧
      firstFailure t.keys t.aggregates before rows = some e) ∨
    ∃ scope slots, (Collector.group t).takeAll rows = .ok (.group { t with scope, slots }) ∧
      firstFailure t.keys t.aggregates before rows = none ∧
      Tracks { t with scope, slots } (before ++ rows) := by
  induction rows generalizing t before with
  | nil => exact .inr ⟨t.scope, t.slots, rfl, rfl, by rwa [List.append_nil]⟩
  | cons row rows ih =>
    unfold Collector.takeAll firstFailure
    -- a row without its key fails on both sides before any group is looked up
    cases hkey : keyOf row t.keys with
    | error cause =>
      have hfailure : failure? t.keys t.aggregates before row = some (.evaluation cause) := by
        simp only [failure?, hkey]
      rw [free_accumulate_error hkey, hfailure]
      exact .inl ⟨_, rfl, rfl⟩
    | ok key =>
      obtain ⟨e, u, hrun, hfailure⟩ | ⟨scope, slots, hrun, hfailure, hnext⟩ := h.accumulate hkey
      · rw [hrun, hfailure]
        exact .inl ⟨e, rfl, rfl⟩
      · rw [hrun, hfailure, Option.none_or]
        obtain ⟨e, htake, hrest⟩ | ⟨scope', slots', htake, hrest, hlast⟩ := ih hnext
        · exact .inl ⟨e, htake, hrest⟩
        · rw [List.append_assoc] at hlast
          exact .inr ⟨scope', slots', htake, hrest, hlast⟩

/-- A row that does not fail has a key. -/
theorem exists_keyOf {keys : List Nat} {s : Aggregates} {before rows : List Row}
    (h : firstFailure keys s before rows = none) {row : Row} (hrow : row ∈ rows) :
    ∃ key, keyOf row keys = .ok key := by
  induction rows generalizing before with
  | nil => cases hrow
  | cons first rows ih =>
    obtain ⟨hfirst, hrest⟩ := Option.or_eq_none_iff.1 h
    obtain rfl | hrow := List.mem_cons.1 hrow
    · cases hkey : keyOf row keys with
      | ok key => exact ⟨key, rfl⟩
      | error cause => simp only [failure?, hkey, reduceCtorEq] at hfirst
    · exact ih hrest hrow

/-- Where the rows of every class can be folded, no row fails. -/
theorem firstFailure_eq_none_of_fold {keys : List Nat} {s : Aggregates} {before rows : List Row}
    (hkeys : ∀ row ∈ rows, ∃ key, keyOf row keys = .ok key)
    (hfold : ∀ row ∈ rows, ∀ key, keyOf row keys = .ok key →
      ∃ states, s.fold s.init (part keys key (before ++ rows)) = .ok states) :
    firstFailure keys s before rows = none := by
  induction rows generalizing before with
  | nil => rfl
  | cons row rows ih =>
    rw [firstFailure, Option.or_eq_none_iff]
    constructor
    · obtain ⟨key, hkey⟩ := hkeys row List.mem_cons_self
      obtain ⟨last, hlast⟩ := hfold row List.mem_cons_self key hkey
      -- the class begins with the rows before this one, and with this one
      rw [show before ++ row :: rows = before ++ ([row] ++ rows) from rfl, part_append, part_append,
        part_singleton hkey, if_pos (sameKeys_refl key), Aggregates.fold_append] at hlast
      cases hstates : s.fold s.init (part keys key before) with
      | error e =>
        rw [hstates] at hlast
        cases hlast
      | ok states =>
        rw [failure?_eq hkey hstates]
        rw [hstates, Except.bind, List.singleton_append, Aggregates.fold] at hlast
        rcases hupdate : s.update states row with ⟨e | ⟨⟩, next⟩
        · rw [hupdate] at hlast
          cases hlast
        · rfl
    · refine ih (fun r hr => hkeys r (List.mem_cons_of_mem _ hr)) fun r hr key hkey => ?_
      rw [List.append_assoc]
      exact hfold r (List.mem_cons_of_mem _ hr) key hkey

/-- The groups of classes whose states are known. -/
def groupsOf (firsts : List Row) (states : Row → List AggState) : List GroupState :=
  firsts.map fun key => ⟨key, states key⟩

theorem eq_groupsOf {groups : List GroupState} {states : Row → List AggState}
    (h : ∀ g ∈ groups, states g.key = g.states) : groups = groupsOf (groups.map (·.key)) states := by
  rw [groupsOf, List.map_map]
  refine (List.map_id' groups).symm.trans (List.map_congr_left fun g hg => ?_)
  rw [Function.comp_apply, h g hg]

/-- **Groups are the parts, folded one by one**, if no row fails. -/
theorem exists_takeAll {keys : List Nat} {s : Aggregates} {rows : List Row} (footprint : Footprint)
    (h : firstFailure keys s [] rows = none) : ∃ (states : Row → List AggState) (t : GroupTable),
      (Collector.group (.new keys s footprint)).takeAll rows = .ok (.group t) ∧
      t.aggregates = s ∧ t.groups = groupsOf (firstKeys keys rows) states ∧
      ∀ key ∈ firstKeys keys rows, s.fold s.init (part keys key rows) = .ok (states key) := by
  obtain ⟨e, -, hfailure⟩ | ⟨scope, slots, htake, -, htracks⟩ :=
    (tracks_new keys s footprint).takeAll rows
  · rw [show firstFailure keys s [] rows = some e from hfailure] at h
    cases h
  · have hkeys : slots.list.map (·.key) = firstKeys keys rows := htracks.keys
    have hstates : ∀ g ∈ slots.list, s.fold s.init (part keys g.key rows) = .ok g.states :=
      htracks.states
    let states key := (s.fold s.init (part keys key rows)).toOption.getD []
    have hgroup : ∀ g ∈ slots.list, states g.key = g.states := fun g hg => by
      simp only [states, hstates g hg, Except.toOption, Option.getD_some]
    refine ⟨states, _, htake, rfl, ?_, fun key hkey => ?_⟩
    · rw [← hkeys, ← eq_groupsOf hgroup]
      rfl
    · rw [← hkeys] at hkey
      obtain ⟨g, hg, rfl⟩ := List.mem_map.1 hkey
      rw [hstates g hg, hgroup g hg]

/-- The same for states that are known. -/
theorem exists_takeAll_of_fold {keys : List Nat} {s : Aggregates} {rows : List Row}
    {states : Row → List AggState} (footprint : Footprint)
    (hkeys : ∀ row ∈ rows, ∃ key, keyOf row keys = .ok key)
    (hfold : ∀ key ∈ firstKeys keys rows,
      s.fold s.init (part keys key rows) = .ok (states key)) :
    ∃ t : GroupTable, (Collector.group (.new keys s footprint)).takeAll rows = .ok (.group t) ∧
      t.aggregates = s ∧ t.groups = groupsOf (firstKeys keys rows) states := by
  have hnone : firstFailure keys s [] rows = none :=
    firstFailure_eq_none_of_fold hkeys fun row hrow key hkey => by
      obtain ⟨first, hfirst, hpart, -⟩ := (isPartition_firstKeys hkeys).covered row hrow
      have hsame := (List.mem_filter.1 hpart).2
      rw [inClass_of_keyOf hkey] at hsame
      exact ⟨_, part_congr hsame rows ▸ hfold first hfirst⟩
  obtain ⟨states', t, htake, haggregates, hgroups, hstates⟩ := exists_takeAll footprint hnone
  have hsame : groupsOf (firstKeys keys rows) states' = groupsOf (firstKeys keys rows) states :=
    List.map_congr_left fun key hkey => by
      have heq := (hstates key hkey).symm.trans (hfold key hkey)
      rw [Except.ok.inj heq]
  exact ⟨t, htake, haggregates, hgroups.trans hsame⟩

end GroupTable

/-! ## Groups as a flow

What comes out of the table where memory is not limited. -/

namespace Flow

open GroupTable

variable {keys : List Nat} {s : Aggregates} {rows : List Row}

theorem collect_group_of_failure (footprint : Footprint) {e : OpError}
    (h : firstFailure keys s [] rows = some e) :
    collect (.group (.new keys s footprint)) ⟨rows, none⟩ = failed e := by
  obtain ⟨e', htake, hfailure⟩ | ⟨_, _, -, hnone, -⟩ :=
    (tracks_new keys s footprint).takeAll rows
  · rw [collect, htake]
    rw [show firstFailure keys s [] rows = some e' from hfailure, Option.some.injEq] at h
    rw [h]
  · rw [show firstFailure keys s [] rows = none from hnone] at h
    cases h

/-- A table hands out its groups in order. -/
theorem collect_group_of_takeAll {footprint : Footprint} {t : GroupTable}
    (h : (Collector.group (.new keys s footprint)).takeAll rows = .ok (.group t)) :
    collect (.group (.new keys s footprint)) ⟨rows, none⟩ =
      ⟨t.groups.map (emit t.aggregates), none⟩ := by
  rw [collect, h]
  rfl

end Flow

end RowStream
