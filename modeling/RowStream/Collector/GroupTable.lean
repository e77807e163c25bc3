import RowStream.Aggregate.Set
import RowStream.Collector.GroupIndex
import RowStream.Memory.Scope

/-!
# Group tables

A group table aggregates the rows of each key into one. Keys belong together if their scalars do,
position by position: nulls form one group, and so do all NaNs. Groups come out in the order in
which their keys came first, each with the key of its first row.
-/

namespace RowStream

/-- The groups met so far. -/
structure GroupTable where
  keys : List Nat
  aggregates : Aggregates
  footprint : Footprint
  scope : Scope
  slots : IndexedGroups

namespace GroupTable

def new (keys : List Nat) (aggregates : Aggregates) (footprint : Footprint) : GroupTable :=
  ⟨keys, aggregates, footprint, .new "group", .empty .standard⟩

/-- The groups in the order in which they were opened. -/
def groups (t : GroupTable) : List GroupState := t.slots.list

/-- The key of a row: the scalars in the key columns. -/
def keyOf (row : Row) : List Nat → Except EvalError Row
  | [] => .ok []
  | i :: is =>
    match row[i]? with
    | none => .error (.keyOutOfBounds i row.length)
    | some v =>
      match keyOf row is with
      | .ok vs => .ok (v :: vs)
      | .error e => .error e

/-- The place of the group of a key. A key that has none gets one, after it was accounted. -/
def openGroup (key : Row) : Metered.Op GroupTable Nat := do
  match ← Metered.read fun t => t.slots.slot? key with
  | some slot => pure slot
  | none =>
    let bytes ← Metered.read fun t => t.footprint.group key t.aggregates.size
    Metered.zoom scope (fun t scope => { t with scope }) (Scope.charge bytes)
    let slot ← Metered.read fun t => t.slots.list.length
    Metered.modifyState fun t => { t with slots := t.slots.opened key t.aggregates.init }
    pure slot

/-- Folds a row into the states of the group in a place. A place that there is not is left alone; the
index has none. -/
def absorb (aggregates : Aggregates) (slot : Nat) (row : Row) (groups : IndexedGroups) :
    Except OpError Unit × IndexedGroups :=
  match groups.list[slot]? with
  | none => (.ok (), groups)
  | some g =>
    let (r, states) := aggregates.update g.states row
    (r, groups.setStates slot states)

/-- Folds a row into its group. -/
def accumulate (row : Row) : Metered.Op GroupTable Unit := fun (t, b) =>
  match keyOf row t.keys with
  | .error e => .error (.evaluation e) (t, b)
  | .ok key =>
    match openGroup key (t, b) with
    | .error e s => .error e s
    | .ok slot (t, b) =>
      match absorb t.aggregates slot row t.slots with
      | (.ok (), slots) => .ok () ({ t with slots }, b)
      | (.error e, slots) => .error e ({ t with slots }, b)

/-- The row of a group: its key and its aggregates. -/
def emit (aggregates : Aggregates) (g : GroupState) : Row := g.key ++ aggregates.emit g.states

/-- Hands out the groups; what was accounted for them stays so. -/
def finish : Metered.Op GroupTable (List Row) := do
  let rows ← Metered.read fun t => t.groups.map (emit t.aggregates)
  Metered.modifyState fun t => { t with slots := .empty t.slots.index.hasher }
  pure rows

/-- Drops the groups and gives everything back. -/
def release (t : GroupTable) (b : Budget) : GroupTable × Budget :=
  let (scope, b) := t.scope.release b
  ({ t with scope, slots := .empty t.slots.index.hasher }, b)

/-! ### How many rows there are -/

theorem length_absorb (aggregates : Aggregates) (slot : Nat) (row : Row) (groups : IndexedGroups) :
    (absorb aggregates slot row groups).2.list.length = groups.list.length := by
  unfold absorb
  split
  · rfl
  · exact List.length_modify ..

theorem length_of_openGroup {key : Row} {slot : Nat} {p q : GroupTable × Budget}
    (h : openGroup key p = .ok slot q) : q.1.groups.length ≤ p.1.groups.length + 1 := by
  obtain ⟨found, r, hread, h⟩ := Metered.bind_eq_ok.1 h
  obtain ⟨-, rfl⟩ := Metered.read_eq_ok.1 hread
  cases found with
  | some found =>
    obtain ⟨-, rfl⟩ := Metered.pure_eq_ok.1 h
    exact Nat.le_succ _
  | none =>
    obtain ⟨bytes, r, hbytes, h⟩ := Metered.bind_eq_ok.1 h
    obtain ⟨-, rfl⟩ := Metered.read_eq_ok.1 hbytes
    obtain ⟨⟨⟩, r, hcharge, h⟩ := Metered.bind_eq_ok.1 h
    obtain ⟨scope, -, hr⟩ := Metered.zoom_eq_ok.1 hcharge
    obtain ⟨last, r', hlast, h⟩ := Metered.bind_eq_ok.1 h
    obtain ⟨-, rfl⟩ := Metered.read_eq_ok.1 hlast
    obtain ⟨⟨⟩, r', hopened, h⟩ := Metered.bind_eq_ok.1 h
    obtain rfl := Metered.modifyState_eq_ok.1 hopened
    obtain ⟨-, rfl⟩ := Metered.pure_eq_ok.1 h
    simp only [groups, hr, IndexedGroups.list_opened]
    split <;> simp

theorem length_of_accumulate {row : Row} {t u : GroupTable} {b b' : Budget}
    (h : accumulate row (t, b) = .ok () (u, b')) : u.groups.length ≤ t.groups.length + 1 := by
  unfold accumulate at h
  cases hkey : keyOf row t.keys with
  | error e => simp [hkey] at h
  | ok key =>
    rcases hopen : openGroup key (t, b) with ⟨slot, v, b₁⟩ | _
    · have hopened := length_of_openGroup hopen
      have habsorbed := length_absorb v.aggregates slot row v.slots
      rcases habsorb : absorb v.aggregates slot row v.slots with ⟨_ | _, slots⟩
      · simp [hkey, hopen, habsorb] at h
      · simp only [hkey, hopen, habsorb, EStateM.Result.ok.injEq, Prod.mk.injEq] at h
        obtain ⟨-, rfl, rfl⟩ := h
        rw [habsorb] at habsorbed
        exact Nat.le_trans (Nat.le_of_eq habsorbed) hopened
    · simp [hkey, hopen] at h

theorem length_of_finish {rows : List Row} {t u : GroupTable} {b b' : Budget}
    (h : finish (t, b) = .ok rows (u, b')) : rows.length = t.groups.length := by
  obtain ⟨rows', r, hread, h⟩ := Metered.bind_eq_ok.1 h
  obtain ⟨rfl, rfl⟩ := Metered.read_eq_ok.1 hread
  obtain ⟨-, r, -, h⟩ := Metered.bind_eq_ok.1 h
  obtain ⟨rfl, -⟩ := Metered.pure_eq_ok.1 h
  simp

end GroupTable

end RowStream
