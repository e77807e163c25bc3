import Mathlib.Algebra.GroupWithZero.Nat
import RowStream.Proofs.Collector.Custody
import RowStream.Proofs.Collector.Groups

/-!
# What a group table retains

A group is paid for once, when it is opened: its key, and a fixed number of bytes for every aggregate. A
minimum, a maximum or an arbitrary value that a state remembers later is not paid for. So what a table
holds always covers its keys; the values are covered as long as they fit into the bytes that the fixed
parts leave, and not beyond.

* `AggState.bytes`, `GroupTable.retained` — the bytes of the scalars in the states, and in a table.
* `GroupTable.openGroup_eq` — what a row is charged, and `GroupTable.Paid`, that it is charged once for
  each group.
* `Aggregates.Bounded` — states with values of a certain width, which `Aggregates.update` keeps.
* `GroupTable.after`, `GroupTable.feed` — rows that a table takes, whoever else uses the counters
  meanwhile, and a table alone with its counters.
* `GroupTable.retention` — which part of what a table retains is accounted.
-/

namespace RowStream

/-! ## Values that states remember

Minimum, maximum and arbitrary value keep a scalar of some row; all other states are of a fixed
size. How wide such a scalar is, is bounded by the widest that a row shows, and this is kept from
row to row. -/

/-- The bytes of the value that a state remembers. -/
def AggState.bytes : AggState → Nat
  | .value (some v) => v.size
  | _ => 0

namespace AggregateKind

/-- Whether an aggregate remembers values of rows. -/
def remembers : AggregateKind → Bool
  | min | max | arbitrary => true
  | _ => false

/-- What the states of an aggregate may come to if no value is wider than that. -/
def room (kind : AggregateKind) (width : Nat) : Nat := if kind.remembers then width else 0

theorem bytes_init (kind : AggregateKind) : kind.init.bytes = 0 := by cases kind <;> rfl

variable {kind : AggregateKind} {state state' : AggState} {width : Nat}

theorem bytes_addToSum {v : Scalar} (h : addToSum state v = .ok state') : state'.bytes = 0 := by
  unfold addToSum at h
  split at h
  · next total =>
    split at h
    · cases h
      rfl
    · split at h
      · cases h
      · split at h
        · cases h
          rfl
        · split at h <;> cases h
          rfl
  · cases h

theorem bytes_addToExtreme {wanted : Ordering} {v : Scalar} (hstate : state.bytes ≤ width)
    (hv : v.size ≤ width ∨ v.isNull = true) (h : kind.addToExtreme wanted state v = .ok state') :
    state'.bytes ≤ width := by
  unfold addToExtreme at h
  split at h
  · next best =>
    split at h
    · cases h
      exact hstate
    · next hnull =>
      have hnew : (AggState.value (some v)).bytes ≤ width := hv.resolve_right hnull
      split at h
      · cases h
        exact hnew
      · cases h
        split
        · exact hnew
        · exact hstate
  · cases h

theorem bytes_addToArbitrary {v : Scalar} (hstate : state.bytes ≤ width)
    (hv : v.size ≤ width ∨ v.isNull = true) (h : addToArbitrary state v = .ok state') :
    state'.bytes ≤ width := by
  unfold addToArbitrary at h
  split at h
  · cases h
    split
    · exact hstate
    · next hnull => exact hv.resolve_right hnull
  · cases h
    exact hstate
  · cases h

theorem bytes_iterate {value : Option Scalar} (hstate : state.bytes ≤ kind.room width)
    (hvalue : kind.remembers = true → ∀ v ∈ value, v.size ≤ width)
    (h : kind.iterate state value = .ok state') : state'.bytes ≤ kind.room width := by
  -- a value that is missing is as good as null
  have hwidth : kind.remembers = true →
      (value.getD .null).size ≤ width ∨ (value.getD .null).isNull = true := by
    intro hkind
    cases value with
    | none => exact .inr rfl
    | some v => exact .inl (hvalue hkind v rfl)
  cases kind with
  | count =>
    simp only [iterate] at h
    split at h
    · cases h
      split <;> exact Nat.zero_le _
    · cases h
  | countStar =>
    simp only [iterate] at h
    split at h <;> cases h
    exact Nat.zero_le _
  | sum =>
    cases value with
    | none => cases h
    | some v => exact Nat.le_of_eq (bytes_addToSum h)
  | avg =>
    simp only [iterate] at h
    split at h
    · split at h
      · cases h
        exact hstate
      · split at h <;> cases h
        exact Nat.zero_le _
    · cases h
  | min => exact bytes_addToExtreme hstate (hwidth rfl) h
  | max => exact bytes_addToExtreme hstate (hwidth rfl) h
  | arbitrary => exact bytes_addToArbitrary hstate (hwidth rfl) h

theorem bytes_merge {v : Scalar} (hstate : state.bytes ≤ kind.room width)
    (hvalue : kind.remembers = true → v.size ≤ width) (h : kind.merge state v = .ok state') :
    state'.bytes ≤ kind.room width := by
  cases kind with
  | count | countStar =>
    simp only [merge] at h
    split at h
    · split at h <;> cases h
      exact Nat.zero_le _
    · cases h
  | sum =>
    simp only [merge] at h
    split at h
    · cases h
    · exact Nat.le_of_eq (bytes_addToSum h)
  | avg =>
    simp only [merge] at h
    split at h
    · split at h
      · split at h <;> cases h
        exact Nat.zero_le _
      · cases h
    · cases h
  | min => exact bytes_addToExtreme hstate (.inl (hvalue rfl)) h
  | max => exact bytes_addToExtreme hstate (.inl (hvalue rfl)) h
  | arbitrary => exact bytes_addToArbitrary hstate (.inl (hvalue rfl)) h

end AggregateKind

namespace Aggregates

/-- The values that a row shows to aggregates that remember values are no wider than that. -/
def Fits (s : Aggregates) (width : Nat) (row : Row) : Prop :=
  ∀ a ∈ s.aggregations, a.kind.remembers = true → ∀ v, a.value row = .ok (some v) → v.size ≤ width

/-- The states of aggregates remember no wider values. -/
def Bounded (s : Aggregates) (width : Nat) (states : List AggState) : Prop :=
  List.Forall₂ (fun a state => state.bytes ≤ a.kind.room width) s.aggregations states

theorem bounded_init (s : Aggregates) (width : Nat) : s.Bounded width s.init := by
  obtain ⟨as, mode⟩ := s
  show List.Forall₂ _ as (as.map (·.kind.init))
  induction as with
  | nil => exact .nil
  | cons a as ih => exact .cons (by rw [AggregateKind.bytes_init]; exact Nat.zero_le _) ih

theorem bytes_absorb {a : Aggregation} {mode : AggregateMode} {row : Row} {state state' : AggState}
    {width : Nat} (hstate : state.bytes ≤ a.kind.room width)
    (hrow : a.kind.remembers = true → ∀ v, a.value row = .ok (some v) → v.size ≤ width)
    (h : a.absorb mode row state = .ok state') : state'.bytes ≤ a.kind.room width := by
  unfold Aggregation.absorb at h
  split at h
  · cases h
  · next value hvalue =>
    split at h
    · split at h
      · next v => exact AggregateKind.bytes_merge hstate (fun hkind => hrow hkind v hvalue) h
      · cases h
    · refine AggregateKind.bytes_iterate hstate (fun hkind v hv => hrow hkind v ?_) h
      rw [hvalue, Option.mem_def.1 hv]

theorem Bounded.update {s : Aggregates} {width : Nat} {states : List AggState}
    (h : s.Bounded width states) {row : Row} (hrow : s.Fits width row) :
    s.Bounded width (s.update states row).2 := by
  obtain ⟨as, mode⟩ := s
  replace h : List.Forall₂ _ as states := h
  show List.Forall₂ _ as (updateAll mode row as states).2
  induction h with
  | nil => exact .nil
  | @cons a state as states hstate hrest ih =>
    rw [updateAll_cons]
    cases habsorb : a.absorb mode row state with
    | error e => exact .cons hstate hrest
    | ok next =>
      have hnext := bytes_absorb hstate (hrow a List.mem_cons_self) habsorb
      exact .cons hnext (ih fun a ha => hrow a (List.mem_cons_of_mem _ ha))

/-- What the states of one group remember together. -/
theorem Bounded.sum_le {s : Aggregates} {width : Nat} {states : List AggState}
    (h : s.Bounded width states) :
    (states.map AggState.bytes).sum ≤ s.aggregations.countP (·.kind.remembers) * width := by
  obtain ⟨as, mode⟩ := s
  replace h : List.Forall₂ _ as states := h
  induction h with
  | nil => exact Nat.zero_le _
  | @cons a state as states hstate _ ih =>
    simp only [AggregateKind.room] at hstate
    simp only [List.map_cons, List.sum_cons, List.countP_cons, Nat.add_mul]
    split at hstate <;> simp_all
    omega

/-- Values of that width fit into what a group is charged beside its key. -/
def Roomy (s : Aggregates) (width : Nat) : Prop :=
  s.aggregations.countP (·.kind.remembers) * width ≤ Footprint.standard.group [] s.size

/-- There is room for the fixed sizes of up to nine values, and for no texts. -/
theorem roomy_inlineBytes {s : Aggregates} (h : s.size ≤ 9) : s.Roomy Scalar.inlineBytes := by
  have hcount : s.aggregations.countP (·.kind.remembers) ≤ s.size := List.countP_le_length
  show _ * 32 ≤ 48 + 24 + s.size * 24
  omega

end Aggregates

namespace GroupTable

/-! ## What a row is charged

The step: which groups there are after a row and what was charged for it, for every way in which it
may end. The invariants below are read off these cases. -/

/-- A group that is opened is charged to the scope, and a refusal changes nothing in the table. -/
theorem openGroup_eq (key : Row) (t : GroupTable) (b : Budget) :
    openGroup key (t, b) =
      if contains t.groups key then .ok (slotFor t.slots key) (t, b)
      else
        match b.request t.scope.label (t.footprint.group key t.aggregates.size) with
        | .ok () b' => .ok (slotFor t.slots key)
            ({ t with
                scope := { t.scope with
                  held := t.scope.held + t.footprint.group key t.aggregates.size }
                slots := t.slots.opened key t.aggregates.init }, b')
        | .error e b' => .error (.memory e) (t, b') := by
  rw [groups, ← isSome_slot?, slotFor]
  unfold openGroup
  rw [Metered.bind_of_ok (show Metered.read (ε := OpError) _ (t, b) = .ok _ (t, b) from rfl)]
  cases t.slots.slot? key with
  | some slot => rfl
  | none =>
    exact Metered.charge_bind_eq scope (fun t scope => { t with scope })
      (fun t => t.footprint.group key t.aggregates.size)
      (do
        let slot ← Metered.read fun t => t.slots.list.length
        Metered.modifyState fun t => { t with slots := t.slots.opened key t.aggregates.init }
        pure slot) rfl b

/-- **One row**, however it ends: the table stays as it was, or the row was folded into the group of its
key, which was charged if it was opened for this row. The counters see one request at most. -/
theorem accumulate_cases (row : Row) (t : GroupTable) (b : Budget) :
    (∃ b', StepResult.left (accumulate row (t, b)) = (t, b') ∧
      (b' = b ∨ ∃ label bytes e, b.request label bytes = .error e b')) ∨
    ∃ key scope b', keyOf row t.keys = .ok key ∧ StepResult.left (accumulate row (t, b)) =
        ({ t with scope, slots := (taken t.aggregates key row t.slots).2 }, b') ∧
      (contains t.groups key = true ∧ scope = t.scope ∧ b' = b ∨
        contains t.groups key = false ∧
          scope.held = t.scope.held + t.footprint.group key t.aggregates.size ∧
          b.request t.scope.label (t.footprint.group key t.aggregates.size) = .ok () b') := by
  cases hkey : keyOf row t.keys with
  | error e =>
    refine .inl ⟨b, ?_, .inl rfl⟩
    simp only [accumulate, hkey]
    rfl
  | ok key =>
    -- what is left once the group was found or opened
    have hfold : ∀ (scope : Scope) (c : Budget), openGroup key (t, b) = .ok (slotFor t.slots key)
          ({ t with scope, slots := t.slots.opened key t.aggregates.init }, c) →
        StepResult.left (accumulate row (t, b)) =
          ({ t with scope, slots := (taken t.aggregates key row t.slots).2 }, c) := by
      intro scope c hopen
      have hrow := (follows_fold row (slotFor t.slots key)
        { t with scope, slots := t.slots.opened key t.aggregates.init }).granted
          (show c.replay [] = .ok () c from rfl)
      rw [accumulate_eq_bind hkey, Metered.bind_of_ok hopen, hrow, StepResult.left_of]
      rfl
    have hopen := openGroup_eq key t b
    cases hfound : contains t.groups key with
    | true =>
      rw [hfound, if_pos rfl] at hopen
      refine .inr ⟨key, t.scope, b, rfl, hfold t.scope b ?_, .inl ⟨hfound, rfl, rfl⟩⟩
      rw [hopen, IndexedGroups.opened_of_isSome ((isSome_slot? t.slots key).trans hfound)]
    | false =>
      rw [hfound, if_neg Bool.false_ne_true] at hopen
      cases hreq : b.request t.scope.label (t.footprint.group key t.aggregates.size) with
      | error e b' =>
        rw [hreq] at hopen
        refine .inl ⟨b', ?_, .inr ⟨_, _, e, hreq⟩⟩
        rw [accumulate_eq_bind hkey, Metered.bind_of_error hopen]
        rfl
      | ok u b' =>
        rw [hreq] at hopen
        exact .inr ⟨key, _, b', rfl, hfold _ b' hopen, .inr ⟨hfound, rfl, hreq⟩⟩

/-! ## What is paid for

Whatever happens to a row, each group was charged once, for its key and for its aggregates. -/

/-- Every group was charged once. -/
def Paid (t : GroupTable) : Prop :=
  t.scope.held = (t.groups.map fun g => t.footprint.group g.key t.aggregates.size).sum

theorem map_key_foldRow (s : Aggregates) (key row : Row) (groups : List GroupState) :
    (foldRow s key row groups).2.map (·.key) = groups.map (·.key) := by
  induction groups with
  | nil => rfl
  | cons g gs ih =>
    unfold foldRow
    split <;> simp [ih]

theorem Paid.accumulate {t : GroupTable} (h : t.Paid) (row : Row) (b : Budget) :
    (StepResult.left (accumulate row (t, b))).1.Paid := by
  obtain ⟨b', hsame, -⟩ | ⟨key, scope, b', -, hleft, hcharge⟩ := accumulate_cases row t b
  · rwa [hsame]
  · rw [hleft]
    -- the charge depends on the keys alone, which folding a row in does not touch
    have hkeys : ∀ groups : List GroupState,
        (groups.map fun g => t.footprint.group g.key t.aggregates.size) =
          (groups.map (·.key)).map fun key => t.footprint.group key t.aggregates.size := by
      intro groups
      rw [List.map_map]
      rfl
    have hopened : ((opened t.aggregates key t.groups).map fun g =>
        t.footprint.group g.key t.aggregates.size).sum = scope.held := by
      obtain ⟨hfound, rfl, -⟩ | ⟨hfound, hheld, -⟩ := hcharge
      · rw [opened, hfound, if_pos rfl, h]
      · rw [opened, hfound, if_neg Bool.false_ne_true, hheld, h]
        simp
    show scope.held = _
    rw [groups_taken, ← hopened, hkeys, hkeys, map_key_foldRow]

/-! ## What is retained

The keys are paid for. The values are not, but every aggregate is charged a fixed number of bytes,
into which small values fit. -/

/-- The bytes of the keys of all groups. -/
def keyBytes (t : GroupTable) : Nat := (t.groups.map fun g => Scalar.sizes g.key).sum

/-- The bytes of the values that the states of all groups remember. -/
def valueBytes (t : GroupTable) : Nat :=
  (t.groups.map fun g => (g.states.map AggState.bytes).sum).sum

/-- The bytes of all scalars in the table. -/
def retained (t : GroupTable) : Nat := t.keyBytes + t.valueBytes

/-- The states of all groups remember no wider values. -/
def Bounded (t : GroupTable) (width : Nat) : Prop :=
  ∀ g ∈ t.groups, t.aggregates.Bounded width g.states

theorem Bounded.accumulate {t : GroupTable} {width : Nat} (h : t.Bounded width) {row : Row}
    (hrow : t.aggregates.Fits width row) (b : Budget) :
    (StepResult.left (accumulate row (t, b))).1.Bounded width := by
  obtain ⟨b', hsame, -⟩ | ⟨key, scope, b', -, hleft, -⟩ := accumulate_cases row t b
  · rwa [hsame]
  · rw [hleft]
    have hopened := forall_opened key h (t.aggregates.bounded_init width)
    have hgroups := forall_foldRow hopened (fun g hstates => hstates.update hrow) key
    rwa [← groups_taken t key row scope] at hgroups

/-- A group costs its key and what the aggregates have in common. -/
theorem group_eq (f : Footprint) (key : Row) (aggregates : Nat) :
    f.group key aggregates = Scalar.sizes key + f.group [] aggregates := by
  simp only [Footprint.group, Row.size, Scalar.sizes]
  omega

theorem Paid.held_eq {t : GroupTable} (h : t.Paid) :
    t.scope.held = t.keyBytes + t.groups.length * t.footprint.group [] t.aggregates.size := by
  rw [h, keyBytes]
  generalize t.groups = groups
  induction groups with
  | nil => simp
  | cons g gs ih =>
    simp only [List.map_cons, List.sum_cons, List.length_cons, Nat.add_mul, ih, group_eq _ g.key]
    omega

theorem Bounded.valueBytes_le {t : GroupTable} {width : Nat} (h : t.Bounded width) :
    t.valueBytes ≤
      t.groups.length * (t.aggregates.aggregations.countP (·.kind.remembers) * width) := by
  unfold Bounded at h
  rw [valueBytes]
  generalize t.groups = groups at h
  induction groups with
  | nil => simp
  | cons g gs ih =>
    obtain ⟨hfirst, hrest⟩ := List.forall_mem_cons.1 h
    have hvalues := hfirst.sum_le
    have hothers := ih hrest
    simp only [List.map_cons, List.sum_cons, List.length_cons, Nat.add_mul]
    omega

/-! ## Runs

Induction on the rows, each under the counters that are there for it. -/

/-- The table after rows, each taken under the counters that were there for it. A row that fails is
left behind like any other. -/
def after (t : GroupTable) (entries : List (Row × Budget)) : GroupTable :=
  entries.foldl (fun t e => (StepResult.left (accumulate e.1 (t, e.2))).1) t

/-- The table and its counters after rows, if nobody else uses the counters. -/
def feed (rows : List Row) (p : GroupTable × Budget) : GroupTable × Budget :=
  rows.foldl (fun p row => StepResult.left (accumulate row p)) p

theorem same_accumulate (row : Row) (t : GroupTable) (b : Budget) :
    (StepResult.left (accumulate row (t, b))).1.aggregates = t.aggregates ∧
      (StepResult.left (accumulate row (t, b))).1.footprint = t.footprint := by
  obtain ⟨b', hsame, -⟩ | ⟨key, scope, b', -, hleft, -⟩ := accumulate_cases row t b
  · rw [hsame]
    exact ⟨rfl, rfl⟩
  · rw [hleft]
    exact ⟨rfl, rfl⟩

theorem same_after (t : GroupTable) (entries : List (Row × Budget)) :
    (t.after entries).aggregates = t.aggregates ∧ (t.after entries).footprint = t.footprint := by
  induction entries generalizing t with
  | nil => exact ⟨rfl, rfl⟩
  | cons e entries ih =>
    obtain ⟨haggregates, hfootprint⟩ := same_accumulate e.1 t e.2
    rw [← haggregates, ← hfootprint]
    exact ih _

theorem Paid.after {t : GroupTable} (h : t.Paid) (entries : List (Row × Budget)) :
    (t.after entries).Paid := by
  induction entries generalizing t with
  | nil => exact h
  | cons e entries ih => exact ih (h.accumulate e.1 e.2)

theorem Bounded.after {t : GroupTable} {width : Nat} (h : t.Bounded width)
    {entries : List (Row × Budget)} (hrows : ∀ e ∈ entries, t.aggregates.Fits width e.1) :
    (t.after entries).Bounded width := by
  induction entries generalizing t with
  | nil => exact h
  | cons e entries ih =>
    obtain ⟨hfirst, hrest⟩ := List.forall_mem_cons.1 hrows
    refine ih (h.accumulate hfirst e.2) fun e' he' => ?_
    rw [(same_accumulate e.1 t e.2).1]
    exact hrest e' he'

/-! ### Alone with the counters

If nobody else uses the counters, what a table holds is what they count, and so it is within the
quota. -/

theorem feed_eq_after (rows : List Row) (p : GroupTable × Budget) :
    ∃ entries : List (Row × Budget), entries.map (·.1) = rows ∧
      (feed rows p).1 = p.1.after entries := by
  induction rows generalizing p with
  | nil => exact ⟨[], rfl, rfl⟩
  | cons row rows ih =>
    obtain ⟨entries, hrows, hfeed⟩ := ih (StepResult.left (accumulate row p))
    exact ⟨(row, p.2) :: entries, by rw [← hrows]; rfl, hfeed⟩

theorem moves_feed (rows : List Row) (p : GroupTable × Budget) :
    p.2.Moves p.1.held (feed rows p).2 (feed rows p).1.held := by
  induction rows generalizing p with
  | nil => exact .refl p.2 p.1.held
  | cons row rows ih => exact (keeps_accumulate row p.1 p.2).trans (ih _)

theorem used_le_quota_accumulate {t : GroupTable} {b : Budget} {q : Nat}
    (hquota : b.account.quota = some q) (hused : b.account.used ≤ q) (row : Row) :
    (StepResult.left (accumulate row (t, b))).2.account.used ≤ q := by
  obtain ⟨b', hleft, hb'⟩ | ⟨key, scope, b', -, hleft, hb'⟩ := accumulate_cases row t b <;> rw [hleft]
  · obtain rfl | ⟨label, bytes, e, hreq⟩ := hb'
    · exact hused
    · exact Budget.used_le_quota_of_request (.inr ⟨e, hreq⟩) hquota hused
  · obtain ⟨-, -, rfl⟩ | ⟨-, -, hreq⟩ := hb'
    · exact hused
    · exact Budget.used_le_quota_of_request (.inl hreq) hquota hused

theorem used_le_quota_feed {p : GroupTable × Budget} {q : Nat} (hquota : p.2.account.quota = some q)
    (hused : p.2.account.used ≤ q) (rows : List Row) : (feed rows p).2.account.used ≤ q := by
  induction rows generalizing p with
  | nil => exact hused
  | cons row rows ih =>
    have hsame := (keeps_accumulate row p.1 p.2).quota
    exact ih (hsame.trans hquota) (used_le_quota_accumulate hquota hused row)

/-- What a new table holds in the end is within the quota. -/
theorem held_feed_le_quota {t : GroupTable} (ht : t.scope.held = 0) {b : Budget} {q : Nat}
    (hquota : b.account.quota = some q) (hq : q < maxSize) (hused : b.account.used ≤ q)
    (rows : List Row) : (feed rows (t, b)).1.scope.held ≤ q := by
  have hmoves := moves_feed rows (t, b)
  have huncut : Counter.Uncut b.account.quota (feed rows (t, b)).2.account.peak := by
    refine .inl fun q' hq' => ?_
    rw [hquota] at hq'
    cases hq'
    exact hq
  have hle := used_le_quota_feed (p := (t, b)) hquota hused rows
  have hsum : (feed rows (t, b)).2.account.used + t.scope.held =
      b.account.used + (feed rows (t, b)).1.scope.held :=
    hmoves.account.exact huncut (by rw [held, ht]; exact Nat.zero_le _)
  omega

/-! ## Which part is accounted

Both sides of the rule that what is buffered is accounted first: what it covers, and a run in which
the table retains more than its quota. -/

/-- What a table holds covers its keys, and its values as far as there is room for them. -/
theorem Paid.covers {t : GroupTable} (h : t.Paid) (hstandard : t.footprint = .standard) :
    t.keyBytes ≤ t.scope.held ∧
      (t.retained ≤ t.scope.held ↔
        t.valueBytes ≤ t.groups.length * Footprint.standard.group [] t.aggregates.size) ∧
      ∀ width, t.aggregates.Roomy width → t.Bounded width → t.retained ≤ t.scope.held := by
  have hsplit := h.held_eq
  rw [hstandard] at hsplit
  have hcovered : t.retained ≤ t.scope.held ↔
      t.valueBytes ≤ t.groups.length * Footprint.standard.group [] t.aggregates.size := by
    rw [hsplit, retained]
    omega
  refine ⟨by omega, hcovered, fun width hroomy hbounded => hcovered.2 ?_⟩
  exact Nat.le_trans hbounded.valueBytes_le (Nat.mul_le_mul_left _ hroomy)

/-- **What a table holds and what it retains.** However many rows a table took, whether they failed or
not and whoever else used the counters meanwhile: it holds the charge of each of its groups, which covers
all keys. The values that it remembers beside them are covered exactly if they fit into what the groups
were charged beside their keys; and that is so if no row shows it a value for which there is no room. A
quota bounds what is covered, and nothing else. -/
theorem retention (keys : List Nat) (s : Aggregates) :
    (∀ entries : List (Row × Budget),
      let t := (new keys s .standard).after entries
      t.scope.held = (t.groups.map fun g => Footprint.standard.group g.key s.size).sum ∧
      t.keyBytes ≤ t.scope.held ∧
      (t.retained ≤ t.scope.held ↔
        t.valueBytes ≤ t.groups.length * Footprint.standard.group [] s.size) ∧
      ∀ width, s.Roomy width → (∀ e ∈ entries, s.Fits width e.1) → t.retained ≤ t.scope.held) ∧
    ∀ (rows : List Row) (b : Budget) (q : Nat), b.account.quota = some q → q < maxSize →
      b.account.used ≤ q →
      let t := (feed rows (new keys s .standard, b)).1
      t.keyBytes ≤ q ∧
        ∀ width, s.Roomy width → (∀ row ∈ rows, s.Fits width row) → t.retained ≤ q := by
  have hbounded : ∀ (entries : List (Row × Budget)) (width : Nat),
      (∀ e ∈ entries, s.Fits width e.1) → ((new keys s .standard).after entries).Bounded width :=
    fun entries width hrows => Bounded.after (t := new keys s .standard) (fun _ hg => nomatch hg) hrows
  have hpaid : (new keys s .standard).Paid := rfl
  constructor
  · intro entries t
    obtain ⟨haggregates, hfootprint⟩ := same_after (new keys s .standard) entries
    have hheld : t.Paid := hpaid.after entries
    obtain ⟨hkeys, hcovered, hretained⟩ := hheld.covers hfootprint
    rw [Paid, hfootprint] at hheld
    rw [haggregates] at hheld hcovered hretained
    exact ⟨hheld, hkeys, hcovered, fun width hroomy hrows =>
      hretained width hroomy (hbounded entries width hrows)⟩
  · intro rows b q hquota hq hused t
    obtain ⟨entries, rfl, hfeed⟩ := feed_eq_after rows (new keys s .standard, b)
    obtain ⟨haggregates, hfootprint⟩ := same_after (new keys s .standard) entries
    have hheld : t.scope.held ≤ q := held_feed_le_quota rfl hquota hq hused _
    obtain ⟨hkeys, -, hretained⟩ := (hpaid.after entries).covers hfootprint
    rw [haggregates] at hretained
    rw [← hfeed] at hkeys hretained
    refine ⟨Nat.le_trans hkeys hheld, fun width hroomy hrows => Nat.le_trans ?_ hheld⟩
    have hfits : ∀ e ∈ entries, s.Fits width e.1 := fun e he => hrows e.1 (List.mem_map_of_mem he)
    exact hretained width hroomy (hfeed ▸ hbounded entries width hfits)

/-- The greatest value of a column for each key. -/
def latest : Aggregates := ⟨[⟨.max, [1]⟩], .iterFinal⟩

/-- A number under a key leaves the table within its quota. -/
theorem retention_number :
    let rows : List Row := [[.int64 1, .int64 7], [.int64 1, .int64 9]]
    let b : Budget := ⟨.unlimited "query", .new ⟨1⟩ (some 130)⟩
    (feed rows (new [0] latest .standard, b)).1.retained ≤ 130 := by
  intro rows b
  refine ((retention [0] latest).2 rows b 130 rfl (by decide) (Nat.zero_le _)).2 Scalar.inlineBytes
    (Aggregates.roomy_inlineBytes (by decide)) fun row hrow a ha _ v hv => ?_
  obtain rfl := List.mem_singleton.1 ha
  obtain rfl | rfl : row = [.int64 1, .int64 7] ∨ row = [.int64 1, .int64 9] := by
    simpa [rows] using hrow
  all_goals
    cases hv
    exact Nat.le_refl _

/-- **A payload is not paid for.** A table under a quota of 130 bytes takes a row with a payload of a
hundred bytes and retains 164 bytes, 128 of which it holds. -/
theorem retained_above_quota :
    let row : Row := [.int64 1, .bytes (List.replicate 100 0)]
    let b : Budget := ⟨.unlimited "query", .new ⟨1⟩ (some 130)⟩
    ∃ t b', accumulate row (new [0] latest .standard, b) = .ok () (t, b') ∧
      t.scope.held = 128 ∧ t.retained = 164 := by
  refine ⟨_, _, rfl, rfl, by decide⟩

end GroupTable

end RowStream
