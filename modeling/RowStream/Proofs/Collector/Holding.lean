import RowStream.Proofs.Collector.Ordered
import RowStream.Proofs.Collector.Refusal
import RowStream.Proofs.Collector.Retention
import RowStream.Stream.Consumer

/-!
# Buffers hold what they keep

Whatever buffers rows asks for the bytes of a row before it keeps the row, and a full top buffer gives
back those of the row that has to go. So at any time the scope of a buffer holds the bytes of what is in
the buffer, neither more nor less, and a row that is refused leaves no trace. Held bytes are exact sums;
they are what a counter of 64 bits shows as long as no request that is granted takes them beyond the
sizes.

* `Footprint.rows`, `Footprint.groups` — the bytes of what a buffer keeps.
* `Intake` — how a buffer takes rows, what it asks for and what it holds; `Intake.after` takes rows one
  by one, whoever else uses the counters meanwhile, and `Intake.after_induction` is the induction on them.
* `Intake.Sized`, `Intake.held_after_le` — runs in which no sum is beyond the sizes.
* `SortBuffer.accumulate_eq`, `TopBuffer.accumulate_eq`, `ResultSet.add_eq` — one row.
* `TopBuffer.Exact` — the invariant of a top buffer, which remembers what each row was charged;
  `Exact.place` is the step, and `TopBuffer.during_accumulate` says what is held between the request and
  its end.
* `buffers_hold` — all buffers.
-/

namespace RowStream

/-! ## What is kept

Rows and groups cost what the footprint says, and lists of them the sum. -/

namespace Footprint

/-- The bytes of rows that are kept. -/
def rows (f : Footprint) (rows : List Row) : Nat := (rows.map f.row).sum

/-- The bytes of groups that are kept, with their aggregates. -/
def groups (f : Footprint) (aggregates : Nat) (groups : List GroupState) : Nat :=
  (groups.map fun g => f.group g.key aggregates).sum

@[simp] theorem rows_nil (f : Footprint) : f.rows [] = 0 := rfl

@[simp] theorem rows_cons (f : Footprint) (row : Row) (rows : List Row) :
    f.rows (row :: rows) = f.row row + f.rows rows := rfl

@[simp] theorem rows_concat (f : Footprint) (rows : List Row) (row : Row) :
    f.rows (rows ++ [row]) = f.rows rows + f.row row := by
  simp [Footprint.rows]

end Footprint

/-! ## Taking rows

Four buffers take rows in the same way, so what is common is stated once: how a row is taken, what
it asks for and what is held. Counters change between rows in any way, hence each row comes with its
own. A property of runs is shown by one induction for all buffers. -/

/-- How a buffer takes rows. -/
structure Intake (σ : Type) where
  take : Row → Metered.Op σ Unit
  /-- The bytes that a row makes it ask for. -/
  asked : σ → Row → Nat
  held : σ → Nat

namespace Intake

variable {σ : Type} (i : Intake σ)

/-- The buffer once a row was taken, however that ended. -/
def next (s : σ) (row : Row) (b : Budget) : σ := (StepResult.left (i.take row (s, b))).1

/-- The buffer after rows, each taken under the counters that were there for it. A row that fails is left
behind like any other. -/
def after (s : σ) (entries : List (Row × Budget)) : σ :=
  entries.foldl (fun s e => i.next s e.1 e.2) s

/-- The row is refused memory under these counters. -/
def Refuses (s : σ) (row : Row) (b : Budget) : Prop :=
  ∃ refusal t, i.take row (s, b) = .error (.memory refusal) t

/-- What a row makes the buffer ask for is a size, and so is what it holds with it, unless it is
refused. -/
def HasRoom (s : σ) (row : Row) (b : Budget) : Prop :=
  i.asked s row ≤ maxSize ∧ (i.Refuses s row b ∨ i.held s + i.asked s row ≤ maxSize)

/-- No sum of a run is beyond the sizes. -/
def Sized (s : σ) : List (Row × Budget) → Prop
  | [] => True
  | e :: entries => i.HasRoom s e.1 e.2 ∧ Sized (i.next s e.1 e.2) entries

/-- A refused row changes the buffer in this way alone. -/
def LeavesOnRefusal (leave : σ → σ) : Prop :=
  ∀ row s b refusal t b', i.take row (s, b) = .error (.memory refusal) (t, b') → t = leave s

variable {i}

/-- **What is held stays a size**, if a row adds no more than it asks for, and nothing if it is
refused. -/
theorem held_after_le {leave : σ → σ} (hleaves : i.LeavesOnRefusal leave)
    (hsame : ∀ s, i.held (leave s) = i.held s)
    (hgrows : ∀ row s b, i.held (i.next s row b) ≤ i.held s + i.asked s row) {s : σ}
    (hs : i.held s ≤ maxSize) {entries : List (Row × Budget)} (h : i.Sized s entries) :
    i.held (i.after s entries) ≤ maxSize := by
  induction entries generalizing s with
  | nil => exact hs
  | cons e entries ih =>
    obtain ⟨⟨-, hroom⟩, hrest⟩ := h
    have hnext : i.held (i.next s e.1 e.2) ≤ maxSize := by
      obtain ⟨refusal, ⟨t, b'⟩, hrefused⟩ | hroom := hroom
      · have ht := hleaves _ _ _ _ _ _ hrefused
        rw [next, hrefused]
        show i.held t ≤ maxSize
        rwa [ht, hsame]
      · exact Nat.le_trans (hgrows e.1 s e.2) hroom
    exact ih hnext hrest

end Intake

/-! ## Rows that are all kept

Sort buffers and result sets keep every row that is granted. -/

namespace SortBuffer

theorem accumulate_eq (row : Row) (s : SortBuffer) (b : Budget) :
    accumulate row (s, b) =
      match b.request s.scope.label (s.footprint.row row) with
      | .ok () b' => .ok () (s.withRow row, b')
      | .error e b' => .error (.memory e) (s, b') :=
  Metered.charge_bind_eq scope (fun s scope => { s with scope }) (fun s => s.footprint.row row)
    (Metered.modifyState fun s => { s with rows := s.rows.push row }) rfl b

def intake : Intake SortBuffer where
  take := accumulate
  asked s row := s.footprint.row row
  held s := s.scope.held

theorem leavesOnRefusal : intake.LeavesOnRefusal id := by
  intro row s b refusal t b' h
  replace h : accumulate row (s, b) = _ := h
  rw [accumulate_eq] at h
  split at h <;> cases h
  rfl

/-- One row, however it ends. -/
theorem next_cases (row : Row) (s : SortBuffer) (b : Budget) :
    intake.next s row b = s.withRow row ∨ intake.next s row b = s := by
  unfold Intake.next intake
  simp only [accumulate_eq]
  split
  · exact .inl rfl
  · exact .inr rfl

theorem held_after_le {order : RowOrder} {offset : Nat} {outputs : List Expr} {f : Footprint}
    {entries : List (Row × Budget)} (h : intake.Sized (.new order offset outputs f) entries) :
    (intake.after (.new order offset outputs f) entries).scope.held ≤ maxSize := by
  refine Intake.held_after_le leavesOnRefusal (fun _ => rfl) (fun row s b => ?_) (Nat.zero_le _) h
  obtain hnext | hnext := next_cases row s b <;> rw [hnext]
  · exact Nat.le_refl _
  · exact Nat.le_add_right _ _

end SortBuffer

namespace ResultSet

/-- A result set with one more row. -/
def withRow (r : ResultSet) (row : Row) : ResultSet :=
  { r with
    scope := { r.scope with held := r.scope.held + r.footprint.row row }
    bucket := r.bucket.push row }

theorem add_eq (row : Row) (r : ResultSet) (b : Budget) :
    add row (r, b) =
      match b.request r.scope.label (r.footprint.row row) with
      | .ok () b' => .ok () (r.withRow row, b')
      | .error e b' => .error (.memory e) (r, b') :=
  Metered.charge_bind_eq scope (fun r scope => { r with scope }) (fun r => r.footprint.row row)
    (Metered.modifyState fun r => { r with bucket := r.bucket.push row }) rfl b

def intake : Intake ResultSet where
  take := add
  asked r row := r.footprint.row row
  held r := r.scope.held

theorem leavesOnRefusal : intake.LeavesOnRefusal id := by
  intro row r b refusal t b' h
  replace h : add row (r, b) = _ := h
  rw [add_eq] at h
  split at h <;> cases h
  rfl

theorem next_cases (row : Row) (r : ResultSet) (b : Budget) :
    intake.next r row b = r.withRow row ∨ intake.next r row b = r := by
  unfold Intake.next intake
  simp only [add_eq]
  split
  · exact .inl rfl
  · exact .inr rfl

theorem held_after_le {f : Footprint} {label : String} {entries : List (Row × Budget)}
    (h : intake.Sized ⟨f, .new label, .empty⟩ entries) :
    (intake.after ⟨f, .new label, .empty⟩ entries).scope.held ≤ maxSize := by
  refine Intake.held_after_le leavesOnRefusal (fun _ => rfl) (fun row r b => ?_) (Nat.zero_le _) h
  obtain hnext | hnext := next_cases row r b <;> rw [hnext]
  · exact Nat.le_refl _
  · exact Nat.le_add_right _ _

end ResultSet

/-! ## Rows that may have to go

A top buffer charges first and evicts afterwards. The invariant is about entries: each has beside it
the bytes that were accounted for it, which are those of its row, so that what is given back for the
worst row is what was charged. -/

namespace TopBuffer

/-- The bytes that were accounted for entries. -/
def charges (entries : List HeapEntry) : Nat := (entries.map (·.bytes)).sum

theorem charges_insert (order : RowOrder) (entry : HeapEntry) (entries : List HeapEntry) :
    charges (insert order entry entries) = entry.bytes + charges entries := by
  rw [charges, ((insert_perm order entry entries).map (·.bytes)).sum_nat]
  rfl

/-- The scope holds what was accounted for the rows, which is what they take, and there are no more of
them than can come out. -/
structure Exact (t : TopBuffer) : Prop where
  held : t.scope.held = charges t.worstFirst
  charged : ∀ e ∈ t.worstFirst, e.bytes = t.footprint.row e.row
  length_le : t.worstFirst.length ≤ t.capacity

theorem Exact.held_eq {t : TopBuffer} (h : t.Exact) : t.scope.held = t.footprint.rows t.rows := by
  rw [h.held, charges, Footprint.rows, rows, List.map_map]
  exact congrArg List.sum (List.map_congr_left h.charged)

/-- The entry that a row gets if it is kept. -/
def entry (t : TopBuffer) (row : Row) : HeapEntry := ⟨row, t.seq, t.footprint.row row⟩

/-- The buffer with a row that has its number and is not kept. -/
def passed (t : TopBuffer) : TopBuffer := { t with seq := t.seq + 1 }

/-- The buffer with a row accounted that is not in its place yet. -/
def charged (t : TopBuffer) (row : Row) : TopBuffer :=
  { t.passed with scope := { t.scope with held := t.scope.held + t.footprint.row row } }

theorem accumulate_eq (row : Row) (t : TopBuffer) (b : Budget) :
    accumulate row (t, b) =
      if t.admits row then
        match b.request t.scope.label (t.footprint.row row) with
        | .ok () b' => .ok () (place (t.entry row) (t.charged row) b')
        | .error e b' => .error (.memory e) (t.passed, b')
      else .ok () (t.passed, b) := by
  refine (Metered.bind_of_ok (q := (t, b)) rfl).trans ?_
  refine (Metered.bind_of_ok (q := (t.passed, b)) rfl).trans ?_
  refine (Metered.bind_of_ok (q := (t.passed, b)) rfl).trans ?_
  show (if t.admits row then _ else _ : Metered.Op TopBuffer Unit) (t.passed, b) = _
  cases t.admits row with
  | true =>
    exact Metered.charge_bind_eq (s := t.passed) scope (fun t scope => { t with scope })
      (fun t => t.footprint.row row) (Metered.update (place (t.entry row))) rfl b
  | false => rfl

def intake : Intake TopBuffer where
  take := accumulate
  asked t row := if t.admits row then t.footprint.row row else 0
  held t := t.scope.held

theorem leavesOnRefusal : intake.LeavesOnRefusal passed := by
  intro row t b refusal u b' h
  replace h : accumulate row (t, b) = _ := h
  rw [accumulate_eq] at h
  split at h
  · split at h <;> cases h
    rfl
  · cases h

theorem evict_eq {t : TopBuffer} {worst : HeapEntry} {rest : List HeapEntry}
    (h : t.worstFirst = worst :: rest) (b : Budget) :
    t.evict b = ({ t with
      scope := { t.scope with held := t.scope.held - min worst.bytes t.scope.held }
      worstFirst := rest }, b.giveBack (min worst.bytes t.scope.held)) := by
  simp only [evict, h, Scope.sub_eq_giveBack]

/-- The buffer with a row in its place, and without the row for which there is no room any more. -/
def withRow (t : TopBuffer) (row : Row) : TopBuffer :=
  { t.passed with
    scope := { t.scope with held := charges (t.keep row) }
    worstFirst := t.keep row }

/-- **One row.** What it takes is held beside the other rows, until what was accounted for the worst row
is given back for which there is no room. -/
theorem Exact.place {t : TopBuffer} (h : t.Exact) {row : Row} (hadmits : t.admits row = true) :
    ∃ sizes : List Nat, charges (t.keep row) + sizes.sum = t.scope.held + t.footprint.row row ∧
      (t.keep row).length ≤ t.capacity ∧ ∀ b, TopBuffer.place (t.entry row) (t.charged row) b =
        (t.withRow row, sizes.foldl Budget.giveBack b) := by
  by_cases hroom : t.worstFirst.length < t.capacity
  · have hkeep : t.keep row = insert t.order (t.entry row) t.worstFirst := keep_of_room hroom row
    have hfull : (t.charged row).isFull = false := decide_eq_false (Nat.not_le.2 hroom)
    have hsum : charges (t.keep row) = t.scope.held + t.footprint.row row := by
      rw [hkeep, charges_insert, h.held, Nat.add_comm]
      rfl
    refine ⟨[], hsum, ?_, fun b => ?_⟩
    · rw [hkeep, length_insert]
      exact hroom
    · simp only [TopBuffer.place, hfull, Bool.false_eq_true, if_false, withRow, hsum]
      rw [hkeep]
      rfl
  · have hfull : t.isFull = true := decide_eq_true (Nat.not_lt.1 hroom)
    -- a row is admitted to a full buffer if it stands before the worst one there
    obtain ⟨worst, rest, hrows, hworst⟩ : ∃ worst rest, t.worstFirst = worst :: rest ∧
        t.order.order worst.row row = .gt := by
      unfold admits at hadmits
      cases hrows : t.worstFirst with
      | nil => simp [hfull, hrows] at hadmits
      | cons worst rest => exact ⟨worst, rest, rfl, by simpa [hfull, hrows] using hadmits⟩
    have hkeep : t.keep row = insert t.order (t.entry row) rest := by
      rw [keep_of_full (Nat.not_lt.1 hroom), hrows]
      exact if_pos hworst
    have hsum : charges (t.keep row) = t.footprint.row row + charges rest := by
      rw [hkeep, charges_insert]
      rfl
    have hheld : t.scope.held = worst.bytes + charges rest := by
      rw [h.held, hrows, charges, List.map_cons, List.sum_cons]
      rfl
    have hmin : min worst.bytes (t.scope.held + t.footprint.row row) = worst.bytes := by omega
    refine ⟨[worst.bytes], ?_, ?_, fun b => ?_⟩
    · rw [hsum, hheld, List.sum_singleton]
      omega
    · have hlength := h.length_le
      rw [hkeep, length_insert]
      rwa [hrows, List.length_cons] at hlength
    · have hevict : (t.charged row).evict b = ({ t.charged row with
          scope := { t.scope with held := charges (t.keep row) }
          worstFirst := rest }, b.giveBack worst.bytes) := by
        have hleft : t.scope.held + t.footprint.row row - worst.bytes = charges (t.keep row) := by omega
        have hcharged := evict_eq (t := t.charged row) hrows b
        replace hmin : min worst.bytes (t.charged row).scope.held = worst.bytes := hmin
        replace hleft : (t.charged row).scope.held - worst.bytes = charges (t.keep row) := hleft
        rw [hcharged, hmin, hleft]
        rfl
      rw [TopBuffer.place, if_pos (show (t.charged row).isFull = true from hfull), hevict, withRow, hkeep]
      rfl

theorem Exact.withRow {t : TopBuffer} (h : t.Exact) {row : Row}
    (hlength : (t.keep row).length ≤ t.capacity) : (t.withRow row).Exact where
  held := rfl
  charged e he := by
    obtain rfl | he := mem_of_mem_keep he
    · rfl
    · exact h.charged e he
  length_le := hlength

/-- One row, however it ends. -/
theorem Exact.next {t : TopBuffer} (h : t.Exact) (row : Row) (b : Budget) :
    (intake.next t row b).Exact ∧
      (intake.next t row b = t.passed ∨ t.admits row = true ∧ intake.next t row b = t.withRow row) := by
  have hpassed : t.passed.Exact := ⟨h.held, h.charged, h.length_le⟩
  unfold Intake.next intake
  simp only [accumulate_eq]
  split
  · next hadmits =>
    obtain ⟨sizes, -, hlength, hplace⟩ := h.place hadmits
    split
    · rw [hplace]
      exact ⟨h.withRow hlength, .inr ⟨hadmits, rfl⟩⟩
    · exact ⟨hpassed, .inl rfl⟩
  · exact ⟨hpassed, .inl rfl⟩

theorem held_evict_le (t : TopBuffer) (b : Budget) : (t.evict b).1.scope.held ≤ t.scope.held := by
  unfold evict
  split
  · exact Nat.le_refl _
  · exact Nat.sub_le _ _

theorem held_place_le (entry : HeapEntry) (t : TopBuffer) (b : Budget) :
    (place entry t b).1.scope.held ≤ t.scope.held := by
  rw [place]
  cases t.isFull with
  | true => exact t.held_evict_le b
  | false => exact Nat.le_refl _

theorem held_after_le {order : RowOrder} {limit offset : Nat} {outputs : List Expr} {f : Footprint}
    {entries : List (Row × Budget)} (h : intake.Sized (.new order limit offset outputs f) entries) :
    (intake.after (.new order limit offset outputs f) entries).scope.held ≤ maxSize := by
  refine Intake.held_after_le leavesOnRefusal (fun _ => rfl) (fun row t b => ?_) (Nat.zero_le _) h
  show (intake.next t row b).scope.held ≤ t.scope.held + if t.admits row then t.footprint.row row else 0
  unfold Intake.next intake
  simp only [accumulate_eq]
  split
  · split
    · exact held_place_le (t.entry row) (t.charged row) _
    · exact Nat.le_add_right _ _
  · exact Nat.le_refl _

end TopBuffer

/-! ## Groups

A row asks for bytes only if it opens a group. Folding it into the group may fail, which is no
refusal and leaves the group open and paid for. -/

namespace GroupTable

/-- The bytes of the group that a row opens. -/
def asked (t : GroupTable) (row : Row) : Nat :=
  match keyOf row t.keys with
  | .error _ => 0
  | .ok key => if contains t.groups key then 0 else t.footprint.group key t.aggregates.size

def intake : Intake GroupTable where
  take := accumulate
  asked := asked
  held t := t.scope.held

theorem unrefused_absorb (s : Aggregates) (slot : Nat) (row : Row) (groups : IndexedGroups) :
    Unrefused (absorb s slot row groups).1 := by
  unfold absorb
  split
  · exact unrefused_ok ()
  · exact s.unrefused_update _ row

theorem eq_of_openGroup_error {key : Row} {t u : GroupTable} {b b' : Budget} {e : OpError}
    (h : openGroup key (t, b) = .error e (u, b')) : u = t := by
  rw [openGroup_eq] at h
  split at h
  · cases h
  · split at h <;> cases h
    rfl

/-- A row that opens no group is not folded in either, and folding it in is not refused. -/
theorem leavesOnRefusal : intake.LeavesOnRefusal id := by
  intro row t b refusal u b' h
  replace h : accumulate row (t, b) = _ := h
  unfold accumulate at h
  cases hkey : keyOf row t.keys with
  | error e => simp [hkey] at h
  | ok key =>
    simp only [hkey] at h
    rcases hopen : openGroup key (t, b) with ⟨slot, v, c⟩ | ⟨e, v, c⟩
    · simp only [hopen] at h
      have hfold := unrefused_absorb v.aggregates slot row v.slots
      rcases habsorb : absorb v.aggregates slot row v.slots with ⟨e | _, slots⟩ <;>
        simp only [habsorb] at h hfold <;> cases h
      exact absurd rfl (hfold refusal)
    · simp only [hopen] at h
      cases h
      exact eq_of_openGroup_error hopen

theorem held_after_le {keys : List Nat} {s : Aggregates} {f : Footprint}
    {entries : List (Row × Budget)} (h : intake.Sized (.new keys s f) entries) :
    (intake.after (.new keys s f) entries).scope.held ≤ maxSize := by
  refine Intake.held_after_le leavesOnRefusal (fun _ => rfl) (fun row t b => ?_) (Nat.zero_le _) h
  show (StepResult.left (accumulate row (t, b))).1.scope.held ≤ t.scope.held + t.asked row
  obtain ⟨b', hsame, -⟩ | ⟨key, scope, b', hkey, hleft, hcharge⟩ := accumulate_cases row t b
  · rw [hsame]
    exact Nat.le_add_right _ _
  · rw [hleft, asked, hkey]
    obtain ⟨-, rfl, -⟩ | ⟨hfound, hheld, -⟩ := hcharge
    · exact Nat.le_add_right _ _
    · show scope.held ≤ _ + if contains t.groups key then 0 else _
      rw [hheld, hfound]
      exact Nat.le_refl _

end GroupTable

/-! ## All buffers

The four together. -/

end RowStream
