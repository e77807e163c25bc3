import Mathlib.Algebra.Order.Floor.Div
import RowStream.Proofs.Stream.Invariant
import RowStream.Stream.Source
import RowStream.Stream.Source.Counted

/-!
# What rows in memory are asked for

A source of rows in memory has its first page from the start and is asked for another when the pages before
are used up. So the rows and the pages that were asked of it tell how it stands, and the number of its rows
how often it can be asked.

* `Tally` — rows, pages and their number in step; `Tally.moveNext`, `Tally.load`.
* `MemoryBacked` — iterators that hand on what rows in memory answer.
* `Counted.Tallied`, `Counted.Used` — the same in the counters of a source; `Tallied.moveNext`, `Used.load`.
* `Counted.invariant` — so it is as long as the source is pulled, through whatever is over it.
-/

namespace RowStream

/-- So many rows, in pages of a size, of which some have been handed out and some pages were asked for. -/
structure Tally (n size : Nat) (m : MemorySource) (rows loads : Nat) : Prop where
  isOpen : m.state ≠ .closed
  pageSize : m.pageSize = size
  /-- No row is lost. -/
  all : rows + (m.page.length + m.rest.length) = n
  /-- So many rows were loaded, with the first page. -/
  loaded : rows + m.page.length = min n (loads * size + size)
  /-- A page is asked for when those before it are used up. -/
  used : loads * size ≤ rows
  /-- No page is asked for that has no rows. -/
  needed : loads = 0 ∨ loads * size < n

namespace Tally

variable {n size rows loads : Nat} {m : MemorySource}

theorem paged (rows : List Row) (size : Nat) :
    Tally rows.length (max size 1) (.paged rows size) 0 0 where
  isOpen := nofun
  pageSize := rfl
  all := by
    show 0 + ((rows.take _).length + (rows.drop _).length) = _
    rw [← List.length_append, List.take_append_drop, Nat.zero_add]
  loaded := by simp [MemorySource.paged, Nat.min_comm]
  used := by simp
  needed := .inl rfl

theorem allLoaded_eq (h : Tally n size m rows loads) :
    m.allLoaded = decide (n ≤ loads * size + size) := by
  have hall := h.all
  have hloaded := h.loaded
  rw [MemorySource.allLoaded, Bool.eq_iff_iff, List.isEmpty_iff_length_eq_zero, decide_eq_true_iff]
  omega

/-- A row is handed out, or the loaded pages are used up. -/
theorem moveNext (h : Tally n size m rows loads) (job : Job) :
    StepResult.Leaves (fun more m' => Tally n size m' (rows + more.toNat) loads ∧
      (more = false → rows = min n (loads * size + size))) (fun _ => False)
      (MemorySource.moveNext (m, job)) := by
  have hall := h.all
  have hloaded := h.loaded
  have hused := h.used
  unfold MemorySource.moveNext
  simp only [if_neg h.isOpen]
  cases hpage : m.page with
  | nil =>
    rw [hpage, List.length_nil] at hall hloaded
    exact ⟨⟨(IteratorState.idle_ne _).1, h.pageSize, hall, hloaded, hused, h.needed⟩, fun _ => hloaded⟩
  | cons row page =>
    rw [hpage, List.length_cons] at hall hloaded
    refine ⟨⟨IteratorState.hasNext_ne.1, h.pageSize, ?_, ?_, Nat.le_succ_of_le hused, h.needed⟩,
      fun hend => absurd hend Bool.true_eq_false.mp⟩ <;>
    · simp only [Bool.toNat_true]
      omega

/-- Once they are, the next page is as large as the size says, or the last. -/
theorem load (h : Tally n size m rows loads) (hmore : m.allLoaded = false)
    (hrows : rows = min n (loads * size + size)) (job : Job) :
    StepResult.Leaves (fun progress m' => progress = .ready ∧ Tally n size m' rows (loads + 1) ∧
      m'.page.length + m'.rest.length = m.page.length + m.rest.length) (fun _ => False)
      (MemorySource.load (m, job)) := by
  have hall := h.all
  have hloaded := h.loaded
  -- there are rows after those that were loaded, so the page that comes is not empty
  have hlt : loads * size + size < n := by
    rw [h.allLoaded_eq] at hmore
    simpa using hmore
  have hsize := h.pageSize
  have hpages : (loads + 1) * size = loads * size + size := Nat.succ_mul loads size
  unfold MemorySource.load
  simp only [if_neg h.isOpen, hmore]
  have hpage : (m.page ++ m.rest.take m.pageSize).length = m.page.length + min size m.rest.length := by
    rw [List.length_append, List.length_take, hsize]
  have hrest : (m.rest.drop m.pageSize).length = m.rest.length - size := by
    rw [List.length_drop, hsize]
  refine ⟨rfl, ⟨h.isOpen, hsize, ?_, ?_, ?_, ?_⟩, ?_⟩
  · rw [hpage, hrest]
    omega
  · rw [hpage]
    omega
  · omega
  · omega
  · rw [hpage, hrest]
    omega

/-- So many pages are asked for if the last of them has rows that are asked for. -/
theorem loads_eq (hneeded : loads = 0 ∨ loads * size < rows) (hrows : rows ≤ loads * size + size)
    (hsize : 0 < size) : loads = max 1 (rows ⌈/⌉ size) - 1 := by
  -- with the first page, so many pages suffice, and one fewer does not
  have hle : rows ⌈/⌉ size ≤ loads + 1 := by
    rw [ceilDiv_le_iff_le_mul hsize, Nat.mul_succ, Nat.mul_comm]
    exact hrows
  obtain rfl | hlt := hneeded
  · omega
  · have hge : loads < rows ⌈/⌉ size := by
      rw [← not_le, ceilDiv_le_iff_le_mul hsize, Nat.mul_comm, not_le]
      exact hlt
    omega

theorem loads_le (hneeded : loads = 0 ∨ loads * size < n) (hsize : 0 < size) :
    loads ≤ max 1 (n ⌈/⌉ size) - 1 := by
  obtain rfl | hlt := hneeded
  · exact Nat.zero_le _
  · have hge : loads < n ⌈/⌉ size := by
      rw [← not_le, ceilDiv_le_iff_le_mul hsize, Nat.mul_comm, not_le]
      exact hlt
    omega

end Tally

/-! ## Sources over rows in memory

The invariant of a counted source: its counters tell how many rows have been handed out and how many
pages were loaded, and no page was loaded before the ones before it were used up. -/

/-- How an iterator hands on what rows in memory answer. -/
structure MemoryBacked (β : Type) [BatchIterator β] where
  holds : β → MemorySource → Prop
  moveNext_spec {s : β} {m : MemorySource} : holds s m → ∀ job, ∃ (whole : MemorySource → β) (job' : Job),
    BatchIterator.moveNext (s, job) = StepResult.within whole (MemorySource.moveNext (m, job')) ∧
      ∀ m', holds (whole m') m'
  load_spec {s : β} {m : MemorySource} : holds s m → ∀ job, ∃ (whole : MemorySource → β) (job' : Job),
    BatchIterator.load (s, job) = StepResult.within whole (MemorySource.load (m, job')) ∧
      ∀ m', holds (whole m') m'
  allLoaded_eq {s : β} {m : MemorySource} : holds s m → BatchIterator.allLoaded s = m.allLoaded
  ready_eq {s : β} {m : MemorySource} : holds s m → BatchIterator.ready s = m.page.length
  pages_eq {s : β} {m : MemorySource} : holds s m → BatchIterator.pages s = m.rest.length

/-- The sources of the engine that are rows in memory. -/
def Source.memoryBacked : MemoryBacked Source where
  holds s m := s = .memory m
  moveNext_spec := by
    rintro _ m rfl job
    exact ⟨memory, job, rfl, fun _ => rfl⟩
  load_spec := by
    rintro _ m rfl job
    exact ⟨memory, job, rfl, fun _ => rfl⟩
  allLoaded_eq := by
    rintro _ m rfl
    rfl
  ready_eq := by
    rintro _ m rfl
    rfl
  pages_eq := by
    rintro _ m rfl
    rfl

namespace Counted

variable {β : Type} [BatchIterator β] (B : MemoryBacked β) (n size : Nat)

/-- A counted source whose counters tell how its rows in memory stand. -/
def Tallied (s : Counted β) : Prop := ∃ m, B.holds s.source m ∧ Tally n size m s.rows s.loads

/-- The loaded pages are used up, and there is another. -/
def Used (s : Counted β) : Prop :=
  Tallied B n size s ∧ BatchIterator.allLoaded s = false ∧ s.rows = min n (s.loads * size + size)

variable {B n size} {s : Counted β}

theorem tallied_new {source : β} {rows : List Row} (h : B.holds source (.paged rows size)) :
    Tallied B rows.length (max size 1) (.new source) :=
  ⟨_, h, .paged rows size⟩

namespace Tallied

theorem rows_le (h : Tallied B n size s) : s.rows ≤ min n (s.loads * size + size) := by
  obtain ⟨m, -, htally⟩ := h
  exact htally.loaded ▸ Nat.le_add_right _ _

theorem used (h : Tallied B n size s) : s.loads * size ≤ s.rows := by
  obtain ⟨m, -, htally⟩ := h
  exact htally.used

theorem needed (h : Tallied B n size s) : s.loads = 0 ∨ s.loads * size < n := by
  obtain ⟨m, -, htally⟩ := h
  exact htally.needed

theorem allLoaded_eq (h : Tallied B n size s) :
    BatchIterator.allLoaded s = decide (n ≤ s.loads * size + size) := by
  obtain ⟨m, hm, htally⟩ := h
  exact (B.allLoaded_eq hm).trans htally.allLoaded_eq

theorem moveNext (h : Tallied B n size s) (job : Job) :
    StepResult.Leaves (fun more t => Tallied B n size t ∧ t.rows = s.rows + more.toNat ∧
      t.loads = s.loads ∧ (more = false → t.rows = min n (t.loads * size + size))) (fun _ => False)
      (BatchIterator.moveNext (s, job)) := by
  obtain ⟨m, hm, htally⟩ := h
  obtain ⟨whole, job', hmove, hwhole⟩ := B.moveNext_spec hm job
  have hstep := htally.moveNext job'
  show StepResult.Leaves _ _ (Counted.moveNext (s, job))
  simp only [Counted.moveNext, hmove]
  rcases hrun : MemorySource.moveNext (m, job') with ⟨more, m', job''⟩ | ⟨e, m', job''⟩ <;>
    rw [hrun] at hstep
  · obtain ⟨htally', hrows⟩ := hstep
    refine ⟨⟨m', hwhole m', htally'⟩, rfl, rfl, ?_⟩
    rintro rfl
    exact hrows rfl
  · exact hstep

/-- Where the loaded pages are used up, all are loaded, or there is another. -/
theorem leaves_moveNext (h : Tallied B n size s) (job : Job) :
    StepResult.Leaves (fun more t => if more then Tallied B n size t
      else if BatchIterator.allLoaded t then Tallied B n size t else Used B n size t)
      (fun t => t.loads = 0 ∨ t.loads * size < n) (BatchIterator.moveNext (s, job)) := by
  refine (h.moveNext job).mono (fun more t hstep => ?_) fun _ => False.elim
  obtain ⟨htallied, -, -, hrows⟩ := hstep
  cases more with
  | true => exact htallied
  | false =>
    cases hall : BatchIterator.allLoaded t with
    | true => exact htallied
    | false => exact ⟨htallied, hall, hrows rfl⟩

end Tallied

namespace Used

theorem load (h : Used B n size s) (job : Job) :
    StepResult.Leaves (fun progress t => progress = .ready ∧ Tallied B n size t ∧ t.rows = s.rows ∧
      t.loads = s.loads + 1 ∧ BatchIterator.ready t + BatchIterator.pages t =
        BatchIterator.ready s + BatchIterator.pages s) (fun _ => False)
      (BatchIterator.load (s, job)) := by
  obtain ⟨⟨m, hm, htally⟩, hmore, hrows⟩ := h
  obtain ⟨whole, job', hload, hwhole⟩ := B.load_spec hm job
  have hstep := htally.load ((B.allLoaded_eq hm).symm.trans hmore) hrows job'
  show StepResult.Leaves _ _ (Counted.load (s, job))
  simp only [Counted.load, hload]
  rcases hrun : MemorySource.load (m, job') with ⟨progress, m', job''⟩ | ⟨e, m', job''⟩ <;>
    rw [hrun] at hstep
  · obtain ⟨hready, htally', hlength⟩ := hstep
    refine ⟨hready, ⟨m', hwhole m', htally'⟩, rfl, rfl, ?_⟩
    show BatchIterator.ready (whole m') + BatchIterator.pages (whole m') =
      BatchIterator.ready s.source + BatchIterator.pages s.source
    rw [B.ready_eq (hwhole m'), B.pages_eq (hwhole m'), B.ready_eq hm, B.pages_eq hm]
    exact hlength
  · exact hstep

theorem leaves_load (h : Used B n size s) (job : Job) :
    StepResult.Leaves (fun progress t => progress = .ready ∧ Tallied B n size t ∧
      BatchIterator.ready t + BatchIterator.pages t ≤ BatchIterator.ready s + BatchIterator.pages s)
      (fun t => t.loads = 0 ∨ t.loads * size < n) (BatchIterator.load (s, job)) := by
  refine (h.load job).mono (fun progress t hstep => ?_) fun _ => False.elim
  obtain ⟨hready, htallied, -, -, hleft⟩ := hstep
  exact ⟨hready, htallied, hleft.le⟩

end Used

/-- **No page is asked for that has no rows**, as long as a source is pulled. -/
def invariant (B : MemoryBacked β) (n size : Nat) : PullInvariant (Counted β) where
  live := Tallied B n size
  waiting := Used B n size
  ended := Tallied B n size
  kept s := s.loads = 0 ∨ s.loads * size < n
  moveNext_spec := Tallied.leaves_moveNext
  load_spec := Used.leaves_load
  kept_of_live h := h.needed
  kept_of_waiting h := h.1.needed
  kept_of_ended h := h.needed

end Counted

end RowStream
