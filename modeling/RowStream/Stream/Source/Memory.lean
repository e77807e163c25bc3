import RowStream.Stream.Iterator

/-!
# Rows in memory as a source

All rows are there from the start and are handed out page by page; the first page counts as
loaded.
-/

namespace RowStream

/-- Rows handed out in pages. -/
structure MemorySource where
  pageSize : Nat
  /-- The rows of the loaded pages that were not handed out yet. -/
  page : List Row
  /-- The rows of the pages to load. -/
  rest : List Row
  current : Row
  state : IteratorState
  pageSize_pos : 0 < pageSize

namespace MemorySource

/-- Rows in pages of a size; a page has at least one row. -/
def paged (rows : List Row) (size : Nat) : MemorySource where
  pageSize := max size 1
  page := rows.take (max size 1)
  rest := rows.drop (max size 1)
  current := []
  state := .notStarted
  pageSize_pos := by omega

/-- Rows in one page. -/
def ofRows (rows : List Row) : MemorySource := paged rows maxSize

def allLoaded (s : MemorySource) : Bool := s.rest.isEmpty

def moveNext : Running MemorySource Bool := fun (s, job) =>
  if s.state = .closed then .error .closed (s, job)
  else
    match s.page with
    | row :: page => .ok true ({ s with page, current := row, state := .hasNext }, job)
    | [] => .ok false ({ s with current := [], state := .idle s.allLoaded }, job)

def load : Running MemorySource Load := fun (s, job) =>
  if s.state = .closed then .error .closed (s, job)
  else if s.allLoaded then .error (.contract .allLoaded) (s, job)
  else
    .ok .ready ({ s with
      page := s.page ++ s.rest.take s.pageSize, rest := s.rest.drop s.pageSize }, job)

def close (s : MemorySource) (job : Job) : MemorySource × Job :=
  ({ s with page := [], rest := [], current := [], state := .closed }, job)

theorem ready_of_moveNext {s t : MemorySource} {job job' : Job} {b : Bool}
    (h : moveNext (s, job) = .ok b (t, job')) :
    t.page.length + b.toNat ≤ s.page.length ∧ t.rest.length ≤ s.rest.length := by
  unfold moveNext at h
  grind

theorem pages_of_load {s t : MemorySource} {job job' : Job}
    (h : load (s, job) = .ok .ready (t, job')) : t.rest.length < s.rest.length := by
  have := s.pageSize_pos
  have : ¬s.rest.isEmpty → 0 < s.rest.length := by simp [List.length_pos_iff]
  unfold load allLoaded at h
  grind

instance : BatchIterator MemorySource where
  moveNext := moveNext
  current := current
  allLoaded := allLoaded
  load := load
  close := close
  discard s job := (s, job)
  state := state
  ready s := s.page.length
  pages s := s.rest.length
  ready_of_moveNext h := (ready_of_moveNext h).1
  pages_of_moveNext h := (ready_of_moveNext h).2
  pages_of_load := pages_of_load

end MemorySource

end RowStream
