import RowStream.Proofs.Stream.Simulation
import RowStream.Stream.Source

/-!
# Supplies

A supply is a source together with all that will ever arrive at it. Rows in memory and a source
that fails have everything from the start; a channel is also sent messages while the job waits for
it, split into batches in any way, until its producers have left.

* `Supply` — the sources that a job can be started over.
* `Supply.flow` — their rows and how they end, whatever the pages and batches are.
* `Source.simulation` — sources hand out that flow, row by row.
-/

namespace RowStream

/-! ## What arrives at a channel

A channel is not a list of rows. All that its producers will send is taken together with it, in any
batches and at any times, and its flow is what the messages hold up to the first failure. -/

/-- The rows of messages, up to the first failure. -/
def Flow.ofMessages : List Message → Flow
  | [] => .ended
  | .batch rows :: ms => (ofMessages ms).prepend rows
  | .failure reason :: _ => .failed (.sourceFailed reason)

/-- Messages that arrive while the source is waited for, and how many producers there are then. -/
structure Arrival where
  messages : List Message
  producers : Nat

namespace Arrival

/-- Puts the messages of an arrival into a channel. -/
def reach (a : Arrival) (c : Channel) : Channel :=
  { c with queue := c.queue ++ a.messages, producers := a.producers }

/-- Producers are there until the last arrival, and none is left after it. -/
def Complete : Nat → List Arrival → Prop
  | producers, [] => producers = 0
  | producers, a :: as => 0 < producers ∧ Complete a.producers as

instance decidableComplete : (producers : Nat) → (as : List Arrival) →
    Decidable (Complete producers as)
  | producers, [] => inferInstanceAs (Decidable (producers = 0))
  | producers, a :: as =>
    letI := decidableComplete a.producers as
    inferInstanceAs (Decidable (0 < producers ∧ Complete a.producers as))

end Arrival

/-- A source and all that will arrive at it. -/
inductive Supply where
  | memory (rows : List Row) (pageSize : Nat)
  | failing (rows : List Row) (reason : String)
  | channel (capacity : Nat) (sent : List Message) (producers : Nat) (later : List Arrival)
    (complete : Arrival.Complete producers later)

namespace Supply

/-- The source as a job finds it. -/
def source : Supply → Source
  | memory rows pageSize => .memory (.paged rows pageSize)
  | failing rows reason => .failing (.new rows reason)
  | channel capacity sent producers _ _ => .channel (.new ⟨capacity, sent, producers, true⟩)

/-- What arrives, each time the source is waited for. -/
def arrivals : Supply → List Arrival
  | channel _ _ _ later _ => later
  | _ => []

/-- All rows, and how they end. -/
def flow : Supply → Flow
  | memory rows _ => ⟨rows, none⟩
  | failing rows reason => ⟨rows, some (.sourceFailed reason)⟩
  | channel _ sent _ later _ => .ofMessages (sent ++ later.flatMap Arrival.messages)

end Supply

/-- A source of messages that is open hands out the rows of its batch. -/
theorem MailboxSource.moveNext_eq {Q : Type} {s : MailboxSource Q} (hclosed : s.state ≠ .closed)
    (hfailed : s.state ≠ .failed) (job : Job) :
    moveNext (s, job) =
      match s.page with
      | row :: page => .ok true ({ s with page, current := row, state := .hasNext }, job)
      | [] => .ok false ({ s with current := [], state := .idle s.finished }, job) := by
  obtain ⟨channel, page, current, finished, state⟩ := s
  cases state with
  | closed => exact absurd rfl hclosed
  | failed => exact absurd rfl hfailed
  | _ => cases page <;> rfl

/-! ## Sources as flows

Which flow a source will still hand out, in each of its states: one case for each kind of source. -/

namespace Source

/-- The flow that a source will still hand out. -/
def Live : Source → List Arrival → Flow → Prop
  | memory s, _, f => s.state ≠ .closed ∧ f = ⟨s.page ++ s.rest, none⟩
  | failing s, _, f => s.state ≠ .closed ∧ f = ⟨s.rows, some (.sourceFailed s.reason)⟩
  | channel s, as, f => (s.state ≠ .closed ∧ s.state ≠ .failed) ∧
      Arrival.Complete s.channel.producers as ∧
      (s.finished = true → s.channel.queue = [] ∧ as = []) ∧
      f = (Flow.ofMessages (s.channel.queue ++ as.flatMap Arrival.messages)).prepend s.page

/-- Whether there is a page to ask for, and none of the rows that are loaded is left. A page in
memory is put behind the rows that are left. -/
def Drained : Source → Prop
  | memory s => s.rest ≠ []
  | failing s => s.rows = []
  | channel s => s.page = [] ∧ s.finished = false

def Waiting (s : Source) (as : List Arrival) (f : Flow) : Prop := s.Live as f ∧ s.Drained

/-- An arrival reaches a source through its channel. -/
def receive (a : Arrival) : Source → Source := modifyChannel a.reach

/-! ### Rows in memory -/

theorem moveNext_memory {s : MemorySource} {as : List Arrival} {f : Flow}
    (h : (memory s).Live as f) :
    JobStep.Settles (fun job => BatchIterator.moveNext (memory s, job))
      (Moved (Live · as) (Waiting · as) f) := by
  obtain ⟨hopen, rfl⟩ := h
  cases hpage : s.page with
  | nil =>
    have hrun (b : Budget) : BatchIterator.moveNext (memory s, .live b) =
        .ok false (memory { s with current := [], state := .idle s.allLoaded }, .live b) := by
      simp [BatchIterator.moveNext, moveNext, MemorySource.moveNext, hopen, hpage,
        StepResult.within]
    refine JobStep.settles_ok hrun ?_
    change if s.allLoaded = true then _ else _
    have hstate : IteratorState.idle s.allLoaded ≠ .closed := by
      cases s.allLoaded <;> decide
    -- the flow has ended only if no page is left
    by_cases hrest : s.rest = []
    · rw [if_pos (by simp [MemorySource.allLoaded, hrest]), hrest]
      exact ⟨rfl, hstate, by rw [hpage]; rfl⟩
    · rw [if_neg (by simp [MemorySource.allLoaded, hrest])]
      exact ⟨⟨hstate, by rw [hpage]⟩, hrest⟩
  | cons row page =>
    have hrun (b : Budget) : BatchIterator.moveNext (memory s, .live b) =
        .ok true (memory { s with page, current := row, state := .hasNext }, .live b) := by
      simp [BatchIterator.moveNext, moveNext, MemorySource.moveNext, hopen, hpage,
        StepResult.within]
    refine JobStep.settles_ok hrun ?_
    exact ⟨⟨page ++ s.rest, none⟩, rfl, by simp, rfl⟩

/-- A page in memory is put behind the rows that are left. -/
theorem load_memory {s : MemorySource} {as : List Arrival} {f : Flow}
    (h : (memory s).Waiting as f) :
    JobStep.Settles (fun job => BatchIterator.load (memory s, job))
      (Loaded receive Live Waiting as f) := by
  obtain ⟨⟨hopen, rfl⟩, hrest⟩ := h
  have hloaded : s.allLoaded = false := by
    cases hlist : s.rest with
    | nil => exact absurd hlist hrest
    | cons row rest => simp [MemorySource.allLoaded, hlist]
  have hrun (b : Budget) : BatchIterator.load (memory s, .live b) =
      .ok .ready (memory { s with
        page := s.page ++ s.rest.take s.pageSize
        rest := s.rest.drop s.pageSize }, .live b) := by
    simp [BatchIterator.load, load, MemorySource.load, hopen, hloaded, StepResult.within]
  refine JobStep.settles_ok hrun ⟨hopen, ?_⟩
  simp [List.append_assoc]

/-! ### Sources that fail -/

theorem moveNext_failing {s : FailingSource} {as : List Arrival} {f : Flow}
    (h : (failing s).Live as f) :
    JobStep.Settles (fun job => BatchIterator.moveNext (failing s, job))
      (Moved (Live · as) (Waiting · as) f) := by
  obtain ⟨hopen, rfl⟩ := h
  -- without rows the source waits, and its failure comes with the next load
  cases hrows : s.rows with
  | nil =>
    have hrun (b : Budget) : BatchIterator.moveNext (failing s, .live b) =
        .ok false (failing { s with current := [], state := .awaitingMoreData }, .live b) := by
      simp [BatchIterator.moveNext, moveNext, FailingSource.moveNext, hopen, hrows,
        StepResult.within]
    have hwaiting : (failing { s with current := [], state := .awaitingMoreData }).Waiting as
        ⟨[], some (.sourceFailed s.reason)⟩ := ⟨⟨by simp, by rw [hrows]⟩, hrows⟩
    exact JobStep.settles_ok hrun hwaiting
  | cons row rows =>
    have hrun (b : Budget) : BatchIterator.moveNext (failing s, .live b) =
        .ok true (failing { s with rows, current := row, state := .hasNext }, .live b) := by
      simp [BatchIterator.moveNext, moveNext, FailingSource.moveNext, hopen, hrows,
        StepResult.within]
    refine JobStep.settles_ok hrun ?_
    exact ⟨⟨rows, some (.sourceFailed s.reason)⟩, rfl, by simp, rfl⟩

theorem load_failing {s : FailingSource} {as : List Arrival} {f : Flow}
    (h : (failing s).Waiting as f) :
    JobStep.Settles (fun job => BatchIterator.load (failing s, job))
      (Loaded receive Live Waiting as f) := by
  obtain ⟨⟨hopen, rfl⟩, hrows⟩ := h
  have hrun (b : Budget) : BatchIterator.load (failing s, .live b) =
      .error (.sourceFailed s.reason)
        (failing { s with current := [], state := .failed }, .live b) := by
    simp [BatchIterator.load, load, FailingSource.load, hopen, StepResult.within]
  refine JobStep.settles_error hrun ?_
  rw [Loaded, show s.rows = [] from hrows]
  rfl

/-! ### Channels -/

theorem moveNext_channel {s : ChannelSource} {as : List Arrival} {f : Flow}
    (h : (channel s).Live as f) :
    JobStep.Settles (fun job => BatchIterator.moveNext (channel s, job))
      (Moved (Live · as) (Waiting · as) f) := by
  obtain ⟨⟨hclosed, hfailed⟩, hcomplete, hfinished, rfl⟩ := h
  have hstep := MailboxSource.moveNext_eq hclosed hfailed
  cases hpage : s.page with
  | nil =>
    have hrun (b : Budget) : BatchIterator.moveNext (channel s, .live b) =
        .ok false (channel { s with current := [], state := .idle s.finished }, .live b) := by
      change StepResult.within channel (MailboxSource.moveNext (s, .live b)) = _
      rw [hstep, hpage]
      rfl
    refine JobStep.settles_ok hrun ?_
    change if s.finished = true then _ else _
    -- a finished channel is empty, and nothing is still to arrive at it
    by_cases hdone : s.finished = true
    · obtain ⟨hqueue, rfl⟩ := hfinished hdone
      rw [if_pos hdone, hqueue]
      refine ⟨rfl, IteratorState.idle_ne _, hcomplete, hfinished, ?_⟩
      rw [hpage, hqueue]
      rfl
    · rw [if_neg hdone]
      refine ⟨⟨IteratorState.idle_ne _, hcomplete, hfinished, by rw [hpage]⟩, hpage, ?_⟩
      exact Bool.eq_false_iff.2 hdone
  | cons row page =>
    have hrun (b : Budget) : BatchIterator.moveNext (channel s, .live b) =
        .ok true (channel { s with page, current := row, state := .hasNext }, .live b) := by
      change StepResult.within channel (MailboxSource.moveNext (s, .live b)) = _
      rw [hstep, hpage]
      rfl
    refine JobStep.settles_ok hrun ?_
    exact ⟨_, Flow.prepend_cons row page _, IteratorState.hasNext_ne, hcomplete, hfinished, rfl⟩

/-- **The next message**: a batch, a failure, or the end, once the producers have left. While they
are there, something is still to arrive. -/
theorem load_channel {s : ChannelSource} {as : List Arrival} {f : Flow}
    (h : (channel s).Waiting as f) :
    JobStep.Settles (fun job => BatchIterator.load (channel s, job))
      (Loaded receive Live Waiting as f) := by
  obtain ⟨⟨⟨hclosed, hfailed⟩, hcomplete, -, rfl⟩, hpage, hfinished⟩ := h
  have hstep (b : Budget) : BatchIterator.load (channel s, .live b) =
      StepResult.within channel (MailboxSource.receive (s, .live b)) := by
    simp [BatchIterator.load, load, MailboxSource.load, hclosed, hfinished]
  cases hqueue : s.channel.queue with
  | cons message queue =>
    cases message with
    | batch rows =>
      have hrun (b : Budget) : BatchIterator.load (channel s, .live b) =
          .ok .ready (channel { s with
            channel := { s.channel with queue }, page := rows, current := [] }, .live b) := by
        rw [hstep]
        simp [ChannelSource.receive_eq, hqueue, StepResult.within]
      refine JobStep.settles_ok hrun ⟨⟨hclosed, hfailed⟩, hcomplete, ?_, ?_⟩
      · intro hdone
        rw [show s.finished = true from hdone] at hfinished
        cases hfinished
      · simp [hpage, Flow.ofMessages]
    | failure reason =>
      have hrun (b : Budget) : BatchIterator.load (channel s, .live b) =
          .error (.sourceFailed reason) (channel { s with
            channel := { s.channel with queue }, state := .failed }, .live b) := by
        rw [hstep]
        simp [ChannelSource.receive_eq, hqueue, StepResult.within]
      refine JobStep.settles_error hrun ?_
      simp [Loaded, hpage, Flow.ofMessages]
  | nil =>
    cases as with
    | nil =>
      -- nothing is still to arrive, so the producers have left
      have hproducers : s.channel.producers = 0 := hcomplete
      have hrun (b : Budget) : BatchIterator.load (channel s, .live b) =
          .ok .ready (channel { s with page := [], finished := true }, .live b) := by
        rw [hstep]
        simp [ChannelSource.receive_eq, hqueue, hproducers, StepResult.within]
      refine JobStep.settles_ok hrun ⟨⟨hclosed, hfailed⟩, hcomplete, fun _ => ⟨hqueue, rfl⟩, ?_⟩
      rw [hpage, hqueue]
    | cons a as =>
      -- somebody will still send, so the channel has to be waited for
      obtain ⟨hproducers, hrest⟩ := hcomplete
      have hrun (b : Budget) : BatchIterator.load (channel s, .live b) =
          .ok .pending (channel s, .live b) := by
        rw [hstep]
        simp [ChannelSource.receive_eq, hqueue, Nat.ne_of_gt hproducers, StepResult.within]
      refine JobStep.settles_ok hrun ⟨a, as, rfl, ?_, hpage, hfinished⟩
      refine ⟨⟨hclosed, hfailed⟩, hrest, ?_, ?_⟩
      · intro hdone
        rw [show s.finished = true from hdone] at hfinished
        cases hfinished
      · simp [Arrival.reach, hqueue]

/-! ### All sources -/

/-- **Sources hand out their flow**, in whatever pages and batches it comes. -/
def simulation : Simulation Source Arrival where
  live := Live
  waiting := Waiting
  deliver := receive
  moveNext_spec {s _ _} h := by
    cases s with
    | memory s => exact moveNext_memory h
    | failing s => exact moveNext_failing h
    | channel s => exact moveNext_channel h
  load_spec {s _ _} h := by
    cases s with
    | memory s => exact load_memory h
    | failing s => exact load_failing h
    | channel s => exact load_channel h
  close_spec s := by
    cases s <;> exact ⟨_, [], fun b => rfl⟩

end Source

/-- A supply as a job finds it hands out its flow. -/
theorem Supply.live_source (supply : Supply) :
    supply.source.Live supply.arrivals supply.flow := by
  have hfresh : IteratorState.notStarted ≠ .closed ∧ IteratorState.notStarted ≠ .failed := by
    decide
  cases supply with
  | memory rows pageSize => exact ⟨hfresh.1, by simp [MemorySource.paged, flow]⟩
  | failing rows reason => exact ⟨hfresh.1, rfl⟩
  | channel capacity sent producers later complete =>
    exact ⟨hfresh, complete, fun h => absurd h Bool.false_ne_true, rfl⟩

end RowStream
