import RowStream.Proofs.Engine.Meaning
import RowStream.Proofs.Stream.Prefetch

/-!
# Loading pages before they are needed

Whoever uses an iterator asks for rows and pages in some order, while batches arrive at its source. The
contract of iterators allows to ask for a page whenever not all are loaded. That is not enough: a stage that
collects rows says that pages are left until it has been asked for its first row, even if its source has none,
and a channel gives up the rows that are left of a batch for the next one. A page is due if all stages take
rows and the source can keep what it has; asking for due pages only is safe, in every order, and asking for
any other page is not.

* `Session` — a history of calls and arrivals.
* `Session.Sound.perform`, `Session.Sound.after` — what one event keeps, and all.
* `Supply.session_prefix` — any history in which pages are due.
-/

namespace RowStream

/-- A chain in use: what is still to arrive at its source, the rows that it came to, and the errors that it
answered. -/
structure Session (n : Nat) where
  chain : Chain Source n
  job : Job
  later : List Arrival
  rows : List Row
  faults : List OpError

/-- What the user of an iterator does, or what happens to its source meanwhile. -/
inductive Session.Event where
  | next
  | load
  | arrive
  deriving DecidableEq

namespace Session

variable {n : Nat}

def perform (s : Session n) : Event → Session n
  | .next =>
    match BatchIterator.moveNext (s.chain, s.job) with
    | .ok true (chain, job) => { s with chain, job, rows := s.rows ++ [BatchIterator.current chain] }
    | .ok false (chain, job) => { s with chain, job }
    | .error e (chain, job) => { s with chain, job, faults := s.faults ++ [e] }
  | .load =>
    match BatchIterator.load (s.chain, s.job) with
    | .ok _ (chain, job) => { s with chain, job }
    | .error e (chain, job) => { s with chain, job, faults := s.faults ++ [e] }
  | .arrive =>
    match s.later with
    | [] => s
    | a :: later => { s with chain := s.chain.modifySource (Source.receive a), later }

def after (s : Session n) (events : List Event) : Session n := events.foldl perform s

/-- Pages are asked for only where a rule allows it. -/
def Obeys (rule : Session n → Prop) : Session n → List Event → Prop
  | _, [] => True
  | s, event :: events => (event = .load → rule s) ∧ Obeys rule (s.perform event) events

instance decidableObeys (rule : Session n → Prop) [DecidablePred rule] :
    (s : Session n) → (events : List Event) → Decidable (Obeys rule s events)
  | _, [] => inferInstanceAs (Decidable True)
  | s, event :: events =>
    letI := decidableObeys rule (s.perform event) events
    inferInstanceAs (Decidable ((event = .load → rule s) ∧ Obeys rule (s.perform event) events))

/-- The contract of iterators allows to ask for a page. -/
def Permitted (s : Session n) : Prop := BatchIterator.allLoaded s.chain = false

instance : DecidablePred (Permitted (n := n)) := fun s =>
  inferInstanceAs (Decidable (BatchIterator.allLoaded s.chain = false))

/-- All stages take rows, and the source has a page and can keep what is left of the others. -/
def Due (s : Session n) : Prop :=
  (∀ op ∈ s.chain.operators, op.isComplete = false) ∧ s.chain.source.Drained

instance : DecidablePred (Due (n := n)) := fun s =>
  inferInstanceAs (Decidable
    ((∀ op ∈ s.chain.operators, op.isComplete = false) ∧ s.chain.source.Drained))

/-- The chain says that there is no further row and that all pages are loaded. -/
def Exhausted (s : Session n) : Prop :=
  ∃ t job', BatchIterator.moveNext (s.chain, s.job) = .ok false (t, job') ∧
    BatchIterator.allLoaded t = true

/-- What comes of asking for a page that is not due: a fault, or the rows that are left of a batch are given
up, as soon as there is another. -/
inductive Spoilt (s : Session n) : Prop
  | refused (fault : ContractError) (h : (s.perform .load).faults = s.faults ++ [.contract fault])
  | overtaken {ch : ChannelSource} (hsource : s.chain.source = .channel ch) (hpage : ch.page ≠ [])
      (hleft : s.chain.source.left s.later = ch.page ++ (s.perform .load).chain.source.left s.later)
  | pending {ch : ChannelSource} (hsource : s.chain.source = .channel ch) (hpage : ch.page ≠ [])
      (h : s.perform .load = s)

/-- The chain is in order and has come to the first of all rows, without an error. -/
structure Sound (all : List Row) (s : Session n) : Prop where
  rest : ∃ f : Flow, (Chain.simulation Source.steady n).live s.chain s.later f ∧ f.failure = none ∧
    all = s.rows ++ f.rows
  job : s.job.Unlimited
  faults : s.faults = []

end Session

/-- Where memory is not limited, a step comes to its outcome. -/
theorem JobStep.Settles.run {σ α : Type} {m : JobStep σ α} {post : Except OpError α → σ → Prop}
    (hm : m.Settles post) {job : Job} (hjob : job.Unlimited) :
    ∃ r t job', m job = StepResult.of r t job' ∧ job'.Unlimited ∧ post r t := by
  obtain ⟨ms, r, t, ht, hm⟩ := hm
  obtain ⟨b, hb, hunlimited⟩ := hjob.budget.replay ms
  refine ⟨r, t, .live b, ?_, ⟨hunlimited, rfl⟩, ht⟩
  rw [Job.eq_live hjob.alive]
  exact hm.granted hb

namespace Session

variable {n : Nat} {all : List Row} {s : Session n}

theorem Sound.next (h : s.Sound all) : (s.perform .next).Sound all := by
  obtain ⟨⟨f, hlive, hfailure, rfl⟩, hjob, hfaults⟩ := h
  obtain ⟨r, t, job', hrun, hjob', hmoved⟩ :=
    ((Chain.simulation Source.steady n).moveNext_spec hlive).run hjob
  unfold perform
  match r with
  | .ok true =>
    obtain ⟨rest, rfl, hrest⟩ := hmoved
    simp only [hrun, StepResult.of]
    exact ⟨⟨rest, hrest, hfailure, by simp [Flow.cons]⟩, hjob', hfaults⟩
  | .ok false =>
    simp only [hrun, StepResult.of]
    refine ⟨⟨f, ?_, hfailure, rfl⟩, hjob', hfaults⟩
    have hend := hmoved
    unfold Moved at hend
    cases hloaded : BatchIterator.allLoaded t with
    | true =>
      -- nothing is left, and an iterator at its end stays in order
      simp only [hloaded, if_true] at hend
      obtain ⟨rfl, hlast⟩ := hend
      exact hlast
    | false =>
      -- only the page has ended
      simp only [hloaded, Bool.false_eq_true, if_false] at hend
      exact (Chain.prefetch Source.prefetch n).live_of_waiting hend
  | .error e =>
    rw [show f = .failed e from hmoved] at hfailure
    cases hfailure

theorem Sound.load (h : s.Sound all) (hdue : s.Due) : (s.perform .load).Sound all := by
  obtain ⟨⟨f, hlive, hfailure, rfl⟩, hjob, hfaults⟩ := h
  have hdue := (Chain.due_prefetch_iff Source.prefetch).2 hdue
  obtain ⟨r, t, job', hrun, hjob', ⟨progress, rfl⟩, hloaded⟩ :=
    ((Chain.prefetch Source.prefetch n).load_spec hlive hdue).run hjob
  unfold perform
  simp only [hrun, StepResult.of]
  exact ⟨⟨f, hloaded, hfailure, rfl⟩, hjob', hfaults⟩

theorem Sound.arrive (h : s.Sound all) : (s.perform .arrive).Sound all := by
  obtain ⟨⟨f, hlive, hfailure, rfl⟩, hjob, hfaults⟩ := h
  unfold perform
  cases hlater : s.later with
  | nil => exact ⟨⟨f, hlive, hfailure, rfl⟩, hjob, hfaults⟩
  | cons a later =>
    rw [hlater] at hlive
    have hdelivered := (Chain.prefetch Source.prefetch n).live_deliver hlive
    rw [Chain.deliver_simulation] at hdelivered
    exact ⟨⟨f, hdelivered, hfailure, rfl⟩, hjob, hfaults⟩

/-- **What one event keeps.** -/
theorem Sound.perform (h : s.Sound all) {event : Event} (hdue : event = .load → s.Due) :
    (s.perform event).Sound all := by
  cases event with
  | next => exact h.next
  | load => exact h.load (hdue rfl)
  | arrive => exact h.arrive

/-- **What all events keep.** -/
theorem Sound.after (h : s.Sound all) {events : List Event} (hevents : s.Obeys Due events) :
    (s.after events).Sound all := by
  induction events generalizing s with
  | nil => exact h
  | cons event events ih => exact ih (h.perform hevents.1) hevents.2

theorem Sound.rows_eq (h : s.Sound all) (hexhausted : s.Exhausted) : s.rows = all := by
  obtain ⟨⟨f, hlive, -, rfl⟩, hjob, -⟩ := h
  obtain ⟨t, job', hnext, hloaded⟩ := hexhausted
  obtain ⟨r, t', job'', hrun, -, hmoved⟩ :=
    ((Chain.simulation Source.steady n).moveNext_spec hlive).run hjob
  rw [hnext] at hrun
  match r with
  | .ok more =>
    cases hrun
    unfold Moved at hmoved
    simp only [hloaded, if_true] at hmoved
    obtain ⟨rfl, -⟩ := hmoved
    simp [Flow.ended]
  | .error e => cases hrun

/-- Due pages are permitted. -/
theorem permitted_of_due (h : s.Due) : s.Permitted :=
  Chain.allLoaded_eq h.1 (Source.allLoaded_of_drained h.2)

/-- **Asking for a page that is not due.** -/
theorem spoilt_of_not_due (h : ¬s.Due) (hsound : s.Sound all) : s.Spoilt := by
  obtain ⟨f, hlive, -⟩ := hsound.rest
  by_cases hcomplete : ∃ op ∈ s.chain.operators, op.isComplete = true
  · -- a complete operator refuses the request before it reaches the source
    obtain ⟨fault, t, job', hload⟩ := Chain.load_refused hlive hcomplete s.job
    refine .refused fault ?_
    simp only [Session.perform, hload]
  · -- the request reaches the source
    have htakes : ∀ op ∈ s.chain.operators, op.isComplete = false := fun op hop =>
      Bool.eq_false_iff.2 fun hop' => hcomplete ⟨op, hop, hop'⟩
    obtain ⟨g, hsource⟩ := Chain.live_source hlive htakes
    obtain ⟨hok, herror⟩ := Chain.load_source hlive htakes s.job
    cases Source.overasked_of_not_drained hsource (fun hdrained => h ⟨htakes, hdrained⟩) s.job with
    | refused fault _ _ hload =>
      obtain ⟨t, job', hload⟩ := herror hload
      refine .refused fault ?_
      simp only [Session.perform, hload]
    | overtaken hchannel hpage _ hload hleft =>
      refine .overtaken hchannel hpage ?_
      simp only [Session.perform, hok hload, Chain.source_modifySource]
      exact hleft
    | pending hchannel hpage hload =>
      refine .pending hchannel hpage ?_
      simp only [Session.perform, hok hload, Chain.modifySource_source]

end Session

namespace Supply

/-- A chain of operators over a supply, before the first call. -/
def session (supply : Supply) (operators : List Operator) (job : Job) :
    Session operators.reverse.length :=
  ⟨compose supply.source operators, job, supply.arrivals, [], []⟩

theorem sound_session {footprint : Footprint} {plans : List Projection} {operators : List Operator}
    (hplans : Projection.compileAll footprint plans = .ok operators) {supply : Supply}
    (hsource : supply.flow.failure = none)
    (hmeaning : (Projection.meanings footprint plans supply.flow).failure = none) {job : Job}
    (hjob : job.Unlimited) :
    (supply.session operators job).Sound (Projection.meanings footprint plans supply.flow).rows where
  rest := by
    refine ⟨_, ?_, hmeaning, (List.nil_append _).symm⟩
    rw [← Projection.foldl_meaning hplans, ← List.foldr_reverse]
    exact Chain.live_build Source.steady ⟨supply.live_source, hsource⟩ operators.reverse
  job := hjob
  faults := rfl

/-- **Pages that are due may be loaded at any time.** Over a source that does not fail, in any order of calls
and arrivals, no call fails, and the rows are the first ones of those that a drive ends with, and all of them
when the chain says so. A page that is due is permitted; any other request is answered with a fault or costs
rows. -/
theorem session_prefix {footprint : Footprint} {plans : List Projection} {operators : List Operator}
    (hplans : Projection.compileAll footprint plans = .ok operators) (supply : Supply)
    (hsource : supply.flow.failure = none)
    (hmeaning : (Projection.meanings footprint plans supply.flow).failure = none) {job : Job}
    (hjob : job.Unlimited) {events : List Session.Event}
    (hevents : (supply.session operators job).Obeys Session.Due events) :
    let s := (supply.session operators job).after events
    (∃ rows d job', (supply.drive operators).attend (supply.events operators) job =
        (.finished (.ok (.ofList rows)), d, job') ∧
      s.rows <+: rows ∧ (s.Exhausted → s.rows = rows)) ∧
      s.faults = [] ∧ (s.Due → s.Permitted) ∧ (¬s.Due → s.Spoilt) := by
  intro s
  have hsound : s.Sound (Projection.meanings footprint plans supply.flow).rows :=
    (sound_session hplans hsource hmeaning hjob).after hevents
  refine ⟨?_, hsound.faults, Session.permitted_of_due, fun h => Session.spoilt_of_not_due h hsound⟩
  obtain ⟨f, -, -, hrows⟩ := hsound.rest
  obtain ⟨d, job', hrun, -⟩ := supply.exists_run operators hjob.budget
  rw [Projection.foldl_meaning hplans, Flow.result, hmeaning] at hrun
  rw [Job.eq_live hjob.alive]
  exact ⟨_, d, job', hrun, ⟨f.rows, hrows.symm⟩, hsound.rows_eq⟩

/-- Two of four rows, of which two pages are loaded before the first row is asked for. -/
theorem session_prefix_topN :
    let operators : List Operator := [.limit (.new 1 (some 2) [.column 0])]
    let supply : Supply := .memory [[.int64 1], [.int64 2], [.int64 3], [.int64 4]] 1
    let s := (supply.session operators (.live (.unlimited "" .nil))).after [.load, .load, .next, .next]
    s.rows = [[.int64 2], [.int64 3]] ∧ s.faults = [] ∧ ¬s.Due ∧ s.Spoilt := by
  intro operators supply s
  have hplans : Projection.compileAll .standard [.topN ⟨some 2, 1, [.column 0]⟩] = .ok operators := rfl
  have hjob : Job.Unlimited (.live (.unlimited "" .nil)) := ⟨Budget.unlimited_unlimited "" .nil, rfl⟩
  have hevents : (supply.session operators (.live (.unlimited "" .nil))).Obeys Session.Due
      [.load, .load, .next, .next] := by decide +kernel
  have hprefix := session_prefix hplans supply rfl rfl hjob hevents
  have hdue : ¬s.Due := by decide +kernel
  exact ⟨by decide +kernel, hprefix.2.1, hdue, hprefix.2.2.2 hdue⟩

/-- **What is permitted is not enough.** A channel gives up the row of its first batch, and a stage that
collects rows refuses a page that it says is left. -/
theorem permitted_not_due :
    let job : Job := .live (.unlimited "" .nil)
    let batches : Supply := .channel 2 [.batch [[.int64 1]], .batch [[.int64 2]]] 0 [] rfl
    let events : List Session.Event := [.load, .load, .next]
    let sort : Projection := .orderedTopN ⟨none, 0, [.column 0], [0], [false], [none]⟩
    let sorted := (Supply.memory [[.int64 1]] 1).session [sort.operator .standard] job
    ((batches.session [] job).Obeys Session.Permitted events ∧
      ((batches.session [] job).after events).rows = [[.int64 2]] ∧
      (batches.run [] job.budget).1 = .finished (.ok (.ofList [[.int64 1], [.int64 2]]))) ∧
    sorted.Obeys Session.Permitted [.load] ∧
      (sorted.after [.load]).faults = [.contract .allLoaded] := by
  intro job batches events sort sorted
  have hbudget : job.budget.Unlimited := Budget.unlimited_unlimited "" .nil
  obtain ⟨d, job', hrun, -⟩ := batches.exists_run [] hbudget
  refine ⟨⟨by decide +kernel, by decide +kernel, ?_⟩, by decide +kernel, by decide +kernel⟩
  rw [hrun]
  rfl

end Supply

end RowStream
