import Mathlib.Tactic.SplitIfs
import RowStream.Proofs.Stream.Supply

/-!
# Pages ahead of time

A page may be asked for before the rows of the pages before it were handed out. This is safe as long as
every stage still takes rows and the source can put the page behind what is left: rows in memory always can,
a channel only when nothing is left of its last batch.

* `Simulation.Prefetch` — iterators whose flow stays what it is when a due page is loaded, or when something
  arrives, at any time.
* `Chain.prefetch` — chains of any length.
* `Chain.load_refused`, `Chain.load_source` — what a chain answers to other requests for a page.
-/

namespace RowStream

namespace Simulation

variable {σ α : Type} [BatchIterator σ]

/-- The same simulation for flows that do not fail. -/
def unfailing (S : Simulation σ α) : Simulation σ α where
  live s as f := S.live s as f ∧ f.failure = none
  waiting s as f := S.waiting s as f ∧ f.failure = none
  deliver := S.deliver
  moveNext_spec := by
    rintro s as f ⟨hlive, hfailure⟩
    refine (S.moveNext_spec hlive).mono fun r t hmoved => ?_
    match r with
    | .ok true =>
      obtain ⟨rest, rfl, hrest⟩ := hmoved
      exact ⟨rest, rfl, hrest, hfailure⟩
    | .ok false =>
      unfold Moved at hmoved ⊢
      cases hloaded : BatchIterator.allLoaded t with
      | true =>
        simp only [hloaded, if_true] at hmoved ⊢
        exact ⟨hmoved.1, hmoved.2, rfl⟩
      | false =>
        simp only [hloaded, Bool.false_eq_true, if_false] at hmoved ⊢
        exact ⟨hmoved, hfailure⟩
    | .error e => exact hmoved
  load_spec := by
    rintro s as f ⟨hwaiting, hfailure⟩
    refine (S.load_spec hwaiting).mono fun r t hloaded => ?_
    match r with
    | .ok .ready => exact ⟨hloaded, hfailure⟩
    | .ok .pending =>
      obtain ⟨a, rest, rfl, hdelivered⟩ := hloaded
      exact ⟨a, rest, rfl, hdelivered, hfailure⟩
    | .error e => exact hloaded
  close_spec := S.close_spec

/-- An iterator whose flow stays what it is when a page is loaded that is due, and when something
arrives. -/
structure Prefetch (S : Simulation σ α) where
  /-- A page may be asked for. -/
  due : σ → Prop
  load_spec {s : σ} {as : List α} {f : Flow} : S.live s as f → due s →
    JobStep.Settles (fun job => BatchIterator.load (s, job)) fun r t =>
      (∃ progress, r = .ok progress) ∧ S.live t as f
  live_of_waiting {s : σ} {as : List α} {f : Flow} : S.waiting s as f → S.live s as f
  live_deliver {s : σ} {a : α} {as : List α} {f : Flow} : S.live s (a :: as) f →
    S.live (S.deliver a s) as f

/-- A page is due for a stage if its operator takes rows and the page is due for its source. -/
def Prefetch.stage {S : Simulation σ α} (P : S.Prefetch) : S.stage.Prefetch where
  due := fun (stage, s) => stage.operator.isComplete = false ∧ P.due s
  load_spec := by
    rintro ⟨stage, s⟩ as f ⟨hopen, g, hlive, rfl⟩ ⟨hop, hdue⟩
    change JobStep.Settles (fun job => Stage.load ((stage, s), job)) _
    rw [Stage.load_eq hopen hop]
    refine (P.load_spec (hlive hop) hdue).andThen ?_ ?_ fun e p job => ⟨_, _, rfl⟩
    · rintro progress t ⟨-, hloaded⟩
      exact JobStep.settles_ok (fun b => rfl) ⟨⟨progress, rfl⟩, hopen, g, fun _ => hloaded, rfl⟩
    · rintro e t ⟨⟨progress, hok⟩, -⟩
      cases hok
  live_of_waiting := by
    rintro ⟨stage, s⟩ as f ⟨hopen, -, g, hwaiting, rfl⟩
    exact ⟨hopen, g, fun _ => P.live_of_waiting hwaiting, rfl⟩
  live_deliver := by
    rintro ⟨stage, s⟩ a as f ⟨hopen, g, hlive, rfl⟩
    exact ⟨hopen, g, fun hop => P.live_deliver (hlive hop), rfl⟩

end Simulation

/-! ## Sources

For each source: when a page is due, that loading it then changes nothing of the flow, and what
comes of a page that was not due. -/

namespace Source

/-- The rows that a source still hands out, whatever happens to it. -/
def left : Source → List Arrival → List Row
  | memory s, _ => s.page ++ s.rest
  | failing s, _ => s.rows
  | channel s, later =>
    s.page ++ (Flow.ofMessages (s.channel.queue ++ later.flatMap Arrival.messages)).rows

/-- Sources that do not fail. -/
def steady : Simulation Source Arrival := simulation.unfailing

theorem live_receive {s : Source} {a : Arrival} {as : List Arrival} {f : Flow}
    (h : s.Live (a :: as) f) : (receive a s).Live as f := by
  cases s with
  | memory s => exact h
  | failing s => exact h
  | channel s =>
    obtain ⟨hopen, ⟨-, hcomplete⟩, hfinished, rfl⟩ := h
    refine ⟨hopen, hcomplete, fun hdone => ?_, ?_⟩
    · cases (hfinished hdone).2
    · simp [Arrival.reach]

/-- Whoever has to wait for a page has changed nothing. -/
theorem eq_of_load_pending {s t : Source} {job job' : Job}
    (h : BatchIterator.load (s, job) = .ok .pending (t, job')) : t = s := by
  replace h : load (s, job) = .ok .pending (t, job') := h
  cases s with
  | memory s =>
    obtain ⟨s', hs, -⟩ := StepResult.within_eq_ok h
    simp only [BatchIterator.load, MemorySource.load] at hs
    split_ifs at hs
    cases hs
  | failing s =>
    obtain ⟨s', hs, -⟩ := StepResult.within_eq_ok h
    simp only [BatchIterator.load, FailingSource.load] at hs
    split_ifs at hs
  | channel s =>
    obtain ⟨s', hs, rfl⟩ := StepResult.within_eq_ok h
    simp only [BatchIterator.load, MailboxSource.load, ChannelSource.receive_eq] at hs
    grind

/-- A page in memory is put behind the rows that are left, and a channel without rows takes the next
batch. -/
theorem load_drained {s : Source} {as : List Arrival} {f : Flow} (hlive : s.Live as f)
    (hfailure : f.failure = none) (hdrained : s.Drained) :
    JobStep.Settles (fun job => BatchIterator.load (s, job)) fun r t =>
      (∃ progress, r = .ok progress) ∧ t.Live as f := by
  have hload := (simulation.load_spec (show s.Waiting as f from ⟨hlive, hdrained⟩)).and_of_ok
    (fun progress t => progress = .pending → t = s) fun hrun hpending => by
      subst hpending
      exact eq_of_load_pending hrun
  -- a page that came is what the simulation says, and one that did not has changed nothing
  refine hload.mono fun r t ⟨hloaded, hsame⟩ => ?_
  match r with
  | .ok .ready => exact ⟨⟨_, rfl⟩, hloaded⟩
  | .ok .pending => exact ⟨⟨_, rfl⟩, hsame _ rfl rfl ▸ hlive⟩
  | .error e =>
    rw [show f = .failed e from hloaded] at hfailure
    cases hfailure

instance decidableDrained : DecidablePred Drained
  | memory s => inferInstanceAs (Decidable (s.rest ≠ []))
  | failing s => inferInstanceAs (Decidable (s.rows = []))
  | channel s => inferInstanceAs (Decidable (s.page = [] ∧ s.finished = false))

/-- Sources may be asked for a page when they have one and can keep what is left of the others. -/
def prefetch : steady.Prefetch where
  due := Drained
  load_spec h hdue := (load_drained h.1 h.2 hdue).mono fun _ _ ht => ⟨ht.1, ht.2, h.2⟩
  live_of_waiting h := ⟨h.1.1, h.2⟩
  live_deliver h := ⟨live_receive h.1, h.2⟩

theorem allLoaded_of_drained {s : Source} (h : s.Drained) : BatchIterator.allLoaded s = false := by
  cases s with
  | memory s =>
    show s.rest.isEmpty = false
    exact List.isEmpty_eq_false_iff.2 h
  | failing s => rfl
  | channel s => exact h.2

/-- How a source answers to a request for a page that is not due: with a fault, or by giving up the rows
that are left of the last batch, as soon as there is another. -/
inductive Overasked (s : Source) (later : List Arrival) (job : Job) : Prop
  | refused (fault : ContractError) (t : Source) (job' : Job)
      (h : BatchIterator.load (s, job) = .error (.contract fault) (t, job'))
  | overtaken {ch : ChannelSource} (hsource : s = channel ch) (hpage : ch.page ≠ []) (t : Source)
      (h : BatchIterator.load (s, job) = .ok .ready (t, job))
      (hleft : s.left later = ch.page ++ t.left later)
  | pending {ch : ChannelSource} (hsource : s = channel ch) (hpage : ch.page ≠ [])
      (h : BatchIterator.load (s, job) = .ok .pending (s, job))

theorem overasked_of_not_drained {s : Source} {later : List Arrival} {f : Flow}
    (hlive : steady.live s later f) (h : ¬s.Drained) (job : Job) : s.Overasked later job := by
  obtain ⟨hlive, hfailure⟩ := hlive
  cases s with
  | memory s =>
    obtain ⟨hopen, -⟩ := hlive
    have hrest : s.rest = [] := Classical.not_not.1 h
    refine .refused .allLoaded (memory s) job ?_
    simp [BatchIterator.load, load, MemorySource.load, hopen, MemorySource.allLoaded, hrest,
      StepResult.within]
  | failing s =>
    rw [hlive.2] at hfailure
    cases hfailure
  | channel s =>
    obtain ⟨⟨hclosed, -⟩, -, -, rfl⟩ := hlive
    have hload : BatchIterator.load (channel s, job) =
        StepResult.within channel (MailboxSource.load (s, job)) := rfl
    cases hfinished : s.finished with
    | true =>
      refine .refused .allLoaded (channel s) job ?_
      rw [hload]
      simp [MailboxSource.load, hclosed, hfinished, StepResult.within]
    | false =>
      -- the channel is asked, whatever is left of the batch before
      have hpage : s.page ≠ [] := fun hpage => h ⟨hpage, hfinished⟩
      cases hqueue : s.channel.queue with
      | cons message queue =>
        cases message with
        | batch rows =>
          refine .overtaken rfl hpage (channel { s with
            channel := { s.channel with queue }, page := rows, current := [] }) ?_ ?_
          · rw [hload]
            simp [MailboxSource.load, ChannelSource.receive_eq, hclosed, hfinished, hqueue, StepResult.within]
          · simp [left, hqueue, Flow.ofMessages, Flow.prepend]
        | failure reason =>
          rw [hqueue] at hfailure
          cases hfailure
      | nil =>
        by_cases hproducers : s.channel.producers = 0
        · refine .overtaken rfl hpage (t := channel { s with page := [], finished := true }) ?_ ?_
          · rw [hload]
            simp [MailboxSource.load, ChannelSource.receive_eq, hclosed, hfinished, hqueue, hproducers,
              StepResult.within]
          · simp [left]
        · refine .pending rfl hpage ?_
          rw [hload]
          simp [MailboxSource.load, ChannelSource.receive_eq, hclosed, hfinished, hqueue, hproducers,
            StepResult.within]

end Source

/-! ## Chains

A stage hands a request for a page down if its operator takes rows, and refuses it otherwise. By
induction a page is due for a chain if it is due for its source and no stage is in between that
takes no more rows. -/

namespace Chain

variable {β α : Type} [BatchIterator β] {S : Simulation β α}

/-- The same for chains of any length. -/
def prefetch (P : S.Prefetch) : (n : Nat) → (simulation S n).Prefetch
  | 0 => P
  | n + 1 => (prefetch P n).stage

/-- A page is due if all stages take rows and it is due for the source. -/
theorem due_prefetch_iff (P : S.Prefetch) {n : Nat} {c : Chain β n} :
    (prefetch P n).due c ↔ (∀ op ∈ c.operators, op.isComplete = false) ∧ P.due c.source := by
  induction n with
  | zero => simp [prefetch, operators, source]
  | succ n ih =>
    obtain ⟨stage, inner⟩ := c
    rw [operators, List.forall_mem_cons, and_assoc]
    exact and_congr_right fun _ => ih

/-- A chain whose stages all take rows has all pages loaded iff its source has. -/
theorem allLoaded_eq {n : Nat} {c : Chain β n} (h : ∀ op ∈ c.operators, op.isComplete = false)
    (hsource : BatchIterator.allLoaded c.source = false) : BatchIterator.allLoaded c = false := by
  induction n with
  | zero => exact hsource
  | succ n ih =>
    obtain ⟨stage, inner⟩ := c
    obtain ⟨hop, hinner⟩ := List.forall_mem_cons.1 h
    show stage.operator.allLoaded (BatchIterator.allLoaded inner) = false
    rw [ih hinner hsource]
    exact Operator.allLoaded_false hop

variable {as : List α} {f : Flow}

omit [BatchIterator β] in
@[simp] theorem source_modifySource (g : β → β) {n : Nat} (c : Chain β n) :
    (c.modifySource g).source = g c.source := by
  induction n with
  | zero => rfl
  | succ n ih => exact ih c.2

omit [BatchIterator β] in
theorem modifySource_source {n : Nat} (c : Chain β n) : (c.modifySource fun _ => c.source) = c := by
  induction n with
  | zero => rfl
  | succ n ih => exact congrArg (Prod.mk c.1) (ih c.2)

/-- **No page goes past a stage that takes no more rows.** -/
theorem load_refused {n : Nat} {c : Chain β n} (hlive : (simulation S n).live c as f)
    (h : ∃ op ∈ c.operators, op.isComplete = true) (job : Job) :
    ∃ fault t job', BatchIterator.load (c, job) = .error (.contract fault) (t, job') := by
  induction n generalizing f with
  | zero =>
    obtain ⟨op, hop, -⟩ := h
    cases hop
  | succ n ih =>
    obtain ⟨stage, inner⟩ := c
    obtain ⟨hopen, g, hinner, rfl⟩ := hlive
    show ∃ fault t job', Stage.load ((stage, inner), job) = _
    cases hop : stage.operator.isComplete with
    | true =>
      refine ⟨stage.operator.loadFault, (stage, inner), job, ?_⟩
      unfold Stage.load
      simp only [hopen.1, hop, if_false, if_true]
      rfl
    | false =>
      obtain ⟨op, hmem, hcomplete⟩ := h
      obtain rfl | hmem := List.mem_cons.1 hmem
      · rw [hop] at hcomplete
        cases hcomplete
      · obtain ⟨fault, t, job', hload⟩ := ih (hinner hop) ⟨op, hmem, hcomplete⟩
        rw [congrFun (Stage.load_eq hopen hop inner) job, hload]
        exact ⟨fault, _, _, rfl⟩

/-- **A page for a chain whose stages all take rows is a page for its source.** -/
theorem load_source {n : Nat} {c : Chain β n} (hlive : (simulation S n).live c as f)
    (h : ∀ op ∈ c.operators, op.isComplete = false) (job : Job) :
    (∀ {progress s job'}, BatchIterator.load (c.source, job) = .ok progress (s, job') →
      BatchIterator.load (c, job) = .ok progress (c.modifySource fun _ => s, job')) ∧
    ∀ {e s job'}, BatchIterator.load (c.source, job) = .error e (s, job') →
      ∃ t job'', BatchIterator.load (c, job) = .error e (t, job'') := by
  induction n generalizing f with
  | zero => exact ⟨fun hload => hload, fun hload => ⟨_, _, hload⟩⟩
  | succ n ih =>
    obtain ⟨stage, inner⟩ := c
    obtain ⟨hop, hinner⟩ := List.forall_mem_cons.1 h
    obtain ⟨hopen, g, hsource, rfl⟩ := hlive
    have heq := congrFun (Stage.load_eq hopen hop inner) job
    obtain ⟨hok, herror⟩ := ih (hsource hop) hinner
    refine ⟨fun hload => ?_, fun hload => ?_⟩
    · show Stage.load ((stage, inner), job) = _
      rw [heq, hok hload]
      rfl
    · obtain ⟨t, job', hload⟩ := herror hload
      show ∃ t job'', Stage.load ((stage, inner), job) = _
      rw [heq, hload]
      exact ⟨_, _, rfl⟩

/-- Where all stages take rows, the source is in order. -/
theorem live_source {n : Nat} {c : Chain β n} (hlive : (simulation S n).live c as f)
    (h : ∀ op ∈ c.operators, op.isComplete = false) : ∃ g, S.live c.source as g := by
  induction n generalizing f with
  | zero => exact ⟨f, hlive⟩
  | succ n ih =>
    obtain ⟨stage, inner⟩ := c
    obtain ⟨hop, hinner⟩ := List.forall_mem_cons.1 h
    obtain ⟨-, g, hsource, -⟩ := hlive
    exact ih (hsource hop) hinner

end Chain

end RowStream
