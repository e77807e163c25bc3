import RowStream.Engine.Drive
import RowStream.Proofs.Stream.Pull
import RowStream.Proofs.Stream.Supply

/-!
# Attended drives

A drive that is asked to go on whenever something has arrived at its source comes to its end. It
does so along one trace, and what it ends with is the flow of its chain: the rows that the
consumer has taken, and the failure that came after them, if one did.

* `Drive.attend` — asks a drive to go on, arrival after arrival.
* `Drive.Ends` — how a drive ends along a trace, and that a refusal ends it with that refusal.
* `Drive.ends_of_settles` — induction on the arrivals.
* `Supply.exists_attend` — the same for operators over a supply.
-/

namespace RowStream

namespace Drive

variable {σ κ : Type} [BatchIterator σ] [RowConsumer κ]

/-- Goes on from an answer: while the drive has to wait, the next event comes to its chain and it is
asked again. -/
def onward : List (σ → σ) → Progress OpError × Drive σ κ × Job →
    Progress OpError × Drive σ κ × Job
  | event :: events, (.pending, d, job) =>
    onward events (({ d with chain := event d.chain }).poll job)
  | _, answer => answer

/-- Asks a drive to go on until it has ended or no event is left. -/
def attend (d : Drive σ κ) (events : List (σ → σ)) (job : Job) :
    Progress OpError × Drive σ κ × Job :=
  onward events (d.poll job)

theorem onward_finished (events : List (σ → σ)) (result : Except OpError Bucket) (d : Drive σ κ)
    (job : Job) : onward events (.finished result, d, job) = (.finished result, d, job) := by
  cases events <;> rfl

/-- Along the trace the drive ends with this result; where a movement is refused, with the
refusal. -/
structure Ends (m : Job → Progress OpError × Drive σ κ × Job) (ms : List Movement)
    (result : Except OpError Bucket) (d : Drive σ κ) : Prop where
  granted : ∀ {b b' : Budget}, b.replay ms = .ok () b' →
    m (.live b) = (.finished result, d, .live b')
  refused : ∀ {b b' : Budget} {e : MemoryError}, b.replay ms = .error e b' →
    ∃ d' job', m (.live b) = (.finished (.error (.memory e)), d', job')

end Drive

namespace Simulation

variable {σ α : Type} [BatchIterator σ] (S : Simulation σ α)

open Drive

include S in
/-- Finishing closes the chain, releases the consumer and keeps its rows. -/
theorem exists_finish (t : σ) (l : ResultSet) (result : Except OpError Unit) :
    ∃ (d : Drive σ ResultSet) (sizes : List Nat), d.consumer.bucket = l.bucket ∧ ∀ b,
      finish t l result (.live b) =
        (.finished (result.map fun () => l.bucket), d, .live (sizes.foldl Budget.giveBack b)) := by
  obtain ⟨t', sizes, hclose⟩ := S.close_spec t
  obtain ⟨scope, more, hrelease⟩ := l.exists_release
  refine ⟨⟨t', { l with scope }, .over⟩, sizes ++ more, rfl, fun b => ?_⟩
  have hjob (b : Budget) : RowConsumer.release l (.live b) =
      ({ l with scope }, .live (more.foldl Budget.giveBack b)) := by
    change (Job.live b).giveBack ResultSet.release l = _
    unfold Job.giveBack Job.live
    rw [hrelease]
  simp only [finish, hclose, hjob, List.foldl_append]
  rfl

/-- A refusal on the way ends the drive with that refusal. -/
theorem settle_refused (events : List (σ → σ)) (e : MemoryError) (p : σ × ResultSet) (job : Job) :
    ∃ d' job', onward events (settle (.error (.memory e) (p, job))) =
      (.finished (.error (.memory e)), d', job') := by
  have hsettle : settle (.error (.memory e) (p, job)) =
      finish p.1 p.2 (.error (.memory e)) job := rfl
  rw [hsettle]
  unfold finish
  exact ⟨_, _, onward_finished events _ _ _⟩

include S in
/-- Pulling that has come to its end is finished. -/
theorem ends_of_finish {m : JobStep (σ × ResultSet) Pulled} {ms : List Movement}
    {r : Except OpError Pulled} {t : σ} {l : ResultSet} (hm : m.Follows ms r (t, l))
    (result : Except OpError Unit) (events : List (σ → σ))
    (hr : ∀ job, settle (StepResult.of r (t, l) job) = finish t l result job) :
    ∃ ms d, Ends (fun job => onward events (settle (m job))) ms
      (result.map fun () => l.bucket) d ∧ d.consumer.bucket = l.bucket := by
  obtain ⟨d, sizes, hbucket, hfinish⟩ := S.exists_finish t l result
  refine ⟨ms ++ sizes.map .giveBack, d, ⟨?_, ?_⟩, hbucket⟩
  · intro b b' hb
    obtain ⟨c, hms, hsizes⟩ := Budget.replay_append_eq_ok.1 hb
    rw [Budget.replay_giveBacks] at hsizes
    cases hsizes
    simp only [hm.granted hms, hr, hfinish]
    exact onward_finished events _ _ _
  · intro b b' e hb
    obtain hms | ⟨c, -, hsizes⟩ := Budget.replay_append_eq_error.1 hb
    · obtain ⟨u, job, hu⟩ := hm.refused hms
      simp only [hu]
      exact settle_refused events e u job
    · rw [Budget.replay_giveBacks] at hsizes
      cases hsizes

/-- The flow that a result set will have taken, as the result of the drive. -/
theorem result_of_exhausted {f : Flow} {k l : ResultSet} (hfailure : f.failure = none)
    (hrows : l.bucket.toList = k.bucket.toList ++ f.rows) :
    (f.prepend k.bucket.toList).result = .ok l.bucket := by
  unfold Flow.result
  rw [show (f.prepend k.bucket.toList).failure = none from hfailure]
  change Except.ok (Bucket.ofList (k.bucket.toList ++ f.rows)) = _
  rw [← hrows]
  rfl

theorem result_of_failure {f : Flow} {e : OpError} (hfailure : f.failure = some e)
    (rows : List Row) : (f.prepend rows).result = .error e := by
  unfold Flow.result
  rw [show (f.prepend rows).failure = some e from hfailure]

/-- Pulling that does not have to wait ends the drive with the flow. -/
theorem ends_of_over {as : List α} {f : Flow} {k l : ResultSet} {t : σ}
    {m : JobStep (σ × ResultSet) Pulled} {ms : List Movement} {r : Except OpError Pulled}
    (hm : m.Follows ms r (t, l)) (hdrained : S.Drained as f k r (t, l))
    (hover : r ≠ .ok .suspended) (events : List (σ → σ)) :
    ∃ ms d, Ends (fun job => onward events (settle (m job))) ms
      (f.prepend k.bucket.toList).result d ∧
      d.consumer.bucket.toList = k.bucket.toList ++ f.rows := by
  match r with
  | .ok .suspended => exact absurd rfl hover
  | .ok .exhausted =>
    obtain ⟨hfailure, hrows⟩ := hdrained
    obtain ⟨ns, d, hends, hbucket⟩ := S.ends_of_finish hm (.ok ()) events fun job => rfl
    rw [result_of_exhausted hfailure hrows]
    exact ⟨ns, d, hends, by rw [hbucket]; exact hrows⟩
  | .error e =>
    obtain ⟨hfailure, hrows⟩ := hdrained
    obtain ⟨ns, d, hends, hbucket⟩ := S.ends_of_finish hm (.error e) events fun job => rfl
    rw [result_of_failure hfailure]
    exact ⟨ns, d, hends, by rw [hbucket]; exact hrows⟩

/-- **Arrival after arrival**, a drive comes to the end of the flow. -/
theorem ends_of_settles {as : List α} {f : Flow} {k : ResultSet}
    {m : JobStep (σ × ResultSet) Pulled} (hm : m.Settles (S.Drained as f k)) :
    ∃ ms d, Ends (fun job => onward (as.map S.deliver) (settle (m job))) ms
      (f.prepend k.bucket.toList).result d ∧
      d.consumer.bucket.toList = k.bucket.toList ++ f.rows := by
  -- induction on what is still to arrive: a drive is asked again only after an arrival
  induction as generalizing f k m with
  | nil =>
    obtain ⟨ms, r, ⟨t, l⟩, hdrained, hm⟩ := hm
    refine S.ends_of_over hm hdrained ?_ _
    -- with nothing still to arrive, the drive has nothing to wait for
    rintro rfl
    obtain ⟨rows, rest, a, as', has, -⟩ := hdrained
    cases has
  | cons a as ih =>
    obtain ⟨ms, r, ⟨t, l⟩, hdrained, hm⟩ := hm
    by_cases hover : r = .ok .suspended
    · subst hover
      obtain ⟨rows, rest, a', as', has, rfl, hrows, hwaiting⟩ := hdrained
      cases has
      -- the drive has to wait, and is asked again once the next arrival is there
      obtain ⟨ns, d, hends, hbucket⟩ := ih (S.resume_spec l hwaiting)
      refine ⟨ms ++ ns, d, ⟨?_, ?_⟩, ?_⟩
      · intro b b' hb
        obtain ⟨c, hms, hns⟩ := Budget.replay_append_eq_ok.1 hb
        have hrest := hends.granted hns
        rw [hrows, ← Flow.prepend_prepend] at hrest
        simp only [hm.granted hms]
        exact hrest
      · intro b b' e hb
        obtain hms | ⟨c, hms, hns⟩ := Budget.replay_append_eq_error.1 hb
        · obtain ⟨u, job, hu⟩ := hm.refused hms
          simp only [hu]
          exact settle_refused _ e u job
        · simp only [hm.granted hms]
          exact hends.refused hns
      · rw [hbucket, hrows, List.append_assoc]
        rfl
    · exact S.ends_of_over hm hdrained hover _

end Simulation

/-! ## Operators over a supply

Pulling is known as far as the loaded rows go, and a drive goes on after each arrival. Induction on
the arrivals puts the traces one behind the other. -/

namespace Supply

/-- A drive of operators over the source of a supply, into a result set. -/
def drive (supply : Supply) (operators : List Operator) :
    Drive (Chain Source operators.reverse.length) ResultSet :=
  .new (compose supply.source operators) .new

/-- What arrives at the source, as events of the whole chain. -/
def events (supply : Supply) (operators : List Operator) :
    List (Chain Source operators.reverse.length → Chain Source operators.reverse.length) :=
  supply.arrivals.map fun a => Chain.modifySource (Source.receive a)

/-- Drives operators over a supply to the end, as a job that is not killed. -/
def run (supply : Supply) (operators : List Operator) (budget : Budget) :
    Progress OpError × Drive (Chain Source operators.reverse.length) ResultSet × Job :=
  (supply.drive operators).attend (supply.events operators) (.live budget)

/-- **The trace of a drive.** Operators over a supply move memory along one trace, and end with
what they make of the flow of the supply. -/
theorem exists_attend (supply : Supply) (operators : List Operator) :
    ∃ ms d, Drive.Ends (fun job => (supply.drive operators).attend (supply.events operators) job) ms
      (operators.foldl (fun f op => op.meaning f) supply.flow).result d ∧
      d.consumer.bucket.toList =
        (operators.foldl (fun f op => op.meaning f) supply.flow).rows := by
  have hlive := Chain.live_build Source.simulation supply.live_source operators.reverse
  rw [List.foldr_reverse] at hlive
  have hpull := (Chain.simulation Source.simulation _).pull_spec ResultSet.new hlive
  have hends := (Chain.simulation Source.simulation _).ends_of_settles hpull
  have hevents : supply.arrivals.map
      (Chain.simulation Source.simulation operators.reverse.length).deliver =
      supply.events operators := by
    refine List.map_congr_left fun a _ => ?_
    funext c
    exact Chain.deliver_simulation Source.simulation a c
  rw [hevents] at hends
  exact hends

/-- Where memory is not limited, operators come to the end of their trace. -/
theorem exists_run (supply : Supply) (operators : List Operator) {b : Budget} (hb : b.Unlimited) :
    ∃ d job, supply.run operators b =
        (.finished (operators.foldl (fun f op => op.meaning f) supply.flow).result, d, job) ∧
      d.consumer.bucket.toList =
        (operators.foldl (fun f op => op.meaning f) supply.flow).rows := by
  obtain ⟨ms, d, hends, hrows⟩ := supply.exists_attend operators
  obtain ⟨b', hreplay, -⟩ := hb.replay ms
  exact ⟨d, .live b', hends.granted hreplay, hrows⟩

end Supply

end RowStream
