import RowStream.Proofs.Stream.Simulation
import RowStream.Stream.Pull

/-!
# Pulling a flow

Pulling an iterator into a result set takes the rows of its flow in order, page after page, until
the flow has ended or failed, or the source has to be waited for.

* `ResultSet.settles_accept` — a row is accounted and kept.
* `Simulation.pullPage_spec` — the rows of the loaded pages.
* `Simulation.pull_spec`, `Simulation.resume_spec` — all rows that are there (`Drained`).
-/

namespace RowStream

/-- Accounts a row under the label of the result and keeps it. -/
theorem ResultSet.settles_accept (row : Row) (k : ResultSet) :
    JobStep.Settles (fun job => RowConsumer.accept row (k, job)) fun r l =>
      r = .ok () ∧ l.bucket.toList = k.bucket.toList ++ [row] := by
  have hcharge : (Metered.zoom scope (fun r scope => { r with scope })
      (Scope.charge (k.footprint.row row))).Follows k _ _ _ :=
    (Scope.follows_charge k.scope (k.footprint.row row)).zoom
  have hread := Metered.follows_read (ε := OpError) (fun r => r.footprint.row row) k
  have hpush := Metered.follows_modifyState (ε := OpError)
    (fun r : ResultSet => { r with bucket := r.bucket.push row })
    { k with scope := { k.scope with held := k.scope.held + k.footprint.row row } }
  have hadd : (add row).Follows k _ _ _ := hread.bind (hcharge.bind hpush)
  exact ⟨_, .ok (), _, ⟨rfl, Bucket.toList_push k.bucket row⟩, JobStep.follows_spend hadd⟩

/-! ## Pulling, taken apart

Pulling is two loops. Each is unfolded once into a round and the rest, and the result set takes rows
until a page is drained, by induction on the rows; then the same for pages, on the pages that are
left. -/

section Equations

variable {σ κ : Type} [BatchIterator σ] [RowConsumer κ]

/-- One row of a page and then the others, where the job is not killed. -/
def pageRound (s : σ) (k : κ) : JobStep (σ × κ) Unit := fun job =>
  StepResult.andThen (BatchIterator.moveNext (s, job))
    (fun more s job =>
      if more then
        StepResult.andThen (RowConsumer.accept (BatchIterator.current s) (k, job))
          (fun _ k job => pullPage s k job)
          fun e k job => .error e ((s, k), job)
      else .ok () ((s, k), job))
    fun e s job => .error e ((s, k), job)

/-- The kill switch is looked at before every row. -/
theorem pullPage_eq (s : σ) (k : κ) :
    pullPage s k = fun job =>
      match job.kill.check with
      | .error e => .error e ((s, k), job)
      | .ok () => pageRound s k job := by
  funext job
  rw [pullPage]
  cases job.kill.check with
  | error e => rfl
  | ok u =>
    simp only [pageRound]
    split <;> rename_i hmove
    · simp [hmove, StepResult.andThen]
    · simp [hmove, StepResult.andThen]
    · simp only [hmove, StepResult.andThen, if_true]
      split <;> rename_i haccept <;> simp only [haccept]

theorem pullPage_live (s : σ) (k : κ) (b : Budget) :
    pullPage s k (.live b) = pageRound s k (.live b) := by
  rw [pullPage_eq]
  rfl

/-- A page and then the rows of it, where the job is not killed. -/
def resumeRound (s : σ) (k : κ) : JobStep (σ × κ) Pulled := fun job =>
  StepResult.andThen (BatchIterator.load (s, job))
    (fun load s job =>
      match load with
      | .ready => pull s k job
      | .pending => .ok .suspended ((s, k), job))
    fun e s job => .error e ((s, k), job)

/-- The kill switch is looked at before every page. -/
theorem resume_eq (s : σ) (k : κ) :
    resume s k = fun job =>
      match job.kill.check with
      | .error e => .error e ((s, k), job)
      | .ok () => resumeRound s k job := by
  funext job
  unfold resume request
  simp only
  cases job.kill.check with
  | error e => rfl
  | ok u =>
    simp only [resumeRound]
    rcases BatchIterator.load (s, job) with ⟨_ | _, s', job'⟩ | ⟨e, s', job'⟩ <;> rfl

theorem resume_live (s : σ) (k : κ) (b : Budget) :
    resume s k (.live b) = resumeRound s k (.live b) := by
  rw [resume_eq]
  rfl

theorem pull_eq (s : σ) (k : κ) :
    pull s k = fun job =>
      StepResult.andThen (pullPage s k job)
        (fun _ p job =>
          if BatchIterator.allLoaded p.1 = true then .ok .exhausted (p, job)
          else resume p.1 p.2 job)
        fun e p job => .error e (p, job) := by
  funext job
  rw [pull]
  split <;> rename_i hpage
  · simp [hpage, StepResult.andThen]
  · simp only [hpage, StepResult.andThen]
    split
    · rfl
    · unfold resume
      split <;> rename_i hrequest <;> simp only [hrequest]

end Equations

namespace Simulation

variable {σ α : Type} [BatchIterator σ] (S : Simulation σ α)

/-- How handing the loaded pages to a result set may end. -/
def PageDrained (as : List α) (f : Flow) (k : ResultSet) :
    Except OpError Unit → σ × ResultSet → Prop
  | .ok (), (t, l) => ∃ (rows : List Row) (rest : Flow), f = rest.prepend rows ∧
      l.bucket.toList = k.bucket.toList ++ rows ∧
      if BatchIterator.allLoaded t = true then rest = .ended else S.waiting t as rest
  | .error e, (_, l) => f.failure = some e ∧ l.bucket.toList = k.bucket.toList ++ f.rows

/-- How handing all rows that are there to a result set may end: all rows of the flow are taken, or
some are and the flow goes on behind the next arrival. -/
def Drained (as : List α) (f : Flow) (k : ResultSet) :
    Except OpError Pulled → σ × ResultSet → Prop
  | .ok .exhausted, (_, l) => f.failure = none ∧ l.bucket.toList = k.bucket.toList ++ f.rows
  | .ok .suspended, (t, l) => ∃ (rows : List Row) (rest : Flow) (a : α) (as' : List α),
      as = a :: as' ∧ f = rest.prepend rows ∧ l.bucket.toList = k.bucket.toList ++ rows ∧
      S.waiting (S.deliver a t) as' rest
  | .error e, (_, l) => f.failure = some e ∧ l.bucket.toList = k.bucket.toList ++ f.rows

/-- Rows that were taken before stand before what is taken later. -/
theorem Drained.prepend {as : List α} {f : Flow} {k l : ResultSet} {rows : List Row}
    {r : Except OpError Pulled} {p : σ × ResultSet} (h : S.Drained as f l r p)
    (hl : l.bucket.toList = k.bucket.toList ++ rows) : S.Drained as (f.prepend rows) k r p := by
  match r with
  | .ok .exhausted | .error e =>
    obtain ⟨hfailure, hrows⟩ := h
    refine ⟨hfailure, ?_⟩
    rw [hrows, hl, List.append_assoc]
    rfl
  | .ok .suspended =>
    obtain ⟨more, rest, a, as', has, hf, hmore, hwaiting⟩ := h
    refine ⟨rows ++ more, rest, a, as', has, ?_, ?_, hwaiting⟩
    · rw [hf, Flow.prepend_prepend]
    · rw [hmore, hl, List.append_assoc]

/-- **The loaded pages.** -/
theorem pullPage_spec {s : σ} {as : List α} {f : Flow} (k : ResultSet) (hlive : S.live s as f) :
    JobStep.Settles (pullPage s k) (S.PageDrained as f k) := by
  -- induction on how many rows the flow has; each round hands out one
  induction hn : f.rows.length using Nat.strongRecOn generalizing s k f with
  | ind n ih =>
    refine JobStep.Settles.congr (pullPage_live s k) ?_
    refine (S.moveNext_spec hlive).andThen ?_ ?_ fun e t job => ⟨_, _, rfl⟩
    · intro more t hmoved
      cases more with
      | false =>
        have hend : S.PageDrained as f k (.ok ()) (t, k) :=
          ⟨[], f, rfl, (List.append_nil _).symm, Moved.ended hmoved⟩
        exact JobStep.settles_ok (fun b => rfl) hend
      | true =>
        obtain ⟨rest, rfl, hrest⟩ := hmoved
        have haccept := ResultSet.settles_accept (BatchIterator.current t) k
        refine haccept.andThen ?_ ?_ fun e t job => ⟨_, _, rfl⟩
        · rintro u l ⟨-, hl⟩
          have hlt : rest.rows.length < n := by
            rw [← hn]
            exact Nat.lt_succ_self _
          refine (ih rest.rows.length hlt l hrest rfl).mono fun r p hr => ?_
          -- the row that was accepted stands before those of the other rounds
          match r with
          | .ok () =>
            obtain ⟨rows, last, hlast, hrows, hend⟩ := hr
            refine ⟨BatchIterator.current t :: rows, last, ?_, ?_, hend⟩
            · rw [hlast, Flow.prepend_cons]
            · rw [hrows, hl, List.append_assoc]
              rfl
          | .error e =>
            obtain ⟨hfailure, hrows⟩ := hr
            refine ⟨hfailure, ?_⟩
            rw [hrows, hl, List.append_assoc]
            rfl
        · rintro e l ⟨hr, -⟩
          cases hr
    · intro e t hmoved
      have hfailed : f = .failed e := hmoved
      have hend : S.PageDrained as f k (.error e) (t, k) := by
        rw [hfailed]
        exact ⟨rfl, (List.append_nil _).symm⟩
      exact JobStep.settles_error (fun b => rfl) hend

/-- What resuming comes to, once it is known for all pages that pulling goes through next. -/
theorem resume_of_pull {s : σ} {as : List α} {f : Flow} (k : ResultSet)
    (hpull : ∀ t : σ, BatchIterator.pages t < BatchIterator.pages s → S.live t as f →
      JobStep.Settles (pull t k) (S.Drained as f k))
    (hwaiting : S.waiting s as f) : JobStep.Settles (resume s k) (S.Drained as f k) := by
  refine JobStep.Settles.congr (resume_live s k) ?_
  have hload := (S.load_spec hwaiting).and_of_ok (fun load t =>
    load = .ready → BatchIterator.pages t < BatchIterator.pages s) fun hrun hready => by
      subst hready
      exact BatchIterator.pages_of_load hrun
  refine hload.andThen ?_ ?_ fun e t job => ⟨_, _, rfl⟩
  · rintro load t ⟨hloaded, hpages⟩
    cases load with
    | ready => exact hpull t (hpages .ready rfl rfl) hloaded
    | pending =>
      obtain ⟨a, as', has, hdelivered⟩ := hloaded
      have hend : S.Drained as f k (.ok .suspended) (t, k) :=
        ⟨[], f, a, as', has, rfl, (List.append_nil _).symm, hdelivered⟩
      exact JobStep.settles_ok (fun b => rfl) hend
  · rintro e t ⟨hloaded, -⟩
    have hfailed : f = .failed e := hloaded
    have hend : S.Drained as f k (.error e) (t, k) := by
      rw [hfailed]
      exact ⟨rfl, (List.append_nil _).symm⟩
    exact JobStep.settles_error (fun b => rfl) hend

/-- **All rows that are there.** -/
theorem pull_spec {s : σ} {as : List α} {f : Flow} (k : ResultSet) (hlive : S.live s as f) :
    JobStep.Settles (pull s k) (S.Drained as f k) := by
  -- induction on how many pages can be loaded, as a page may have no rows at all
  induction hn : BatchIterator.pages s using Nat.strongRecOn generalizing s f k with
  | ind n ih =>
    rw [pull_eq]
    have hpage := (S.pullPage_spec k hlive).and_of_ok (fun _ p =>
      BatchIterator.pages p.1 ≤ BatchIterator.pages s) fun hrun => pages_of_pullPage hrun
    refine hpage.andThen ?_ ?_ fun e p job => ⟨_, _, rfl⟩
    · rintro u ⟨t, l⟩ ⟨⟨rows, rest, rfl, hl, hend⟩, hpages⟩
      have hle : BatchIterator.pages t ≤ n := hn ▸ hpages u rfl
      cases hloaded : BatchIterator.allLoaded t with
      | true =>
        rw [hloaded, if_pos rfl] at hend
        have hdrained : S.Drained as (rest.prepend rows) k (.ok .exhausted) (t, l) := by
          rw [hend]
          refine ⟨rfl, hl.trans ?_⟩
          simp [Flow.prepend, Flow.ended]
        exact JobStep.settles_ok (fun b => by simp) hdrained
      | false =>
        rw [hloaded, if_neg Bool.false_ne_true] at hend
        -- pulling goes on with fewer pages to load than before
        have hresume := S.resume_of_pull l (fun t' hlt hlive' =>
          ih _ (Nat.lt_of_lt_of_le hlt hle) l hlive' rfl) hend
        have hdrained := hresume.mono fun r p hr => Drained.prepend S hr hl
        simpa [hloaded] using hdrained
    · rintro e ⟨t, l⟩ ⟨hpage, -⟩
      have hdrained : S.Drained as f k (.error e) (t, l) := hpage
      exact JobStep.settles_error (fun b => rfl) hdrained

theorem resume_spec {s : σ} {as : List α} {f : Flow} (k : ResultSet)
    (hwaiting : S.waiting s as f) : JobStep.Settles (resume s k) (S.Drained as f k) :=
  S.resume_of_pull k (fun _ _ hlive => S.pull_spec k hlive) hwaiting

end Simulation

end RowStream
