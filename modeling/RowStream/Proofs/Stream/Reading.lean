import RowStream.Proofs.Stream.Tally

/-!
# What a limit reads

A stage with a limit takes the rows that it skips and those that it shows, and then asks nothing more of its
source. So over rows in memory it takes exactly that many, if there are so many, and only the pages on which
they are.

* `TopNPlan.reads` — how many rows a plan takes of so many.
* `RowLimit.Wants` — how many rows a limit has yet to take; `Wants.take` is the step, `Wants.eq_reads` and
  `Wants.eq_reads_self` are the ends.
* `Limited.feed_spec`, `Limited.advance_spec`, `Limited.invariant` — a stage with a limit over a counted
  source.
-/

namespace RowStream

/-- How many rows of so many a plan takes. -/
def TopNPlan.reads (plan : TopNPlan) (n : Nat) : Nat :=
  match plan.limit with
  | none => n
  | some 0 => 0
  | some (l + 1) => min n (plan.offset + (l + 1))

/-! ## The rows that a limit takes

A limit counts down what it skips and what it shows. What it still wants and what it has taken add
up to what its plan takes. -/

namespace RowLimit

/-- A limit of a plan that has taken so many rows. A limit of no rows skips none. -/
def Wants (plan : TopNPlan) (l : RowLimit) (rows : Nat) : Prop :=
  match plan.limit with
  | none => l.remaining = none
  | some 0 => l.remaining = some 0 ∧ rows = 0
  | some (limit + 1) => ∃ remaining, l.remaining = some remaining ∧
      rows + l.toSkip + remaining = plan.offset + (limit + 1) ∧ (remaining = 0 → l.toSkip = 0)

theorem wants_new (plan : TopNPlan) (outputs : List Expr) :
    Wants plan (.new plan.offset plan.limit outputs) 0 := by
  unfold Wants new
  match plan.limit with
  | none => rfl
  | some 0 => exact ⟨rfl, rfl⟩
  | some (limit + 1) => exact ⟨limit + 1, rfl, by rw [Nat.zero_add], nofun⟩

/-- A row is shown or skipped. -/
theorem take_eq_ok {row : Row} {l l' : RowLimit} {b b' : Budget} {shown : Bool}
    (h : take row (l, b) = .ok shown (l', b')) :
    if l.toSkip = 0 then l'.toSkip = 0 ∧ l'.remaining = l.remaining.map (· - 1)
    else l'.toSkip = l.toSkip - 1 ∧ l'.remaining = l.remaining := by
  obtain ⟨toSkip, r, hread, h⟩ := Metered.bind_eq_ok.1 h
  obtain ⟨rfl, rfl⟩ := Metered.read_eq_ok.1 hread
  split at h
  · next hskip =>
    obtain ⟨⟨⟩, r, hcount, h⟩ := Metered.bind_eq_ok.1 h
    cases Metered.modifyState_eq_ok.1 hcount
    obtain ⟨⟨⟩, r, hproject, h⟩ := Metered.bind_eq_ok.1 h
    obtain ⟨outputs, -, houtputs⟩ := Metered.zoom_eq_ok.1 hproject
    cases (Metered.pure_eq_ok.1 h).2
    cases houtputs
    rw [if_pos hskip]
    exact ⟨hskip, rfl⟩
  · next hskip =>
    obtain ⟨⟨⟩, r, hcount, h⟩ := Metered.bind_eq_ok.1 h
    cases Metered.modifyState_eq_ok.1 hcount
    cases (Metered.pure_eq_ok.1 h).2
    rw [if_neg hskip]
    exact ⟨rfl, rfl⟩

/-- **A row that a limit takes is one that it wants less.** -/
theorem Wants.take {plan : TopNPlan} {row : Row} {l l' : RowLimit} {b b' : Budget} {shown : Bool} {rows : Nat}
    (h : Wants plan l rows) (hreached : l.isReached = false)
    (htake : RowLimit.take row (l, b) = .ok shown (l', b')) : Wants plan l' (rows + 1) := by
  have hstep := take_eq_ok htake
  unfold Wants at h ⊢
  match hlimit : plan.limit with
  | none =>
    rw [hlimit] at h
    have hl : l.remaining = none := h
    rw [hl, Option.map_none] at hstep
    show l'.remaining = none
    split at hstep <;> exact hstep.2
  | some 0 =>
    rw [hlimit] at h
    simp [isReached, h.1] at hreached
  | some (limit + 1) =>
    rw [hlimit] at h
    obtain ⟨remaining, hremaining, htotal, -⟩ := h
    have hpos : remaining ≠ 0 := by
      rintro rfl
      simp [isReached, hremaining] at hreached
    split at hstep
    · next hskip =>
      rw [hremaining, Option.map_some] at hstep
      exact ⟨remaining - 1, hstep.2, by omega, fun _ => hstep.1⟩
    · next hskip =>
      rw [hremaining] at hstep
      exact ⟨remaining, hstep.2, by omega, fun hzero => absurd hzero hpos⟩

/-- Once a limit is reached, its plan has taken what it takes. -/
theorem Wants.eq_reads {plan : TopNPlan} {l : RowLimit} {rows n : Nat} (h : Wants plan l rows)
    (hreached : l.isReached = true) (hle : rows ≤ n) : rows = plan.reads n := by
  unfold Wants at h
  unfold TopNPlan.reads
  match hlimit : plan.limit with
  | none =>
    rw [hlimit] at h
    simp [isReached, show l.remaining = none from h] at hreached
  | some 0 =>
    rw [hlimit] at h
    exact h.2
  | some (limit + 1) =>
    rw [hlimit] at h
    obtain ⟨remaining, hremaining, htotal, hskip⟩ := h
    have hzero : remaining = 0 := by simpa [isReached, hremaining] using hreached
    have hskipped := hskip hzero
    show rows = min n (plan.offset + (limit + 1))
    omega

/-- What a limit has taken, its plan takes of so many rows. -/
theorem Wants.eq_reads_self {plan : TopNPlan} {l : RowLimit} {rows : Nat} (h : Wants plan l rows) :
    rows = plan.reads rows := by
  unfold Wants at h
  unfold TopNPlan.reads
  match hlimit : plan.limit with
  | none => rfl
  | some 0 =>
    rw [hlimit] at h
    exact h.2
  | some (limit + 1) =>
    rw [hlimit] at h
    obtain ⟨remaining, -, htotal, -⟩ := h
    show rows = min rows (plan.offset + (limit + 1))
    omega

end RowLimit

/-! ## A stage with a limit

The invariant: rows are asked for one at a time and only while the limit wants one, and a page only
if the row that is wanted is on it. -/

/-- So many rows were asked for, and no page that has none of them. -/
def Counted.HasRead {σ : Type} (s : Counted σ) (rows size : Nat) : Prop :=
  s.rows = rows ∧ s.loads = max 1 (rows ⌈/⌉ size) - 1

section Stages

variable {β : Type} [BatchIterator β] (B : MemoryBacked β) (plan : TopNPlan) (n size : Nat)

/-- The limit of a plan over rows in memory. -/
structure Limited (l : RowLimit) (s : Counted β) : Prop where
  tallied : Counted.Tallied B n size s
  wants : l.Wants plan s.rows
  /-- Where no more rows are asked for, some of the last page were. -/
  begun : l.isReached = true → s.loads = 0 ∨ s.loads * size < s.rows

variable {B plan n size} {l l' : RowLimit} {s t : Counted β}

namespace Limited

theorem of_not_isReached (htallied : Counted.Tallied B n size s) (hwants : l.Wants plan s.rows)
    (hreached : l.isReached = false) : Limited B plan n size l s where
  tallied := htallied
  wants := hwants
  begun hend := absurd (hend.symm.trans hreached) nofun

theorem hasRead_of_isReached (h : Limited B plan n size l s) (hsize : 0 < size)
    (hreached : l.isReached = true) : s.HasRead (plan.reads n) size := by
  have hle := h.tallied.rows_le
  have hrows : s.rows = plan.reads n := h.wants.eq_reads hreached (by omega)
  exact ⟨hrows, hrows ▸ Tally.loads_eq (h.begun hreached) (by omega) hsize⟩

theorem hasRead_of_allLoaded (h : Limited B plan n size l s) (hsize : 0 < size)
    (hall : BatchIterator.allLoaded s = true) (hused : s.rows = min n (s.loads * size + size)) :
    s.HasRead (plan.reads n) size := by
  have hle : n ≤ s.loads * size + size := by
    rw [h.tallied.allLoaded_eq] at hall
    simpa using hall
  -- nothing is left to be loaded, so the limit has been given every row
  have hn : s.rows = n := by omega
  have hrows : s.rows = plan.reads n := hn ▸ h.wants.eq_reads_self
  exact ⟨hrows, hrows ▸ Tally.loads_eq (hn ▸ h.tallied.needed) (by omega) hsize⟩

/-- One row is taken. -/
theorem take {row : Row} {b b' : Budget} {shown : Bool} (h : Limited B plan n size l s)
    (hreached : l.isReached = false) (htallied : Counted.Tallied B n size t) (hrows : t.rows = s.rows + 1)
    (hloads : t.loads = s.loads) (htake : RowLimit.take row (l, b) = .ok shown (l', b')) :
    Limited B plan n size l' t where
  tallied := htallied
  wants := hrows ▸ h.wants.take hreached htake
  begun _ := by
    rw [hrows, hloads]
    exact .inr (Nat.lt_succ_of_le h.tallied.used)

/-- **Rows are taken** until one is shown or the loaded pages are used up. -/
theorem feed_spec {op : Operator} (hop : op = .limit l) (h : Limited B plan n size l s)
    (hreached : l.isReached = false) (job : Job) :
    StepResult.Leaves (fun more p => ∃ l', p.1 = .limit l' ∧ Limited B plan n size l' p.2 ∧
      (more = false → l'.isReached = false ∧ p.2.rows = min n (p.2.loads * size + size)))
      (fun _ => True) (Stage.feed op s job) := by
  have hstep := h.tallied.moveNext job
  fun_induction Stage.feed op s job generalizing l with
  | case1 => trivial
  | case2 op s job t job' hmove =>
    rw [hmove] at hstep
    obtain ⟨htallied, hrows, hloads, hused⟩ := hstep
    have hwants : l.Wants plan t.rows := by
      rw [hrows]
      exact h.wants
    exact ⟨l, hop, of_not_isReached htallied hwants hreached, fun _ => ⟨hreached, hused rfl⟩⟩
  | case3 => trivial
  | case4 op s job t job' hmove op' job'' htake =>
    rw [hmove] at hstep
    obtain ⟨htallied, hrows, hloads, -⟩ := hstep
    subst hop
    obtain ⟨l', hl', rfl⟩ := StepResult.within_eq_ok (Running.spend_eq_ok htake)
    exact ⟨l', rfl, h.take hreached htallied hrows hloads hl', fun hend => absurd hend Bool.true_eq_false.mp⟩
  | case5 op s job t job' hmove op' job'' htake ih =>
    rw [hmove] at hstep
    obtain ⟨htallied, hrows, hloads, -⟩ := hstep
    subst hop
    -- it was skipped, and a limit that skips is not reached
    have hstill := Operator.isComplete_of_take (Running.spend_eq_ok htake)
    obtain ⟨l', hl', rfl⟩ := StepResult.within_eq_ok (Running.spend_eq_ok htake)
    exact ih rfl (h.take hreached htallied hrows hloads hl') (hstill.trans hreached)
      (htallied.moveNext job'')

/-- The loaded pages are used up before the limit is reached, and there is another. -/
def Waiting (B : MemoryBacked β) (plan : TopNPlan) (n size : Nat) (op : Operator) (s : Counted β) : Prop :=
  ∃ l, op = .limit l ∧ l.isReached = false ∧ l.Wants plan s.rows ∧ Counted.Used B n size s

/-- What advancing a stage with a limit leaves. -/
def Advanced (B : MemoryBacked β) (plan : TopNPlan) (n size : Nat) (more : Bool) :
    Operator × Counted β → Prop
  | (op, t) =>
    if more then ∃ l, op = .limit l ∧ Limited B plan n size l t
    else if op.allLoaded (BatchIterator.allLoaded t) then t.HasRead (plan.reads n) size
    else Waiting B plan n size op t

theorem advance_spec (hsize : 0 < size) (h : Limited B plan n size l s) (job : Job) :
    StepResult.Leaves (Advanced B plan n size) (fun _ => True) (Stage.advance (.limit l) s job) := by
  cases hreached : l.isReached with
  | true =>
    -- nothing is asked for any more
    have hadvance : Stage.advance (.limit l) s job = .ok false ((.limit l, s), job) := by
      have hcomplete : (Operator.limit l).isComplete = true := hreached
      rw [Stage.advance, if_pos hcomplete]
      rfl
    rw [hadvance]
    show if (l.isReached || _) = true then _ else _
    rw [hreached, Bool.true_or, if_pos rfl]
    exact h.hasRead_of_isReached hsize hreached
  | false =>
    have hfeed := feed_spec rfl h hreached job
    have hincomplete : (Operator.limit l).isComplete = false := hreached
    rw [show Stage.advance (.limit l) s job = _ from congrFun (Stage.advance_eq hincomplete s) job]
    rcases hrun : Stage.feed (.limit l) s job with ⟨_ | _, ⟨op, t⟩, job'⟩ | ⟨e, p, job'⟩ <;>
      rw [hrun] at hfeed
    · obtain ⟨l', rfl, hlimited, hpage⟩ := hfeed
      obtain ⟨hreached', hused⟩ := hpage rfl
      cases hall : BatchIterator.allLoaded t with
      | true =>
        have hconclude : Running.spend Operator.conclude (Operator.limit l', job') =
            .ok false (.limit l', job') := rfl
        simp only [StepResult.andThen, hall, hconclude]
        show if (l'.isReached || BatchIterator.allLoaded t) = true then _ else _
        rw [hall, Bool.or_true, if_pos rfl]
        exact hlimited.hasRead_of_allLoaded hsize hall hused
      | false =>
        simp only [StepResult.andThen, hall]
        show if (l'.isReached || BatchIterator.allLoaded t) = true then _ else _
        rw [hall, hreached', Bool.or_false, if_neg Bool.false_ne_true]
        exact ⟨l', rfl, hreached', hlimited.wants, hlimited.tallied, hall, hused⟩
    · obtain ⟨l', rfl, hlimited, -⟩ := hfeed
      exact ⟨l', rfl, hlimited⟩
    · trivial

theorem moveNext {stage : Stage} (hsize : 0 < size) (hop : stage.operator = .limit l)
    (h : Limited B plan n size l s) (job : Job) :
    StepResult.Leaves (fun more p => Advanced B plan n size more (p.1.operator, p.2)) (fun _ => True)
      (Stage.moveNext ((stage, s), job)) :=
  Stage.leaves_moveNext (fun _ => True) trivial (hop ▸ h.advance_spec hsize job)

theorem load {stage : Stage} (hwaiting : Waiting B plan n size stage.operator s) (job : Job) :
    StepResult.Leaves (fun progress p => progress = .ready ∧
      (∃ l, p.1.operator = .limit l ∧ Limited B plan n size l p.2) ∧
      BatchIterator.ready p + BatchIterator.pages p ≤
        BatchIterator.ready (stage, s) + BatchIterator.pages (stage, s))
      (fun _ => True) (Stage.load ((stage, s), job)) := by
  obtain ⟨l, hop, hreached, hwants, hused⟩ := hwaiting
  have hincomplete : stage.operator.isComplete = false := by rwa [hop]
  have hload : StepResult.Leaves (fun progress t => progress = .ready ∧ Limited B plan n size l t ∧
      BatchIterator.ready t + BatchIterator.pages t ≤ BatchIterator.ready s + BatchIterator.pages s)
      (fun _ => True) (BatchIterator.load (s, job)) := by
    refine (hused.load job).mono (fun progress t h => ?_) fun _ => False.elim
    obtain ⟨hready, htallied, hrows, -, hleft⟩ := h
    exact ⟨hready, of_not_isReached htallied (hrows ▸ hwants) hreached, hleft.le⟩
  refine (Stage.leaves_load (fun _ => True) hincomplete trivial hload).mono (fun progress p h => ?_)
    fun _ => id
  obtain ⟨hready, ⟨hstage, hlimited⟩, hle⟩ := h
  exact ⟨hready, ⟨l, hstage ▸ hop, hlimited⟩, hle⟩

/-- **A stage with a limit** asks its source for what it needs. -/
def invariant (B : MemoryBacked β) (plan : TopNPlan) (n : Nat) {size : Nat} (hsize : 0 < size) :
    PullInvariant (Stage × Counted β) where
  live p := ∃ l, p.1.operator = .limit l ∧ Limited B plan n size l p.2
  waiting p := Waiting B plan n size p.1.operator p.2
  ended p := p.2.HasRead (plan.reads n) size
  kept _ := True
  moveNext_spec h job := h.elim fun _ h => h.2.moveNext hsize h.1 job
  load_spec h job := load h job
  kept_of_live _ := trivial
  kept_of_waiting _ := trivial
  kept_of_ended _ := trivial

end Limited

end Stages

end RowStream
