import RowStream.Proofs.Engine.Sparing

/-!
# A kill stops the run

The kill switch is looked at before every row and before every page. So when a job is killed, the call
that goes on meanwhile is the last one, but for two: a row that it delivered is handed to the consumer, and a page
that it asked for may be waited for. Then the drive fails with the reason of the first kill, unless a call
ended it before; and what a call ended would have ended so without any kill.

* `Onward`, `Last` — one call of a drive, with one case for each place where the drive stands and each answer;
  `Onward.answer_eq`, `Last.answer_eq` tie them to pulling.
* `Course` — all calls of a drive; `hasCourse` and `Course.answer_eq`.
* `Course.first_kill` — the calls after a kill, by induction on the course.
* `Course.spare` — the course of the same drive without kills.
* `KillableDrive.answer_killed` — drives at their end.
-/

namespace RowStream

/-! ## One call after the other

To speak of the moment of a kill, a drive is told as a sequence of calls. After each of them it
stands at one of four points, and what comes next depends on the point alone: this is the step
relation of pulling, with the kills that came during each call. -/

/-- What a drive asked for. -/
inductive Question where
  | next (found : Option Row)
  | accept (row : Row)
  | load
  | wait

/-- A call, and the kills that came during it, the first of them first. -/
structure Call where
  question : Question
  kills : List String

/-- Where a drive stands between two calls: before a row, with a row for the consumer, before a page, or waiting
for one. -/
inductive Point (σ κ : Type) where
  | row (s : σ) (k : κ)
  | offered (s : σ) (k : κ)
  | page (s : σ) (k : κ)
  | waiting (s : σ) (k : κ)

/-- How the calls come to their end: the switch is seen, a call ends the drive, or nothing comes that is waited
for. -/
inductive Ending (σ κ : Type) where
  | stopped (e : OpError) (s : σ) (k : κ) (job : Job)
  | ended (result : Except OpError Unit) (s : σ) (k : κ) (job : Job)
  | paused (s : σ) (k : κ) (job : Job)

/-- The kills that came from one state to a later one. -/
def Schedule.during {σ : Type} (A : Schedule σ) (s t : σ) : List String :=
  ((A.kills s).take ((A.kills s).length - (A.kills t).length)).reduceOption

/-- A step leaves the switch that it found, flipped by the first of its kills. -/
theorem JobStep.Spared.reason {σ α : Type} {A : Schedule σ} {m m₀ : JobStep σ α} {s t : σ} {job job' : Job}
    {a : α} (hm : JobStep.Spared A (A.kills s) m m₀) (hrun : m job = .ok a (t, job')) :
    job'.kill.reason = job.kill.reason.or (A.during s t).head? := by
  obtain ⟨during, hkills, hkill⟩ := hm.struck job
  rw [hrun] at hkills hkill
  rw [show job'.kill = _ from hkill, KillSwitch.reason_strike, Schedule.during, hkills]
  simp [StepResult.left]

section Machine

variable {σ κ : Type} [BatchIterator σ] [RowConsumer κ] (A : Sparing σ) (K : SparingConsumer κ)

/-- A call, and where the drive goes on after it. -/
inductive Onward : Point σ κ → List (Wakeup σ) → Job → Call → Point σ κ → List (Wakeup σ) → Job → Prop
    where
  | found {s t : σ} {k : κ} {wakeups : List (Wakeup σ)} {job job' : Job}
      (hlive : job.kill.check = .ok ()) (hmove : BatchIterator.moveNext (s, job) = .ok true (t, job')) :
      Onward (.row s k) wakeups job ⟨.next (some (BatchIterator.current t)), A.during s t⟩
        (.offered t k) wakeups job'
  | pageEnd {s t : σ} {k : κ} {wakeups : List (Wakeup σ)} {job job' : Job}
      (hlive : job.kill.check = .ok ()) (hmove : BatchIterator.moveNext (s, job) = .ok false (t, job'))
      (hmore : BatchIterator.allLoaded t = false) :
      Onward (.row s k) wakeups job ⟨.next none, A.during s t⟩ (.page t k) wakeups job'
  | taken {s : σ} {k l : κ} {wakeups : List (Wakeup σ)} {job job' : Job}
      (haccept : RowConsumer.accept (BatchIterator.current s) (k, job) = .ok () (l, job')) :
      Onward (.offered s k) wakeups job ⟨.accept (BatchIterator.current s), K.during k l⟩
        (.row s l) wakeups job'
  | loaded {s t : σ} {k : κ} {wakeups : List (Wakeup σ)} {job job' : Job}
      (hlive : job.kill.check = .ok ()) (hload : BatchIterator.load (s, job) = .ok .ready (t, job')) :
      Onward (.page s k) wakeups job ⟨.load, A.during s t⟩ (.row t k) wakeups job'
  | pending {s t : σ} {k : κ} {wakeups : List (Wakeup σ)} {job job' : Job}
      (hlive : job.kill.check = .ok ()) (hload : BatchIterator.load (s, job) = .ok .pending (t, job')) :
      Onward (.page s k) wakeups job ⟨.load, A.during s t⟩ (.waiting t k) wakeups job'
  | woken {s : σ} {k : κ} {w : Wakeup σ} {wakeups : List (Wakeup σ)} {job : Job} :
      Onward (.waiting s k) (w :: wakeups) job ⟨.wait, w.kill.toList⟩ (.page (w.arrive s) k) wakeups
        (job.interrupt w.kill)

/-- The last call, if there is another, and how the drive comes to its end. -/
inductive Last : Point σ κ → List (Wakeup σ) → Job → List Call → Ending σ κ → Prop where
  | rowKilled {s : σ} {k : κ} {wakeups : List (Wakeup σ)} {job : Job} {e : OpError}
      (hkilled : job.kill.check = .error e) : Last (.row s k) wakeups job [] (.stopped e s k job)
  | pageKilled {s : σ} {k : κ} {wakeups : List (Wakeup σ)} {job : Job} {e : OpError}
      (hkilled : job.kill.check = .error e) : Last (.page s k) wakeups job [] (.stopped e s k job)
  | exhausted {s t : σ} {k : κ} {wakeups : List (Wakeup σ)} {job job' : Job}
      (hlive : job.kill.check = .ok ()) (hmove : BatchIterator.moveNext (s, job) = .ok false (t, job'))
      (hloaded : BatchIterator.allLoaded t = true) :
      Last (.row s k) wakeups job [⟨.next none, A.during s t⟩] (.ended (.ok ()) t k job')
  | failed {s t : σ} {k : κ} {wakeups : List (Wakeup σ)} {job job' : Job} {e : OpError}
      (hlive : job.kill.check = .ok ()) (hmove : BatchIterator.moveNext (s, job) = .error e (t, job')) :
      Last (.row s k) wakeups job [⟨.next none, A.during s t⟩] (.ended (.error e) t k job')
  | refused {s : σ} {k l : κ} {wakeups : List (Wakeup σ)} {job job' : Job} {e : OpError}
      (haccept : RowConsumer.accept (BatchIterator.current s) (k, job) = .error e (l, job')) :
      Last (.offered s k) wakeups job [⟨.accept (BatchIterator.current s), K.during k l⟩]
        (.ended (.error e) s l job')
  | unloaded {s t : σ} {k : κ} {wakeups : List (Wakeup σ)} {job job' : Job} {e : OpError}
      (hlive : job.kill.check = .ok ()) (hload : BatchIterator.load (s, job) = .error e (t, job')) :
      Last (.page s k) wakeups job [⟨.load, A.during s t⟩] (.ended (.error e) t k job')
  | paused {s : σ} {k : κ} {job : Job} : Last (.waiting s k) [] job [] (.paused s k job)

/-- All calls of a drive from some point on, and how it comes to its end. -/
inductive Course : Point σ κ → List (Wakeup σ) → Job → List Call → Ending σ κ → Prop where
  | last {p : Point σ κ} {wakeups : List (Wakeup σ)} {job : Job} {calls : List Call}
      {ending : Ending σ κ} (h : Last A K p wakeups job calls ending) : Course p wakeups job calls ending
  | onward {p next : Point σ κ} {wakeups wakeups' : List (Wakeup σ)} {job job' : Job} {call : Call}
      {calls : List Call} {ending : Ending σ κ} (h : Onward A K p wakeups job call next wakeups' job')
      (hrest : Course next wakeups' job' calls ending) : Course p wakeups job (call :: calls) ending

/-! ### The calls are those of pulling

The relation is tied to the program by equations: a call is what pulling does next. -/

/-- A drive that is asked again after a wakeup. -/
def Drive.rouse (w : Wakeup σ) (d : Drive σ κ) (job : Job) : Progress OpError × Drive σ κ × Job :=
  ({ d with chain := w.arrive d.chain }).poll (job.interrupt w.kill)

/-- The answer of a drive that has come to its end. -/
def Ending.answer : Ending σ κ → Progress OpError × Drive σ κ × Job
  | stopped e s k job => Drive.finish s k (.error e) job
  | ended result s k job => Drive.finish s k result job
  | paused s k job => (.pending, ⟨s, k, .suspended⟩, job)

namespace Point

/-- Pulling from there. -/
def pulled : Point σ κ → JobStep (σ × κ) Pulled
  | row s k => pull s k
  | offered s k => fun job =>
    StepResult.andThen (RowConsumer.accept (BatchIterator.current s) (k, job))
      (fun _ k job => pull s k job) fun e k job => .error e ((s, k), job)
  | page s k => resume s k
  | waiting s k => fun job => .ok .suspended ((s, k), job)

/-- The answer of a drive that stands there, after all wakeups. -/
def answer (p : Point σ κ) (wakeups : List (Wakeup σ)) (job : Job) :
    Progress OpError × Drive σ κ × Job :=
  Progress.attend Drive.rouse wakeups (Drive.settle (p.pulled job))

end Point

/-- One row, and then the others. -/
theorem pull_eq_row (s : σ) (k : κ) (job : Job) : pull s k job =
    match job.kill.check with
    | .error e => .error e ((s, k), job)
    | .ok () =>
      StepResult.andThen (BatchIterator.moveNext (s, job))
        (fun more t job =>
          if more then (Point.offered t k).pulled job
          else if BatchIterator.allLoaded t then .ok .exhausted ((t, k), job)
          else resume t k job)
        fun e t job => .error e ((t, k), job) := by
  simp only [pull_eq s k, pullPage_eq s k]
  cases job.kill.check with
  | error e => rfl
  | ok u =>
    simp only [pageRound]
    rcases BatchIterator.moveNext (s, job) with ⟨_ | _, t, job'⟩ | ⟨e, t, job'⟩
    · rfl
    · -- the row is handed over, and pulling begins anew
      simp only [StepResult.andThen, if_true, Point.pulled]
      rcases RowConsumer.accept (BatchIterator.current t) (k, job') with ⟨u, l, job''⟩ | ⟨e, l, job''⟩
      · simp only [pull_eq t l, StepResult.andThen]
      · rfl
    · rfl

theorem attend_finish (wakeups : List (Wakeup σ)) (s : σ) (k : κ) (result : Except OpError Unit)
    (job : Job) : Progress.attend Drive.rouse wakeups (Drive.finish s k result job) =
      Drive.finish s k result job := by
  cases wakeups <;> rfl

variable {A K} {p next : Point σ κ} {wakeups wakeups' : List (Wakeup σ)} {job job' : Job} {call : Call}
  {calls : List Call} {ending : Ending σ κ}

/-- **A call is what pulling does next.** -/
theorem Onward.answer_eq (h : Onward A K p wakeups job call next wakeups' job') :
    p.answer wakeups job = next.answer wakeups' job' := by
  unfold Point.answer
  -- one round of pulling on both sides, opened as far as the step goes
  cases h with
  | found hlive hmove =>
    rw [Point.pulled, pull_eq_row]
    simp only [hlive, hmove]
    rfl
  | pageEnd hlive hmove hmore =>
    rw [Point.pulled, pull_eq_row]
    simp only [hlive, hmove, StepResult.andThen, hmore]
    rfl
  | taken haccept =>
    simp only [Point.pulled, haccept]
    rfl
  | loaded hlive hload =>
    simp only [Point.pulled, resume_eq, resumeRound, hlive, hload]
    rfl
  | pending hlive hload =>
    simp only [Point.pulled, resume_eq, resumeRound, hlive, hload]
    rfl
  | woken => rfl

theorem Last.answer_eq (h : Last A K p wakeups job calls ending) :
    p.answer wakeups job = ending.answer := by
  unfold Point.answer
  -- here the round ends the run, and what comes later wakes nobody
  cases h with
  | rowKilled hkilled =>
    rw [Point.pulled, pull_eq_row]
    simp only [hkilled]
    exact attend_finish wakeups _ _ _ _
  | pageKilled hkilled =>
    simp only [Point.pulled, resume_eq, hkilled]
    exact attend_finish wakeups _ _ _ _
  | exhausted hlive hmove hloaded =>
    rw [Point.pulled, pull_eq_row]
    simp only [hlive, hmove, StepResult.andThen, hloaded]
    exact attend_finish wakeups _ _ _ _
  | failed hlive hmove =>
    rw [Point.pulled, pull_eq_row]
    simp only [hlive, hmove]
    exact attend_finish wakeups _ _ _ _
  | refused haccept =>
    simp only [Point.pulled, haccept]
    exact attend_finish wakeups _ _ _ _
  | unloaded hlive hload =>
    simp only [Point.pulled, resume_eq, resumeRound, hlive, hload]
    exact attend_finish wakeups _ _ _ _
  | paused => rfl

/-- **The drive answers what its calls come to.** -/
theorem Course.answer_eq (h : Course A K p wakeups job calls ending) :
    p.answer wakeups job = ending.answer := by
  induction h with
  | last h => exact h.answer_eq
  | onward h _ ih => rw [h.answer_eq, ih]

/-! ### Every drive has its course

Rows of a page, pages, wakeups: an induction for each, on the same numbers on which the program
itself terminates. -/

variable (A K) in
def HasCourse (p : Point σ κ) (wakeups : List (Wakeup σ)) (job : Job) : Prop :=
  ∃ calls ending, Course A K p wakeups job calls ending

theorem Last.hasCourse (h : Last A K p wakeups job calls ending) : HasCourse A K p wakeups job :=
  ⟨calls, ending, .last h⟩

theorem Onward.hasCourse (h : Onward A K p wakeups job call next wakeups' job')
    (hrest : HasCourse A K next wakeups' job') : HasCourse A K p wakeups job := by
  obtain ⟨calls, ending, hrest⟩ := hrest
  exact ⟨call :: calls, ending, .onward h hrest⟩

/-- Rows are pulled until the page ends. -/
theorem hasCourse_row {s : σ} {k : κ}
    (hpage : ∀ t l job', pullPage s k job = .ok () ((t, l), job') →
      HasCourse A K (.page t l) wakeups job') : HasCourse A K (.row s k) wakeups job := by
  -- `pullPage` goes on after each row taken, and all else it comes to is a last call or the end of the page
  fun_induction pullPage s k job with
  | case1 s k job e hkilled => exact (Last.rowKilled hkilled).hasCourse
  | case2 s k job hlive e t job' hmove => exact (Last.failed hlive hmove).hasCourse
  | case3 s k job hlive t job' hmove =>
    cases hloaded : BatchIterator.allLoaded t with
    | true => exact (Last.exhausted hlive hmove hloaded).hasCourse
    | false => exact (Onward.pageEnd hlive hmove hloaded).hasCourse (hpage t k job' rfl)
  | case4 s k job hlive t job' hmove e l job'' haccept =>
    exact (Onward.found hlive hmove).hasCourse (Last.refused haccept).hasCourse
  | case5 s k job hlive t job' hmove l job'' haccept ih =>
    exact (Onward.found hlive hmove).hasCourse ((Onward.taken haccept).hasCourse (ih hpage))

/-- Page after page is pulled until one has to be waited for. -/
theorem hasCourse_page (hwait : ∀ (s : σ) (k : κ) job, HasCourse A K (.waiting s k) wakeups job) (s : σ)
    (k : κ) (job : Job) : HasCourse A K (.page s k) wakeups job := by
  -- induction on the pages that can still be loaded
  induction hn : BatchIterator.pages s using Nat.strongRecOn generalizing s k job with
  | ind n ih =>
    cases hlive : job.kill.check with
    | error e => exact (Last.pageKilled hlive).hasCourse
    | ok u =>
      rcases hload : BatchIterator.load (s, job) with ⟨_ | _, t, job'⟩ | ⟨e, t, job'⟩
      · have hpages := BatchIterator.pages_of_load hload
        exact (Onward.loaded hlive hload).hasCourse (hasCourse_row fun u l job'' hpage =>
          ih _ (hn ▸ Nat.lt_of_le_of_lt (pages_of_pullPage hpage) hpages) u l job'' rfl)
      · exact (Onward.pending hlive hload).hasCourse (hwait t k job')
      · exact (Last.unloaded hlive hload).hasCourse

theorem hasCourse_waiting (wakeups : List (Wakeup σ)) (s : σ) (k : κ) (job : Job) :
    HasCourse A K (.waiting s k) wakeups job := by
  induction wakeups generalizing s k job with
  | nil => exact Last.paused.hasCourse
  | cons w wakeups ih => exact Onward.woken.hasCourse (hasCourse_page ih (w.arrive s) k _)

/-- **Every drive has its course.** -/
theorem hasCourse (s : σ) (k : κ) (wakeups : List (Wakeup σ)) (job : Job) :
    HasCourse A K (.row s k) wakeups job :=
  hasCourse_row fun t l job' _ => hasCourse_page (hasCourse_waiting wakeups) t l job'

/-! ### Kills

The step looks at one call: it leaves the switch flipped by the first kill that came during it.
After that only two things can be asked, and each of them leads to a point where the switch is
looked at, or to an end. -/

/-- What can still be asked after the call during which the job was killed: the row that it delivered is handed
over, or the page that it asked for is waited for. -/
inductive Call.Aftermath (call : Call) : List Call → Prop where
  | nothing : Aftermath call []
  | handed (row : Row) (accept : Call) (hfound : call.question = .next (some row))
      (haccept : accept.question = .accept row) : Aftermath call [accept]
  | woken (wait : Call) (hload : call.question = .load) (hwait : wait.question = .wait) :
      Aftermath call [wait]

theorem KillSwitch.check_of_reason {k : KillSwitch} {r : String} (h : k.reason = some r) :
    k.check = .error (.jobKilled r) := by
  simp [check, h]

theorem KillSwitch.jobKilled_of_check {k : KillSwitch} {e : OpError} (h : k.check = .error e) :
    ∃ r, e = .jobKilled r := by
  unfold check at h
  split at h
  · cases h
    exact ⟨_, rfl⟩
  · cases h

/-- What a call asked for, by the point that it led to. -/
def Point.Follows (call : Call) : Point σ κ → Prop
  | row _ _ => True
  | offered s _ => call.question = .next (some (BatchIterator.current s))
  | page _ _ => True
  | waiting _ _ => call.question = .load

theorem Onward.follows (h : Onward A K p wakeups job call next wakeups' job') : next.Follows call := by
  cases h with
  | found => rfl
  | pageEnd => trivial
  | taken => trivial
  | loaded => trivial
  | pending => rfl
  | woken => trivial

theorem Job.reason_interrupt (reason : Option String) (job : Job) :
    (job.interrupt reason).kill.reason = job.kill.reason.or reason := by
  rw [kill_interrupt, KillSwitch.reason_strike]
  cases reason <;> rfl

/-- **One call** leaves the switch that it found, flipped by the first of its kills. -/
theorem Onward.reason (h : Onward A K p wakeups job call next wakeups' job') :
    job'.kill.reason = job.kill.reason.or call.kills.head? := by
  cases h with
  | found _ hmove => exact (A.moveNext_spec _).reason hmove
  | pageEnd _ hmove => exact (A.moveNext_spec _).reason hmove
  | taken haccept => exact (K.accept_spec _ _).reason haccept
  | loaded _ hload => exact (A.load_spec _).reason hload
  | pending _ hload => exact (A.load_spec _).reason hload
  | woken =>
    rw [Job.reason_interrupt]
    cases Wakeup.kill _ <;> rfl

/-- How a drive comes to its end after a kill: the switch is seen, the call itself ended the drive, the consumer
failed with the row that the call delivered, or the drive has yet to be told that it need not wait. -/
def Ending.After (r : String) (call : Call) (after : List Call) : Ending σ κ → Prop
  | stopped e _ _ _ => e = .jobKilled r
  | ended result _ _ _ => after = [] ∨ ∃ row e, call.question = .next (some row) ∧ result = .error e
  | paused _ _ job => job.kill.reason = some r

/-- **Before a row and before a page** the switch is seen. -/
theorem Course.of_killed {s : σ} {k : κ} (h : Course A K p wakeups job calls ending) {r : String}
    (hkilled : job.kill.reason = some r) (hp : p = .row s k ∨ p = .page s k) :
    calls = [] ∧ ending = .stopped (.jobKilled r) s k job := by
  have hcheck := KillSwitch.check_of_reason hkilled
  cases h with
  | last h => cases h <;> simp_all
  | onward h => cases h <;> simp_all

/-- **After a kill** nothing is asked for, but that the consumer is given the row that is there, and that a wait
comes to its end. -/
theorem Course.aftermath (h : Course A K p wakeups job calls ending) {r : String}
    (hkilled : job.kill.reason = some r) (hcall : p.Follows call) :
    call.Aftermath calls ∧ ending.After r call calls := by
  -- a row that is there and a wait are over with one call, and then comes a point where the switch is seen
  cases p with
  | row s k =>
    obtain ⟨rfl, rfl⟩ := h.of_killed hkilled (.inl rfl)
    exact ⟨.nothing, rfl⟩
  | page s k =>
    obtain ⟨rfl, rfl⟩ := h.of_killed hkilled (.inr rfl)
    exact ⟨.nothing, rfl⟩
  | offered s k =>
    cases h with
    | last h =>
      cases h
      exact ⟨.handed _ _ hcall rfl, .inr ⟨_, _, hcall, rfl⟩⟩
    | onward h hrest =>
      have hstill := h.reason
      rw [hkilled, Option.some_or] at hstill
      cases h
      obtain ⟨rfl, rfl⟩ := hrest.of_killed hstill (.inl rfl)
      exact ⟨.handed _ _ hcall rfl, rfl⟩
  | waiting s k =>
    cases h with
    | last h =>
      cases h
      exact ⟨.nothing, hkilled⟩
    | onward h hrest =>
      have hstill := h.reason
      rw [hkilled, Option.some_or] at hstill
      cases h
      obtain ⟨rfl, rfl⟩ := hrest.of_killed hstill (.inr rfl)
      exact ⟨.woken _ hcall rfl, rfl⟩

/-- The call that ends a drive is the last one. -/
theorem Last.eq_of_calls (h : Last A K p wakeups job calls ending) {before after : List Call}
    (hcalls : calls = before ++ call :: after) (r : String) : after = [] ∧ ending.After r call after := by
  have hone {c : Call} (hc : [c] = before ++ call :: after) : after = [] := by
    obtain ⟨-, hsame⟩ | ⟨-, hnil⟩ := List.singleton_eq_append_iff.1 hc
    · exact (List.cons.inj hsame).2
    · cases hnil
  cases h with
  | rowKilled => simp at hcalls
  | pageKilled => simp at hcalls
  | exhausted => exact ⟨hone hcalls, .inl (hone hcalls)⟩
  | failed => exact ⟨hone hcalls, .inl (hone hcalls)⟩
  | refused => exact ⟨hone hcalls, .inl (hone hcalls)⟩
  | unloaded => exact ⟨hone hcalls, .inl (hone hcalls)⟩
  | paused => simp at hcalls

/-- **The first kill**, during whatever call it comes. -/
theorem Course.first_kill (h : Course A K p wakeups job calls ending) (hlive : job.kill.reason = none)
    {before after : List Call} (hcalls : calls = before ++ call :: after)
    (hbefore : ∀ c ∈ before, c.kills = []) {r : String} {later : List String}
    (hcall : call.kills = r :: later) : call.Aftermath after ∧ ending.After r call after := by
  -- induction on the course: the calls before the kill leave the switch as it is
  induction h generalizing before with
  | last h =>
    obtain ⟨rfl, hafter⟩ := h.eq_of_calls hcalls r
    exact ⟨.nothing, hafter⟩
  | onward h hrest ih =>
    have hreason := h.reason
    rw [hlive, Option.none_or] at hreason
    cases before with
    | nil =>
      obtain ⟨rfl, rfl⟩ := List.cons.inj hcalls
      rw [hcall] at hreason
      exact hrest.aftermath hreason h.follows
    | cons b before =>
      obtain ⟨rfl, hothers⟩ := List.cons.inj hcalls
      rw [hbefore _ List.mem_cons_self] at hreason
      exact ih hreason hothers fun c hc => hbefore c (List.mem_cons_of_mem _ hc)

/-! ### The same drive without kills

A call does not look at the switch. So the calls up to the kill are those of the drive that nobody
kills, and what a call ended would have ended so. -/

/-- The same wakeup, but for the kill. -/
def Wakeup.spared (w : Wakeup σ) : Wakeup σ := { w with kill := none }

/-- What arrives has nothing to do with kills. -/
def Wakeup.Harmless (A : Sparing σ) (w : Wakeup σ) : Prop :=
  ∀ s, A.spare (w.arrive s) = w.arrive (A.spare s)

variable (A K) in
/-- The same point, without the kills that are to come. -/
def Point.spare : Point σ κ → Point σ κ
  | row s k => row (A.spare s) (K.spare k)
  | offered s k => offered (A.spare s) (K.spare k)
  | page s k => page (A.spare s) (K.spare k)
  | waiting s k => waiting (A.spare s) (K.spare k)

variable (A K) in
def Ending.spare : Ending σ κ → Ending σ κ
  | stopped e s k job => stopped e (A.spare s) (K.spare k) job.spared
  | ended result s k job => ended result (A.spare s) (K.spare k) job.spared
  | paused s k job => paused (A.spare s) (K.spare k) job.spared

theorem Ending.answer_spare (ending : Ending σ κ) : (ending.spare A K).answer.1 = ending.answer.1 := by
  have hfinish (s : σ) (k : κ) (result : Except OpError Unit) (job : Job) :
      (Drive.finish (A.spare s) (K.spare k) result job.spared).1 = (Drive.finish s k result job).1 := by
    show Progress.finished (result.map fun () => RowConsumer.rows (K.spare k)) = _
    rw [K.rows_spare]
    rfl
  cases ending with
  | stopped e s k job => exact hfinish s k (.error e) job
  | ended result s k job => exact hfinish s k result job
  | paused s k job => rfl

/-- **One call** without kills. -/
theorem Onward.spare (h : Onward A K p wakeups job call next wakeups' job')
    (hwakeups : ∀ w ∈ wakeups, w.Harmless A) :
    (∃ call', Onward A K (p.spare A K) (wakeups.map Wakeup.spared) job.spared call' (next.spare A K)
      (wakeups'.map Wakeup.spared) job'.spared) ∧ ∀ w ∈ wakeups', w.Harmless A := by
  cases h with
  | found _ hmove => exact ⟨⟨_, .found rfl ((A.moveNext_spec _).run hmove)⟩, hwakeups⟩
  | pageEnd _ hmove hmore =>
    exact ⟨⟨_, .pageEnd rfl ((A.moveNext_spec _).run hmove) ((A.allLoaded_spare _).trans hmore)⟩, hwakeups⟩
  | taken haccept =>
    have htaken := (K.accept_spec _ _).run haccept
    rw [← A.current_spare] at htaken
    exact ⟨⟨_, .taken htaken⟩, hwakeups⟩
  | loaded _ hload => exact ⟨⟨_, .loaded rfl ((A.load_spec _).run hload)⟩, hwakeups⟩
  | pending _ hload => exact ⟨⟨_, .pending rfl ((A.load_spec _).run hload)⟩, hwakeups⟩
  | @woken s _ w =>
    obtain ⟨hw, hwakeups⟩ := List.forall_mem_cons.1 hwakeups
    refine ⟨⟨⟨.wait, []⟩, ?_⟩, hwakeups⟩
    rw [Point.spare, Point.spare, hw s, Job.spared_interrupt]
    exact .woken (w := w.spared)

/-- The last call without kills, unless the switch was seen. -/
theorem Last.spare (h : Last A K p wakeups job calls ending) :
    (∃ r s k job', ending = .stopped (.jobKilled r) s k job') ∨
      ∃ calls', Last A K (p.spare A K) (wakeups.map Wakeup.spared) job.spared calls' (ending.spare A K) := by
  cases h with
  | rowKilled hkilled =>
    obtain ⟨r, rfl⟩ := KillSwitch.jobKilled_of_check hkilled
    exact .inl ⟨r, _, _, _, rfl⟩
  | pageKilled hkilled =>
    obtain ⟨r, rfl⟩ := KillSwitch.jobKilled_of_check hkilled
    exact .inl ⟨r, _, _, _, rfl⟩
  | exhausted _ hmove hloaded =>
    exact .inr ⟨_, .exhausted rfl ((A.moveNext_spec _).run hmove) ((A.allLoaded_spare _).trans hloaded)⟩
  | failed _ hmove => exact .inr ⟨_, .failed rfl ((A.moveNext_spec _).run hmove)⟩
  | refused haccept =>
    have hrefused := (K.accept_spec _ _).run haccept
    rw [← A.current_spare] at hrefused
    exact .inr ⟨_, .refused hrefused⟩
  | unloaded _ hload => exact .inr ⟨_, .unloaded rfl ((A.load_spec _).run hload)⟩
  | paused => exact .inr ⟨_, .paused⟩

/-- **A drive is stopped by a kill, or its course is the one without any.** -/
theorem Course.spare (h : Course A K p wakeups job calls ending)
    (hwakeups : ∀ w ∈ wakeups, w.Harmless A) :
    (∃ r s k job', ending = .stopped (.jobKilled r) s k job') ∨
      ∃ calls', Course A K (p.spare A K) (wakeups.map Wakeup.spared) job.spared calls'
        (ending.spare A K) := by
  induction h with
  | last h =>
    obtain hstopped | ⟨calls', hlast⟩ := h.spare
    · exact .inl hstopped
    · exact .inr ⟨calls', .last hlast⟩
  | onward h _ ih =>
    obtain ⟨⟨call', hcall⟩, hothers⟩ := h.spare hwakeups
    obtain hstopped | ⟨calls', hrest⟩ := ih hothers
    · exact .inl hstopped
    · exact .inr ⟨call' :: calls', .onward hcall hrest⟩

end Machine

/-! ## Drives of chains

The results for all chains, sources and consumers, and the runs that show that a kill can come in
the middle of a row. -/

namespace Chain

variable {β : Type} [BatchIterator β]

theorem spare_build (A : Sparing β) (source : β) (ops : List Operator) :
    (sparing A ops.length).spare (build source ops) = build (A.spare source) ops := by
  induction ops with
  | nil => rfl
  | cons op ops ih => exact congrArg (Prod.mk (Stage.new op)) ih

theorem spare_modifySource (A : Sparing β) {f : β → β} (hf : ∀ s, A.spare (f s) = f (A.spare s)) {n : Nat}
    (c : Chain β n) : (sparing A n).spare (c.modifySource f) = modifySource f ((sparing A n).spare c) := by
  induction n with
  | zero => exact hf c
  | succ n ih => exact congrArg (Prod.mk c.1) (ih c.2)

end Chain

/-- A wakeup of a source, as one of a chain over it. -/
def Wakeup.ofSource {β : Type} (w : Wakeup β) (n : Nat) : Wakeup (Chain (Counted β) n) :=
  ⟨Chain.modifySource (Counted.modify w.arrive), w.kill⟩

theorem attend_wake {β κ : Type} [BatchIterator β] [RowConsumer κ] {n : Nat} (wakeups : List (Wakeup β))
    (answer : Progress OpError × Drive (Chain (Counted β) n) κ × Job) :
    Progress.attend Drive.wake wakeups answer =
      Progress.attend Drive.rouse (wakeups.map (Wakeup.ofSource · n)) answer := by
  induction wakeups generalizing answer with
  | nil => rfl
  | cons w wakeups ih =>
    obtain ⟨progress, d, job⟩ := answer
    match progress with
    | .pending => exact ih (Drive.wake w d job)
    | .finished result => rfl
    | .over => rfl

/-- A drive of operators over a source into a consumer, and everything that happens to it. -/
structure KillableDrive (β κ : Type) where
  source : β
  operators : List Operator
  consumer : κ
  job : Job
  wakeups : List (Wakeup β)
  /-- Whether the job is killed, for each call of the source. -/
  sourceKills : List (Option String)
  /-- Whether the job is killed, for each row that the consumer takes. -/
  consumerKills : List (Option String)

namespace KillableDrive

variable {β κ : Type} [BatchIterator β] [RowConsumer κ]

def start (d : KillableDrive β κ) :
    Drive (Chain (Counted (KillingSource β)) d.operators.reverse.length) (Interrupted κ) :=
  .new (compose (Counted.new ⟨d.source, d.sourceKills⟩) d.operators) ⟨d.consumer, d.consumerKills⟩

/-- What the drive answers in the end. -/
def answer (d : KillableDrive β κ) : Progress OpError ×
    Drive (Chain (Counted (KillingSource β)) d.operators.reverse.length) (Interrupted κ) × Job :=
  Progress.attend Drive.wake (d.wakeups.map fun w => ⟨KillingSource.modify w.arrive, w.kill⟩)
    (d.start.poll d.job)

/-- The same drive, if nobody ever kills the job. -/
def spared (d : KillableDrive β κ) : KillableDrive β κ :=
  { d with
    job := d.job.spared
    wakeups := d.wakeups.map Wakeup.spared
    sourceKills := []
    consumerKills := [] }

/-- What happens while the drive waits, for the chain. -/
def chainWakeups (d : KillableDrive β κ) :
    List (Wakeup (Chain (Counted (KillingSource β)) d.operators.reverse.length)) :=
  d.wakeups.map fun w => Wakeup.ofSource ⟨KillingSource.modify w.arrive, w.kill⟩ _

section Calls

variable (hsource : HeedlessIterator β) (hconsumer : HeedlessConsumer κ)

/-- The chain, with the kills that are to come. -/
def chainSparing (d : KillableDrive β κ) :
    Sparing (Chain (Counted (KillingSource β)) d.operators.reverse.length) :=
  Chain.sparing (KillingSource.sparing hsource).counted _

/-- The calls of the drive, one after the other, and how they come to their end. -/
def Calls (d : KillableDrive β κ) (calls : List Call)
    (ending : Ending (Chain (Counted (KillingSource β)) d.operators.reverse.length) (Interrupted κ)) :
    Prop :=
  Course (d.chainSparing hsource) (Interrupted.sparing hconsumer) (.row d.start.chain d.start.consumer)
    d.chainWakeups d.job calls ending

theorem answer_eq (d : KillableDrive β κ) :
    d.answer = (Point.row d.start.chain d.start.consumer).answer d.chainWakeups d.job := by
  rw [answer, attend_wake, List.map_map]
  rfl

theorem answer_spared (d : KillableDrive β κ) : d.spared.answer =
    ((Point.row d.start.chain d.start.consumer).spare (d.chainSparing hsource)
      (Interrupted.sparing hconsumer)).answer (d.chainWakeups.map Wakeup.spared) d.job.spared := by
  have hchain : (d.chainSparing hsource).spare d.start.chain = d.spared.start.chain :=
    Chain.spare_build (KillingSource.sparing hsource).counted _ d.operators.reverse
  have hwakeups : d.chainWakeups.map Wakeup.spared = d.spared.chainWakeups := by
    simp only [chainWakeups, spared, List.map_map]
    rfl
  rw [answer_eq, Point.spare, hchain, hwakeups]
  rfl

omit [RowConsumer κ] in
theorem harmless_chainWakeups (d : KillableDrive β κ) :
    ∀ w ∈ d.chainWakeups, w.Harmless (d.chainSparing hsource) := by
  intro w hw
  obtain ⟨w, -, rfl⟩ := List.mem_map.1 hw
  exact Chain.spare_modifySource (KillingSource.sparing hsource).counted
    (f := Counted.modify (KillingSource.modify w.arrive)) fun _ => rfl

end Calls

/-- A drive that has yet to be told that it need not wait fails with the reason as soon as it is told. -/
theorem wake_killed {n : Nat} {s : Chain (Counted β) n} {k : κ} {job : Job} {r : String}
    (hkilled : job.kill.reason = some r) (w : Wakeup β) :
    (Drive.wake w ⟨s, k, .suspended⟩ job).1 = .finished (.error (.jobKilled r)) := by
  have hstill : (job.interrupt w.kill).kill.reason = some r := by
    rw [Job.reason_interrupt, hkilled, Option.some_or]
  unfold Drive.wake Drive.poll
  simp only [resume_eq, KillSwitch.check_of_reason hstill]
  rfl

/-- **A kill stops the run.** Over every chain, source and consumer, if these two do not look at the switch
themselves, and whenever the job is killed, however often and for whatever reasons: before the run, during calls
of the source or of the consumer, or while the drive waits.

* A job that is killed before the run is asked for nothing.
* Let the first kill come during some call. If that call pulled a row, the consumer is still given this row;
  otherwise it is given none. The drive fails with the reason of the first kill, unless this call ended the drive,
  or pulled a row that the consumer fails with, and then it ends as it would have done without any kill. A drive
  that waits fails as soon as it is woken.
* A drive fails because it is killed, or does what it does if nobody ever kills the job: where it answers with
  rows, none is missing. -/
theorem answer_killed (hsource : HeedlessIterator β) (hconsumer : HeedlessConsumer κ)
    (d : KillableDrive β κ) :
    (∃ calls ending, d.Calls hsource hconsumer calls ending) ∧
      ∀ calls ending, d.Calls hsource hconsumer calls ending → d.answer = ending.answer ∧
        (∀ r, d.job.kill.reason = some r →
          calls = [] ∧ d.answer.1 = .finished (.error (.jobKilled r))) ∧
        (∀ before call after r later, d.job.kill.reason = none → calls = before ++ call :: after →
          (∀ c ∈ before, c.kills = []) → call.kills = r :: later → call.Aftermath after ∧
            (d.answer.1 = .finished (.error (.jobKilled r)) ∨
              (∃ result s k job, ending = .ended result s k job ∧
                (after = [] ∨ ∃ row e, call.question = .next (some row) ∧ result = .error e) ∧
                d.answer.1 = d.spared.answer.1) ∨
              (d.answer.1 = .pending ∧ ∀ w,
                (Drive.wake w d.answer.2.1 d.answer.2.2).1 = .finished (.error (.jobKilled r))))) ∧
        ((∃ r, d.answer.1 = .finished (.error (.jobKilled r))) ∨ d.answer.1 = d.spared.answer.1) := by
  refine ⟨hasCourse _ _ _ _, fun calls ending hcalls => ?_⟩
  have hanswer : d.answer = ending.answer := d.answer_eq.trans hcalls.answer_eq
  -- what is not stopped by a kill ends as it would have done without any
  have hspared : (∃ r s k job, ending = .stopped (.jobKilled r) s k job) ∨
      ending.answer.1 = d.spared.answer.1 := by
    refine (hcalls.spare (d.harmless_chainWakeups hsource)).imp_right fun ⟨calls', hcourse⟩ => ?_
    rw [answer_spared hsource hconsumer d, hcourse.answer_eq, Ending.answer_spare]
  rw [hanswer]
  refine ⟨rfl, fun r hr => ?_, fun before call after r later hlive hsplit hbefore hcall => ?_, ?_⟩
  · obtain ⟨rfl, rfl⟩ := hcalls.of_killed hr (.inl rfl)
    exact ⟨rfl, rfl⟩
  · obtain ⟨haftermath, hafter⟩ := hcalls.first_kill hlive hsplit hbefore hcall
    refine ⟨haftermath, ?_⟩
    -- an end that a call made is one that the switch had no part in
    match ending with
    | .stopped _ _ _ _ =>
      cases hafter
      exact .inl rfl
    | .ended result s k job =>
      obtain ⟨_, _, _, _, hstopped⟩ | hsame := hspared
      · cases hstopped
      · exact .inr (.inl ⟨result, s, k, job, rfl, hafter, hsame⟩)
    | .paused s k job => exact .inr (.inr ⟨rfl, wake_killed hafter⟩)
  · refine hspared.imp_left ?_
    rintro ⟨r, s, k, job, rfl⟩
    exact ⟨r, rfl⟩

/-- Three rows. The job is killed while the second is delivered, and again when the consumer takes it. -/
def secondRow : KillableDrive Source ResultSet where
  source := .memory (.paged [[.int64 1], [.int64 2], [.int64 3]] 2)
  operators := []
  consumer := .new
  job := .live (.unlimited "" .nil)
  wakeups := []
  sourceKills := [none, some "first", some "never"]
  consumerKills := [none, some "second"]

theorem answer_killed_secondRow :
    let accept : Call := ⟨.accept [.int64 2], ["second"]⟩
    (∃ ending, secondRow.Calls Source.heedless ResultSet.heedless
      [⟨.next (some [.int64 1]), []⟩, ⟨.accept [.int64 1], []⟩, ⟨.next (some [.int64 2]), ["first"]⟩,
        accept] ending) ∧
      Call.Aftermath ⟨.next (some [.int64 2]), ["first"]⟩ [accept] ∧
      secondRow.answer.1 = .finished (.error (.jobKilled "first")) := by
  intro accept
  obtain ⟨calls, s, k, job, hcalls, rfl⟩ : ∃ calls s k job,
      secondRow.Calls Source.heedless ResultSet.heedless calls (.stopped (.jobKilled "first") s k job) ∧
        calls = [⟨.next (some [.int64 1]), []⟩, ⟨.accept [.int64 1], []⟩,
          ⟨.next (some [.int64 2]), ["first"]⟩, accept] := by
    -- the calls and the states between them are what the steps come to
    iterate 4 apply Exists.intro
    constructor
    · unfold Calls
      apply Course.onward
      · exact .found rfl rfl
      apply Course.onward
      · exact .taken rfl
      apply Course.onward
      · exact .found rfl rfl
      apply Course.onward
      · exact .taken rfl
      exact .last (.rowKilled rfl)
    · rfl
  have hkilled := (answer_killed Source.heedless ResultSet.heedless secondRow).2 _ _ hcalls
  obtain ⟨haftermath, -⟩ := hkilled.2.2.1 [⟨.next (some [.int64 1]), []⟩, ⟨.accept [.int64 1], []⟩]
    ⟨.next (some [.int64 2]), ["first"]⟩ [accept] "first" [] rfl rfl (by simp) rfl
  exact ⟨⟨_, hcalls⟩, haftermath, congrArg Prod.fst hkilled.1⟩

/-- One row. The job is killed while it is delivered, and has no memory for a result set to keep it. -/
def unaffordableRow : KillableDrive Source ResultSet where
  source := .memory (.paged [[.int64 1]] 1)
  operators := []
  consumer := .new
  job := .live ⟨.new "rows" 10, .new .nil none⟩
  wakeups := []
  sourceKills := [some "stop"]
  consumerKills := []

/-- **A kill that a row outruns.** The call that was going on when the job was killed delivered a row and ended
nothing; the consumer fails with this row, and its error is what the drive fails with, not the kill. -/
theorem answer_unaffordableRow :
    (∃ ending, unaffordableRow.Calls Source.heedless ResultSet.heedless
      [⟨.next (some [.int64 1]), ["stop"]⟩, ⟨.accept [.int64 1], []⟩] ending) ∧
      unaffordableRow.answer.1 =
        .finished (.error (.memory (.circuitBreaking "rows" "result" 88 10 0))) ∧
      ∀ r, unaffordableRow.answer.1 ≠ .finished (.error (.jobKilled r)) := by
  obtain ⟨calls, e, s, k, job, hcalls, rfl, rfl⟩ : ∃ calls e s k job,
      unaffordableRow.Calls Source.heedless ResultSet.heedless calls (.ended (.error e) s k job) ∧
        calls = [⟨.next (some [.int64 1]), ["stop"]⟩, ⟨.accept [.int64 1], []⟩] ∧
        e = .memory (.circuitBreaking "rows" "result" 88 10 0) := by
    iterate 5 apply Exists.intro
    refine ⟨?_, ?_, ?_⟩
    · unfold Calls
      apply Course.onward
      · exact .found rfl rfl
      exact .last (.refused rfl)
    · rfl
    · rfl
  have hanswer : unaffordableRow.answer.1 = .finished (.error (.memory _)) :=
    congrArg Prod.fst (unaffordableRow.answer_eq.trans hcalls.answer_eq)
  exact ⟨⟨_, hcalls⟩, hanswer, fun r hr => by rw [hanswer] at hr; cases hr⟩

end KillableDrive

end RowStream
