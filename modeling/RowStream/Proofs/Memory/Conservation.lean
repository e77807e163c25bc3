import RowStream.Proofs.Memory.Holdings

/-!
# Conservation of bytes

In a ledger the same bytes are counted three times: by the scope or buffer that holds them, by the
account of its job, and by the breaker of the job. The entries of a ledger, in whatever order, keep
the three counts equal.

* `Ledger.Step` — all that one entry can do to a ledger (`Ledger.step_apply`): nothing that is
  counted changes, or one holder makes one transfer.
* `Ledger.Conserved` — the invariant, which a step keeps (`Step.conserved`).
-/

namespace RowStream

namespace Ledger

/-! ## Counters of a job

The accounts and breakers that one job's requests go through, among all the others. -/

theorem budget?_eq_some {l : Ledger} {job : Nat} {b : Budget} :
    l.budget? job = some b ↔
      ∃ i, l.jobs[job]? = some (i, b.account) ∧ l.breakers[i]? = some b.breaker := by
  unfold budget?
  constructor
  · intro h
    rw [Option.bind_eq_bind, Option.bind_eq_some_iff] at h
    obtain ⟨⟨i, account⟩, hjob, h⟩ := h
    rw [Option.bind_eq_bind, Option.bind_eq_some_iff] at h
    obtain ⟨breaker, hbreaker, h⟩ := h
    cases h
    exact ⟨i, hjob, hbreaker⟩
  · rintro ⟨i, hjob, hbreaker⟩
    simp [hjob, hbreaker]

theorem isOn_eq_true {l : Ledger} {i job : Nat} :
    l.isOn i job = true ↔ ∃ account, l.jobs[job]? = some (i, account) := by
  unfold isOn
  rw [List.getElem?_map]
  cases l.jobs[job]? with
  | none => simp
  | some j => obtain ⟨k, account⟩ := j; simp

/-- Which job is on which breaker is a setting. -/
theorem isOn_congr {l l' : Ledger} (h : l'.settings = l.settings) : l'.isOn = l.isOn := by
  have hjobs : l'.jobs.map (·.1) = l.jobs.map (·.1) := by
    have hmap := congrArg (fun s => s.2.map (·.1)) h
    simpa [settings, Function.comp_def] using hmap
  funext i job
  unfold isOn
  rw [hjobs]

theorem budget?_isSome {l : Ledger} {job : Nat} :
    (l.budget? job).isSome ↔ ∃ i, l.isOn i job = true ∧ i < l.breakers.length := by
  rw [Option.isSome_iff_exists]
  constructor
  · rintro ⟨b, hb⟩
    obtain ⟨i, hjob, hbreaker⟩ := budget?_eq_some.1 hb
    exact ⟨i, isOn_eq_true.2 ⟨_, hjob⟩, (List.getElem?_eq_some_iff.1 hbreaker).1⟩
  · rintro ⟨i, hison, hlt⟩
    obtain ⟨account, hjob⟩ := isOn_eq_true.1 hison
    exact ⟨⟨l.breakers[i], account⟩, budget?_eq_some.2 ⟨i, hjob, List.getElem?_eq_getElem hlt⟩⟩

/-- So is which jobs have counters at all. -/
theorem budget?_eq_none_congr {l l' : Ledger} (h : l'.settings = l.settings) {job : Nat} :
    l'.budget? job = none ↔ l.budget? job = none := by
  have hlength : l'.breakers.length = l.breakers.length := by
    simpa [settings] using congrArg (fun s => s.1.length) h
  rw [← Option.not_isSome_iff_eq_none, ← Option.not_isSome_iff_eq_none, budget?_isSome,
    budget?_isSome, isOn_congr h, hlength]

theorem getElem?_set_eq_some {α : Type} {xs : List α} {i j : Nat} {x y : α}
    (h : (xs.set i x)[j]? = some y) : j = i ∧ y = x ∨ j ≠ i ∧ xs[j]? = some y := by
  rw [List.getElem?_set] at h
  split at h
  · next hij =>
    obtain ⟨-, h⟩ := Option.ite_none_right_eq_some.1 h
    cases h
    exact .inl ⟨hij.symm, rfl⟩
  · next hij => exact .inr ⟨Ne.symm hij, h⟩

/-- Putting something in its place that looks the same changes nothing that can be seen. -/
theorem map_set_same {α β : Type} (f : α → β) {xs : List α} {i : Nat} {old new : α}
    (h : xs[i]? = some old) (hf : f new = f old) : (xs.set i new).map f = xs.map f := by
  obtain ⟨hlt, rfl⟩ := List.getElem?_eq_some_iff.1 h
  rw [List.map_set, hf, ← List.map_set, List.set_getElem_self]

/-- What holds of the new element and of all others holds of all. -/
theorem forall_getElem?_set {α : Type} {xs : List α} {i : Nat} {x : α} {P : Nat → α → Prop}
    (hnew : P i x) (hothers : ∀ j y, j ≠ i → xs[j]? = some y → P j y) :
    ∀ j y, (xs.set i x)[j]? = some y → P j y := by
  intro j y hy
  obtain ⟨rfl, rfl⟩ | ⟨hne, hy⟩ := getElem?_set_eq_some hy
  · exact hnew
  · exact hothers j y hne hy

/-! ## One holder

One holder of a job holds more or less than before, all others hold what they held. -/

/-- What the holders of one job hold is held on its breaker. -/
theorem heldBy_le_heldOn {l : Ledger} {job i : Nat} {a : Account}
    (hjob : l.jobs[job]? = some (i, a)) : l.heldBy job ≤ l.heldOn i := by
  have hpq : ∀ job', (job' == job) = true → l.isOn i job' = true := by
    intro job' h
    rw [eq_of_beq h]
    exact isOn_eq_true.2 ⟨_, hjob⟩
  exact Nat.add_le_add (heldIn_mono _ hpq _) (heldIn_mono _ hpq _)

theorem heldOn_congr {l l' : Ledger} (hsettings : l'.settings = l.settings)
    (hheld : ∀ p, l'.heldWhere p = l.heldWhere p) (i : Nat) : l'.heldOn i = l.heldOn i := by
  rw [heldOn, heldOn, isOn_congr hsettings, hheld]

section Holder

variable {l l' : Ledger} {job i held held' : Nat} {a : Account}
  (hheld : ∀ p, l'.heldWhere p + (if p job then held else 0) =
    l.heldWhere p + (if p job then held' else 0))

include hheld

theorem heldBy_own : l'.heldBy job + held = l.heldBy job + held' := by
  simpa [heldBy] using hheld (· == job)

theorem heldBy_other {job' : Nat} (hne : job' ≠ job) : l'.heldBy job' = l.heldBy job' := by
  have hnone : (job == job') = false := by simpa using Ne.symm hne
  simpa [heldBy, hnone] using hheld (· == job')

variable (hsettings : l'.settings = l.settings) (hjob : l.jobs[job]? = some (i, a))

include hsettings hjob

theorem heldOn_own : l'.heldOn i + held = l.heldOn i + held' := by
  have hon : l.isOn i job = true := isOn_eq_true.2 ⟨_, hjob⟩
  rw [heldOn, heldOn, isOn_congr hsettings]
  simpa [hon] using hheld (l.isOn i)

/-- On a breaker that the job is not on. -/
theorem heldOn_other {i' : Nat} (hne : i' ≠ i) : l'.heldOn i' = l.heldOn i' := by
  have hoff : l.isOn i' job = false := by
    rw [Bool.eq_false_iff, Ne, isOn_eq_true]
    rintro ⟨a, ha⟩
    rw [hjob] at ha
    cases ha
    exact hne rfl
  rw [heldOn, heldOn, isOn_congr hsettings]
  simpa [hoff] using hheld (l.isOn i')

/-- The job has counters, so those without any hold what they held. -/
theorem adrift_other (hlt : i < l.breakers.length)
    (hadrift : ∀ job, l.budget? job = none → l.heldBy job = 0) {job' : Nat}
    (hnone : l'.budget? job' = none) : l'.heldBy job' = 0 := by
  have hnone := (budget?_eq_none_congr hsettings).1 hnone
  have hne : job' ≠ job := by
    rintro rfl
    have hsome : (l.budget? job').isSome = true :=
      budget?_isSome.2 ⟨i, isOn_eq_true.2 ⟨_, hjob⟩, hlt⟩
    rw [hnone] at hsome
    cases hsome
  rw [heldBy_other hheld hne]
  exact hadrift job' hnone

end Holder

/-! ## What one entry can do

The step of a ledger. Every entry either changes nothing that is counted or held, or it is a
transfer of one holder; the invariant is derived from this alone, and never from the definition of
an entry. -/

/-- All that one entry can do: it changes no counter and nothing that is held, or it lets one
holder of a job make a transfer. -/
inductive Step (l : Ledger) : Ledger → Prop
  | rest {l' : Ledger} (hjobs : l'.jobs = l.jobs) (hbreakers : l'.breakers = l.breakers)
      (hheld : ∀ p, l'.heldWhere p = l.heldWhere p) : Step l l'
  | move {l' : Ledger} {job i held held' : Nat} {b b' : Budget}
      (hjob : l.jobs[job]? = some (i, b.account)) (hbreaker : l.breakers[i]? = some b.breaker)
      (htransfer : b.Transfer held b' held') (hjobs : l'.jobs = l.jobs.set job (i, b'.account))
      (hbreakers : l'.breakers = l.breakers.set i b'.breaker)
      (hheld : ∀ p, l'.heldWhere p + (if p job then held else 0) =
        l.heldWhere p + (if p job then held' else 0)) : Step l l'

theorem Step.settings_eq {l l' : Ledger} (h : l.Step l') : l'.settings = l.settings := by
  cases h with
  | rest hjobs hbreakers => rw [settings, settings, hjobs, hbreakers]
  | move hjob hbreaker htransfer hjobs hbreakers =>
    rw [settings, settings, hjobs, hbreakers]
    have haccount := htransfer.sameAccount
    refine Prod.ext (map_set_same _ hbreaker htransfer.sameBreaker) (map_set_same _ hjob ?_)
    simp only [Prod.mk.injEq] at haccount ⊢
    exact ⟨trivial, haccount⟩

/-- A step stays one if nothing that is counted or held changes after it. -/
theorem Step.andRest {l l' l'' : Ledger} (h : l.Step l') (hjobs : l''.jobs = l'.jobs)
    (hbreakers : l''.breakers = l'.breakers) (hheld : ∀ p, l''.heldWhere p = l'.heldWhere p) :
    l.Step l'' := by
  cases h with
  | rest hjobs' hbreakers' hheld' =>
    exact .rest (hjobs.trans hjobs') (hbreakers.trans hbreakers') fun p =>
      (hheld p).trans (hheld' p)
  | move hjob hbreaker htransfer hjobs' hbreakers' hheld' =>
    refine .move hjob hbreaker htransfer (hjobs.trans hjobs') (hbreakers.trans hbreakers') ?_
    intro p
    rw [hheld]
    exact hheld' p

/-- What is counted is what is held, and within the limits. -/
structure Conserved (l : Ledger) : Prop where
  account : ∀ (job i : Nat) (a : Account), l.jobs[job]? = some (i, a) → a.used = l.heldBy job
  quota : ∀ (job i : Nat) (a : Account), l.jobs[job]? = some (i, a) →
    ∀ q, a.quota = some q → a.used ≤ q
  breaker : ∀ (i : Nat) (c : Breaker), l.breakers[i]? = some c → c.used = l.heldOn i
  limit : ∀ (i : Nat) (c : Breaker), l.breakers[i]? = some c → c.used ≤ c.limit
  size : ∀ (i : Nat) (c : Breaker), l.breakers[i]? = some c → c.used ≤ maxSize
  peak : ∀ (i : Nat) (c : Breaker), l.breakers[i]? = some c → c.used ≤ c.peak
  /-- A job that no counters are there for holds nothing. -/
  adrift : ∀ job, l.budget? job = none → l.heldBy job = 0

/-- The peak of a breaker takes note of every state. -/
theorem Step.peak {l l' : Ledger} (h : l.Step l') (hl : l.Conserved) {i : Nat} {c' : Breaker}
    (hc' : l'.breakers[i]? = some c') :
    ∃ c, l.breakers[i]? = some c ∧ c'.peak = max c.peak c'.used := by
  cases h with
  | rest hjobs hbreakers =>
    rw [hbreakers] at hc'
    exact ⟨c', hc', (Nat.max_eq_left (hl.peak i c' hc')).symm⟩
  | @move job k _ _ b b' hjob hbreaker htransfer hjobs hbreakers =>
    rw [hbreakers] at hc'
    obtain ⟨rfl, rfl⟩ | ⟨-, hc'⟩ := getElem?_set_eq_some hc'
    · exact ⟨b.breaker, hbreaker, htransfer.peak (hl.peak i _ hbreaker)⟩
    · exact ⟨c', hc', (Nat.max_eq_left (hl.peak i c' hc')).symm⟩

/-- Counters and holdings that stay as they are agree as before. -/
theorem Conserved.rest {l l' : Ledger} (hl : l.Conserved) (hjobs : l'.jobs = l.jobs)
    (hbreakers : l'.breakers = l.breakers) (hheld : ∀ p, l'.heldWhere p = l.heldWhere p) :
    l'.Conserved := by
  have hsettings : l'.settings = l.settings := (Step.rest hjobs hbreakers hheld).settings_eq
  have hon := heldOn_congr hsettings hheld
  have hby : ∀ job, l'.heldBy job = l.heldBy job := fun _ => hheld _
  constructor
  case account => simpa only [hjobs, hby] using hl.account
  case quota => simpa only [hjobs] using hl.quota
  case breaker => simpa only [hbreakers, hon] using hl.breaker
  case limit => simpa only [hbreakers] using hl.limit
  case size => simpa only [hbreakers] using hl.size
  case peak => simpa only [hbreakers] using hl.peak
  case adrift =>
    intro job hjob
    rw [hby]
    exact hl.adrift job ((budget?_eq_none_congr hsettings).1 hjob)

/-- Counters and holdings of other jobs and breakers stay as they are; those of the job that moves
change by the same number of bytes. -/
theorem Step.conserved {l l' : Ledger} (h : l.Step l') (hl : l.Conserved) : l'.Conserved := by
  have hsettings := h.settings_eq
  have hpeak : ∀ (i : Nat) (c : Breaker), l'.breakers[i]? = some c → c.used ≤ c.peak := by
    intro i c hc
    obtain ⟨c₀, -, hmax⟩ := h.peak hl hc
    omega
  cases h with
  | rest hjobs hbreakers hheld => exact hl.rest hjobs hbreakers hheld
  | @move job k held held' b b' hjob hbreaker htransfer hjobs hbreakers hheld =>
    have hbefore := hl.account job k _ hjob
    constructor
    case account =>
      rw [hjobs]
      -- the job that moves, or another one, whose holders do not
      refine fun job' i a => forall_getElem?_set (P := fun job' j => j.2.used = l'.heldBy job')
        ?_ (fun job' j hne hj => ?_) job' (i, a)
      · have hsum := heldBy_own hheld
        have hmoved := htransfer.account
        show b'.account.used = l'.heldBy job
        omega
      · rw [heldBy_other hheld hne]
        exact hl.account job' j.1 j.2 hj
    case quota =>
      rw [hjobs]
      refine fun job' i a => forall_getElem?_set
        (P := fun _ j => ∀ q, j.2.quota = some q → j.2.used ≤ q) ?_ (fun job' j _ hj => ?_) job' (i, a)
      · have hsame : b'.account.quota = b.account.quota := congrArg Prod.snd htransfer.sameAccount
        intro q hq
        rw [hsame] at hq
        exact htransfer.quota (hl.quota job k _ hjob) q hq
      · exact hl.quota job' j.1 j.2 hj
    case breaker =>
      rw [hbreakers]
      -- the breaker of the job, or another one, which the job is not on
      refine forall_getElem?_set ?_ fun i c hne hc => ?_
      · have hsum := heldOn_own hheld hsettings hjob
        have hused := hl.breaker k _ hbreaker
        have hmoved := htransfer.breaker
        omega
      · rw [heldOn_other hheld hsettings hjob hne]
        exact hl.breaker i c hc
    case limit =>
      rw [hbreakers]
      refine forall_getElem?_set ?_ fun i c _ hc => hl.limit i c hc
      have hsame : b'.breaker.limit = b.breaker.limit := congrArg Prod.snd htransfer.sameBreaker
      rw [hsame]
      exact htransfer.limit (hl.limit k _ hbreaker)
    case size =>
      rw [hbreakers]
      exact forall_getElem?_set (htransfer.size (hl.size k _ hbreaker)) fun i c _ hc =>
        hl.size i c hc
    case peak => exact hpeak
    case adrift =>
      exact fun job' => adrift_other hheld hsettings hjob
        (List.getElem?_eq_some_iff.1 hbreaker).1 hl.adrift

/-! ## Holders are covered

What a holder holds is within what its job holds, and that is within what is held on the breaker, so
giving it back takes neither counter below zero. -/

theorem Conserved.account_le {l : Ledger} (hl : l.Conserved) {job : Nat} {b : Budget}
    (hb : l.budget? job = some b) : b.account.used ≤ b.breaker.used := by
  obtain ⟨i, hjob, hbreaker⟩ := budget?_eq_some.1 hb
  rw [hl.account job i _ hjob, hl.breaker i _ hbreaker]
  exact heldBy_le_heldOn hjob

theorem Conserved.covered {l : Ledger} (hl : l.Conserved) {job held : Nat} {b : Budget}
    (hb : l.budget? job = some b) (hheld : held ≤ l.heldBy job) :
    held ≤ b.account.used ∧ held ≤ b.breaker.used := by
  obtain ⟨i, hjob, -⟩ := budget?_eq_some.1 hb
  have hused := hl.account job i _ hjob
  have hle := hl.account_le hb
  omega

/-! ## Entries are steps

One case for each entry. Operations on scopes and buffers have their transfers from the module on
transfers; what is left is that they go to the right place. -/

/-- The bytes that an entry asks for. -/
def asked (l : Ledger) : Entry → Nat
  | .add _ bytes => bytes
  | .push i text => (l.buffer? i).elim 0 fun s => s.missing text.utf8ByteSize
  | .pushChar i c => (l.buffer? i).elim 0 fun s => s.missing c.utf8Size
  | _ => 0

/-- No breaker would count beyond the sizes if it granted so many bytes. -/
def HasRoom (l : Ledger) (bytes : Nat) : Prop := ∀ c ∈ l.breakers, c.used + bytes ≤ maxSize

theorem Conserved.hasRoom_zero {l : Ledger} (hl : l.Conserved) : l.HasRoom 0 := by
  intro c hc
  obtain ⟨i, hi⟩ := List.mem_iff_getElem?.1 hc
  exact hl.size i c hi

theorem step_of_conserves {l l' : Ledger} (hl : l.Conserved) {σ : Type} {held : σ → Nat} {s : σ}
    {m : Metered MemoryError σ Unit} {job asked : Nat} {b : Budget} (hb : l.budget? job = some b)
    (hm : m.Conserves held s asked) (hroom : l.HasRoom asked) (hcovered : held s ≤ l.heldBy job)
    (hjobs : l'.jobs = (l.setBudget job (m.run (s, b)).2.2).jobs)
    (hbreakers : l'.breakers = (l.setBudget job (m.run (s, b)).2.2).breakers)
    (hheld : ∀ p, l'.heldWhere p + (if p job then held s else 0) =
      l.heldWhere p + (if p job then held (m.run (s, b)).2.1 else 0)) : l.Step l' := by
  obtain ⟨i, hjob, hbreaker⟩ := budget?_eq_some.1 hb
  obtain ⟨haccount, hcount⟩ := hl.covered hb hcovered
  have hfits := hroom _ (List.mem_of_getElem? hbreaker)
  have hle := hl.account_le hb
  have htransfer := hm b haccount hcount (by omega) hfits
  unfold setBudget at hjobs hbreakers
  rw [hjob] at hjobs hbreakers
  exact .move hjob hbreaker htransfer hjobs hbreakers hheld

theorem step_onScope {l : Ledger} (hl : l.Conserved) (i : Nat)
    {m : Metered MemoryError Scope Unit} {asked : Nat}
    (hm : ∀ s, l.scope? i = some s → m.Conserves Scope.held s asked) (hroom : l.HasRoom asked) :
    l.Step (l.onScope i m).2 := by
  obtain ⟨heq, -⟩ | ⟨job, s, b, hplace, hb, heq⟩ := l.onScope_cases i m
  · rw [heq]
    exact .rest rfl rfl fun _ => rfl
  · have hs : l.scope? i = some s := by
      rw [scope?, hplace]
      rfl
    rw [heq]
    refine step_of_conserves hl hb (hm s hs) hroom (held_le_heldBy_of_scope hplace) rfl rfl ?_
    exact heldWhere_setScope _ (some _) hplace rfl (l.setBudget_buffers _ _)

theorem bytesOf_releaseScope {l : Ledger}
    (hadrift : ∀ job, l.budget? job = none → l.heldBy job = 0) (i : Nat) :
    (l.onScope i (Metered.update Scope.release)).2.bytesOf (.scope i) = 0 := by
  obtain ⟨heq, hnone⟩ | ⟨job, s, b, hplace, hb, heq⟩ :=
    l.onScope_cases i (Metered.update Scope.release)
  · rw [heq, bytesOf, scope?]
    cases hplace : l.scopes[i]? with
    | none => rfl
    | some place =>
      obtain ⟨job, _ | s⟩ := place
      · rfl
      · -- without counters of its job the holder never got anything
        have hcovered := held_le_heldBy_of_scope hplace
        rw [hadrift job (hnone job s hplace)] at hcovered
        exact Nat.le_zero.1 hcovered
  · have hlt := (List.getElem?_eq_some_iff.1 hplace).1
    rw [heq, bytesOf, scope?]
    show ((l.scopes.set i _)[i]?.bind (·.2)).elim 0 Scope.held = 0
    rw [elim_set Scope.held hlt, if_pos rfl]
    exact s.held_release b

theorem step_onBuffer {l : Ledger} (hl : l.Conserved) (i : Nat)
    {m : Metered MemoryError Scratch Unit} {asked : Nat}
    (hm : ∀ s, l.buffer? i = some s → m.Conserves Scratch.held s asked) (hroom : l.HasRoom asked) :
    l.Step (l.onBuffer i m).2 := by
  obtain ⟨heq, -⟩ | ⟨job, s, b, hplace, hb, heq⟩ := l.onBuffer_cases i m
  · rw [heq]
    exact .rest rfl rfl fun _ => rfl
  · have hs : l.buffer? i = some s := by
      rw [buffer?, hplace]
      rfl
    rw [heq]
    refine step_of_conserves hl hb (hm s hs) hroom (held_le_heldBy_of_buffer hplace) rfl rfl ?_
    exact heldWhere_setBuffer _ (some _) hplace rfl (l.setBudget_scopes _ _)

theorem bytesOf_releaseBuffer {l : Ledger}
    (hadrift : ∀ job, l.budget? job = none → l.heldBy job = 0) (i : Nat) :
    (l.onBuffer i (Metered.update Scratch.release)).2.bytesOf (.buffer i) = 0 := by
  obtain ⟨heq, hnone⟩ | ⟨job, s, b, hplace, hb, heq⟩ :=
    l.onBuffer_cases i (Metered.update Scratch.release)
  · rw [heq, bytesOf, buffer?]
    cases hplace : l.buffers[i]? with
    | none => rfl
    | some place =>
      obtain ⟨job, _ | s⟩ := place
      · rfl
      · -- without counters of its job the holder never got anything
        have hcovered := held_le_heldBy_of_buffer hplace
        rw [hadrift job (hnone job s hplace)] at hcovered
        exact Nat.le_zero.1 hcovered
  · have hlt := (List.getElem?_eq_some_iff.1 hplace).1
    rw [heq, bytesOf, buffer?]
    show ((l.buffers.set i _)[i]?.bind (·.2)).elim 0 Scratch.held = 0
    rw [elim_set Scratch.held hlt, if_pos rfl]
    exact s.held_release b

/-- **Every entry is a step**, where there is room for what it asks for. -/
theorem step_apply {l : Ledger} (hl : l.Conserved) (e : Entry) (hroom : l.HasRoom (l.asked e)) :
    l.Step (l.apply e).2 := by
  cases e with
  | openScope job label =>
    refine .rest rfl rfl fun p => ?_
    show heldIn _ p (l.scopes ++ [(job, some (.new label))]) + heldIn _ p l.buffers = l.heldWhere p
    rw [heldIn_concat]
    simp [heldAt, heldWhere, Scope.new]
  | add i bytes => exact step_onScope hl i (fun s _ => s.conserves_add bytes) hroom
  | sub i bytes => exact step_onScope hl i (fun s _ => s.conserves_sub bytes) hroom
  | releaseScope i => exact step_onScope hl i (fun s _ => s.conserves_release) hroom
  | dropScope i =>
    -- a holder that is dropped gives everything back first
    have hstep := step_onScope hl i (fun s _ => s.conserves_release) hroom
    have hforget := forgetScope_counters (l.onScope i (Metered.update Scope.release)).2 i
    exact hstep.andRest hforget.1 hforget.2 (heldWhere_forgetScope (bytesOf_releaseScope hl.adrift i))
  | openBuffer job label =>
    refine .rest rfl rfl fun p => ?_
    show heldIn _ p l.scopes + heldIn _ p (l.buffers ++ [(job, some (.new label))]) = l.heldWhere p
    rw [heldIn_concat]
    simp [heldAt, heldWhere, Scratch.new, Scratch.held, Scope.new]
  | push i text =>
    refine step_onBuffer hl i (fun s hs => ?_) hroom
    rw [asked, hs]
    exact s.conserves_push text
  | pushChar i c =>
    refine step_onBuffer hl i (fun s hs => ?_) hroom
    rw [asked, hs]
    exact s.conserves_pushChar c
  | clear i => exact step_onBuffer hl i (fun s _ => s.conserves_clear) hroom
  | releaseBuffer i => exact step_onBuffer hl i (fun s _ => s.conserves_release) hroom
  | dropBuffer i =>
    have hstep := step_onBuffer hl i (fun s _ => s.conserves_release) hroom
    have hforget := forgetBuffer_counters (l.onBuffer i (Metered.update Scratch.release)).2 i
    exact hstep.andRest hforget.1 hforget.2 (heldWhere_forgetBuffer (bytesOf_releaseBuffer hl.adrift i))

end Ledger

end RowStream
