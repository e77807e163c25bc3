import Mathlib.Data.List.Induction
import Mathlib.Order.Bounds.Basic
import RowStream.Proofs.Memory.Conservation

/-!
# Balances of runs

A ledger starts with fresh counters and goes through entries in any order. What one entry keeps, the
run keeps; on top of that, what the last entries give back decides what is still held.

* `Ledger.Sized` — no sum of bytes counted and bytes requested is beyond the sizes.
* `Conserved.run`, `isGreatest_peak` — the invariant and the peaks along a run.
* `Ledger.bytesOf`, `bytesOf_run_of_frees` — one holder along a run without requests.
* `Ledger.opening_run_conserves` — all of it, from fresh counters.
-/

namespace RowStream

namespace Ledger

/-! ## Runs keep the invariant

Induction on the entries, from the last one on: the invariant is that of one entry, and the peak of
a breaker takes note of one more moment. -/

/-- At no entry of a run do counted and requested bytes together go beyond the sizes. -/
def Sized (l : Ledger) : List Entry → Prop
  | [] => True
  | e :: entries => l.HasRoom (l.asked e) ∧ (l.apply e).2.Sized entries

instance (l : Ledger) (bytes : Nat) : Decidable (l.HasRoom bytes) :=
  inferInstanceAs (Decidable (∀ c ∈ l.breakers, c.used + bytes ≤ maxSize))

instance decidableSized : (l : Ledger) → (entries : List Entry) → Decidable (l.Sized entries)
  | _, [] => inferInstanceAs (Decidable True)
  | l, e :: entries =>
    let _ := decidableSized (l.apply e).2 entries
    inferInstanceAs (Decidable (l.HasRoom (l.asked e) ∧ (l.apply e).2.Sized entries))

theorem run_append (l : Ledger) (entries more : List Entry) :
    l.run (entries ++ more) = (l.run entries).run more := List.foldl_append

theorem run_concat (l : Ledger) (entries : List Entry) (e : Entry) :
    l.run (entries ++ [e]) = ((l.run entries).apply e).2 := l.run_append entries [e]

theorem sized_concat {l : Ledger} {entries : List Entry} {e : Entry} :
    l.Sized (entries ++ [e]) ↔
      l.Sized entries ∧ (l.run entries).HasRoom ((l.run entries).asked e) := by
  induction entries generalizing l with
  | nil => simp [Sized, run]
  | cons e' entries ih =>
    show _ ∧ (l.apply e').2.Sized (entries ++ [e]) ↔ (_ ∧ _) ∧ _
    rw [ih, and_assoc]
    rfl

theorem Conserved.run {l : Ledger} (hl : l.Conserved) {entries : List Entry}
    (h : l.Sized entries) : (l.run entries).Conserved := by
  induction entries generalizing l with
  | nil => exact hl
  | cons e entries ih => exact ih ((step_apply hl e h.1).conserved hl) h.2

theorem settings_run {l : Ledger} (hl : l.Conserved) {entries : List Entry} (h : l.Sized entries) :
    (l.run entries).settings = l.settings := by
  induction entries generalizing l with
  | nil => rfl
  | cons e entries ih =>
    have hstep := step_apply hl e h.1
    rw [← hstep.settings_eq]
    exact ih (hstep.conserved hl) h.2

/-- The bytes that a breaker counted at some moment of a run. -/
def usedDuring (l : Ledger) (entries : List Entry) (i : Nat) : Set Nat :=
  {used | ∃ before, before <+: entries ∧ (l.run before).breakers[i]?.map (·.used) = some used}

/-- What begins a run with one more entry is all of it, or begins the run without that entry. -/
theorem exists_prefix_concat {P : List Entry → Prop} {entries : List Entry} {e : Entry} :
    (∃ before, before <+: entries ++ [e] ∧ P before) ↔
      P (entries ++ [e]) ∨ ∃ before, before <+: entries ∧ P before := by
  constructor
  · rintro ⟨before, hbefore, h⟩
    obtain rfl | hbefore := List.prefix_concat_iff.1 hbefore
    · exact .inl h
    · exact .inr ⟨before, hbefore, h⟩
  · rintro (h | ⟨before, hbefore, h⟩)
    · exact ⟨_, List.prefix_rfl, h⟩
    · exact ⟨before, hbefore.trans (List.prefix_append _ _), h⟩

/-- One more entry, one more moment. -/
theorem mem_usedDuring_concat {l : Ledger} {entries : List Entry} {e : Entry} {i used : Nat} :
    used ∈ l.usedDuring (entries ++ [e]) i ↔
      (l.run (entries ++ [e])).breakers[i]?.map (·.used) = some used ∨
        used ∈ l.usedDuring entries i := exists_prefix_concat

/-- **The peak is the maximum of all that the breaker counted so far.** -/
theorem isGreatest_peak {l : Ledger} (hl : l.Conserved) (hfresh : ∀ c ∈ l.breakers, c.peak = c.used)
    {entries : List Entry} (h : l.Sized entries) {i : Nat} {c : Breaker}
    (hc : (l.run entries).breakers[i]? = some c) : IsGreatest (l.usedDuring entries i) c.peak := by
  induction entries using List.reverseRecOn generalizing c with
  | nil =>
    refine ⟨⟨[], List.prefix_rfl, by rw [hc, hfresh c (List.mem_of_getElem? hc)]; rfl⟩, ?_⟩
    rintro used ⟨before, hbefore, hused⟩
    rw [List.prefix_nil.1 hbefore, hc] at hused
    cases hused
    exact Nat.le_of_eq (hfresh c (List.mem_of_getElem? hc)).symm
  | append_singleton entries e ih =>
    obtain ⟨hsized, hroom⟩ := sized_concat.1 h
    have hl' := hl.run hsized
    have hc' := hc
    rw [run_concat] at hc'
    obtain ⟨c₀, hc₀, hmax⟩ := (step_apply hl' e hroom).peak hl' hc'
    obtain ⟨hmem, hupper⟩ := ih hsized hc₀
    rw [hmax]
    -- the maximum was counted earlier, or just now
    constructor
    · rcases Nat.le_total c.used c₀.peak with hle | hle
      · rw [Nat.max_eq_left hle]
        exact mem_usedDuring_concat.2 (.inr hmem)
      · rw [Nat.max_eq_right hle]
        exact mem_usedDuring_concat.2 (.inl (by rw [hc]; rfl))
    · intro used hused
      obtain hlast | hearlier := mem_usedDuring_concat.1 hused
      · rw [hc] at hlast
        cases hlast
        exact Nat.le_max_right _ _
      · exact Nat.le_trans (hupper hearlier) (Nat.le_max_left _ _)

/-! ## One holder along a run

Without requests nobody comes to hold more, and a holder that was freed once holds nothing from then
on, whatever comes before or after. -/

/-- The entries that can ask for bytes. -/
def Entry.isRequest : Entry → Bool
  | .add .. | .push .. | .pushChar .. => true
  | _ => false

/-- Releasing or dropping a holder. -/
def Entry.Frees (e : Entry) : Holder → Prop
  | .scope i => e = .releaseScope i ∨ e = .dropScope i
  | .buffer i => e = .releaseBuffer i ∨ e = .dropBuffer i

theorem asked_of_quiet {e : Entry} (h : e.isRequest = false) (l : Ledger) : l.asked e = 0 := by
  cases e <;> first | rfl | cases h

theorem bytesOf_onScope_le (l : Ledger) (i : Nat) {m : Metered MemoryError Scope Unit}
    (hm : ∀ s b, (m.run (s, b)).2.1.held ≤ s.held) (h : Holder) :
    (l.onScope i m).2.bytesOf h ≤ l.bytesOf h := by
  obtain ⟨heq, -⟩ | ⟨job, s, b, hplace, -, heq⟩ := l.onScope_cases i m
  · exact Nat.le_of_eq (by rw [heq])
  · have hlt := (List.getElem?_eq_some_iff.1 hplace).1
    rw [heq]
    cases h with
    | buffer j => exact Nat.le_of_eq (by simp [bytesOf, buffer?, setBudget_buffers])
    | scope j =>
      show ((l.scopes.set i _)[j]?.bind (·.2)).elim 0 Scope.held ≤ _
      rw [elim_set Scope.held hlt]
      split
      · next hij =>
        subst hij
        simpa [bytesOf, scope?, hplace] using hm s b
      · exact Nat.le_refl _

theorem bytesOf_forgetScope_le (l : Ledger) (i : Nat) (h : Holder) :
    (l.forgetScope i).bytesOf h ≤ l.bytesOf h := by
  unfold forgetScope
  split
  · next job old hplace =>
    have hlt := (List.getElem?_eq_some_iff.1 hplace).1
    cases h with
    | buffer j => exact Nat.le_refl _
    | scope j =>
      show ((l.scopes.set i _)[j]?.bind (·.2)).elim 0 Scope.held ≤ _
      rw [elim_set Scope.held hlt]
      split
      · exact Nat.zero_le _
      · exact Nat.le_refl _
  · exact Nat.le_refl _

theorem bytesOf_onBuffer_le (l : Ledger) (i : Nat) {m : Metered MemoryError Scratch Unit}
    (hm : ∀ s b, (m.run (s, b)).2.1.held ≤ s.held) (h : Holder) :
    (l.onBuffer i m).2.bytesOf h ≤ l.bytesOf h := by
  obtain ⟨heq, -⟩ | ⟨job, s, b, hplace, -, heq⟩ := l.onBuffer_cases i m
  · exact Nat.le_of_eq (by rw [heq])
  · have hlt := (List.getElem?_eq_some_iff.1 hplace).1
    rw [heq]
    cases h with
    | scope j => exact Nat.le_of_eq (by simp [bytesOf, scope?, setBudget_scopes])
    | buffer j =>
      show ((l.buffers.set i _)[j]?.bind (·.2)).elim 0 Scratch.held ≤ _
      rw [elim_set Scratch.held hlt]
      split
      · next hij =>
        subst hij
        simpa [bytesOf, buffer?, hplace] using hm s b
      · exact Nat.le_refl _

theorem bytesOf_forgetBuffer_le (l : Ledger) (i : Nat) (h : Holder) :
    (l.forgetBuffer i).bytesOf h ≤ l.bytesOf h := by
  unfold forgetBuffer
  split
  · next job old hplace =>
    have hlt := (List.getElem?_eq_some_iff.1 hplace).1
    cases h with
    | scope j => exact Nat.le_refl _
    | buffer j =>
      show ((l.buffers.set i _)[j]?.bind (·.2)).elim 0 Scratch.held ≤ _
      rw [elim_set Scratch.held hlt]
      split
      · exact Nat.zero_le _
      · exact Nat.le_refl _
  · exact Nat.le_refl _

theorem elim_concat_le {α : Type} (held : α → Nat) (places : List (Nat × Option α)) (job : Nat)
    {new : α} (hnew : held new = 0) (j : Nat) :
    ((places ++ [(job, some new)])[j]?.bind (·.2)).elim 0 held ≤
      (places[j]?.bind (·.2)).elim 0 held := by
  rw [List.getElem?_append]
  split
  · exact Nat.le_refl _
  · cases j - places.length with
    | zero => simp [hnew]
    | succ k => simp

/-- **Without a request nobody comes to hold more.** -/
theorem bytesOf_apply_le {e : Entry} (he : e.isRequest = false) (l : Ledger) (h : Holder) :
    (l.apply e).2.bytesOf h ≤ l.bytesOf h := by
  have hsub : ∀ (s : Scope) (bytes : Nat) (b : Budget), (s.sub bytes b).1.held ≤ s.held :=
    fun s bytes b => Nat.sub_le _ _
  -- what is opened holds nothing, what is given back or dropped holds less, and requests are excluded
  cases e with
  | add | push | pushChar => cases he
  | openScope job label =>
    cases h with
    | scope j => exact elim_concat_le Scope.held l.scopes job rfl j
    | buffer j => exact Nat.le_refl _
  | sub i bytes =>
    apply bytesOf_onScope_le
    exact fun s b => hsub s bytes b
  | releaseScope i =>
    apply bytesOf_onScope_le
    exact fun s b => hsub s s.held b
  | dropScope i =>
    refine Nat.le_trans (bytesOf_forgetScope_le _ i h) ?_
    apply bytesOf_onScope_le
    exact fun s b => hsub s s.held b
  | openBuffer job label =>
    cases h with
    | scope j => exact Nat.le_refl _
    | buffer j => exact elim_concat_le Scratch.held l.buffers job rfl j
  | clear i =>
    apply bytesOf_onBuffer_le
    exact fun s b => Nat.le_refl _
  | releaseBuffer i =>
    apply bytesOf_onBuffer_le
    exact fun s b => hsub s.scope s.scope.held b
  | dropBuffer i =>
    refine Nat.le_trans (bytesOf_forgetBuffer_le _ i h) ?_
    apply bytesOf_onBuffer_le
    exact fun s b => hsub s.scope s.scope.held b

/-- **What was freed holds nothing.** -/
theorem bytesOf_apply_of_frees {l : Ledger} (hl : l.Conserved) {e : Entry} {h : Holder}
    (he : e.Frees h) : (l.apply e).2.bytesOf h = 0 := by
  cases h with
  | scope i =>
    obtain rfl | rfl := he
    · exact bytesOf_releaseScope hl.adrift i
    · have hle := bytesOf_forgetScope_le (l.onScope i (Metered.update Scope.release)).2 i (.scope i)
      rw [bytesOf_releaseScope hl.adrift i] at hle
      exact Nat.le_zero.1 hle
  | buffer i =>
    obtain rfl | rfl := he
    · exact bytesOf_releaseBuffer hl.adrift i
    · have hle :=
        bytesOf_forgetBuffer_le (l.onBuffer i (Metered.update Scratch.release)).2 i (.buffer i)
      rw [bytesOf_releaseBuffer hl.adrift i] at hle
      exact Nat.le_zero.1 hle

theorem bytesOf_run_le {entries : List Entry} (hquiet : ∀ e ∈ entries, e.isRequest = false)
    (l : Ledger) (h : Holder) : (l.run entries).bytesOf h ≤ l.bytesOf h := by
  induction entries generalizing l with
  | nil => exact Nat.le_refl _
  | cons e entries ih =>
    have hrest := ih (fun e he => hquiet e (List.mem_cons_of_mem _ he)) (l.apply e).2
    exact Nat.le_trans hrest (bytesOf_apply_le (hquiet e List.mem_cons_self) l h)

/-- A run without requests needs no room. -/
theorem sized_of_quiet {l : Ledger} (hl : l.Conserved) {entries : List Entry}
    (hquiet : ∀ e ∈ entries, e.isRequest = false) : l.Sized entries := by
  induction entries generalizing l with
  | nil => trivial
  | cons e entries ih =>
    have hroom : l.HasRoom (l.asked e) := by
      rw [asked_of_quiet (hquiet e List.mem_cons_self)]
      exact hl.hasRoom_zero
    exact ⟨hroom, ih ((step_apply hl e hroom).conserved hl) fun e he =>
      hquiet e (List.mem_cons_of_mem _ he)⟩

/-- Freed once, a holder holds nothing in the end. -/
theorem bytesOf_run_of_frees {l : Ledger} (hl : l.Conserved) {entries : List Entry}
    (hquiet : ∀ e ∈ entries, e.isRequest = false) {e : Entry} (he : e ∈ entries) {h : Holder}
    (hfrees : e.Frees h) : (l.run entries).bytesOf h = 0 := by
  -- it holds nothing after that entry, and the entries behind it ask for nothing
  obtain ⟨before, after, rfl⟩ := List.append_of_mem he
  have hbefore : ∀ e' ∈ before, e'.isRequest = false := fun e' he' =>
    hquiet e' (List.mem_append_left _ he')
  have hafter : ∀ e' ∈ after, e'.isRequest = false := fun e' he' =>
    hquiet e' (List.mem_append_right _ (List.mem_cons_of_mem _ he'))
  have hmiddle := hl.run (sized_of_quiet hl hbefore)
  have hle := bytesOf_run_le hafter ((l.run before).apply e).2 h
  rw [bytesOf_apply_of_frees hmiddle hfrees] at hle
  rw [run_append]
  exact Nat.le_zero.1 hle

/-- Where no holder holds anything, nothing is counted. -/
theorem Conserved.used_eq_zero {l : Ledger} (hl : l.Conserved) (h : ∀ holder, l.bytesOf holder = 0) :
    (∀ j ∈ l.jobs, j.2.used = 0) ∧ ∀ c ∈ l.breakers, c.used = 0 := by
  -- sums of nothing, whatever jobs they are about
  have hnone : ∀ p, l.heldWhere p = 0 := by
    intro p
    have hscopes : heldIn Scope.held p l.scopes = 0 := by
      refine heldIn_eq_zero _ _ fun place hplace s hs => ?_
      obtain ⟨i, hi⟩ := List.mem_iff_getElem?.1 hplace
      simpa [bytesOf, scope?, hi, hs] using h (.scope i)
    have hbuffers : heldIn Scratch.held p l.buffers = 0 := by
      refine heldIn_eq_zero _ _ fun place hplace s hs => ?_
      obtain ⟨i, hi⟩ := List.mem_iff_getElem?.1 hplace
      simpa [bytesOf, buffer?, hi, hs] using h (.buffer i)
    rw [heldWhere, hscopes, hbuffers]
  constructor
  · rintro ⟨i, a⟩ hj
    obtain ⟨job, hjob⟩ := List.mem_iff_getElem?.1 hj
    exact (hl.account job i a hjob).trans (hnone _)
  · intro c hc
    obtain ⟨i, hi⟩ := List.mem_iff_getElem?.1 hc
    exact (hl.breaker i c hi).trans (hnone _)

/-! ## From fresh counters

Fresh counters count nothing and nobody holds anything, which is where the induction starts. -/

/-- A ledger with fresh counters: breakers with their limits, and jobs with the number of their
breaker and their quotas. -/
def opening (breakers : List (String × Nat)) (jobs : List (Nat × JobId × Option Nat)) : Ledger :=
  .new (breakers.map fun c => .new c.1 c.2) (jobs.map fun j => (j.1, .new j.2.1 j.2.2))

theorem conserved_opening (breakers : List (String × Nat))
    (jobs : List (Nat × JobId × Option Nat)) : (opening breakers jobs).Conserved := by
  have hheld : ∀ p, (opening breakers jobs).heldWhere p = 0 := fun p => rfl
  have haccount : ∀ (job i : Nat) (a : Account),
      (opening breakers jobs).jobs[job]? = some (i, a) → a.used = 0 := by
    intro job i a ha
    obtain ⟨j, -, hj⟩ := List.mem_map.1 (List.mem_of_getElem? ha)
    cases hj
    rfl
  have hbreaker : ∀ (i : Nat) (c : Breaker),
      (opening breakers jobs).breakers[i]? = some c → c.used = 0 := by
    intro i c hc
    obtain ⟨j, -, rfl⟩ := List.mem_map.1 (List.mem_of_getElem? hc)
    rfl
  -- nothing is held, so every count is one of zero
  constructor
  · intro job i a ha
    exact haccount job i a ha
  · intro job i a ha q _
    rw [haccount job i a ha]
    exact Nat.zero_le _
  · intro i c hc
    exact hbreaker i c hc
  · intro i c hc
    rw [hbreaker i c hc]
    exact Nat.zero_le _
  · intro i c hc
    rw [hbreaker i c hc]
    exact Nat.zero_le _
  · intro i c hc
    rw [hbreaker i c hc]
    exact Nat.zero_le _
  · intro job _
    rfl

/-- **Bytes are conserved.** However the entries of any number of jobs and holders follow each other:
an account counts what its job holds and stays within the quota; a breaker counts what the jobs on it
hold, stays within the limit, and has the maximum so far as its peak; what a holder can give back is
covered by both counters; and once all that still hold something were freed, in any order, nothing is
counted any more. -/
theorem opening_run_conserves (breakers : List (String × Nat)) (jobs : List (Nat × JobId × Option Nat))
    (entries : List Entry) (hsized : (opening breakers jobs).Sized entries) :
    let l := (opening breakers jobs).run entries
    l.settings = (breakers, jobs) ∧
    (∀ (job i : Nat) (a : Account), l.jobs[job]? = some (i, a) →
      a.used = l.heldBy job ∧ ∀ q, a.quota = some q → a.used ≤ q) ∧
    (∀ (i : Nat) (c : Breaker), l.breakers[i]? = some c →
      c.used = l.heldOn i ∧ c.used ≤ c.limit ∧
        IsGreatest ((opening breakers jobs).usedDuring entries i) c.peak) ∧
    (∀ (h : Holder) (job : Nat) (b : Budget), l.jobOf? h = some job → l.budget? job = some b →
      l.bytesOf h ≤ b.account.used ∧ l.bytesOf h ≤ b.breaker.used) ∧
    ∀ ending : List Entry, (∀ e ∈ ending, e.isRequest = false) →
      (∀ h, l.bytesOf h ≠ 0 → ∃ e ∈ ending, e.Frees h) →
      (∀ h, (l.run ending).bytesOf h = 0) ∧ (∀ j ∈ (l.run ending).jobs, j.2.used = 0) ∧
        ∀ c ∈ (l.run ending).breakers, c.used = 0 := by
  intro l
  have hfresh := conserved_opening breakers jobs
  have hl : l.Conserved := hfresh.run hsized
  refine ⟨?_, ?_, ?_, ?_, ?_⟩
  · have hsettings : (opening breakers jobs).settings = (breakers, jobs) := by
      simp [settings, opening, new, Breaker.new, Account.new, Function.comp_def]
    rw [← hsettings]
    exact settings_run hfresh hsized
  · intro job i a ha
    exact ⟨hl.account job i a ha, hl.quota job i a ha⟩
  · intro i c hc
    refine ⟨hl.breaker i c hc, hl.limit i c hc, isGreatest_peak hfresh (fun c hc => ?_) hsized hc⟩
    obtain ⟨-, -, rfl⟩ := List.mem_map.1 hc
    rfl
  · intro h job b hjob hb
    exact hl.covered hb (bytesOf_le_heldBy hjob)
  · intro ending hquiet hfreed
    have hzero : ∀ h, (l.run ending).bytesOf h = 0 := by
      intro h
      -- who holds nothing needs not be freed, as nobody comes to hold more
      by_cases hheld : l.bytesOf h = 0
      · have hle := bytesOf_run_le hquiet l h
        omega
      · obtain ⟨e, he, hfrees⟩ := hfreed h hheld
        exact bytesOf_run_of_frees hl hquiet he hfrees
    exact ⟨hzero, (hl.run (sized_of_quiet hl hquiet)).used_eq_zero hzero⟩

/-- Two jobs on a breaker of one hundred bytes. The quota of the second refuses once, the breaker
refuses once, and one scope gives back more than it holds. -/
def contested : List Entry :=
  [.openScope 0 "sort", .openScope 1 "group", .add 0 60, .add 1 20, .add 1 20, .openScope 0 "filter",
    .add 2 30, .sub 1 500, .add 2 30, .releaseScope 0, .releaseScope 0]

theorem opening_run_conserves_contested :
    let start := opening [("query", 100)] [(0, ⟨1⟩, none), (0, ⟨2⟩, some 30)]
    let l := start.run contested
    start.Sized contested ∧ l.breakers.map (·.used) = [30] ∧
      (∀ (i : Nat) (c : Breaker), l.breakers[i]? = some c →
        IsGreatest (start.usedDuring contested i) c.peak) ∧
      ∀ c ∈ (l.run [.releaseScope 1, .dropScope 2]).breakers, c.used = 0 := by
  intro start l
  have hsized : start.Sized contested := by decide
  obtain ⟨-, -, hbreakers, -, hfreed⟩ := opening_run_conserves _ _ contested hsized
  refine ⟨hsized, by decide, fun i c hc => (hbreakers i c hc).2.2, ?_⟩
  refine (hfreed [.releaseScope 1, .dropScope 2] (by decide) fun h hheld => ?_).2.2
  rcases h with (_ | _ | _ | i) | i
  · exact absurd rfl hheld
  · exact absurd rfl hheld
  · exact ⟨.dropScope 2, by decide, .inr rfl⟩
  · exact absurd rfl hheld
  · exact absurd rfl hheld

end Ledger

end RowStream
