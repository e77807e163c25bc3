import Mathlib.Algebra.GroupWithZero.Nat
import RowStream.Memory.Ledger
import RowStream.Proofs.Memory.Transfer

/-!
# Holdings

The scopes and scratch buffers of a ledger are its holders. This module sums up what they hold, and
says what the operations on one holder do to the ledger: which places they change, and that they
change nothing else.

* `Ledger.heldBy`, `Ledger.heldOn` — the bytes that the live holders of a job, or of all jobs on a
  breaker, hold together.
* `Ledger.bytesOf` — the bytes that one holder holds.
* `Ledger.onScope_cases`, `Ledger.onBuffer_cases` — the inversion lemmas of a computation of one
  holder: the holder and the counters of its job change, or nothing does.
-/

namespace RowStream

namespace Ledger

/-! ## What is held together

Bytes are summed over places, an empty place holding none. Which places count is a matter of the
jobs that they belong to. -/

section HeldIn

variable {α : Type} (held : α → Nat) (p : Nat → Bool)

/-- The bytes held at a place, if its job counts. -/
def heldAt (place : Nat × Option α) : Nat := if p place.1 then place.2.elim 0 held else 0

def heldIn (places : List (Nat × Option α)) : Nat := (places.map (heldAt held p)).sum

theorem heldIn_concat (places : List (Nat × Option α)) (place : Nat × Option α) :
    heldIn held p (places ++ [place]) = heldIn held p places + heldAt held p place := by
  simp [heldIn]

theorem heldIn_set {places : List (Nat × Option α)} {i : Nat} {old : Nat × Option α}
    (h : places[i]? = some old) (new : Nat × Option α) :
    heldIn held p (places.set i new) + heldAt held p old =
      heldIn held p places + heldAt held p new := by
  induction places generalizing i with
  | nil => simp at h
  | cons place places ih =>
    cases i with
    | zero =>
      simp only [List.getElem?_cons_zero, Option.some.injEq] at h
      subst h
      simp only [heldIn, List.set_cons_zero, List.map_cons, List.sum_cons]
      omega
    | succ i =>
      have hrest := ih (by simpa using h)
      simp only [heldIn, List.set_cons_succ, List.map_cons, List.sum_cons] at hrest ⊢
      omega

theorem heldAt_le_heldIn {places : List (Nat × Option α)} {i : Nat} {place : Nat × Option α}
    (h : places[i]? = some place) : heldAt held p place ≤ heldIn held p places := by
  have hset := heldIn_set held p h (place.1, none)
  have hempty : heldAt held p (place.1, none) = 0 := by simp [heldAt]
  omega

theorem heldIn_mono {p q : Nat → Bool} (hpq : ∀ job, p job = true → q job = true)
    (places : List (Nat × Option α)) : heldIn held p places ≤ heldIn held q places := by
  induction places with
  | nil => exact Nat.le_refl _
  | cons place places ih =>
    have hplace : heldAt held p place ≤ heldAt held q place := by
      unfold heldAt
      cases hp : p place.1 with
      | false => exact Nat.zero_le _
      | true => exact Nat.le_of_eq (by rw [hpq _ hp])
    simp only [heldIn, List.map_cons, List.sum_cons] at ih ⊢
    omega

theorem heldIn_eq_zero {places : List (Nat × Option α)}
    (h : ∀ place ∈ places, ∀ x, place.2 = some x → held x = 0) : heldIn held p places = 0 := by
  refine List.sum_eq_zero_iff_forall_eq_nat.2 fun n hn => ?_
  obtain ⟨⟨job, x⟩, hplace, rfl⟩ := List.mem_map.1 hn
  unfold heldAt
  cases x with
  | none => simp
  | some x => simp [h _ hplace x rfl]

end HeldIn

/-- The bytes that the live scopes and buffers of some jobs hold together. -/
def heldWhere (l : Ledger) (p : Nat → Bool) : Nat :=
  heldIn Scope.held p l.scopes + heldIn Scratch.held p l.buffers

/-- The bytes that the live scopes and buffers of one job hold together. -/
def heldBy (l : Ledger) (job : Nat) : Nat := l.heldWhere (· == job)

/-- Whether a job is on a breaker. -/
def isOn (l : Ledger) (breaker job : Nat) : Bool := (l.jobs.map (·.1))[job]? == some breaker

/-- The bytes that the live scopes and buffers of all jobs on one breaker hold together. -/
def heldOn (l : Ledger) (breaker : Nat) : Nat := l.heldWhere (l.isOn breaker)

/-- What no entry can change: the breakers' limits, and the jobs' breakers and quotas. -/
def settings (l : Ledger) : List (String × Nat) × List (Nat × JobId × Option Nat) :=
  (l.breakers.map fun c => (c.name, c.limit), l.jobs.map fun j => (j.1, j.2.job, j.2.quota))

/-! ## Single holders

What one scope or one buffer holds is a part of what its job holds together. -/

/-- The number of a scope or of a buffer. -/
inductive Holder where
  | scope (i : Nat)
  | buffer (i : Nat)
  deriving DecidableEq

/-- What a holder holds, which is nothing if it was dropped or not opened yet. -/
def bytesOf (l : Ledger) : Holder → Nat
  | .scope i => (l.scope? i).elim 0 Scope.held
  | .buffer i => (l.buffer? i).elim 0 Scratch.held

/-- The job that a holder belongs to. -/
def jobOf? (l : Ledger) : Holder → Option Nat
  | .scope i => l.scopes[i]?.map (·.1)
  | .buffer i => l.buffers[i]?.map (·.1)

theorem held_le_heldBy_of_scope {l : Ledger} {i job : Nat} {s : Scope}
    (h : l.scopes[i]? = some (job, some s)) : s.held ≤ l.heldBy job := by
  have hle := heldAt_le_heldIn Scope.held (· == job) h
  simp only [heldAt, beq_self_eq_true, if_true, Option.elim_some] at hle
  exact Nat.le_add_right_of_le hle

theorem held_le_heldBy_of_buffer {l : Ledger} {i job : Nat} {s : Scratch}
    (h : l.buffers[i]? = some (job, some s)) : s.held ≤ l.heldBy job := by
  have hle := heldAt_le_heldIn Scratch.held (· == job) h
  simp only [heldAt, beq_self_eq_true, if_true, Option.elim_some] at hle
  exact Nat.le_add_left_of_le hle

theorem bytesOf_le_heldBy {l : Ledger} {h : Holder} {job : Nat} (hjob : l.jobOf? h = some job) :
    l.bytesOf h ≤ l.heldBy job := by
  cases h with
  | scope i =>
    obtain ⟨⟨_, x⟩, hplace, rfl⟩ := Option.map_eq_some_iff.1 hjob
    cases x with
    | none => simp [bytesOf, scope?, hplace]
    | some s => simpa [bytesOf, scope?, hplace] using held_le_heldBy_of_scope hplace
  | buffer i =>
    obtain ⟨⟨_, x⟩, hplace, rfl⟩ := Option.map_eq_some_iff.1 hjob
    cases x with
    | none => simp [bytesOf, buffer?, hplace]
    | some s => simpa [bytesOf, buffer?, hplace] using held_le_heldBy_of_buffer hplace

theorem elim_set {α : Type} (held : α → Nat) {places : List (Nat × Option α)} {i : Nat}
    (hlt : i < places.length) (job : Nat) (new : Option α) (j : Nat) :
    ((places.set i (job, new))[j]?.bind (·.2)).elim 0 held =
      if j = i then new.elim 0 held else (places[j]?.bind (·.2)).elim 0 held := by
  rw [List.getElem?_set]
  by_cases hij : j = i
  · subst hij
    simp [hlt]
  · simp [hij, Ne.symm hij]

/-! ## Operations on one holder

Scopes and buffers stand in lists of their own, so each fact is there twice. -/

theorem heldWhere_setScope {l : Ledger} (l' : Ledger) {i job : Nat} {old : Option Scope}
    (new : Option Scope) (h : l.scopes[i]? = some (job, old))
    (hscopes : l'.scopes = l.scopes.set i (job, new))
    (hbuffers : l'.buffers = l.buffers) (p : Nat → Bool) :
    l'.heldWhere p + (if p job then old.elim 0 Scope.held else 0) =
      l.heldWhere p + (if p job then new.elim 0 Scope.held else 0) := by
  have hset := heldIn_set Scope.held p h (job, new)
  simp only [heldAt] at hset
  rw [heldWhere, heldWhere, hscopes, hbuffers]
  omega

theorem heldWhere_setBuffer {l : Ledger} (l' : Ledger) {i job : Nat} {old : Option Scratch}
    (new : Option Scratch) (h : l.buffers[i]? = some (job, old))
    (hbuffers : l'.buffers = l.buffers.set i (job, new))
    (hscopes : l'.scopes = l.scopes) (p : Nat → Bool) :
    l'.heldWhere p + (if p job then old.elim 0 Scratch.held else 0) =
      l.heldWhere p + (if p job then new.elim 0 Scratch.held else 0) := by
  have hset := heldIn_set Scratch.held p h (job, new)
  simp only [heldAt] at hset
  rw [heldWhere, heldWhere, hscopes, hbuffers]
  omega

theorem setBudget_scopes (l : Ledger) (job : Nat) (b : Budget) :
    (l.setBudget job b).scopes = l.scopes := by
  unfold setBudget
  split <;> rfl

theorem setBudget_buffers (l : Ledger) (job : Nat) (b : Budget) :
    (l.setBudget job b).buffers = l.buffers := by
  unfold setBudget
  split <;> rfl

theorem forgetScope_counters (l : Ledger) (i : Nat) :
    (l.forgetScope i).jobs = l.jobs ∧ (l.forgetScope i).breakers = l.breakers := by
  unfold forgetScope
  split <;> exact ⟨rfl, rfl⟩

theorem forgetBuffer_counters (l : Ledger) (i : Nat) :
    (l.forgetBuffer i).jobs = l.jobs ∧ (l.forgetBuffer i).breakers = l.breakers := by
  unfold forgetBuffer
  split <;> exact ⟨rfl, rfl⟩

theorem onScope_cases (l : Ledger) (i : Nat) (m : Metered MemoryError Scope Unit) :
    ((l.onScope i m).2 = l ∧
      ∀ job s, l.scopes[i]? = some (job, some s) → l.budget? job = none) ∨
    ∃ job s b, l.scopes[i]? = some (job, some s) ∧ l.budget? job = some b ∧
      (l.onScope i m).2 = { l.setBudget job (m.run (s, b)).2.2 with
        scopes := l.scopes.set i (job, some (m.run (s, b)).2.1) } := by
  unfold onScope
  split
  · next job s hplace =>
    split
    · next b hb => exact .inr ⟨job, s, b, hplace, hb, rfl⟩
    · next hb =>
      refine .inl ⟨rfl, fun job' s' hplace' => ?_⟩
      rw [hplace] at hplace'
      cases hplace'
      exact hb
  · next hempty => exact .inl ⟨rfl, fun job s hplace => absurd hplace (hempty job s)⟩

theorem onBuffer_cases (l : Ledger) (i : Nat) (m : Metered MemoryError Scratch Unit) :
    ((l.onBuffer i m).2 = l ∧
      ∀ job s, l.buffers[i]? = some (job, some s) → l.budget? job = none) ∨
    ∃ job s b, l.buffers[i]? = some (job, some s) ∧ l.budget? job = some b ∧
      (l.onBuffer i m).2 = { l.setBudget job (m.run (s, b)).2.2 with
        buffers := l.buffers.set i (job, some (m.run (s, b)).2.1) } := by
  unfold onBuffer
  split
  · next job s hplace =>
    split
    · next b hb => exact .inr ⟨job, s, b, hplace, hb, rfl⟩
    · next hb =>
      refine .inl ⟨rfl, fun job' s' hplace' => ?_⟩
      rw [hplace] at hplace'
      cases hplace'
      exact hb
  · next hempty => exact .inl ⟨rfl, fun job s hplace => absurd hplace (hempty job s)⟩

/-! Forgetting a holder that holds nothing changes no sum. -/

theorem heldWhere_forgetScope {l : Ledger} {i : Nat} (h : l.bytesOf (.scope i) = 0)
    (p : Nat → Bool) : (l.forgetScope i).heldWhere p = l.heldWhere p := by
  unfold forgetScope
  split
  · next job old hplace =>
    have hset :=
      heldWhere_setScope { l with scopes := l.scopes.set i (job, none) } none hplace rfl rfl p
    have hold : old.elim 0 Scope.held = 0 := by simpa [bytesOf, scope?, hplace] using h
    simpa [hold] using hset
  · rfl

theorem heldWhere_forgetBuffer {l : Ledger} {i : Nat} (h : l.bytesOf (.buffer i) = 0)
    (p : Nat → Bool) : (l.forgetBuffer i).heldWhere p = l.heldWhere p := by
  unfold forgetBuffer
  split
  · next job old hplace =>
    have hset :=
      heldWhere_setBuffer { l with buffers := l.buffers.set i (job, none) } none hplace rfl rfl p
    have hold : old.elim 0 Scratch.held = 0 := by simpa [bytesOf, buffer?, hplace] using h
    simpa [hold] using hset
  · rfl

end Ledger

end RowStream
