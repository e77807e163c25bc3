import RowStream.Proofs.Memory.Transfer

/-!
# Custody of memory

A part of a job that works, fails and is released any number of times moves the two counters by
what it holds more or less, and by nothing else, refusals included. No room is asked for: a counter
is exact as long as no sum was cut off, and that is seen from its bound or from its peak.

* `Counter.Moves` — one counter, beside one holding: reflexive, transitive, and closed under what
  somebody else holds.
* `Budget.Moves` — both counters of a budget. `Scope.keeps_add` is the one request behind all.
* `Metered.Keeps` — computations all of whose runs, good or bad, move the budget like that, with a
  rule for each way in which they are put together.
* `Clears` — releases after which nothing is held.
-/

namespace RowStream

/-! ## One counter

The law of one counter beside one holding: as long as no sum was cut off, the difference between
them is constant. Whether a sum was cut off is not asked step by step. A counter that cuts sums off
has a bound; if the bound is the greatest size, its peak tells. -/

namespace Counter

/-- No sum of the counter was cut off: its bound refuses the greatest size, or it never came to that. A
counter without a bound does not cut sums off. -/
def Uncut (bound : Option Nat) (peak : Nat) : Prop := (∀ q ∈ bound, q < maxSize) ∨ peak < maxSize

instance (bound : Option Nat) (peak : Nat) : Decidable (Uncut bound peak) :=
  inferInstanceAs (Decidable (_ ∨ _))

/-- A counter went from `used` to `used'` while a part of what it counts went from `held` to `held'`.
Its peak never sinks. -/
structure Moves (bound : Option Nat) (used peak held used' peak' held' : Nat) : Prop where
  peak_le : peak ≤ peak'
  exact : Uncut bound peak' → held ≤ used → used' + held = used + held'

variable {bound : Option Nat} {used peak held used' peak' held' used'' peak'' held'' : Nat}

theorem Uncut.mono (h : Uncut bound peak') (hle : peak ≤ peak') : Uncut bound peak :=
  h.imp_right (Nat.lt_of_le_of_lt hle)

theorem Moves.refl (bound : Option Nat) (used peak held : Nat) :
    Moves bound used peak held used peak held :=
  ⟨Nat.le_refl peak, fun _ _ => rfl⟩

theorem Moves.trans (h : Moves bound used peak held used' peak' held')
    (h' : Moves bound used' peak' held' used'' peak'' held'') :
    Moves bound used peak held used'' peak'' held'' where
  peak_le := Nat.le_trans h.peak_le h'.peak_le
  exact huncut hheld := by
    have hfirst := h.exact (huncut.mono h'.peak_le) hheld
    -- what is held in between is counted in between
    have hsecond := h'.exact huncut (by omega)
    omega

/-- What somebody else holds stays counted. -/
theorem Moves.frame (h : Moves bound used peak held used' peak' held') (rest : Nat) :
    Moves bound used peak (rest + held) used' peak' (rest + held') where
  peak_le := h.peak_le
  exact huncut hheld := by
    have := h.exact huncut (by omega)
    omega

/-- The sum that a counter comes to, if its bound lets it pass. -/
def Admitted (bound : Option Nat) (used bytes next : Nat) : Prop :=
  next = used + bytes ∨ next = addSizes used bytes ∧ ∃ q, bound = some q ∧ next ≤ q

/-- A sum that was not cut off is the sum. -/
theorem Admitted.eq_add {bytes next : Nat} (h : Admitted bound used bytes next)
    (huncut : Uncut bound (max peak next)) : next = used + bytes := by
  obtain hsum | ⟨hcut, q, hq, hle⟩ := h
  · exact hsum
  · have hlt : next < maxSize := by
      obtain hbound | hpeak := huncut
      · exact Nat.lt_of_le_of_lt hle (hbound q hq)
      · exact Nat.lt_of_le_of_lt (Nat.le_max_right peak next) hpeak
    have : next = min (used + bytes) maxSize := hcut
    omega

theorem moves_grow {bytes next : Nat} (held : Nat) (h : Admitted bound used bytes next) :
    Moves bound used peak held next (max peak next) (held + bytes) where
  peak_le := Nat.le_max_left _ _
  exact huncut _ := by
    have := h.eq_add huncut
    omega

/-- Bytes that were counted and given back at once leave a peak and nothing else. -/
theorem moves_refuse {bytes next : Nat} (held : Nat) (h : Admitted bound used bytes next) :
    Moves bound used peak held (subSizes next bytes) (max peak next) held where
  peak_le := Nat.le_max_left _ _
  exact huncut _ := by
    rw [h.eq_add huncut, subSizes_of_le (Nat.le_add_left _ _)]
    omega

/-- Bytes of a holding that are given back. -/
theorem moves_giveBack {bytes : Nat} (h : bytes ≤ held) :
    Moves bound used peak held (subSizes used bytes) peak (held - bytes) where
  peak_le := Nat.le_refl peak
  exact _ hheld := by
    rw [subSizes_of_le (Nat.le_trans h hheld)]
    omega

end Counter

/-! ## Budgets

Both counters of a job at once. -/

/-- The account comes to a sum that its quota lets pass. -/
theorem Account.Admits.admitted {a : Account} {bytes : Nat} (h : a.Admits bytes) :
    Counter.Admitted a.quota a.used bytes (a.next bytes) := by
  cases hquota : a.quota with
  | none => exact .inl (by simp [next, hquota])
  | some q => exact .inr ⟨by simp [next, hquota], q, rfl, h q hquota⟩

namespace Budget

/-- Both counters moved beside one holding. -/
structure Moves (b : Budget) (held : Nat) (b' : Budget) (held' : Nat) : Prop where
  quota : b'.account.quota = b.account.quota
  limit : b'.breaker.limit = b.breaker.limit
  account : Counter.Moves b.account.quota b.account.used b.account.peak held
    b'.account.used b'.account.peak held'
  breaker : Counter.Moves (some b.breaker.limit) b.breaker.used b.breaker.peak held
    b'.breaker.used b'.breaker.peak held'

theorem Moves.refl (b : Budget) (held : Nat) : Moves b held b held :=
  ⟨rfl, rfl, .refl .., .refl ..⟩

theorem Moves.trans {b b' b'' : Budget} {held held' held'' : Nat} (h : Moves b held b' held')
    (h' : Moves b' held' b'' held'') : Moves b held b'' held'' where
  quota := h'.quota.trans h.quota
  limit := h'.limit.trans h.limit
  account := h.account.trans (h.quota ▸ h'.account)
  breaker := h.breaker.trans (h.limit ▸ h'.breaker)

theorem Moves.frame {b b' : Budget} {held held' : Nat} (h : Moves b held b' held') (rest : Nat) :
    Moves b (rest + held) b' (rest + held') :=
  ⟨h.quota, h.limit, h.account.frame rest, h.breaker.frame rest⟩

/-- Neither counter ever cut a sum off. A limit and a quota below the greatest size see to that. -/
def Uncut (b : Budget) : Prop :=
  Counter.Uncut b.account.quota b.account.peak ∧ Counter.Uncut (some b.breaker.limit) b.breaker.peak

instance (b : Budget) : Decidable b.Uncut := inferInstanceAs (Decidable (_ ∧ _))

/-- **Back at the baseline.** A part that held nothing before and holds nothing now has left both
counters as it found them. -/
theorem Moves.restores {b b' : Budget} (h : Moves b 0 b' 0) (huncut : b'.Uncut) :
    b'.account.used = b.account.used ∧ b'.breaker.used = b.breaker.used :=
  ⟨h.account.exact (h.quota ▸ huncut.1) (Nat.zero_le _),
    h.breaker.exact (h.limit ▸ huncut.2) (Nat.zero_le _)⟩

end Budget

/-! ## Computations

The law goes through sequences and parts, whatever comes out of a computation, so that it can be
shown for whole operators without looking at their errors. -/

namespace StepResult

variable {ε κ σ τ α : Type}

/-- The states that a step left, however it ended. -/
def left : StepResult ε κ σ α → σ × κ
  | .ok _ p => p
  | .error _ p => p

theorem left_of (r : Except ε α) (s : σ) (k : κ) : (StepResult.of r s k).left = (s, k) := by
  cases r <;> rfl

theorem left_within (whole : σ → τ) (r : StepResult ε κ σ α) :
    (within whole r).left = (whole r.left.1, r.left.2) := by
  rcases r with ⟨a, s, k⟩ | ⟨e, s, k⟩ <;> rfl

end StepResult

namespace Metered

variable {ε ε' σ τ α β : Type} {held : σ → Nat}

/-- Every run moves the budget by what is held more or less, however it ends. -/
def Keeps (held : σ → Nat) (m : Metered ε σ α) : Prop :=
  ∀ s b, Budget.Moves b (held s) (StepResult.left (m (s, b))).2
    (held (StepResult.left (m (s, b))).1)

theorem keeps_pure (held : σ → Nat) (a : α) : (pure a : Metered ε σ α).Keeps held :=
  fun s b => .refl b (held s)

theorem keeps_read (held : σ → Nat) (f : σ → α) : (read f : Metered ε σ α).Keeps held :=
  fun s b => .refl b (held s)

theorem keeps_modifyState {f : σ → σ} (h : ∀ s, held (f s) = held s) :
    (modifyState f : Metered ε σ Unit).Keeps held := fun s b => by
  show Budget.Moves b (held s) b (held (f s))
  rw [h]
  exact .refl b (held s)

theorem Keeps.bind {m : Metered ε σ α} {f : α → Metered ε σ β} (hm : m.Keeps held)
    (hf : ∀ a, (f a).Keeps held) : (m >>= f).Keeps held := fun s b => by
  have hfirst := hm s b
  rcases hrun : m (s, b) with ⟨a, t, c⟩ | ⟨e, t, c⟩ <;> rw [hrun] at hfirst
  · rw [bind_of_ok hrun]
    exact hfirst.trans (hf a t c)
  · rw [bind_of_error hrun]
    exact hfirst

theorem Keeps.mapError {m : Metered ε σ α} (hm : m.Keeps held) (f : ε → ε') :
    (mapError f m).Keeps held := fun s b => by
  have hmoves := hm s b
  unfold Metered.mapError
  rcases hrun : m (s, b) with ⟨a, p⟩ | ⟨e, p⟩ <;>
  · rw [hrun] at hmoves
    simp only
    exact hmoves

/-- A computation on a part of the state moves what that part holds; the rest stays held. -/
theorem Keeps.zoom {get : σ → τ} {set : σ → τ → σ} {m : Metered ε τ α} {part : τ → Nat}
    (hm : m.Keeps part) (rest : σ → Nat) (hget : ∀ s, held s = rest s + part (get s))
    (hset : ∀ s t, held (set s t) = rest s + part t) : (Metered.zoom get set m).Keeps held :=
  fun s b => by
    have hrun := (hm (get s) b).frame (rest s)
    show Budget.Moves b (held s) (StepResult.within (set s) (m (get s, b))).left.2
      (held (StepResult.within (set s) (m (get s, b))).left.1)
    rw [StepResult.left_within, hget, hset]
    exact hrun

/-- The same where nothing but the part is held. -/
theorem Keeps.zoom_all {get : σ → τ} {set : σ → τ → σ} {m : Metered ε τ α} {part : τ → Nat}
    (hm : m.Keeps part) (hget : ∀ s, held s = part (get s))
    (hset : ∀ s t, held (set s t) = part t) : (Metered.zoom get set m).Keeps held :=
  hm.zoom (fun _ => 0) (fun s => by rw [hget, Nat.zero_add]) fun s t => by rw [hset, Nat.zero_add]

end Metered

/-! ## Releases

A release clears what is held, part by part. With the law of moving this brings the counters back.
-/

/-- A release gives back all that is held. -/
def Clears {σ : Type} (held : σ → Nat) (release : σ → Budget → σ × Budget) : Prop :=
  ∀ s b, Budget.Moves b (held s) (release s b).2 0 ∧ held (release s b).1 = 0

namespace Clears

variable {σ τ υ : Type} {held : σ → Nat} {part : τ → Nat} {other : υ → Nat}

/-- The release of a state that holds what its one part holds. -/
theorem ofPart {release : τ → Budget → τ × Budget} (h : Clears part release) (get : σ → τ)
    (set : σ → τ → σ) (hget : ∀ s, held s = part (get s))
    (hset : ∀ s t, held (set s t) = part t) :
    Clears held fun s b => (set s (release (get s) b).1, (release (get s) b).2) := fun s b => by
  obtain ⟨hmoves, hnone⟩ := h (get s) b
  exact ⟨(hget s).symm ▸ hmoves, by rw [hset, hnone]⟩

/-- The release of a state that holds what its two parts hold, one after the other. -/
theorem ofParts {first : τ → Budget → τ × Budget} {second : υ → Budget → υ × Budget}
    (h : Clears part first) (h' : Clears other second) (getFirst : σ → τ) (getSecond : σ → υ)
    (set : σ → τ → υ → σ) (hget : ∀ s, held s = part (getFirst s) + other (getSecond s))
    (hset : ∀ s t u, held (set s t u) = part t + other u) :
    Clears held fun s b =>
      let p := first (getFirst s) b
      let q := second (getSecond s) p.2
      (set s p.1 q.1, q.2) := fun s b => by
  obtain ⟨hmoves, hnone⟩ := h (getFirst s) b
  obtain ⟨hmoves', hnone'⟩ := h' (getSecond s) (first (getFirst s) b).2
  have hframed := hmoves.frame (other (getSecond s))
  rw [Nat.add_comm, Nat.add_zero] at hframed
  refine ⟨?_, by rw [hset, hnone, hnone']⟩
  rw [hget]
  exact hframed.trans hmoves'

end Clears

/-! ## Scopes and scratch buffers

Where the law starts: scopes ask for bytes and give bytes back, and everything else is made of that.
-/

namespace Scope

/-- **Asking for bytes**, granted or refused. -/
theorem keeps_add (bytes : Nat) : (add bytes).Keeps held := fun s b => by
  rw [add_eq_request]
  obtain ⟨rfl, hreq⟩ | ⟨-, -, quota, -, hreq⟩ | ⟨-, hadmits, -, hreq⟩ | ⟨-, hadmits, hlimit, hreq⟩ :=
    b.request_cases s.label bytes <;> rw [hreq]
  · exact .refl b s.held
  · exact .refl b s.held
  · exact ⟨rfl, rfl, Counter.moves_refuse s.held hadmits.admitted, .refl ..⟩
  · exact ⟨rfl, rfl, Counter.moves_grow s.held hadmits.admitted,
      Counter.moves_grow s.held (.inr ⟨rfl, b.breaker.limit, rfl, hlimit⟩)⟩

theorem keeps_charge (bytes : Nat) : (charge bytes).Keeps held :=
  (keeps_add bytes).mapError OpError.memory

theorem moves_sub (s : Scope) (bytes : Nat) (b : Budget) :
    Budget.Moves b s.held (s.sub bytes b).2 (s.sub bytes b).1.held :=
  have hle : min bytes s.held ≤ s.held := Nat.min_le_right _ _
  ⟨rfl, rfl, Counter.moves_giveBack hle, Counter.moves_giveBack hle⟩

theorem clears_release : Clears held release := fun s b => by
  have hmoves := s.moves_sub s.held b
  have hnone : (s.sub s.held b).1.held = 0 := s.held_release b
  rw [hnone] at hmoves
  exact ⟨hmoves, hnone⟩

end Scope

namespace Scratch

theorem keeps_reserve (additional : Nat) : (reserve additional).Keeps held := fun s b => by
  rw [s.reserve_eq, StepResult.left_within]
  exact Scope.keeps_add (s.missing additional) s.scope b

theorem clears_release : Clears held release :=
  Scope.clears_release.ofPart scope (fun _ scope => ⟨scope, ""⟩) (fun _ => rfl) fun _ _ => rfl

end Scratch

end RowStream
