import RowStream.Memory.Scratch
import RowStream.Proofs.Memory.Trace

/-!
# Computations that do not know the past

A breaker remembers of the jobs that are gone how high they took it and how often it refused them.
Nothing that asks it for bytes looks at that: what is granted, what is refused and what a refusal
says depend on the bytes in use, the limit and the name alone. So a computation under a breaker with
a past does what it does under one without, and leaves the breaker with both pasts.

* `Past` — what is remembered, by the names of breakers; `Breaker.behind` puts it before what a
  breaker did itself.
* `Breaker.acquire?_behind` — the breaker does not look at it.
* `Metered.Oblivious` — computations that do not either, with a rule for each way in which they are
  put together. `Scope.oblivious_add` is the one request behind all.
-/

namespace RowStream

/-! ## The past of a breaker

A past is a peak and a number of refusals. Putting one behind a breaker changes what it reports and
nothing that it decides. -/

/-- What is remembered of the jobs that are gone: how high they took each breaker, and how often it
refused them. -/
structure Past where
  peak : String → Nat
  trips : String → Nat

/-- One past and then another. -/
def Past.andThen (past later : Past) : Past where
  peak name := max (past.peak name) (later.peak name)
  trips name := past.trips name + later.trips name

namespace Breaker

/-- The breaker, if there had been a past before its own. -/
def behind (past : Past) (c : Breaker) : Breaker :=
  { c with peak := max (past.peak c.name) c.peak, trips := past.trips c.name + c.trips }

theorem behind_behind (past later : Past) (c : Breaker) :
    (c.behind later).behind past = c.behind (past.andThen later) := by
  simp only [behind, Past.andThen, Nat.max_assoc, Nat.add_assoc]

/-- **The breaker does not look at its past** when it is asked for bytes. -/
theorem acquire?_behind (past : Past) (c : Breaker) (bytes : Nat) :
    (c.behind past).acquire? bytes = (c.acquire? bytes).map (behind past) := by
  unfold acquire? behind
  simp only
  split
  · simp [Nat.max_assoc]
  · rfl

/-- What the breaker remembers by now, as a past. -/
def memory (c : Breaker) : Past := ⟨fun _ => c.peak, fun _ => c.trips⟩

/-- A breaker that counts nothing is a new one with a past. -/
theorem eq_behind_memory {c : Breaker} {name : String} {limit : Nat} (hname : c.name = name)
    (hlimit : c.limit = limit) (hused : c.used = 0) : c = (new name limit).behind c.memory := by
  obtain ⟨_, _, _, peak, trips⟩ := c
  subst hname hlimit hused
  simp [new, behind, memory]

end Breaker

namespace Budget

/-- The budget on a breaker with a past. -/
def behind (past : Past) (b : Budget) : Budget := { b with breaker := b.breaker.behind past }

theorem foldl_giveBack_behind (past : Past) (b : Budget) (sizes : List Nat) :
    sizes.foldl giveBack (b.behind past) = (sizes.foldl giveBack b).behind past := by
  induction sizes generalizing b with
  | nil => rfl
  | cons bytes sizes ih => exact ih (b.giveBack bytes)

end Budget

/-! ## Computations

The property goes through sequences and parts, as others of metered computations do. -/

namespace StepResult

variable {ε κ σ τ α : Type}

/-- The same result, with something else made of what the parts share. -/
def mapShared (f : κ → κ) : StepResult ε κ σ α → StepResult ε κ σ α
  | .ok a (s, k) => .ok a (s, f k)
  | .error e (s, k) => .error e (s, f k)

theorem within_mapShared (whole : σ → τ) (f : κ → κ) (r : StepResult ε κ σ α) :
    within whole (r.mapShared f) = (within whole r).mapShared f := by
  rcases r with ⟨a, s, k⟩ | ⟨e, s, k⟩ <;> rfl

end StepResult

namespace Metered

variable {ε ε' σ τ α β : Type}

/-- Under a breaker with a past the computation comes to the same end. -/
def Oblivious (m : Metered ε σ α) : Prop :=
  ∀ past s b, m (s, Budget.behind past b) = StepResult.mapShared (Budget.behind past) (m (s, b))

theorem oblivious_pure (a : α) : (pure a : Metered ε σ α).Oblivious := fun _ _ _ => rfl

theorem oblivious_read (f : σ → α) : (read f : Metered ε σ α).Oblivious := fun _ _ _ => rfl

theorem oblivious_modifyState (f : σ → σ) : (modifyState f : Metered ε σ Unit).Oblivious :=
  fun _ _ _ => rfl

/-- An update that gives bytes back, and decides by the state alone how many. -/
theorem oblivious_update {f : σ → Budget → σ × Budget}
    (h : ∀ s, ∃ (t : σ) (sizes : List Nat), ∀ b, f s b = (t, sizes.foldl Budget.giveBack b)) :
    (update f : Metered ε σ Unit).Oblivious := fun past s b => by
  obtain ⟨t, sizes, hf⟩ := h s
  simp only [update, hf, Budget.foldl_giveBack_behind]
  rfl

theorem Oblivious.bind {m : Metered ε σ α} {f : α → Metered ε σ β} (hm : m.Oblivious)
    (hf : ∀ a, (f a).Oblivious) : (m >>= f).Oblivious := fun past s b => by
  have hfirst := hm past s b
  rcases hrun : m (s, b) with ⟨a, t, c⟩ | ⟨e, t, c⟩ <;> rw [hrun] at hfirst
  · rw [bind_of_ok hfirst, bind_of_ok hrun]
    exact hf a past t c
  · rw [bind_of_error hfirst, bind_of_error hrun]
    rfl

theorem Oblivious.mapError {m : Metered ε σ α} (hm : m.Oblivious) (f : ε → ε') :
    (mapError f m).Oblivious := fun past s b => by
  unfold Metered.mapError
  rw [hm past s b]
  rcases m (s, b) with ⟨a, t, c⟩ | ⟨e, t, c⟩ <;> rfl

/-- A computation that is another one within a whole. -/
theorem Oblivious.within {whole : τ → σ} {m : Metered ε τ α} (hm : m.Oblivious) (past : Past)
    (s : τ) (b : Budget) : StepResult.within whole (m (s, b.behind past)) =
      StepResult.mapShared (Budget.behind past) (StepResult.within whole (m (s, b))) := by
  rw [hm past s b, StepResult.within_mapShared]

theorem Oblivious.zoom {get : σ → τ} {set : σ → τ → σ} {m : Metered ε τ α} (hm : m.Oblivious) :
    (Metered.zoom get set m).Oblivious := fun past s b => hm.within past (get s) b

end Metered

/-! ## Scopes and scratch buffers

Where it starts: a request reads the bytes in use and the limit, and no peak. -/

namespace Scope

/-- **Asking for bytes** comes to the same end behind every past, granted or refused. -/
theorem oblivious_add (bytes : Nat) : (add bytes).Oblivious := fun past s b => by
  unfold add
  by_cases hzero : bytes = 0
  · simp only [hzero, if_true]
    rfl
  · simp only [hzero, if_false, Budget.behind, Breaker.acquire?_behind]
    cases b.account.reserve s.label bytes with
    | error e => rfl
    | ok account => cases b.breaker.acquire? bytes <;> rfl

theorem oblivious_charge (bytes : Nat) : (charge bytes).Oblivious :=
  (oblivious_add bytes).mapError OpError.memory

end Scope

namespace Scratch

open Metered

theorem oblivious_reserve (additional : Nat) : (reserve additional).Oblivious := by
  refine Oblivious.bind (oblivious_read id) fun s => ?_
  simp only
  split
  · exact oblivious_pure ()
  · exact (Scope.oblivious_add _).zoom

end Scratch

end RowStream
