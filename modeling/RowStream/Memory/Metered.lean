import RowStream.Error
import RowStream.Memory.Budget
import RowStream.Step

/-!
# Metered computations

Whatever needs memory runs under a budget, which every request for bytes goes through.
-/

namespace RowStream

/-- Computations that work on a state of their own under a budget. An error leaves both the
state and the budget as they were when it arose. -/
abbrev Metered (ε σ : Type) := EStateM ε (σ × Budget)

/-- Computations of operators: metered, with the errors of operators. -/
abbrev Metered.Op (σ : Type) := Metered OpError σ

namespace Metered

variable {ε ε' σ τ α : Type}

/-- Runs a computation and puts its result apart from the state that it leaves. -/
def run (m : Metered ε σ α) (s : σ × Budget) : Except ε α × (σ × Budget) :=
  match m s with
  | .ok a s => (.ok a, s)
  | .error e s => (.error e, s)

/-- Runs a computation on a part of the state. -/
def zoom (get : σ → τ) (set : σ → τ → σ) (m : Metered ε τ α) : Metered ε σ α := fun (s, b) =>
  StepResult.within (set s) (m (get s, b))

/-- Renames the errors of a computation. -/
def mapError (f : ε → ε') (m : Metered ε σ α) : Metered ε' σ α := fun s =>
  match m s with
  | .ok a s => .ok a s
  | .error e s => .error (f e) s

/-- Changes the state and the budget. -/
def update (f : σ → Budget → σ × Budget) : Metered ε σ Unit := fun (s, b) => .ok () (f s b)

/-- Changes the state alone. -/
def modifyState (f : σ → σ) : Metered ε σ Unit := fun (s, b) => .ok () (f s, b)

/-- Reads off the state. -/
def read (f : σ → α) : Metered ε σ α := fun (s, b) => .ok (f s) (s, b)

/-! ### Computations that end well

What a computation left behind when it ended well, step by step.
-/

variable {β : Type}

theorem bind_eq_ok {m : Metered ε σ α} {f : α → Metered ε σ β} {y : β} {p q : σ × Budget} :
    (m >>= f) p = .ok y q ↔ ∃ x r, m p = .ok x r ∧ f x r = .ok y q := by
  change EStateM.bind m f p = _ ↔ _
  unfold EStateM.bind
  rcases m p with ⟨x, r⟩ | ⟨e, r⟩
  · exact ⟨fun h => ⟨x, r, rfl, h⟩, by rintro ⟨_, _, ⟨⟩, h⟩; exact h⟩
  · exact ⟨fun h => (nomatch h), by rintro ⟨_, _, ⟨⟩, _⟩⟩

theorem pure_eq_ok {x y : α} {p q : σ × Budget} :
    (pure x : Metered ε σ α) p = .ok y q ↔ x = y ∧ p = q := by
  change EStateM.Result.ok x p = _ ↔ _
  simp

theorem read_eq_ok {f : σ → α} {x : α} {p q : σ × Budget} :
    (read f : Metered ε σ α) p = .ok x q ↔ f p.1 = x ∧ p = q := by
  simp [read]

theorem modifyState_eq_ok {f : σ → σ} {p q : σ × Budget} :
    (modifyState f : Metered ε σ Unit) p = .ok () q ↔ q = (f p.1, p.2) := by
  simp [modifyState, eq_comm]

theorem update_eq_ok {f : σ → Budget → σ × Budget} {p q : σ × Budget} :
    (update f : Metered ε σ Unit) p = .ok () q ↔ q = f p.1 p.2 := by
  simp [update, eq_comm]

theorem zoom_eq_ok {get : σ → τ} {set : σ → τ → σ} {m : Metered ε τ α} {x : α}
    {p q : σ × Budget} :
    zoom get set m p = .ok x q ↔
      ∃ t, m (get p.1, p.2) = .ok x (t, q.2) ∧ q.1 = set p.1 t := by
  obtain ⟨s, b⟩ := p
  obtain ⟨u, b'⟩ := q
  constructor
  · exact StepResult.within_eq_ok
  · rintro ⟨t, h, rfl⟩
    simp [zoom, StepResult.within, h]

end Metered

end RowStream
