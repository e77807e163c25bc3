/-!
# Results of steps

A step of a part works on the part's own state, of type `σ`, and on something that all parts share,
of type `κ`. It ends with a value or with an error, and in both cases leaves both states behind.
-/

namespace RowStream

/-- How a step ended, and the states that it left. -/
abbrev StepResult (ε κ σ α : Type) := EStateM.Result ε (σ × κ) α

namespace StepResult

variable {ε κ σ τ α : Type}

/-- The same result for a whole that the part belongs to. -/
def within (whole : σ → τ) : StepResult ε κ σ α → StepResult ε κ τ α
  | .ok a (s, k) => .ok a (whole s, k)
  | .error e (s, k) => .error e (whole s, k)

/-- What ends well for the whole ended well for the part. -/
theorem within_eq_ok {whole : σ → τ} {r : StepResult ε κ σ α} {a : α} {t : τ} {k : κ}
    (h : within whole r = .ok a (t, k)) : ∃ s, r = .ok a (s, k) ∧ t = whole s := by
  rcases r with ⟨b, s, k₁⟩ | _
  · obtain ⟨rfl, rfl, rfl⟩ : b = a ∧ whole s = t ∧ k₁ = k := by simpa [within] using h
    exact ⟨s, rfl, rfl⟩
  · simp [within] at h

end StepResult

end RowStream
