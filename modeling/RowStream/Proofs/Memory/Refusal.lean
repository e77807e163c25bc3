import RowStream.Proofs.Memory.Trace

/-!
# Refusals

Whoever is refused memory fails at once, with the refusal as its error, and nobody makes up a refusal
of his own. So of the refusals that a breaker counts, at most one belongs to a computation, and its
error tells of it.

* `Budget.trips_replay`, `Budget.trips_of_refused` — what a replay leaves the breaker to count.
* `Unrefused` — results that are no refusals.
* `Metered.FailsFast` — computations that come to a refusal where a request is refused, and nowhere
  else, with a rule for each way in which they are put together.
-/

namespace RowStream

/-! ## What the breaker counts

Along a replay the breaker counts at most one refusal, since the replay ends with it. -/

namespace Budget

theorem trips_move {b b' : Budget} {m : Movement} (h : b.move m = .ok () b') :
    b'.breaker.trips = b.breaker.trips := by
  cases m with
  | giveBack bytes =>
    cases h
    rfl
  | request label bytes =>
    obtain ⟨-, hreq⟩ | ⟨-, -, quota, -, hreq⟩ | ⟨-, -, -, hreq⟩ | ⟨-, -, -, hreq⟩ :=
      request_cases b label bytes <;> rw [move, hreq] at h <;> cases h <;> rfl

/-- The breaker counts its own refusals, and not those of the quota. -/
theorem trips_of_move_refused {b b' : Budget} {m : Movement} {e : MemoryError}
    (h : b.move m = .error e b') : b'.breaker.trips = b.breaker.trips + e.isBreaker.toNat := by
  cases m with
  | giveBack bytes => cases h
  | request label bytes =>
    obtain ⟨-, hreq⟩ | ⟨-, -, quota, -, hreq⟩ | ⟨-, -, -, hreq⟩ | ⟨-, -, -, hreq⟩ :=
      request_cases b label bytes <;> rw [move, hreq] at h <;> cases h <;> rfl

theorem trips_replay {b b' : Budget} {ms : List Movement} (h : b.replay ms = .ok () b') :
    b'.breaker.trips = b.breaker.trips := by
  induction ms generalizing b with
  | nil =>
    cases h
    rfl
  | cons m ms ih =>
    cases hm : b.move m with
    | error e c => simp [replay, hm] at h
    | ok u c =>
      simp only [replay, hm] at h
      exact (ih h).trans (trips_move hm)

/-- **One refusal at most.** A replay that is refused was granted everything before. -/
theorem trips_of_refused {b b' : Budget} {ms : List Movement} {e : MemoryError}
    (h : b.replay ms = .error e b') : b'.breaker.trips = b.breaker.trips + e.isBreaker.toNat := by
  induction ms generalizing b with
  | nil => cases h
  | cons m ms ih =>
    cases hm : b.move m with
    | error e' c =>
      simp only [replay, hm] at h
      cases h
      exact trips_of_move_refused hm
    | ok u c =>
      simp only [replay, hm] at h
      rw [ih h, trips_move hm]

theorem trips_giveBacks (b : Budget) (sizes : List Nat) :
    (sizes.foldl giveBack b).breaker.trips = b.breaker.trips := by
  induction sizes generalizing b with
  | nil => rfl
  | cons bytes sizes ih => exact ih (b.giveBack bytes)

end Budget

/-! ## Results

Errors that do not come from memory do not look like refusals either. -/

/-- The result is not that memory was refused. -/
def Unrefused {α : Type} (r : Except OpError α) : Prop :=
  ∀ refusal : MemoryError, r ≠ .error (.memory refusal)

section Unrefused

variable {α β : Type}

@[simp] theorem unrefused_ok (a : α) : Unrefused (.ok a) := fun _ h => nomatch h

@[simp] theorem unrefused_evaluation (e : EvalError) :
    Unrefused (.error (.evaluation e) : Except OpError α) :=
  fun _ h => nomatch h

@[simp] theorem unrefused_contract (e : ContractError) :
    Unrefused (.error (.contract e) : Except OpError α) :=
  fun _ h => nomatch h

@[simp] theorem unrefused_closed : Unrefused (.error .closed : Except OpError α) :=
  fun _ h => nomatch h

@[simp] theorem unrefused_sourceFailed (reason : String) :
    Unrefused (.error (.sourceFailed reason) : Except OpError α) :=
  fun _ h => nomatch h

/-- Only the error counts. -/
theorem Unrefused.error {e : OpError} (h : Unrefused (.error e : Except OpError α)) :
    Unrefused (.error e : Except OpError β) := by
  rintro refusal ⟨⟩
  exact h refusal rfl

end Unrefused

/-! ## Computations

Failing fast is a property of a computation from one state. It goes through sequences: the second
part is only asked for if the first was granted everything. -/

namespace Metered

variable {σ τ α β : Type}

/-- From `s` the computation has a trace, at the end of which there is no refusal. -/
def FailsFastAt (m : Op σ α) (s : σ) : Prop := ∃ ms r t, m.Follows s ms r t ∧ Unrefused r

/-- **Failing fast.** All that the computation asks for, it asks for along one trace, and it ends
with a refusal where its trace is refused and only there. -/
def FailsFast (m : Op σ α) : Prop := ∀ s, m.FailsFastAt s

theorem Yields.failsFastAt {m : Op σ α} {s : σ} {r : Except OpError α} {post : σ → Prop}
    (hm : m.Yields s r post) (hr : Unrefused r) : m.FailsFastAt s := by
  obtain ⟨ms, t, -, hm⟩ := hm
  exact ⟨ms, r, t, hm, hr⟩

theorem FailsFastAt.within {whole : τ → σ} {m : Op σ α} {n : Op τ α} {s : τ}
    (h : ∀ b, m (whole s, b) = StepResult.within whole (n (s, b))) (hn : n.FailsFastAt s) :
    m.FailsFastAt (whole s) := by
  obtain ⟨ms, r, t, hn, hr⟩ := hn
  exact ⟨ms, r, whole t, hn.within h, hr⟩

theorem FailsFast.zoom {get : σ → τ} {set : σ → τ → σ} {m : Op τ α} (hm : m.FailsFast) :
    (Metered.zoom get set m).FailsFast := fun s => by
  obtain ⟨ms, r, t, hm, hr⟩ := hm (get s)
  exact ⟨ms, r, set s t, hm.zoom, hr⟩

theorem FailsFast.bind {m : Op σ α} {f : α → Op σ β} (hm : m.FailsFast)
    (hf : ∀ a, (f a).FailsFast) : (m >>= f).FailsFast := fun s => by
  obtain ⟨ms, r, t, hm, hr⟩ := hm s
  cases r with
  | error e => exact ⟨ms, .error e, t, hm.bind_error, hr.error⟩
  | ok a =>
    obtain ⟨ns, r, u, hn, hr⟩ := hf a t
    exact ⟨ms ++ ns, r, u, hm.bind hn, hr⟩

theorem failsFast_pure (a : α) : (pure a : Op σ α).FailsFast := fun s =>
  ⟨_, _, _, follows_pure a s, unrefused_ok a⟩

theorem failsFast_read (f : σ → α) : (read f : Op σ α).FailsFast := fun s =>
  ⟨_, _, _, follows_read f s, unrefused_ok (f s)⟩

theorem failsFast_modifyState (f : σ → σ) : (modifyState f : Op σ Unit).FailsFast := fun s =>
  ⟨_, _, _, follows_modifyState f s, unrefused_ok ()⟩

end Metered

theorem Scope.failsFast_charge (bytes : Nat) : (Scope.charge bytes).FailsFast := fun s =>
  ⟨_, _, _, s.follows_charge bytes, unrefused_ok ()⟩

end RowStream
