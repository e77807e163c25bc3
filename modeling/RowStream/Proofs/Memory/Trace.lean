import RowStream.Proofs.Memory.Movement

/-!
# Traces of metered computations

A metered computation may look at its own state, but not at its budget: all that it learns from
the budget is that a request was refused, and then it fails with that refusal. So from a given
state it has one *trace*, a list of movements, and one outcome, and under any budget it comes to
that outcome unless the replay of the trace is refused.

* `Metered.Follows m s ms r t` — from `s` the computation moves memory as `ms` says and comes to
  the result `r` in the state `t`.
* `Metered.Yields m s r post` — the same where only a property of the state matters.
* `Follows.bind`, `Follows.zoom`, `Follows.mapError` — traces of composed computations.
* `Scope.follows_add` — the one place where a trace begins: a request.
* `Metered.free` — what a computation does where memory is not limited.
-/

namespace RowStream

/-- The result of a step, put together with the states that the step leaves. -/
def StepResult.of {ε κ σ α : Type} (r : Except ε α) (s : σ) (k : κ) : StepResult ε κ σ α :=
  match r with
  | .ok a => .ok a (s, k)
  | .error e => .error e (s, k)

/-- Errors that a refusal of memory can become. -/
class OfRefusal (ε : Type) where
  ofRefusal : MemoryError → ε

instance : OfRefusal MemoryError := ⟨id⟩

instance : OfRefusal OpError := ⟨.memory⟩

namespace Budget

theorem replay_append_eq_ok {b b' : Budget} {ms ns : List Movement} :
    b.replay (ms ++ ns) = .ok () b' ↔ ∃ c, b.replay ms = .ok () c ∧ c.replay ns = .ok () b' := by
  rw [replay_append]
  cases b.replay ms with
  | ok u c => simp
  | error e c => simp

theorem replay_append_eq_error {b b' : Budget} {e : MemoryError} {ms ns : List Movement} :
    b.replay (ms ++ ns) = .error e b' ↔
      b.replay ms = .error e b' ∨ ∃ c, b.replay ms = .ok () c ∧ c.replay ns = .error e b' := by
  rw [replay_append]
  cases b.replay ms with
  | ok u c => simp
  | error e c => simp

end Budget

namespace Metered

variable {ε ε' σ τ α β : Type}

/-! ## Single steps of a composed computation

A sequence comes to what its second part comes to, or to the error of its first. -/

theorem bind_of_ok {m : Metered ε σ α} {f : α → Metered ε σ β} {a : α} {p q : σ × Budget}
    (h : m p = .ok a q) : (m >>= f) p = f a q := by
  change EStateM.bind m f p = _
  unfold EStateM.bind
  rw [h]

theorem bind_of_error {m : Metered ε σ α} {f : α → Metered ε σ β} {e : ε} {p q : σ × Budget}
    (h : m p = .error e q) : (m >>= f) p = .error e q := by
  change EStateM.bind m f p = _
  unfold EStateM.bind
  rw [h]

/-! ## Traces

The trace of a computation is put together from those of its parts. This is proved once, for
sequences, parts of a state and renamed errors; a computation has its trace by going through its
text. -/

/-- From `s`, the computation moves memory as `ms` says and comes to `r` in the state `t`. Where
a movement is refused it fails with the refusal, under the budget that the refusal leaves. -/
structure Follows [OfRefusal ε] (m : Metered ε σ α) (s : σ) (ms : List Movement)
    (r : Except ε α) (t : σ) : Prop where
  granted : ∀ {b b' : Budget}, b.replay ms = .ok () b' → m (s, b) = StepResult.of r t b'
  refused : ∀ {b b' : Budget} {e : MemoryError}, b.replay ms = .error e b' →
    ∃ u, m (s, b) = .error (OfRefusal.ofRefusal e) (u, b')

/-- From `s`, the computation comes to `r` in a state with a property, along some trace. -/
def Yields [OfRefusal ε] (m : Metered ε σ α) (s : σ) (r : Except ε α) (post : σ → Prop) : Prop :=
  ∃ ms t, post t ∧ m.Follows s ms r t

section Follows

variable [OfRefusal ε]

/-- A computation that moves no memory. -/
theorem Follows.still {m : Metered ε σ α} {s t : σ} {r : Except ε α}
    (h : ∀ b, m (s, b) = StepResult.of r t b) : m.Follows s [] r t where
  granted hb := by
    cases hb
    exact h _
  refused hb := nomatch hb

theorem follows_pure (a : α) (s : σ) : (pure a : Metered ε σ α).Follows s [] (.ok a) s :=
  .still fun _ => rfl

theorem follows_read (f : σ → α) (s : σ) : (read f : Metered ε σ α).Follows s [] (.ok (f s)) s :=
  .still fun _ => rfl

theorem follows_modifyState (f : σ → σ) (s : σ) :
    (modifyState f : Metered ε σ Unit).Follows s [] (.ok ()) (f s) :=
  .still fun _ => rfl

/-- The trace of a sequence is the one trace after the other. -/
theorem Follows.bind {m : Metered ε σ α} {f : α → Metered ε σ β} {s t u : σ} {a : α}
    {ms ns : List Movement} {r : Except ε β} (hm : m.Follows s ms (.ok a) t)
    (hf : (f a).Follows t ns r u) : (m >>= f).Follows s (ms ++ ns) r u where
  granted hb := by
    obtain ⟨c, hms, hns⟩ := Budget.replay_append_eq_ok.1 hb
    rw [bind_of_ok (hm.granted hms)]
    exact hf.granted hns
  refused hb := by
    obtain hms | ⟨c, hms, hns⟩ := Budget.replay_append_eq_error.1 hb
    · obtain ⟨v, hv⟩ := hm.refused hms
      exact ⟨v, bind_of_error hv⟩
    · obtain ⟨v, hv⟩ := hf.refused hns
      exact ⟨v, by rw [bind_of_ok (hm.granted hms), hv]⟩

theorem Follows.bind_error {m : Metered ε σ α} {f : α → Metered ε σ β} {s t : σ} {e : ε}
    {ms : List Movement} (hm : m.Follows s ms (.error e) t) :
    (m >>= f).Follows s ms (.error e) t where
  granted hb := bind_of_error (hm.granted hb)
  refused hb := by
    obtain ⟨v, hv⟩ := hm.refused hb
    exact ⟨v, bind_of_error hv⟩

theorem Follows.zoom {get : σ → τ} {set : σ → τ → σ} {m : Metered ε τ α} {s : σ} {t : τ}
    {ms : List Movement} {r : Except ε α} (hm : m.Follows (get s) ms r t) :
    (zoom get set m).Follows s ms r (set s t) where
  granted hb := by
    unfold Metered.zoom
    simp only [hm.granted hb]
    cases r <;> rfl
  refused hb := by
    obtain ⟨v, hv⟩ := hm.refused hb
    exact ⟨set s v, by simp [Metered.zoom, hv, StepResult.within]⟩

/-- Only what a computation does from its state counts. -/
theorem Follows.congr {m n : Metered ε σ α} {s t : σ} {ms : List Movement} {r : Except ε α}
    (h : ∀ b, m (s, b) = n (s, b)) (hn : n.Follows s ms r t) : m.Follows s ms r t where
  granted hb := by
    rw [h]
    exact hn.granted hb
  refused hb := by
    rw [h]
    exact hn.refused hb

/-- A computation that is another one within a whole. -/
theorem Follows.within {whole : τ → σ} {m : Metered ε σ α} {n : Metered ε τ α} {s t : τ}
    {ms : List Movement} {r : Except ε α}
    (h : ∀ b, m (whole s, b) = StepResult.within whole (n (s, b))) (hn : n.Follows s ms r t) :
    m.Follows (whole s) ms r (whole t) where
  granted hb := by
    rw [h, hn.granted hb]
    cases r <;> rfl
  refused hb := by
    obtain ⟨v, hv⟩ := hn.refused hb
    exact ⟨whole v, by rw [h, hv]; rfl⟩

/-- An update that gives bytes back, and decides by the state alone how many. -/
theorem follows_update {f : σ → Budget → σ × Budget} {s t : σ} {sizes : List Nat}
    (h : ∀ b, f s b = (t, sizes.foldl Budget.giveBack b)) :
    (update f : Metered ε σ Unit).Follows s (sizes.map .giveBack) (.ok ()) t where
  granted {b b'} hb := by
    rw [Budget.replay_giveBacks] at hb
    cases hb
    change EStateM.Result.ok () (f s b) = _
    rw [h]
    rfl
  refused {b b' e} hb := by
    rw [Budget.replay_giveBacks] at hb
    cases hb

/-- Renaming errors keeps the trace, if refusals stay refusals. -/
theorem Follows.mapError [OfRefusal ε'] {f : ε → ε'} {m : Metered ε σ α} {s t : σ}
    {ms : List Movement} {r : Except ε α}
    (hf : ∀ e, f (OfRefusal.ofRefusal e) = OfRefusal.ofRefusal e) (hm : m.Follows s ms r t) :
    (mapError f m).Follows s ms (r.mapError f) t where
  granted hb := by
    unfold Metered.mapError
    rw [hm.granted hb]
    cases r <;> rfl
  refused hb := by
    obtain ⟨v, hv⟩ := hm.refused hb
    exact ⟨v, by simp [Metered.mapError, hv, hf]⟩

/-! ### The same for properties of the last state -/

variable {m : Metered ε σ α} {s : σ} {post : σ → Prop}

theorem Follows.yields {t : σ} {ms : List Movement} {r : Except ε α} (hm : m.Follows s ms r t)
    (ht : post t) : m.Yields s r post :=
  ⟨ms, t, ht, hm⟩

theorem Yields.mono {r : Except ε α} {post' : σ → Prop} (hm : m.Yields s r post)
    (h : ∀ t, post t → post' t) : m.Yields s r post' := by
  obtain ⟨ms, t, ht, hm⟩ := hm
  exact ⟨ms, t, h t ht, hm⟩

theorem Yields.bind {f : α → Metered ε σ β} {a : α} {r : Except ε β} {post' : σ → Prop}
    (hm : m.Yields s (.ok a) post) (hf : ∀ t, post t → (f a).Yields t r post') :
    (m >>= f).Yields s r post' := by
  obtain ⟨ms, t, ht, hm⟩ := hm
  obtain ⟨ns, u, hu, hn⟩ := hf t ht
  exact ⟨ms ++ ns, u, hu, hm.bind hn⟩

/-- A first part of which everything is known. -/
theorem Follows.bind_yields {f : α → Metered ε σ β} {a : α} {t : σ} {ms : List Movement}
    {r : Except ε β} (hm : m.Follows s ms (.ok a) t) (hf : (f a).Yields t r post) :
    (m >>= f).Yields s r post := by
  obtain ⟨ns, u, hu, hn⟩ := hf
  exact ⟨ms ++ ns, u, hu, hm.bind hn⟩

theorem Yields.bind_error {f : α → Metered ε σ β} {e : ε} (hm : m.Yields s (.error e) post) :
    (m >>= f).Yields s (.error e) post := by
  obtain ⟨ms, t, ht, hm⟩ := hm
  exact ⟨ms, t, ht, hm.bind_error⟩

theorem Yields.zoom {get : σ → τ} {set : σ → τ → σ} {m : Metered ε τ α} {s : σ} {r : Except ε α}
    {post : τ → Prop} {post' : σ → Prop} (hm : m.Yields (get s) r post)
    (h : ∀ t, post t → post' (set s t)) : (Metered.zoom get set m).Yields s r post' := by
  obtain ⟨ms, t, ht, hm⟩ := hm
  exact ⟨ms, set s t, h t ht, hm.zoom⟩

/-! ### Traces of which nothing is known -/

/-- From every state the computation has a trace. -/
def Traced (m : Metered ε σ α) : Prop := ∀ s, ∃ ms r t, m.Follows s ms r t

theorem Yields.exists_follows {r : Except ε α} (hm : m.Yields s r post) :
    ∃ ms r t, m.Follows s ms r t := by
  obtain ⟨ms, t, -, hm⟩ := hm
  exact ⟨ms, r, t, hm⟩

theorem traced_pure (a : α) : (pure a : Metered ε σ α).Traced := fun s =>
  ⟨_, _, _, follows_pure a s⟩

theorem traced_read (f : σ → α) : (read f : Metered ε σ α).Traced := fun s =>
  ⟨_, _, _, follows_read f s⟩

theorem traced_modifyState (f : σ → σ) : (modifyState f : Metered ε σ Unit).Traced := fun s =>
  ⟨_, _, _, follows_modifyState f s⟩

theorem Traced.bind {f : α → Metered ε σ β} (hm : m.Traced) (hf : ∀ a, (f a).Traced) :
    (m >>= f).Traced := fun s => by
  obtain ⟨ms, r, t, hm⟩ := hm s
  cases r with
  | error e => exact ⟨_, _, _, hm.bind_error⟩
  | ok a =>
    obtain ⟨ns, r, u, hn⟩ := hf a t
    exact ⟨_, _, _, hm.bind hn⟩

theorem Traced.zoom {get : σ → τ} {set : σ → τ → σ} {m : Metered ε τ α} (hm : m.Traced) :
    (Metered.zoom get set m).Traced := fun s => by
  obtain ⟨ms, r, t, hm⟩ := hm (get s)
  exact ⟨_, _, _, hm.zoom⟩

end Follows

/-! ## Where memory is not limited

A replay that cannot be refused comes to its end, and so does the computation that follows it. -/

/-- What a computation does in a job without a memory limit: its result and the state it leaves. -/
def free (m : Metered ε σ α) (s : σ) : Except ε α × σ :=
  let (r, (t, _)) := m.run (s, .unlimited "" .nil)
  (r, t)

/-- Under a budget without a limit a computation comes to the end of its trace. -/
theorem Follows.of_unlimited [OfRefusal ε] {m : Metered ε σ α} {s t : σ} {ms : List Movement}
    {r : Except ε α} (hm : m.Follows s ms r t) {b : Budget} (hb : b.Unlimited) :
    ∃ b', m (s, b) = StepResult.of r t b' ∧ b'.Unlimited := by
  obtain ⟨b', hreplay, hb'⟩ := hb.replay ms
  exact ⟨b', hm.granted hreplay, hb'⟩

theorem Follows.free_eq [OfRefusal ε] {m : Metered ε σ α} {s t : σ} {ms : List Movement}
    {r : Except ε α} (hm : m.Follows s ms r t) : m.free s = (r, t) := by
  obtain ⟨b', hrun, -⟩ := hm.of_unlimited (Budget.unlimited_unlimited "" .nil)
  unfold free run
  rw [hrun]
  cases r <;> rfl

end Metered

/-! ## Requests

All traces are made of the requests of scopes. -/

theorem Scope.follows_add (s : Scope) (bytes : Nat) :
    (Scope.add bytes).Follows s [.request s.label bytes] (.ok ())
      { s with held := s.held + bytes } where
  granted {b b'} hb := by
    rw [Scope.add_eq_request]
    cases hreq : b.request s.label bytes with
    | ok u c =>
      simp only [Budget.replay, Budget.move, hreq, EStateM.Result.ok.injEq] at hb
      rw [← hb.2]
      rfl
    | error e c => simp [Budget.replay, Budget.move, hreq] at hb
  refused {b b' e} hb := by
    rw [Scope.add_eq_request]
    cases hreq : b.request s.label bytes with
    | ok u c => simp [Budget.replay, Budget.move, hreq] at hb
    | error e' c =>
      simp only [Budget.replay, Budget.move, hreq, EStateM.Result.error.injEq] at hb
      obtain ⟨rfl, rfl⟩ := hb
      exact ⟨s, rfl⟩

theorem Scope.follows_charge (s : Scope) (bytes : Nat) :
    (Scope.charge bytes).Follows s [.request s.label bytes] (.ok ())
      { s with held := s.held + bytes } :=
  (s.follows_add bytes).mapError fun _ => rfl

theorem Scope.traced_charge (bytes : Nat) : (Scope.charge bytes).Traced := fun s =>
  ⟨_, _, _, s.follows_charge bytes⟩

theorem Scope.sub_eq_giveBack (s : Scope) (bytes : Nat) (b : Budget) :
    s.sub bytes b = ({ s with held := s.held - min bytes s.held }, b.giveBack (min bytes s.held)) :=
  rfl

namespace Metered

/-- **Bytes are charged first**, and what comes next is done only if they are granted. -/
theorem charge_bind_eq {σ α : Type} (get : σ → Scope) (set : σ → Scope → σ) (bytes : σ → Nat)
    (next : Op σ α) {s : σ} (hset : set s (get s) = s) (b : Budget) :
    (do
      let n ← read bytes
      zoom get set (Scope.charge n)
      next : Op σ α) (s, b) =
      match b.request (get s).label (bytes s) with
      | .ok () b' => next (set s { get s with held := (get s).held + bytes s }, b')
      | .error e b' => .error (.memory e) (s, b') := by
  rw [bind_of_ok (show read (ε := OpError) bytes (s, b) = .ok (bytes s) (s, b) from rfl)]
  have hadd := (get s).add_eq_request (bytes s) b
  cases hreq : b.request (get s).label (bytes s) with
  | ok u b' =>
    rw [hreq] at hadd
    refine bind_of_ok (a := ()) ?_
    simp [zoom, Scope.charge, mapError, hadd, StepResult.within]
  | error e b' =>
    rw [hreq] at hadd
    refine bind_of_error ?_
    simp [zoom, Scope.charge, mapError, hadd, StepResult.within, hset]

end Metered

end RowStream
