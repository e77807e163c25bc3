import RowStream.Memory.Scratch
import RowStream.Proofs.Memory.Trace

/-!
# Transfers

Whatever a scope or a scratch buffer does, both counters change by what it holds more or less. That
is true as long as no sum goes beyond the sizes and a holder holds no more than is counted; then no
difference goes round either.

* `Budget.Transfer` — how counters, limits and the breaker's peak go along with one holder.
* `Budget.transfer_grow`, `Budget.transfer_refuse`, `Budget.transfer_giveBack` — the movements.
* `Metered.Conserves` — computations of a holder all of whose runs are transfers; scopes and
  scratch buffers have no others.
-/

namespace RowStream

namespace Budget

/-- The budget went from `b` to `b'` while a holder went from holding `held` to `held'`. -/
structure Transfer (b : Budget) (held : Nat) (b' : Budget) (held' : Nat) : Prop where
  account : b'.account.used + held = b.account.used + held'
  breaker : b'.breaker.used + held = b.breaker.used + held'
  sameAccount : (b'.account.job, b'.account.quota) = (b.account.job, b.account.quota)
  sameBreaker : (b'.breaker.name, b'.breaker.limit) = (b.breaker.name, b.breaker.limit)
  quota : (∀ q, b.account.quota = some q → b.account.used ≤ q) →
    ∀ q, b.account.quota = some q → b'.account.used ≤ q
  limit : b.breaker.used ≤ b.breaker.limit → b'.breaker.used ≤ b.breaker.limit
  size : b.breaker.used ≤ maxSize → b'.breaker.used ≤ maxSize
  peak : b.breaker.used ≤ b.breaker.peak → b'.breaker.peak = max b.breaker.peak b'.breaker.used

theorem Transfer.refl (b : Budget) (held : Nat) : Transfer b held b held where
  account := rfl
  breaker := rfl
  sameAccount := rfl
  sameBreaker := rfl
  quota h := h
  limit h := h
  size h := h
  peak h := (Nat.max_eq_left h).symm

/-- Both counters go up by what the holder holds more. -/
theorem transfer_grow {b : Budget} {bytes : Nat} (held : Nat)
    (haccount : b.account.used + bytes ≤ maxSize) (hbreaker : b.breaker.used + bytes ≤ maxSize)
    (hadmits : b.account.Admits bytes) (hlimit : addSizes b.breaker.used bytes ≤ b.breaker.limit) :
    Transfer b held (b.grow bytes) (held + bytes) where
  account := by
    show b.account.next bytes + held = b.account.used + (held + bytes)
    rw [Account.next_eq haccount]
    omega
  breaker := by
    show addSizes b.breaker.used bytes + held = b.breaker.used + (held + bytes)
    rw [addSizes_of_le hbreaker]
    omega
  sameAccount := rfl
  sameBreaker := rfl
  quota _ := hadmits
  limit _ := hlimit
  size _ := Nat.min_le_right _ _
  peak _ := rfl

/-- What the account had already counted goes down again. -/
theorem transfer_refuse {b : Budget} {bytes : Nat} (held : Nat)
    (haccount : b.account.used + bytes ≤ maxSize) : Transfer b held (b.refuse bytes) held := by
  have hused : (b.refuse bytes).account.used = b.account.used := by
    show subSizes (b.account.next bytes) bytes = b.account.used
    rw [Account.next_eq haccount, subSizes_of_le (Nat.le_add_left _ _), Nat.add_sub_cancel]
  refine ⟨by rw [hused], rfl, rfl, rfl, fun h q hq => ?_, fun h => h, fun h => h, fun h => ?_⟩
  · rw [hused]
    exact h q hq
  · exact (Nat.max_eq_left h).symm

/-- No difference goes round where no more is given back than is held and counted. -/
theorem transfer_giveBack {b : Budget} {held bytes : Nat} (hheld : bytes ≤ held)
    (haccount : held ≤ b.account.used) (hbreaker : held ≤ b.breaker.used) :
    Transfer b held (b.giveBack bytes) (held - bytes) := by
  have ha : (b.giveBack bytes).account.used = b.account.used - bytes :=
    subSizes_of_le (Nat.le_trans hheld haccount)
  have hb : (b.giveBack bytes).breaker.used = b.breaker.used - bytes :=
    subSizes_of_le (Nat.le_trans hheld hbreaker)
  refine ⟨by omega, by omega, rfl, rfl, fun h q hq => ?_, fun h => ?_, fun h => ?_, fun h => ?_⟩
  · have hle := h q hq
    omega
  · omega
  · omega
  · show b.breaker.peak = max b.breaker.peak (b.giveBack bytes).breaker.used
    omega

end Budget

/-! ## Computations of holders

Scopes and buffers one operation after the other. Growing a text is one request and then an update
that asks for nothing. -/

/-- Every run of a computation from `s` is a transfer, where the counters have room for what it
asks for. -/
def Metered.Conserves {σ : Type} (held : σ → Nat) (m : Metered MemoryError σ Unit) (s : σ)
    (asked : Nat) : Prop :=
  ∀ b : Budget, held s ≤ b.account.used → held s ≤ b.breaker.used →
    b.account.used + asked ≤ maxSize → b.breaker.used + asked ≤ maxSize →
    Budget.Transfer b (held s) (m.run (s, b)).2.2 (held (m.run (s, b)).2.1)

namespace Scope

/-- **Asking for bytes**, granted or refused. -/
theorem conserves_add (s : Scope) (bytes : Nat) : (add bytes).Conserves held s bytes := by
  intro b _ _ haccount hbreaker
  unfold Metered.run
  rw [add_eq_request]
  obtain ⟨rfl, hreq⟩ | ⟨-, -, quota, -, hreq⟩ | ⟨-, -, -, hreq⟩ | ⟨-, hadmits, hlimit, hreq⟩ :=
    b.request_cases s.label bytes
  · rw [hreq]
    exact .refl b s.held
  · rw [hreq]
    exact .refl b s.held
  · rw [hreq]
    exact Budget.transfer_refuse s.held haccount
  · rw [hreq]
    exact Budget.transfer_grow s.held haccount hbreaker hadmits hlimit

theorem conserves_sub (s : Scope) (bytes : Nat) :
    (Metered.update fun (s : Scope) b => s.sub bytes b).Conserves held s 0 :=
  fun _ hheld hcounted _ _ => Budget.transfer_giveBack (Nat.min_le_right bytes s.held) hheld hcounted

theorem conserves_release (s : Scope) : (Metered.update release).Conserves held s 0 :=
  s.conserves_sub s.held

theorem held_release (s : Scope) (b : Budget) :
    held (Metered.run (Metered.update release : Metered MemoryError Scope Unit) (s, b)).2.1 = 0 := by
  show s.held - min s.held s.held = 0
  omega

end Scope

namespace Scratch

/-- What a buffer holds is its capacity. -/
def held (s : Scratch) : Nat := s.scope.held

/-- The bytes that are asked for before so many more bytes of text. -/
def missing (s : Scratch) (additional : Nat) : Nat :=
  if s.length + additional ≤ s.scope.held then 0
  else capacityFor (s.length + additional) - s.scope.held

/-- Growing is one request, which is for no bytes if there is room. -/
theorem reserve_eq (s : Scratch) (additional : Nat) (b : Budget) :
    reserve additional (s, b) =
      StepResult.within (fun scope => { s with scope })
        (Scope.add (s.missing additional) (s.scope, b)) := by
  by_cases hroom : s.length + additional ≤ s.scope.held
  · have hzero : Scope.add 0 (s.scope, b) = .ok () (s.scope, b) := rfl
    rw [missing, if_pos hroom, hzero]
    unfold reserve
    rw [Metered.bind_of_ok (show Metered.read id (s, b) = .ok s (s, b) from rfl)]
    simp only [if_pos hroom]
    rfl
  · rw [missing, if_neg hroom]
    unfold reserve
    rw [Metered.bind_of_ok (show Metered.read id (s, b) = .ok s (s, b) from rfl)]
    simp only [if_neg hroom]
    rfl

/-- Growing and then changing the text, as both ways to append do: it is one request, and a refusal
leaves the buffer alone. -/
theorem reserve_modify_eq {additional : Nat} {f : Scratch → Scratch} (s : Scratch) (b : Budget) :
    (reserve additional >>= fun _ => Metered.modifyState f) (s, b) =
      match b.request s.scope.label (s.missing additional) with
      | .ok () b' =>
        .ok () (f { s with scope :=
          { s.scope with held := s.scope.held + s.missing additional } }, b')
      | .error e b' => .error e (s, b') := by
  have hreserve := s.reserve_eq additional b
  rw [Scope.add_eq_request] at hreserve
  cases hreq : b.request s.scope.label (s.missing additional) with
  | ok u b' =>
    rw [hreq] at hreserve
    rw [Metered.bind_of_ok hreserve]
    rfl
  | error e b' =>
    rw [hreq] at hreserve
    rw [Metered.bind_of_error hreserve]

/-- Growing and then changing the text is a transfer. -/
theorem conserves_reserve_modify (s : Scratch) (additional : Nat) (f : Scratch → Scratch)
    (hf : ∀ s : Scratch, (f s).scope = s.scope) :
    (reserve additional >>= fun _ => Metered.modifyState f).Conserves held s
      (s.missing additional) := by
  intro b hheld hcounted haccount hbreaker
  have hadd := s.scope.conserves_add (s.missing additional) b hheld hcounted haccount hbreaker
  unfold Metered.run at hadd ⊢
  rw [reserve_modify_eq]
  rw [Scope.add_eq_request] at hadd
  cases hreq : b.request s.scope.label (s.missing additional) with
  | ok u b' =>
    rw [hreq] at hadd
    -- the text is not held, so that its change moves nothing
    show Budget.Transfer b s.scope.held b' (f _).scope.held
    rw [hf]
    exact hadd
  | error e b' =>
    rw [hreq] at hadd
    exact hadd

theorem conserves_push (s : Scratch) (text : String) :
    (push text).Conserves held s (s.missing text.utf8ByteSize) :=
  s.conserves_reserve_modify _ _ fun _ => rfl

theorem conserves_pushChar (s : Scratch) (c : Char) :
    (pushChar c).Conserves held s (s.missing c.utf8Size) :=
  s.conserves_reserve_modify _ _ fun _ => rfl

theorem conserves_clear (s : Scratch) : (Metered.modifyState clear).Conserves held s 0 :=
  fun b _ _ _ _ => .refl b s.held

theorem conserves_release (s : Scratch) : (Metered.update release).Conserves held s 0 :=
  s.scope.conserves_release

theorem held_release (s : Scratch) (b : Budget) :
    held (Metered.run (Metered.update release : Metered MemoryError Scratch Unit) (s, b)).2.1 = 0 :=
  s.scope.held_release b

end Scratch

end RowStream
