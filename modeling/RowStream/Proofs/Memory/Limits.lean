import RowStream.Proofs.Memory.Movement

/-!
# Movements under a limit

The same movements, replayed with a limit and without, stay abreast of each other until a request
takes the counters beyond the limit. So what a limit does to a replay can be told from the peak
of the replay without it.

* `Budget.Abreast` — a budget with limits counts what a budget without limits counts.
* `Budget.abreast_request` — one request: both grow, or the one with limits refuses.
* `Budget.replay_abreast` — all of them: a peak within the limits lets the replay come to its end,
  any other has it refused.
-/

namespace RowStream

namespace Budget

/-- The limits of a budget let the account count so many bytes. -/
def Fits (b : Budget) (bytes : Nat) : Prop :=
  bytes ≤ b.breaker.limit ∧ ∀ quota, b.account.quota = some quota → bytes ≤ quota

theorem Fits.mono {b : Budget} {n m : Nat} (h : b.Fits n) (hle : m ≤ n) : b.Fits m :=
  ⟨Nat.le_trans hle h.1, fun quota hq => Nat.le_trans hle (h.2 quota hq)⟩

theorem Fits.max {b : Budget} {n m : Nat} (hn : b.Fits n) (hm : b.Fits m) : b.Fits (max n m) :=
  ⟨Nat.max_le.2 ⟨hn.1, hm.1⟩, fun quota hq => Nat.max_le.2 ⟨hn.2 quota hq, hm.2 quota hq⟩⟩

/-- Budget `c` counts what `b` counts, and the breaker of `c` counts nothing else. -/
structure Abreast (b c : Budget) : Prop where
  used : c.account.used = b.account.used
  peak : c.account.peak = b.account.peak
  alone : c.breaker.used = c.account.used

/-! ## One movement

The step: budgets that are abreast stay so, or the one with limits refuses, and then the peak of the
other one is beyond the limits from here on. -/

theorem Abreast.giveBack {b c : Budget} (h : Abreast b c) (bytes : Nat) :
    Abreast (b.giveBack bytes) (c.giveBack bytes) where
  used := congrArg (subSizes · bytes) h.used
  peak := h.peak
  alone := congrArg (subSizes · bytes) h.alone

theorem Abreast.next {b c : Budget} (h : Abreast b c) {bytes : Nat}
    (hmax : b.account.used + bytes ≤ maxSize) :
    c.account.next bytes = b.account.used + bytes := by
  rw [Account.next_eq (h.used ▸ hmax), h.used]

theorem Abreast.addSizes {b c : Budget} (h : Abreast b c) {bytes : Nat}
    (hmax : b.account.used + bytes ≤ maxSize) :
    RowStream.addSizes c.breaker.used bytes = b.account.used + bytes := by
  rw [h.alone, h.used, addSizes_of_le hmax]

theorem Abreast.grow {b c : Budget} (h : Abreast b c) {bytes : Nat}
    (hmax : b.account.used + bytes ≤ maxSize) : Abreast (b.grow bytes) (c.grow bytes) := by
  refine ⟨(h.next hmax).trans (Account.next_eq hmax).symm, ?_, ?_⟩
  · show max c.account.peak (c.account.next bytes) = max b.account.peak (b.account.next bytes)
    rw [h.next hmax, Account.next_eq hmax, h.peak]
  · show RowStream.addSizes c.breaker.used bytes = c.account.next bytes
    rw [h.addSizes hmax, h.next hmax]

/-- **One request.** Where it fits, both budgets grow; where it does not, the one with limits
refuses, and the quota is asked first. -/
theorem abreast_request {b c : Budget} (h : Abreast b c) (label : String) {bytes : Nat}
    (hpos : 0 < bytes) (hmax : b.account.used + bytes ≤ maxSize) :
    (c.Fits (b.account.used + bytes) ∧ c.request label bytes = .ok () (c.grow bytes)) ∨
    (¬c.Fits (b.account.used + bytes) ∧ ∃ e c', c.request label bytes = .error e c' ∧
      ∀ quota, c.account.quota = some quota → quota ≤ c.breaker.limit →
        ∃ label requested used, e = .quotaExceeded c.account.job label requested quota used) := by
  have hnext := h.next hmax
  have hbreaker := h.addSizes hmax
  obtain ⟨hzero, -⟩ | ⟨-, hquota, quota, hq, hreq⟩ | ⟨-, hadmits, hlimit, hreq⟩ |
    ⟨-, hadmits, hlimit, hreq⟩ := request_cases c label bytes
  · omega
  · -- the quota refuses
    right
    refine ⟨fun hfits => hquota fun q hq => hnext ▸ hfits.2 q hq, _, _, hreq, ?_⟩
    intro quota' hquota' hle
    rw [hq] at hquota'
    cases hquota'
    exact ⟨_, _, _, rfl⟩
  · -- the breaker refuses what the quota has let pass, so the quota is the greater of the two
    right
    rw [hbreaker] at hlimit
    refine ⟨fun hfits => absurd hfits.1 (by omega), _, _, hreq, ?_⟩
    intro quota hq hle
    have hpassed := hadmits quota hq
    omega
  · left
    rw [hbreaker] at hlimit
    exact ⟨⟨hlimit, fun quota hq => hnext ▸ hadmits quota hq⟩, hreq⟩

/-! ## All movements

Induction on the movements. What the peak of the whole replay comes to is at least what it has come
to at any movement, so that a peak that fits in the end has fitted all the time. -/

/-- **A replay under limits.** It comes to its end, and counts the same, if the peak of the replay
without limits fits; otherwise it is refused. -/
theorem replay_abreast {ms : List Movement} {b b' c : Budget} (h : Abreast b c)
    (hb : b.Unlimited) (hreplay : b.replay ms = .ok () b') (hmax : b'.account.peak ≤ maxSize)
    (hfits : c.Fits c.account.peak) :
    (c.Fits b'.account.peak ∧ ∃ c', c.replay ms = .ok () c' ∧ Abreast b' c') ∨
    (¬c.Fits b'.account.peak ∧ ∃ e c', c.replay ms = .error e c' ∧
      ∀ quota, c.account.quota = some quota → quota ≤ c.breaker.limit →
        ∃ label requested used, e = .quotaExceeded c.account.job label requested quota used) := by
  -- induction on the movements: the counters are abreast until the refusal
  induction ms generalizing b c with
  | nil =>
    cases hreplay
    rw [h.peak] at hfits
    exact .inl ⟨hfits, c, rfl, h⟩
  | cons m ms ih =>
    cases m with
    | giveBack bytes => exact ih (h.giveBack bytes) (hb.giveBack bytes) hreplay hfits
    | request label bytes =>
      rcases Nat.eq_zero_or_pos bytes with rfl | hpos
      · simp only [Budget.replay, move, request_zero] at hreplay ⊢
        exact ih h hb hreplay hfits
      · simp only [Budget.replay, move, hb.request label hpos] at hreplay
        -- the peak takes note of this request, and never sinks
        have hpeak := peak_le_of_replay hreplay
        have hle : b.account.used + bytes ≤ b'.account.peak := by
          have hnext : b.account.used + bytes = b.account.next bytes := by
            rw [Account.next, hb.quota]
            rfl
          rw [hnext]
          exact Nat.le_trans (Nat.le_max_right _ _) hpeak
        obtain ⟨hadmits, hreq⟩ | ⟨hnot, e, c', hreq, he⟩ :=
          abreast_request h label hpos (Nat.le_trans hle hmax)
        · have hgrow := h.grow (Nat.le_trans hle hmax)
          have hgrown : (c.grow bytes).Fits (c.grow bytes).account.peak := by
            show c.Fits (max c.account.peak (c.account.next bytes))
            rw [h.next (Nat.le_trans hle hmax)]
            exact hfits.max hadmits
          simp only [Budget.replay, move, hreq]
          exact ih hgrow (hb.grow bytes) hreplay hgrown
        · right
          refine ⟨fun hb' => hnot (hb'.mono hle), e, c', ?_, he⟩
          simp only [Budget.replay, move, hreq]

end Budget

end RowStream
