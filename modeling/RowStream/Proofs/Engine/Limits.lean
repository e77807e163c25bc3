import RowStream.Proofs.Engine.Meaning
import RowStream.Proofs.Memory.Limits

/-!
# Pipelines under memory limits

A drive learns nothing of its budget but that a request was refused, and it does not survive that.
So a limit either changes nothing at all, or turns the run into a memory error; and which of the
two can be told from the peak of the run without a limit.

* `Supply.freePeak` — the peak of a run without a limit.
* `Supply.run_under_limits` — what a limit and a quota do to it.
-/

namespace RowStream

namespace Supply

/-- The peak of the account of a job that runs without a limit. -/
def freePeak (supply : Supply) (operators : List Operator) : Nat :=
  (supply.run operators (.unlimited "" .nil)).2.2.budget.account.peak

/-- **A memory limit only ever turns a run into a memory error**, and only when the run does not
fit: a job that is alone on a breaker ends with the result of the run without a limit and with the
same peak, if that peak is within the limit and the quota. Otherwise it ends with a refusal, which
is one of the quota if the quota is not greater than the limit. -/
theorem run_under_limits (supply : Supply) (operators : List Operator) (job : JobId)
    (breaker : Breaker) (quota : Option Nat) (halone : breaker.used = 0)
    (hmax : supply.freePeak operators ≤ maxSize) :
    (supply.freePeak operators ≤ breaker.limit ∧
        (∀ q, quota = some q → supply.freePeak operators ≤ q) →
      ∃ result d free limited,
        supply.run operators (.unlimited "" .nil) = (.finished result, d, free) ∧
        supply.run operators ⟨breaker, .new job quota⟩ = (.finished result, d, limited) ∧
        limited.budget.account.peak = supply.freePeak operators) ∧
    (¬(supply.freePeak operators ≤ breaker.limit ∧
        ∀ q, quota = some q → supply.freePeak operators ≤ q) →
      ∃ e d limited,
        supply.run operators ⟨breaker, .new job quota⟩ =
          (.finished (.error (.memory e)), d, limited) ∧
        ∀ q, quota = some q → q ≤ breaker.limit →
          ∃ label requested used, e = .quotaExceeded job label requested q used) := by
  obtain ⟨ms, d, hends, -⟩ := supply.exists_attend operators
  have hunlimited := Budget.unlimited_unlimited "" .nil
  obtain ⟨b', hreplay, -⟩ := hunlimited.replay ms
  have hfree : supply.run operators (.unlimited "" .nil) = (.finished _, d, .live b') :=
    hends.granted hreplay
  have hpeak : supply.freePeak operators = b'.account.peak := by
    rw [freePeak, hfree]
    rfl
  rw [hpeak] at hmax ⊢
  -- at the start both budgets count nothing
  have habreast : Budget.Abreast (.unlimited "" .nil) ⟨breaker, .new job quota⟩ := ⟨rfl, rfl, halone⟩
  have hstart : Budget.Fits ⟨breaker, .new job quota⟩ 0 := ⟨Nat.zero_le _, fun q _ => Nat.zero_le q⟩
  obtain ⟨hfits, c', hc, hc'⟩ | ⟨hnot, e, c', hc, he⟩ :=
    Budget.replay_abreast habreast hunlimited hreplay hmax hstart
  · refine ⟨fun _ => ?_, fun hnot => absurd hfits hnot⟩
    exact ⟨_, d, .live b', .live c', hfree, hends.granted hc, hc'.peak⟩
  · refine ⟨fun hfits => absurd hfits hnot, fun _ => ?_⟩
    obtain ⟨d', limited, hrun⟩ := hends.refused hc
    exact ⟨e, d', limited, hrun, he⟩

/-- Two rows do not fit into a quota of one hundred bytes. -/
theorem run_under_limits_quota :
    ∃ e d limited,
      late.run [.limit (.new 1 (some 2) [.column 0])] ⟨.new "shared" 1000, .new .nil (some 100)⟩ =
        (.finished (.error (.memory e)), d, limited) ∧
      ∃ label requested used, e = .quotaExceeded .nil label requested 100 used := by
  have hmax : late.freePeak [.limit (.new 1 (some 2) [.column 0])] ≤ maxSize := by decide +kernel
  have hlarge : ¬late.freePeak [.limit (.new 1 (some 2) [.column 0])] ≤ 100 := by decide +kernel
  obtain ⟨e, d, limited, hrun, he⟩ :=
    (run_under_limits late _ .nil (.new "shared" 1000) (some 100) rfl hmax).2
      fun hfits => hlarge (hfits.2 100 rfl)
  exact ⟨e, d, limited, hrun, he 100 rfl (by decide)⟩

end Supply

end RowStream
