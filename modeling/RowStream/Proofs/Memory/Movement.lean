import RowStream.Memory.Scope

/-!
# Movements of memory

Seen from its budget, a computation is a list of movements: requests under a label, and bytes
given back. This module says what one movement does to a budget, and replays a list of them up
to the first refusal.

* `Budget.request_cases` — the one inversion lemma of a request: it is free, it is refused by the
  quota, it is refused by the breaker, or both counters grow.
* `Budget.used_le_quota_of_request` — a quota bounds the total, whatever is asked for.
* `Budget.replay` — movements in order; `replay_append` cuts a replay in two.
* `Budget.Unlimited` — a budget that refuses nothing, and goes on refusing nothing
  (`Unlimited.replay`).
* `Budget.peak_le_of_replay` — the account's peak never sinks.
-/

namespace RowStream

/-- A request for bytes under a label, or bytes that are given back. -/
inductive Movement where
  | request (label : String) (bytes : Nat)
  | giveBack (bytes : Nat)
  deriving DecidableEq

theorem addSizes_of_le {a b : Nat} (h : a + b ≤ maxSize) : addSizes a b = a + b :=
  Nat.min_eq_left h

theorem subSizes_le (a b : Nat) : subSizes a b ≤ a ∨ a < b ∧ subSizes a b ≤ maxSize := by
  unfold subSizes maxSize
  split <;> omega

namespace Account

/-- A sum that is a size is not cut off, with a quota or without. -/
theorem next_eq {a : Account} {bytes : Nat} (h : a.used + bytes ≤ maxSize) :
    a.next bytes = a.used + bytes := by
  unfold next
  split
  · exact addSizes_of_le h
  · rfl

/-- Giving back at once what was just counted leaves no more. -/
theorem subSizes_next_le (a : Account) (bytes : Nat) :
    subSizes (a.next bytes) bytes ≤ a.next bytes := by
  obtain hle | ⟨hlt, hround⟩ := subSizes_le (a.next bytes) bytes
  · exact hle
  · -- only a sum that was cut off is less than what was added
    unfold next addSizes at hlt hround ⊢
    split at hlt
    · next hquota =>
      rw [if_pos hquota] at hround ⊢
      omega
    · omega

/-- The quota lets so many more bytes pass. -/
def Admits (a : Account) (bytes : Nat) : Prop := ∀ quota, a.quota = some quota → a.next bytes ≤ quota

/-- The account with so many more bytes, which the peak takes note of. -/
def grow (a : Account) (bytes : Nat) : Account :=
  { a with used := a.next bytes, peak := max a.peak (a.next bytes) }

theorem reserve_of_admits {a : Account} {bytes : Nat} (label : String) (h : a.Admits bytes) :
    a.reserve label bytes = .ok (a.grow bytes) := by
  obtain ⟨job, quota, used, peak⟩ := a
  cases quota with
  | none => rfl
  | some quota => exact if_pos (h quota rfl)

theorem reserve_of_not_admits {a : Account} {bytes : Nat} (label : String) (h : ¬a.Admits bytes) :
    ∃ quota, a.quota = some quota ∧
      a.reserve label bytes = .error (.quotaExceeded a.job label bytes quota a.used) := by
  obtain ⟨job, quota, used, peak⟩ := a
  cases quota with
  | none => exact absurd (fun quota hq => nomatch hq) h
  | some quota =>
    refine ⟨quota, rfl, if_neg fun hle => h fun q hq => ?_⟩
    cases hq
    exact hle

end Account

namespace Budget

/-- Asks for bytes under a label. It is what `Scope.add` does to the budget. -/
def request (b : Budget) (label : String) (bytes : Nat) : EStateM.Result MemoryError Budget Unit :=
  match Scope.add bytes (.new label, b) with
  | .ok () (_, b) => .ok () b
  | .error e (_, b) => .error e b

/-- Gives bytes back to both counters. -/
def giveBack (b : Budget) (bytes : Nat) : Budget :=
  ⟨b.breaker.release bytes, b.account.release bytes⟩

/-- Both counters with so many more bytes. -/
def grow (b : Budget) (bytes : Nat) : Budget where
  breaker := { b.breaker with
    used := addSizes b.breaker.used bytes
    peak := max b.breaker.peak (addSizes b.breaker.used bytes) }
  account := b.account.grow bytes

/-- What a refusal by the breaker leaves: it is counted, and the account gives back what it had
already counted. -/
def refuse (b : Budget) (bytes : Nat) : Budget :=
  ⟨b.breaker.trip, (b.account.grow bytes).release bytes⟩

/-! ## One request

Every later statement about requests is read off these four cases. -/

/-- **What a request does.** Nothing is free of both checks but the request for no bytes; the
quota is asked before the breaker. -/
theorem request_cases (b : Budget) (label : String) (bytes : Nat) :
    (bytes = 0 ∧ b.request label bytes = .ok () b) ∨
    (0 < bytes ∧ ¬b.account.Admits bytes ∧ ∃ quota, b.account.quota = some quota ∧
      b.request label bytes =
        .error (.quotaExceeded b.account.job label bytes quota b.account.used) b) ∨
    (0 < bytes ∧ b.account.Admits bytes ∧ b.breaker.limit < addSizes b.breaker.used bytes ∧
      b.request label bytes =
        .error (.circuitBreaking b.breaker.name label bytes b.breaker.limit b.breaker.used)
          (b.refuse bytes)) ∨
    (0 < bytes ∧ b.account.Admits bytes ∧ addSizes b.breaker.used bytes ≤ b.breaker.limit ∧
      b.request label bytes = .ok () (b.grow bytes)) := by
  unfold request Scope.add
  rcases Nat.eq_zero_or_pos bytes with hzero | hpos
  · exact .inl ⟨hzero, by simp [hzero]⟩
  right
  have hne : bytes ≠ 0 := by omega
  -- in the order in which the program asks: the quota first, and only then the breaker
  by_cases hquota : b.account.Admits bytes
  · right
    have hreserve := Account.reserve_of_admits label hquota
    by_cases hlimit : addSizes b.breaker.used bytes ≤ b.breaker.limit
    · refine .inr ⟨hpos, hquota, hlimit, ?_⟩
      simp [hne, Scope.new, hreserve, Breaker.acquire?, hlimit, grow]
    · refine .inl ⟨hpos, hquota, by omega, ?_⟩
      simp [hne, Scope.new, hreserve, Breaker.acquire?, hlimit, refuse]
  · left
    obtain ⟨quota, hq, hreserve⟩ := Account.reserve_of_not_admits label hquota
    refine ⟨hpos, hquota, quota, hq, ?_⟩
    simp [hne, Scope.new, hreserve]

/-- No request takes the total beyond the quota, granted or refused. -/
theorem used_le_quota_of_request {b b' : Budget} {label : String} {bytes q : Nat}
    (hreq : b.request label bytes = .ok () b' ∨ ∃ e, b.request label bytes = .error e b')
    (hquota : b.account.quota = some q) (hused : b.account.used ≤ q) : b'.account.used ≤ q := by
  obtain ⟨-, hcase⟩ | ⟨-, -, _, -, hcase⟩ | ⟨-, hadmits, -, hcase⟩ | ⟨-, hadmits, -, hcase⟩ :=
    b.request_cases label bytes <;> rw [hcase] at hreq <;>
    obtain hreq | ⟨e, hreq⟩ := hreq <;> cases hreq
  · exact hused
  · exact hused
  · exact Nat.le_trans (b.account.subSizes_next_le bytes) (hadmits q hquota)
  · exact hadmits q hquota

end Budget

/-- **A scope asks its budget**, and holds the bytes when they are not refused. -/
theorem Scope.add_eq_request (s : Scope) (bytes : Nat) (b : Budget) :
    Scope.add bytes (s, b) =
      match b.request s.label bytes with
      | .ok () b' => .ok () ({ s with held := s.held + bytes }, b')
      | .error e b' => .error e (s, b') := by
  unfold Budget.request Scope.add
  by_cases hzero : bytes = 0
  · simp [hzero]
  · simp only [hzero, if_false, Scope.new]
    cases b.account.reserve s.label bytes with
    | error e => rfl
    | ok account => cases b.breaker.acquire? bytes <;> rfl

namespace Budget

/-! ## Replaying movements

Movements happen in order until a request is refused; the budget that the refusal leaves is kept,
as it has the refusal counted. -/

/-- One movement. Giving back is never refused. -/
def move (b : Budget) : Movement → EStateM.Result MemoryError Budget Unit
  | .request label bytes => b.request label bytes
  | .giveBack bytes => .ok () (b.giveBack bytes)

/-- Movements in order, up to the first refusal. -/
def replay (b : Budget) : List Movement → EStateM.Result MemoryError Budget Unit
  | [] => .ok () b
  | m :: ms =>
    match b.move m with
    | .ok () b => b.replay ms
    | .error e b => .error e b

theorem replay_append (b : Budget) (ms ns : List Movement) :
    b.replay (ms ++ ns) =
      match b.replay ms with
      | .ok () b => b.replay ns
      | .error e b => .error e b := by
  induction ms generalizing b with
  | nil => rfl
  | cons m ms ih =>
    simp only [List.cons_append, replay]
    cases b.move m with
    | ok u b' => exact ih b'
    | error e b' => rfl

/-- Movements that only give back are never refused. -/
theorem replay_giveBacks (b : Budget) (sizes : List Nat) :
    b.replay (sizes.map .giveBack) = .ok () (sizes.foldl giveBack b) := by
  induction sizes generalizing b with
  | nil => rfl
  | cons n sizes ih => exact ih (b.giveBack n)

/-! ## Budgets without a limit

Under such a budget a computation shows what it does by itself, which is how results without memory
are compared with results under limits. -/

/-- A budget that refuses nothing: no size is beyond the breaker, and there is no quota. -/
structure Unlimited (b : Budget) : Prop where
  limit : maxSize ≤ b.breaker.limit
  quota : b.account.quota = none

/-- The budget of a job alone on a breaker without a limit. -/
def unlimited (name : String) (job : JobId) : Budget := ⟨.unlimited name, .new job none⟩

theorem unlimited_unlimited (name : String) (job : JobId) : (unlimited name job).Unlimited :=
  ⟨Nat.le_refl _, rfl⟩

theorem Unlimited.giveBack {b : Budget} (h : b.Unlimited) (bytes : Nat) :
    (b.giveBack bytes).Unlimited :=
  ⟨h.limit, h.quota⟩

theorem request_zero (b : Budget) (label : String) : b.request label 0 = .ok () b := by
  unfold request Scope.add
  simp

theorem Unlimited.request {b : Budget} (h : b.Unlimited) (label : String) {bytes : Nat}
    (hpos : 0 < bytes) : b.request label bytes = .ok () (b.grow bytes) := by
  have hlimit : addSizes b.breaker.used bytes ≤ b.breaker.limit :=
    Nat.le_trans (Nat.min_le_right _ _) h.limit
  obtain ⟨hzero, -⟩ | ⟨-, -, quota, hq, -⟩ | ⟨-, -, hlt, -⟩ | ⟨-, -, -, hreq⟩ :=
    request_cases b label bytes
  · omega
  · rw [h.quota] at hq
    cases hq
  · omega
  · exact hreq

theorem Unlimited.grow {b : Budget} (h : b.Unlimited) (bytes : Nat) : (b.grow bytes).Unlimited :=
  ⟨h.limit, h.quota⟩

/-- **Without a limit every replay comes to its end.** -/
theorem Unlimited.replay {b : Budget} (h : b.Unlimited) (ms : List Movement) :
    ∃ b', b.replay ms = .ok () b' ∧ b'.Unlimited := by
  induction ms generalizing b with
  | nil => exact ⟨b, rfl, h⟩
  | cons m ms ih =>
    cases m with
    | request label bytes =>
      rcases Nat.eq_zero_or_pos bytes with rfl | hpos
      · obtain ⟨b', hreplay, hb'⟩ := ih h
        refine ⟨b', ?_, hb'⟩
        simp only [Budget.replay, move, request_zero]
        exact hreplay
      · obtain ⟨b', hreplay, hb'⟩ := ih (h.grow bytes)
        refine ⟨b', ?_, hb'⟩
        simp only [Budget.replay, move, h.request label hpos]
        exact hreplay
    | giveBack bytes => exact ih (h.giveBack bytes)

/-! ## The peak never sinks

Peaks of later states bound those of earlier ones. -/

theorem peak_le_of_move {b b' : Budget} {m : Movement} (h : b.move m = .ok () b') :
    b.account.peak ≤ b'.account.peak := by
  cases m with
  | giveBack bytes =>
    cases h
    exact Nat.le_refl _
  | request label bytes =>
    obtain ⟨-, hreq⟩ | ⟨-, -, quota, -, hreq⟩ | ⟨-, -, -, hreq⟩ | ⟨-, -, -, hreq⟩ :=
      request_cases b label bytes <;> rw [move, hreq] at h <;> cases h
    · exact Nat.le_refl _
    · exact Nat.le_max_left _ _

theorem peak_le_of_replay {b b' : Budget} {ms : List Movement} (h : b.replay ms = .ok () b') :
    b.account.peak ≤ b'.account.peak := by
  induction ms generalizing b with
  | nil =>
    cases h
    exact Nat.le_refl _
  | cons m ms ih =>
    cases hm : b.move m with
    | error e b₁ => simp [Budget.replay, hm] at h
    | ok u b₁ =>
      simp only [Budget.replay, hm] at h
      exact Nat.le_trans (peak_le_of_move hm) (ih h)

end Budget

end RowStream
