import RowStream.Proofs.Memory.Conservation

/-!
# Decisions on requests

A scope that asks for bytes moves three counters, its own, that of its job and that of the breaker,
or it moves none of them. Which of the two it is can be told from the figures before the request.

* `Budget.request_sized` — the cases of a request where no sum is cut off at the greatest size.
* `Ledger.apply_add_eq` — a request of a scope is a request to the budget of its job, and touches
  nothing in the ledger but this scope, this job and its breaker.
* `Ledger.add_decides` — who grants, who refuses, and what is left in each case.
* `Ledger.add_granted_beyond` — a breaker whose limit is the greatest size does not see that a sum
  goes beyond it.
-/

namespace RowStream

/-- That a sum goes beyond a limit is seen, unless it is cut off and the limit is the greatest
size. -/
theorem addSizes_le_iff {a b limit : Nat} (h : a + b ≤ maxSize ∨ limit < maxSize) :
    addSizes a b ≤ limit ↔ a + b ≤ limit := by
  unfold addSizes
  omega

/-- The quota lets so many more bytes pass, their sum being counted in full. -/
def Account.HasQuotaFor (a : Account) (bytes : Nat) : Prop :=
  ∀ quota, a.quota = some quota → a.used + bytes ≤ quota

theorem Account.admits_iff {a : Account} {bytes : Nat} (h : a.used + bytes ≤ maxSize) :
    a.Admits bytes ↔ a.HasQuotaFor bytes := by
  unfold Admits HasQuotaFor
  rw [next_eq h]

/-- **A request in exact figures.** Its sums are sizes, or the breaker's limit is less than the
greatest one. -/
theorem Budget.request_sized {a : Account} {c : Breaker} (label : String) {bytes : Nat}
    (hpos : 0 < bytes) (hused : a.used + bytes ≤ maxSize)
    (hsize : c.used + bytes ≤ maxSize ∨ c.limit < maxSize) :
    (¬a.HasQuotaFor bytes ∧ ∃ quota, a.quota = some quota ∧
      Budget.request ⟨c, a⟩ label bytes =
        .error (.quotaExceeded a.job label bytes quota a.used) ⟨c, a⟩) ∨
    (a.HasQuotaFor bytes ∧ ¬c.used + bytes ≤ c.limit ∧
      Budget.request ⟨c, a⟩ label bytes =
        .error (.circuitBreaking c.name label bytes c.limit c.used)
          ⟨{ c with trips := c.trips + 1 }, { a with peak := max a.peak (a.used + bytes) }⟩) ∨
    (a.HasQuotaFor bytes ∧ c.used + bytes ≤ c.limit ∧
      Budget.request ⟨c, a⟩ label bytes =
        .ok () ⟨{ c with used := c.used + bytes, peak := max c.peak (c.used + bytes) },
          { a with used := a.used + bytes, peak := max a.peak (a.used + bytes) }⟩) := by
  have hnext : a.next bytes = a.used + bytes := Account.next_eq hused
  have hquota : a.Admits bytes ↔ a.HasQuotaFor bytes := Account.admits_iff hused
  have hlimit : addSizes c.used bytes ≤ c.limit ↔ c.used + bytes ≤ c.limit := addSizes_le_iff hsize
  obtain ⟨hzero, -⟩ | ⟨-, hrefused, quota, hq, hrequest⟩ | ⟨-, hadmits, hlt, hrequest⟩ |
    ⟨-, hadmits, hle, hrequest⟩ := Budget.request_cases ⟨c, a⟩ label bytes
  · omega
  · exact .inl ⟨fun h => hrefused (hquota.2 h), quota, hq, hrequest⟩
  · -- the account gives back what it had counted, and only its peak remembers
    refine .inr (.inl ⟨hquota.1 hadmits, fun h => Nat.not_le.2 hlt (hlimit.2 h), ?_⟩)
    rw [hrequest]
    simp [refuse, Breaker.trip, Account.grow, Account.release, hnext, subSizes]
  · have hunder := hlimit.1 hle
    have hcounted : addSizes c.used bytes = c.used + bytes := addSizes_of_le (by omega)
    refine .inr (.inr ⟨hquota.1 hadmits, hunder, ?_⟩)
    rw [hrequest]
    simp [grow, Account.grow, hnext, hcounted]

namespace Ledger

/-- Puts a scope, the account of its job and the breaker of the job in their places. -/
def place (l : Ledger) (i job k : Nat) (s : Scope) (a : Account) (c : Breaker) : Ledger :=
  { l with
    scopes := l.scopes.set i (job, some s)
    jobs := l.jobs.set job (k, a)
    breakers := l.breakers.set k c }

theorem set_of_getElem? {α : Type} {xs : List α} {i : Nat} {x : α} (h : xs[i]? = some x) :
    xs.set i x = xs := by
  obtain ⟨hlt, rfl⟩ := List.getElem?_eq_some_iff.1 h
  exact List.set_getElem_self hlt

section Request

variable {l : Ledger} {i job k : Nat} {s : Scope} {a : Account} {c : Breaker}
  (hscope : l.scopes[i]? = some (job, some s)) (hjob : l.jobs[job]? = some (k, a))
  (hbreaker : l.breakers[k]? = some c)

include hscope hjob hbreaker

theorem place_self : l.place i job k s a c = l := by
  rw [place, set_of_getElem? hscope, set_of_getElem? hjob, set_of_getElem? hbreaker]

/-- **A scope asks the budget of its job**, and all that is not this scope, this job or this
breaker stays as it is. -/
theorem apply_add_eq (bytes : Nat) :
    l.apply (.add i bytes) =
      match Budget.request ⟨c, a⟩ s.label bytes with
      | .ok () b => (.ok (), l.place i job k { s with held := s.held + bytes } b.account b.breaker)
      | .error e b => (.error e, l.place i job k s b.account b.breaker) := by
  have hbudget : l.budget? job = some ⟨c, a⟩ := budget?_eq_some.2 ⟨k, hjob, hbreaker⟩
  simp only [apply, onScope, hscope, hbudget, Metered.run, Scope.add_eq_request]
  cases Budget.request ⟨c, a⟩ s.label bytes <;> simp only [setBudget, hjob, place]

/-- **Requests are decided exactly, and wholly**: where a job uses `u` under the quota `q`, on a
breaker that counts `w` under the limit `l`, a request for `b` bytes is granted if and only if
`u + b ≤ q` and `w + b ≤ l`. Granted, it makes scope, account and breaker grow by `b`; refused, it
leaves their bytes alone. The quota is asked first, and only the breaker counts its refusals. The
sums of all three have to be sizes, that of the breaker only if its limit is the greatest one; that
of the scope does not follow from the other two, once a counter cut a sum off. -/
theorem add_decides {bytes : Nat} (hpos : 0 < bytes) (_hheld : s.held + bytes ≤ maxSize)
    (hused : a.used + bytes ≤ maxSize) (hsize : c.used + bytes ≤ maxSize ∨ c.limit < maxSize) :
    let result := (l.apply (.add i bytes)).1
    let after := (l.apply (.add i bytes)).2
    let withinQuota := ∀ quota, a.quota = some quota → a.used + bytes ≤ quota
    let withinLimit := c.used + bytes ≤ c.limit
    (result = .ok () ↔ withinQuota ∧ withinLimit) ∧
      (withinQuota ∧ withinLimit →
        after = l.place i job k { s with held := s.held + bytes }
          { a with used := a.used + bytes, peak := max a.peak (a.used + bytes) }
          { c with used := c.used + bytes, peak := max c.peak (c.used + bytes) }) ∧
      (¬withinQuota →
        (∃ quota, a.quota = some quota ∧
          result = .error (.quotaExceeded a.job s.label bytes quota a.used)) ∧
        after = l) ∧
      (withinQuota ∧ ¬withinLimit →
        result = .error (.circuitBreaking c.name s.label bytes c.limit c.used) ∧
        after = l.place i job k s { a with peak := max a.peak (a.used + bytes) }
          { c with trips := c.trips + 1 }) := by
  intro result after withinQuota withinLimit
  have happly := apply_add_eq hscope hjob hbreaker bytes
  obtain ⟨hover, quota, hq, hrequest⟩ | ⟨hwithin, hover, hrequest⟩ | ⟨hwithin, hunder, hrequest⟩ :=
    Budget.request_sized s.label hpos hused hsize
  · -- the quota refuses
    rw [hrequest] at happly
    have hresult : result = .error (.quotaExceeded a.job s.label bytes quota a.used) :=
      congrArg Prod.fst happly
    have hafter : after = l := (congrArg Prod.snd happly).trans (place_self hscope hjob hbreaker)
    refine ⟨⟨fun h => (nomatch hresult.symm.trans h), fun h => absurd h.1 hover⟩,
      fun h => absurd h.1 hover, fun _ => ⟨⟨quota, hq, hresult⟩, hafter⟩, fun h => absurd h.1 hover⟩
  · -- the breaker refuses
    rw [hrequest] at happly
    have hresult : result = .error (.circuitBreaking c.name s.label bytes c.limit c.used) :=
      congrArg Prod.fst happly
    refine ⟨⟨fun h => (nomatch hresult.symm.trans h), fun h => absurd h.2 hover⟩,
      fun h => absurd h.2 hover, fun h => absurd hwithin h, fun _ => ⟨hresult, ?_⟩⟩
    exact congrArg Prod.snd happly
  · rw [hrequest] at happly
    have hresult : result = .ok () := congrArg Prod.fst happly
    refine ⟨⟨fun _ => ⟨hwithin, hunder⟩, fun _ => hresult⟩, fun _ => ?_,
      fun h => absurd hwithin h, fun h => absurd hunder h.2⟩
    exact congrArg Prod.snd happly

end Request

/-- Two jobs on a breaker, of which the second has a quota, and each has a scope open. -/
def shared (limit : Nat) (quota : Option Nat) (held : Nat) : Ledger :=
  (new [.new "query" limit] [(0, .new ⟨1⟩ none), (0, .new ⟨2⟩ quota)]).run
    [.openScope 0 "sort", .openScope 1 "group", .add 0 held]

/-- Of 100 bytes the first job holds 60, so that the breaker refuses what the quota of the second
would allow. -/
theorem add_decides_shared :
    let l := shared 100 (some 50) 60
    (l.apply (.add 1 45)).1 = .error (.circuitBreaking "query" "group" 45 100 60) ∧
      (l.apply (.add 1 45)).2 = l.place 1 1 0 ⟨"group", 0⟩ ⟨⟨2⟩, some 50, 0, 45⟩
        ⟨"query", 100, 60, 60, 1⟩ := by
  intro l
  have hscope : l.scopes[1]? = some (1, some ⟨"group", 0⟩) := rfl
  have hjob : l.jobs[1]? = some (0, ⟨⟨2⟩, some 50, 0, 0⟩) := rfl
  have hbreaker : l.breakers[0]? = some ⟨"query", 100, 60, 60, 0⟩ := rfl
  have hpos : 0 < 45 := by decide
  have hdecides := add_decides hscope hjob hbreaker hpos (by decide) (by decide) (.inr (by decide))
  exact hdecides.2.2.2 ⟨by simp, by decide⟩

/-- **The greatest size is no limit**: two jobs ask for `2 ^ 63` bytes each. Their sum is beyond
the limit of the breaker, and still the second request is granted; the breaker grows by one byte
less than it granted. -/
theorem add_granted_beyond :
    let l := shared maxSize none (2 ^ 63)
    let after := (l.apply (.add 1 (2 ^ 63))).2
    (l.jobs.map (·.2.used)) = [2 ^ 63, 0] ∧
      (l.breakers.map fun c => (c.limit, c.used)) = [(2 ^ 64 - 1, 2 ^ 63)] ∧
      (∀ c ∈ l.breakers, ¬c.used + 2 ^ 63 ≤ c.limit) ∧
      (l.apply (.add 1 (2 ^ 63))).1 = .ok () ∧
      (after.jobs.map (·.2.used)) = [2 ^ 63, 2 ^ 63] ∧
      (after.breakers.map fun c => (c.used, c.trips)) = [(2 ^ 64 - 1, 0)] :=
  ⟨by decide, by decide, by decide, rfl, by decide, by decide⟩

end Ledger

end RowStream
