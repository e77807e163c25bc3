import Mathlib.Data.List.Infix
import Mathlib.Order.MinMax
import RowStream.Proofs.Memory.Balance

/-!
# Peaks of accounts

An account takes note of its peak before the breaker is asked. What the breaker then refuses leaves
the total as it was, but not the peak: so the peak of a job is the greatest of all that the job had
counted *and* of all that the breaker refused to it. The sums of an account have to be sizes for
that, unless its quota refuses what is none: an account counts at once what it goes on to give back.
The breaker may cut off what it likes.

* `Budget.Turn` — all that one entry can do to the counters of a job, with the outcome that goes with it.
* `Account.Sound`, `Breaker.Sound` — what a turn keeps of either counter.
* `Ledger.AccountsSized` — no account of a run comes to a sum beyond the sizes.
* `Ledger.Turn`, `Ledger.turn_apply` — the same for a ledger, and `Ledger.Tallied`, its invariant.
* `Ledger.totalsDuring`, `Ledger.refusedDuring` — what a job counted, and what the breaker refused to it.
* `Ledger.opening_run_peak` — the peak, from fresh counters.
-/

namespace RowStream

/-! ## One turn of a job

The step, for the counters of one job: what a holder can do to them at all. Requests, bytes that are
given back and texts that grow are turns, and nothing else is needed of them. -/

/-- Whether a request ended with a refusal by the breaker. -/
def tripped : Except MemoryError Unit → Bool
  | .ok () => false
  | .error err => err.isBreaker

namespace Budget

/-- All that an entry can do to the counters of the job of one holder, which holds `held` bytes: it
leaves them alone, the bytes that it asks for are granted, they are refused by the breaker, or the
holder gives bytes back. Whoever is refused by the quota is left alone. -/
inductive Turn (b : Budget) (asked held : Nat) : Except MemoryError Unit → Budget → Nat → Prop
  | rest {r : Except MemoryError Unit} (hr : tripped r = false) : Turn b asked held r b held
  | grant (hadmits : b.account.Admits asked)
      (hlimit : addSizes b.breaker.used asked ≤ b.breaker.limit) :
      Turn b asked held (.ok ()) (b.grow asked) (held + asked)
  | refuse {r : Except MemoryError Unit} (hadmits : b.account.Admits asked) (hr : tripped r = true) :
      Turn b asked held r (b.refuse asked) held
  | giveBack {bytes : Nat} (hbytes : bytes ≤ held) :
      Turn b asked held (.ok ()) (b.giveBack bytes) (held - bytes)

variable {b b' : Budget} {asked held held' : Nat} {r : Except MemoryError Unit}

theorem Turn.same (h : b.Turn asked held r b' held') :
    (b'.account.job, b'.account.quota) = (b.account.job, b.account.quota) ∧
      (b'.breaker.name, b'.breaker.limit) = (b.breaker.name, b.breaker.limit) := by
  cases h <;> exact ⟨rfl, rfl⟩

end Budget

/-- A holder that runs a computation lets its budget take a turn. -/
def Metered.Turns {σ : Type} (held : σ → Nat) (m : Metered MemoryError σ Unit) (s : σ)
    (asked : Nat) : Prop :=
  ∀ b : Budget, b.Turn asked (held s) (m.run (s, b)).1 (m.run (s, b)).2.2
    (held (m.run (s, b)).2.1)

namespace Scope

theorem turns_add (s : Scope) (bytes : Nat) : (add bytes).Turns held s bytes := by
  intro b
  unfold Metered.run
  rw [add_eq_request]
  obtain ⟨rfl, hreq⟩ | ⟨-, -, quota, -, hreq⟩ | ⟨-, hadmits, -, hreq⟩ | ⟨-, hadmits, hlimit, hreq⟩ :=
    b.request_cases s.label bytes <;> rw [hreq]
  · exact .rest rfl
  · exact .rest rfl
  · exact .refuse hadmits rfl
  · exact .grant hadmits hlimit

theorem turns_sub (s : Scope) (bytes asked : Nat) :
    (Metered.update fun (s : Scope) b => s.sub bytes b).Turns held s asked :=
  fun _ => .giveBack (Nat.min_le_right bytes s.held)

theorem turns_release (s : Scope) (asked : Nat) : (Metered.update release).Turns held s asked :=
  s.turns_sub s.held asked

end Scope

namespace Scratch

/-- Growing and then changing the text, as both ways to append do. -/
theorem turns_reserve_modify (s : Scratch) (additional : Nat) (f : Scratch → Scratch)
    (hf : ∀ s : Scratch, (f s).scope = s.scope) :
    (reserve additional >>= fun _ => Metered.modifyState f).Turns held s (s.missing additional) := by
  intro b
  have hadd := s.scope.turns_add (s.missing additional) b
  have hreserve := s.reserve_eq additional b
  unfold Metered.run at hadd ⊢
  rcases hscope : Scope.add (s.missing additional) (s.scope, b) with ⟨⟨⟩, scope, b'⟩ | ⟨e, scope, b'⟩
  · rw [hscope] at hadd hreserve
    rw [Metered.bind_of_ok hreserve]
    show b.Turn _ s.scope.held (.ok ()) b' (f { s with scope }).scope.held
    rw [hf]
    exact hadd
  · rw [hscope] at hadd hreserve
    rw [Metered.bind_of_error hreserve]
    exact hadd

theorem turns_push (s : Scratch) (text : String) :
    (push text).Turns held s (s.missing text.utf8ByteSize) :=
  s.turns_reserve_modify _ _ fun _ => rfl

theorem turns_pushChar (s : Scratch) (c : Char) : (pushChar c).Turns held s (s.missing c.utf8Size) :=
  s.turns_reserve_modify _ _ fun _ => rfl

theorem turns_clear (s : Scratch) (asked : Nat) : (Metered.modifyState clear).Turns held s asked :=
  fun _ => .rest rfl

theorem turns_release (s : Scratch) (asked : Nat) : (Metered.update release).Turns held s asked :=
  s.scope.turns_release asked

end Scratch

/-! ## What a turn keeps

An account counts exactly what its job holds, as long as its sums are sizes. A breaker asks for less: if
its limit is less than the greatest size, a sum that was cut off is one that it refuses. -/

namespace Account

/-- The account does not come to a sum beyond the sizes: so many more bytes make a size, or a quota
refuses what is none. -/
def HasRoomFor (a : Account) (bytes : Nat) : Prop :=
  a.used + bytes ≤ maxSize ∨ ∃ q ∈ a.quota, q < maxSize

instance (a : Account) (bytes : Nat) : Decidable (a.HasRoomFor bytes) :=
  inferInstanceAs (Decidable (_ ∨ _))

/-- A sum that the quota lets pass is a size then, and it is the sum. -/
theorem HasRoomFor.of_admits {a : Account} {bytes : Nat} (h : a.HasRoomFor bytes)
    (hadmits : a.Admits bytes) :
    a.next bytes = a.used + bytes ∧ a.used + bytes ≤ maxSize := by
  obtain hsize | ⟨q, hq, hlow⟩ := h
  · exact ⟨next_eq hsize, hsize⟩
  · -- what the quota lets pass is below the greatest size, so it was not cut off
    have hle := hadmits q hq
    rw [next, hq, Option.isSome_some, if_pos rfl] at hle ⊢
    unfold addSizes at hle ⊢
    omega

/-- The total is what is held, and the peak is a size that is not below it. -/
structure Sound (a : Account) (held : Nat) : Prop where
  exact : a.used = held
  used_le_peak : a.used ≤ a.peak
  size : a.peak ≤ maxSize

theorem Sound.grow {a : Account} {held bytes : Nat} (h : a.Sound held) (hroom : a.HasRoomFor bytes)
    (hadmits : a.Admits bytes) : (a.grow bytes).Sound (held + bytes) := by
  obtain ⟨hnext, hsize⟩ := hroom.of_admits hadmits
  have hheld := h.exact
  refine ⟨?_, Nat.le_max_right _ _, ?_⟩
  · show a.next bytes = held + bytes
    omega
  · show max a.peak (a.next bytes) ≤ maxSize
    exact Nat.max_le.2 ⟨h.size, hnext ▸ hsize⟩

/-- Bytes that were counted and given back at once leave a peak and nothing else. -/
theorem release_grow {a : Account} {bytes : Nat} (hroom : a.HasRoomFor bytes)
    (hadmits : a.Admits bytes) :
    (a.grow bytes).release bytes = { a with peak := max a.peak (a.used + bytes) } := by
  have hnext := (hroom.of_admits hadmits).1
  simp [Account.release, Account.grow, hnext, subSizes]

theorem Sound.refuse {a : Account} {held bytes : Nat} (h : a.Sound held) (hroom : a.HasRoomFor bytes)
    (hadmits : a.Admits bytes) : ((a.grow bytes).release bytes).Sound held := by
  rw [release_grow hroom hadmits]
  exact ⟨h.exact, Nat.le_trans h.used_le_peak (Nat.le_max_left _ _),
    Nat.max_le.2 ⟨h.size, (hroom.of_admits hadmits).2⟩⟩

theorem Sound.release {a : Account} {held bytes : Nat} (h : a.Sound held) (hbytes : bytes ≤ held) :
    (a.release bytes).Sound (held - bytes) := by
  have hheld := h.exact
  have hused : (a.release bytes).used = held - bytes := by
    show subSizes a.used bytes = held - bytes
    rw [subSizes_of_le (by omega), hheld]
  have hpeak := h.used_le_peak
  refine ⟨hused, ?_, h.size⟩
  show (a.release bytes).used ≤ a.peak
  omega

end Account

/-- Below the greatest size, a breaker counts what is held, and no more than its limit. -/
def Breaker.Sound (c : Breaker) (held : Nat) : Prop :=
  c.limit < maxSize → c.used = held ∧ c.used ≤ c.limit

namespace Budget

variable {b b' : Budget} {asked held held' : Nat} {r : Except MemoryError Unit}

/-- Beside the holder of the turn, the rest of what is counted stays held. -/
theorem exists_rest {before after : Nat} (hle : held ≤ before)
    (hsum : after + held = before + held') :
    ∃ rest, before = rest + held ∧ after = rest + held' :=
  ⟨before - held, by omega, by omega⟩

variable {before after : Nat}

theorem Turn.account_sound (h : b.Turn asked held r b' held') (hroom : b.account.HasRoomFor asked)
    (hle : held ≤ before) (hsum : after + held = before + held') (hs : b.account.Sound before) :
    b'.account.Sound after := by
  obtain ⟨rest, rfl, rfl⟩ := exists_rest hle hsum
  cases h with
  | rest => exact hs
  | grant hadmits =>
    rw [← Nat.add_assoc]
    exact hs.grow hroom hadmits
  | refuse hadmits => exact hs.refuse hroom hadmits
  | giveBack hbytes =>
    rw [← Nat.add_sub_assoc hbytes]
    exact hs.release (by omega)

theorem Turn.breaker_sound (h : b.Turn asked held r b' held') (hle : held ≤ before)
    (hsum : after + held = before + held') (hs : b.breaker.Sound before) :
    b'.breaker.Sound after := by
  obtain ⟨rest, rfl, rfl⟩ := exists_rest hle hsum
  intro hlow
  cases h with
  | rest => exact hs hlow
  | grant _ hlimit =>
    obtain ⟨hused, -⟩ := hs hlow
    change b.breaker.limit < maxSize at hlow
    refine ⟨?_, hlimit⟩
    -- the sum is below the greatest size, so it was not cut off
    show addSizes b.breaker.used asked = rest + (held + asked)
    unfold addSizes at hlimit ⊢
    omega
  | refuse => exact hs hlow
  | @giveBack bytes hbytes =>
    obtain ⟨hused, hle⟩ := hs hlow
    show subSizes b.breaker.used bytes = _ ∧ subSizes b.breaker.used bytes ≤ b.breaker.limit
    rw [subSizes_of_le (by omega)]
    omega

/-- The peak of the account takes note of what the breaker refuses, and else of what is counted. -/
theorem Turn.peak (h : b.Turn asked held r b' held') (hroom : b.account.HasRoomFor asked)
    (hle : held ≤ before) (hs : b.account.Sound before) :
    b'.account.peak = max b.account.peak
      (if tripped r then b.account.used + asked else b'.account.used) := by
  have hsum : before - held + held' + held = before + held' := by omega
  have hused := (h.account_sound hroom hle hsum hs).used_le_peak
  cases h with
  | rest hr =>
    rw [hr]
    exact (Nat.max_eq_left hused).symm
  | grant => rfl
  | refuse hadmits hr =>
    rw [hr]
    show max b.account.peak (b.account.next asked) = _
    rw [(hroom.of_admits hadmits).1]
    rfl
  | giveBack => exact (Nat.max_eq_left hused).symm

end Budget

namespace Ledger

/-! ## One entry

The step of a ledger: an entry is a turn of one job, and all other accounts and holders stay as they
are. From this the invariant follows for the account of the job, for its breaker and for everybody
else. -/

/-- The holder that an entry is about. -/
def Entry.holder? : Entry → Option Holder
  | .add i _ | .sub i _ | .releaseScope i | .dropScope i => some (.scope i)
  | .push i _ | .pushChar i _ | .clear i | .releaseBuffer i | .dropBuffer i => some (.buffer i)
  | .openScope .. | .openBuffer .. => none

/-- The job that an entry is about. -/
def subject? (l : Ledger) (e : Entry) : Option Nat := e.holder?.bind l.jobOf?

/-- The account that an entry asks has room for what is asked for. -/
def AccountHasRoom (l : Ledger) (e : Entry) : Prop :=
  ∀ j ∈ (l.subject? e).bind (l.jobs[·]?), j.2.HasRoomFor (l.asked e)

instance (l : Ledger) (e : Entry) : Decidable (l.AccountHasRoom e) :=
  inferInstanceAs (Decidable (∀ j ∈ (_ : Option (Nat × Account)), j.2.HasRoomFor _))

theorem AccountHasRoom.hasRoomFor {l : Ledger} {e : Entry} (h : l.AccountHasRoom e) {job i : Nat}
    {a : Account} (hsubject : l.subject? e = some job) (hjob : l.jobs[job]? = some (i, a)) :
    a.HasRoomFor (l.asked e) :=
  h (i, a) (by rw [hsubject]; exact hjob)

/-- All that an entry does, with its outcome: it changes no counter and nothing that is held, or the
job that it is about takes a turn with one of its holders. -/
inductive Turn (l : Ledger) (e : Entry) : Except MemoryError Unit → Ledger → Prop
  | rest {r : Except MemoryError Unit} {l' : Ledger}
      (hr : tripped r = false) (hjobs : l'.jobs = l.jobs) (hbreakers : l'.breakers = l.breakers)
      (hheld : ∀ p, l'.heldWhere p = l.heldWhere p) : Turn l e r l'
  | turn {r : Except MemoryError Unit} {l' : Ledger} {job i held held' : Nat} {b b' : Budget}
      (hsubject : l.subject? e = some job) (hjob : l.jobs[job]? = some (i, b.account))
      (hbreaker : l.breakers[i]? = some b.breaker) (hcovered : held ≤ l.heldBy job)
      (hturn : b.Turn (l.asked e) held r b' held')
      (hjobs : l'.jobs = l.jobs.set job (i, b'.account))
      (hbreakers : l'.breakers = l.breakers.set i b'.breaker)
      (hheld : ∀ p, l'.heldWhere p + (if p job then held else 0) =
        l.heldWhere p + (if p job then held' else 0)) : Turn l e r l'

theorem Turn.settings_eq {l l' : Ledger} {e : Entry} {r : Except MemoryError Unit}
    (h : l.Turn e r l') : l'.settings = l.settings := by
  cases h with
  | rest _ hjobs hbreakers => rw [settings, settings, hjobs, hbreakers]
  | turn _ hjob hbreaker _ hturn hjobs hbreakers =>
    obtain ⟨haccount, hcount⟩ := hturn.same
    rw [settings, settings, hjobs, hbreakers]
    refine Prod.ext (map_set_same _ hbreaker hcount) (map_set_same _ hjob ?_)
    simp only [Prod.mk.injEq] at haccount ⊢
    exact ⟨trivial, haccount⟩

/-- A turn stays one if nothing that is counted or held changes after it. -/
theorem Turn.andRest {l l' l'' : Ledger} {e : Entry} {r : Except MemoryError Unit}
    (h : l.Turn e r l') (hjobs : l''.jobs = l'.jobs) (hbreakers : l''.breakers = l'.breakers)
    (hheld : ∀ p, l''.heldWhere p = l'.heldWhere p) : l.Turn e r l'' := by
  cases h with
  | rest hr hjobs' hbreakers' hheld' =>
    exact .rest hr (hjobs.trans hjobs') (hbreakers.trans hbreakers') fun p =>
      (hheld p).trans (hheld' p)
  | turn hsubject hjob hbreaker hcovered hturn hjobs' hbreakers' hheld' =>
    refine .turn hsubject hjob hbreaker hcovered hturn (hjobs.trans hjobs')
      (hbreakers.trans hbreakers') fun p => ?_
    rw [hheld]
    exact hheld' p

/-- Updates are never refused. -/
theorem onScope_update (l : Ledger) (i : Nat) (f : Scope → Budget → Scope × Budget) :
    (l.onScope i (Metered.update f)).1 = .ok () := by
  unfold onScope
  split
  · split <;> rfl
  · rfl

theorem onBuffer_update (l : Ledger) (i : Nat) (f : Scratch → Budget → Scratch × Budget) :
    (l.onBuffer i (Metered.update f)).1 = .ok () := by
  unfold onBuffer
  split
  · split <;> rfl
  · rfl

theorem turn_onScope (l : Ledger) {e : Entry} {i : Nat} (he : e.holder? = some (.scope i))
    {m : Metered MemoryError Scope Unit}
    (hm : ∀ s, l.scope? i = some s → m.Turns Scope.held s (l.asked e)) :
    l.Turn e (l.onScope i m).1 (l.onScope i m).2 := by
  unfold onScope
  split
  · next job s hplace =>
    have hs : l.scope? i = some s := by
      rw [scope?, hplace]
      rfl
    have hsubject : l.subject? e = some job := by simp [subject?, he, jobOf?, hplace]
    split
    · next b hb =>
      obtain ⟨k, hjob, hbreaker⟩ := budget?_eq_some.1 hb
      refine .turn hsubject hjob hbreaker (held_le_heldBy_of_scope hplace) (hm s hs b) ?_ ?_ ?_
      · simp [setBudget, hjob]
      · simp [setBudget, hjob]
      · exact heldWhere_setScope _ (some _) hplace rfl (l.setBudget_buffers _ _)
    · exact .rest rfl rfl rfl fun _ => rfl
  · exact .rest rfl rfl rfl fun _ => rfl

theorem turn_onBuffer (l : Ledger) {e : Entry} {i : Nat} (he : e.holder? = some (.buffer i))
    {m : Metered MemoryError Scratch Unit}
    (hm : ∀ s, l.buffer? i = some s → m.Turns Scratch.held s (l.asked e)) :
    l.Turn e (l.onBuffer i m).1 (l.onBuffer i m).2 := by
  unfold onBuffer
  split
  · next job s hplace =>
    have hs : l.buffer? i = some s := by
      rw [buffer?, hplace]
      rfl
    have hsubject : l.subject? e = some job := by simp [subject?, he, jobOf?, hplace]
    split
    · next b hb =>
      obtain ⟨k, hjob, hbreaker⟩ := budget?_eq_some.1 hb
      refine .turn hsubject hjob hbreaker (held_le_heldBy_of_buffer hplace) (hm s hs b) ?_ ?_ ?_
      · simp [setBudget, hjob]
      · simp [setBudget, hjob]
      · exact heldWhere_setBuffer _ (some _) hplace rfl (l.setBudget_scopes _ _)
    · exact .rest rfl rfl rfl fun _ => rfl
  · exact .rest rfl rfl rfl fun _ => rfl

/-- **What is counted, entry by entry.** Every account is sound for what its job holds, and every
breaker for what is held on it. -/
structure Tallied (l : Ledger) : Prop where
  account : ∀ (job i : Nat) (a : Account), l.jobs[job]? = some (i, a) → a.Sound (l.heldBy job)
  breaker : ∀ (i : Nat) (c : Breaker), l.breakers[i]? = some c → c.Sound (l.heldOn i)
  /-- A job that no counters are there for holds nothing. -/
  adrift : ∀ job, l.budget? job = none → l.heldBy job = 0

/-- **Every entry is a turn.** -/
theorem turn_apply {l : Ledger} (hl : l.Tallied) (e : Entry) :
    l.Turn e (l.apply e).1 (l.apply e).2 := by
  cases e with
  | openScope job label =>
    refine .rest rfl rfl rfl fun p => ?_
    show heldIn _ p (l.scopes ++ [(job, some (.new label))]) + heldIn _ p l.buffers = l.heldWhere p
    rw [heldIn_concat]
    simp [heldAt, heldWhere, Scope.new]
  | add i bytes => exact l.turn_onScope rfl fun s _ => s.turns_add bytes
  | sub i bytes => exact l.turn_onScope rfl fun s _ => s.turns_sub bytes _
  | releaseScope i => exact l.turn_onScope rfl fun s _ => s.turns_release _
  | dropScope i =>
    -- a holder that is dropped gives everything back first, which is never refused
    have hturn : l.Turn (.dropScope i) (.ok ()) (l.onScope i (Metered.update Scope.release)).2 := by
      rw [← l.onScope_update i Scope.release]
      exact l.turn_onScope rfl fun s _ => s.turns_release _
    have hforget := forgetScope_counters (l.onScope i (Metered.update Scope.release)).2 i
    exact hturn.andRest hforget.1 hforget.2 (heldWhere_forgetScope (bytesOf_releaseScope hl.adrift i))
  | openBuffer job label =>
    refine .rest rfl rfl rfl fun p => ?_
    show heldIn _ p l.scopes + heldIn _ p (l.buffers ++ [(job, some (.new label))]) = l.heldWhere p
    rw [heldIn_concat]
    simp [heldAt, heldWhere, Scratch.new, Scratch.held, Scope.new]
  | push i text =>
    refine l.turn_onBuffer rfl fun s hs => ?_
    rw [asked, hs]
    exact s.turns_push text
  | pushChar i c =>
    refine l.turn_onBuffer rfl fun s hs => ?_
    rw [asked, hs]
    exact s.turns_pushChar c
  | clear i => exact l.turn_onBuffer rfl fun s _ => s.turns_clear _
  | releaseBuffer i => exact l.turn_onBuffer rfl fun s _ => s.turns_release _
  | dropBuffer i =>
    have hturn : l.Turn (.dropBuffer i) (.ok ())
        (l.onBuffer i (Metered.update Scratch.release)).2 := by
      rw [← l.onBuffer_update i Scratch.release]
      exact l.turn_onBuffer rfl fun s _ => s.turns_release _
    have hforget := forgetBuffer_counters (l.onBuffer i (Metered.update Scratch.release)).2 i
    exact hturn.andRest hforget.1 hforget.2
      (heldWhere_forgetBuffer (bytesOf_releaseBuffer hl.adrift i))

theorem Turn.tallied {l l' : Ledger} {e : Entry} {r : Except MemoryError Unit}
    (h : l.Turn e r l') (hroom : l.AccountHasRoom e) (hl : l.Tallied) : l'.Tallied := by
  have hsettings := h.settings_eq
  cases h with
  | rest _ hjobs hbreakers hheld =>
    have hon := heldOn_congr hsettings hheld
    have hby : ∀ job, l'.heldBy job = l.heldBy job := fun _ => hheld _
    constructor
    case account => simpa only [hjobs, hby] using hl.account
    case breaker => simpa only [hbreakers, hon] using hl.breaker
    case adrift =>
      intro job hjob
      rw [hby]
      exact hl.adrift job ((budget?_eq_none_congr hsettings).1 hjob)
  | @turn job k held held' b b' hsubject hjob hbreaker hcovered hturn hjobs hbreakers hheld =>
    constructor
    case account =>
      rw [hjobs]
      refine fun job' i a => forall_getElem?_set (P := fun job' j => j.2.Sound (l'.heldBy job'))
        ?_ (fun job' j hne hj => ?_) job' (i, a)
      · exact hturn.account_sound (hroom.hasRoomFor hsubject hjob) hcovered (heldBy_own hheld)
          (hl.account job k _ hjob)
      · rw [heldBy_other hheld hne]
        exact hl.account job' j.1 j.2 hj
    case breaker =>
      rw [hbreakers]
      refine forall_getElem?_set ?_ fun i c hne hc => ?_
      · have hle : held ≤ l.heldOn k := Nat.le_trans hcovered (heldBy_le_heldOn hjob)
        exact hturn.breaker_sound hle (heldOn_own hheld hsettings hjob) (hl.breaker k _ hbreaker)
      · rw [heldOn_other hheld hsettings hjob hne]
        exact hl.breaker i c hc
    case adrift =>
      exact fun job' => adrift_other hheld hsettings hjob
        (List.getElem?_eq_some_iff.1 hbreaker).1 hl.adrift

/-- **The peak of an account, entry by entry.** It takes note of the total after the entry, or of the
sum that the breaker has just refused to this very job. -/
theorem Turn.peak {l l' : Ledger} {e : Entry} {r : Except MemoryError Unit} (h : l.Turn e r l')
    (hroom : l.AccountHasRoom e) (hl : l.Tallied) {job i : Nat} {a' : Account}
    (ha' : l'.jobs[job]? = some (i, a')) :
    ∃ a, l.jobs[job]? = some (i, a) ∧
      a'.peak = max a.peak
        (if tripped r ∧ l.subject? e = some job then a.used + l.asked e else a'.used) := by
  -- an account that is left alone has a peak that is not below its total
  have hstill : l.jobs[job]? = some (i, a') → a'.peak = max a'.peak a'.used := fun ha =>
    (Nat.max_eq_left (hl.account job i a' ha).used_le_peak).symm
  cases h with
  | rest hr hjobs =>
    rw [hjobs] at ha'
    refine ⟨a', ha', ?_⟩
    rw [if_neg (by simp [hr])]
    exact hstill ha'
  | @turn job₀ k held held' b b' hsubject hjob _ hcovered hturn hjobs =>
    rw [hjobs] at ha'
    obtain ⟨rfl, hput⟩ | ⟨hne, ha'⟩ := getElem?_set_eq_some ha'
    · cases hput
      have hpeak := hturn.peak (hroom.hasRoomFor hsubject hjob) hcovered (hl.account job _ _ hjob)
      exact ⟨b.account, hjob, by simpa [hsubject] using hpeak⟩
    · refine ⟨a', ha', ?_⟩
      rw [if_neg (by simp [hsubject, Ne.symm hne])]
      exact hstill ha'

/-- Whoever is refused by the quota is left alone, and so is everybody else. What the breaker refuses is
counted by the account and given back. -/
theorem Turn.of_error {l l' : Ledger} {e : Entry} {err : MemoryError}
    (h : l.Turn e (.error err) l') :
    (err.isBreaker = false → l'.jobs = l.jobs) ∧
      (err.isBreaker = true → l.AccountHasRoom e → ∀ (job i : Nat) (a : Account),
        l.subject? e = some job → l.jobs[job]? = some (i, a) →
        l'.jobs = l.jobs.set job (i, { a with peak := max a.peak (a.used + l.asked e) })) := by
  cases h with
  | rest hr hjobs => exact ⟨fun _ => hjobs, fun herr => absurd (hr.symm.trans herr) (by simp)⟩
  | turn hsubject hjob _ _ hturn hjobs =>
    cases hturn with
    | rest hr =>
      obtain ⟨hlt, hold⟩ := List.getElem?_eq_some_iff.1 hjob
      refine ⟨fun _ => ?_, fun herr => absurd (hr.symm.trans herr) (by simp)⟩
      rw [hjobs, ← hold, List.set_getElem_self]
    | refuse hadmits hr =>
      refine ⟨fun herr => absurd (hr.symm.trans herr) (by simp),
        fun _ hroom job i a hsubject' ha => ?_⟩
      obtain rfl := Option.some.inj (hsubject.symm.trans hsubject')
      cases hjob.symm.trans ha
      rw [hjobs, Budget.refuse, Account.release_grow (hroom.hasRoomFor hsubject hjob) hadmits]

/-! ## Runs

Induction on the entries. The peak is the greatest of two sets that grow by one number with an
entry: the total after it, or the sum that was refused. -/

/-- At no entry of a run does an account come to a sum beyond the sizes. -/
def AccountsSized (l : Ledger) : List Entry → Prop
  | [] => True
  | e :: entries => l.AccountHasRoom e ∧ (l.apply e).2.AccountsSized entries

instance decidableAccountsSized :
    (l : Ledger) → (entries : List Entry) → Decidable (l.AccountsSized entries)
  | _, [] => inferInstanceAs (Decidable True)
  | l, e :: entries =>
    let _ := decidableAccountsSized (l.apply e).2 entries
    inferInstanceAs (Decidable (l.AccountHasRoom e ∧ (l.apply e).2.AccountsSized entries))

theorem accountsSized_append {l : Ledger} {entries more : List Entry} :
    l.AccountsSized (entries ++ more) ↔
      l.AccountsSized entries ∧ (l.run entries).AccountsSized more := by
  induction entries generalizing l with
  | nil => simp [AccountsSized, run]
  | cons e entries ih =>
    show _ ∧ (l.apply e).2.AccountsSized (entries ++ more) ↔ (_ ∧ _) ∧ _
    rw [ih, and_assoc]
    rfl

theorem AccountsSized.of_prefix {l : Ledger} {before entries : List Entry}
    (h : l.AccountsSized entries) (hbefore : before <+: entries) : l.AccountsSized before := by
  obtain ⟨more, rfl⟩ := hbefore
  exact (accountsSized_append.1 h).1

theorem Tallied.run {l : Ledger} (hl : l.Tallied) {entries : List Entry}
    (h : l.AccountsSized entries) : (l.run entries).Tallied := by
  induction entries generalizing l with
  | nil => exact hl
  | cons e entries ih => exact ih ((turn_apply hl e).tallied h.1 hl) h.2

theorem Tallied.settings_run {l : Ledger} (hl : l.Tallied) {entries : List Entry}
    (h : l.AccountsSized entries) : (l.run entries).settings = l.settings := by
  induction entries generalizing l with
  | nil => rfl
  | cons e entries ih =>
    have hturn := turn_apply hl e
    rw [← hturn.settings_eq]
    exact ih (hturn.tallied h.1 hl) h.2

/-- The totals that a job counted, at the start of a run and after each entry. -/
def totalsDuring (l : Ledger) (entries : List Entry) (job : Nat) : Set Nat :=
  {total | ∃ before, before <+: entries ∧
    (l.run before).jobs[job]?.map (·.2.used) = some total}

/-- The sums that a job would have come to by requests that its breaker refused. -/
def refusedDuring (l : Ledger) (entries : List Entry) (job : Nat) : Set Nat :=
  {sum | ∃ before e, before ++ [e] <+: entries ∧ tripped ((l.run before).apply e).1 = true ∧
    (l.run before).subject? e = some job ∧
    (l.run before).jobs[job]?.map (·.2.used + (l.run before).asked e) = some sum}

theorem refusedDuring_mono {l : Ledger} {before entries : List Entry} (h : before <+: entries)
    (job : Nat) : l.refusedDuring before job ⊆ l.refusedDuring entries job := by
  rintro sum ⟨earlier, e, hearlier, hrest⟩
  exact ⟨earlier, e, hearlier.trans h, hrest⟩

/-- One more entry, one more total. -/
theorem mem_totalsDuring_concat {l : Ledger} {entries : List Entry} {e : Entry} {job total : Nat} :
    total ∈ l.totalsDuring (entries ++ [e]) job ↔
      (l.run (entries ++ [e])).jobs[job]?.map (·.2.used) = some total ∨
        total ∈ l.totalsDuring entries job := exists_prefix_concat

/-- One more entry, which may be refused. -/
theorem mem_refusedDuring_concat {l : Ledger} {entries : List Entry} {e : Entry} {job sum : Nat} :
    sum ∈ l.refusedDuring (entries ++ [e]) job ↔
      (tripped ((l.run entries).apply e).1 = true ∧ (l.run entries).subject? e = some job ∧
        (l.run entries).jobs[job]?.map (·.2.used + (l.run entries).asked e) = some sum) ∨
        sum ∈ l.refusedDuring entries job := by
  constructor
  · rintro ⟨before, e', hbefore, hrefused⟩
    obtain hsame | hbefore := List.prefix_concat_iff.1 hbefore
    · obtain ⟨rfl, he⟩ := List.append_inj' hsame rfl
      obtain rfl := List.singleton_inj.1 he
      exact .inl hrefused
    · exact .inr ⟨before, e', hbefore, hrefused⟩
  · rintro (hrefused | hearlier)
    · exact ⟨entries, e, List.prefix_rfl, hrefused⟩
    · exact refusedDuring_mono (List.prefix_append _ _) job hearlier

/-- Before the first entry there is one total, and nothing was refused. -/
theorem totalsDuring_nil {l : Ledger} {job i : Nat} {a : Account}
    (ha : (l.run []).jobs[job]? = some (i, a)) : l.totalsDuring [] job = {a.used} := by
  ext total
  constructor
  · rintro ⟨before, hbefore, htotal⟩
    rw [List.prefix_nil.1 hbefore, ha] at htotal
    exact (Option.some.inj htotal).symm
  · rintro rfl
    exact ⟨[], List.prefix_rfl, by rw [ha]; rfl⟩

theorem refusedDuring_nil (l : Ledger) (job : Nat) : l.refusedDuring [] job = ∅ := by
  refine Set.eq_empty_of_forall_notMem ?_
  rintro sum ⟨before, e, hbefore, -⟩
  exact absurd (List.prefix_nil.1 hbefore) (by simp)

/-- **The peak is the greatest of all that was counted and of all that the breaker refused.** -/
theorem isGreatest_accountPeak {l : Ledger} (hl : l.Tallied)
    (hfresh : ∀ j ∈ l.jobs, j.2.peak = j.2.used) {entries : List Entry}
    (h : l.AccountsSized entries) {job i : Nat} {a : Account}
    (ha : (l.run entries).jobs[job]? = some (i, a)) :
    IsGreatest (l.totalsDuring entries job ∪ l.refusedDuring entries job) a.peak := by
  -- induction on the entries, the last one off: it adds one number to one of the sets
  induction entries using List.reverseRecOn generalizing a with
  | nil =>
    have hstart : a.peak = a.used := hfresh _ (List.mem_of_getElem? ha)
    rw [totalsDuring_nil ha, refusedDuring_nil, Set.union_empty, hstart]
    exact isGreatest_singleton
  | append_singleton entries e ih =>
    have hlast := ha
    rw [run_concat] at hlast
    obtain ⟨hsized, hroom, -⟩ := accountsSized_append.1 h
    have hl' := hl.run hsized
    have hturn := turn_apply hl' e
    obtain ⟨a₀, ha₀, hpeak⟩ := hturn.peak hroom hl' hlast
    obtain ⟨hmem, hupper⟩ := ih hsized ha₀
    have hused := ((hturn.tallied hroom hl').account job i a hlast).used_le_peak
    have hle : a₀.peak ≤ a.peak := by omega
    constructor
    · -- the peak is an earlier one, or the sum that was just refused, or the present total
      obtain hmax | hmax := max_choice a₀.peak (if tripped ((l.run entries).apply e).1 ∧
          (l.run entries).subject? e = some job then a₀.used + (l.run entries).asked e else a.used)
      · rw [hpeak, hmax]
        exact hmem.imp (mem_totalsDuring_concat.2 <| .inr ·) (mem_refusedDuring_concat.2 <| .inr ·)
      · rw [hpeak, hmax]
        split
        · next hrefused =>
          exact .inr (mem_refusedDuring_concat.2 <| .inl ⟨hrefused.1, hrefused.2, by rw [ha₀]; rfl⟩)
        · exact .inl (mem_totalsDuring_concat.2 <| .inl <| by rw [ha]; rfl)
    · -- nothing in either set is greater: the new number is not, and the others were not before
      rintro n (htotal | hrefused)
      · obtain hn | hearlier := mem_totalsDuring_concat.1 htotal
        · rw [ha] at hn
          cases hn
          exact hused
        · exact Nat.le_trans (hupper (.inl hearlier)) hle
      · obtain ⟨htripped, hsubject, hn⟩ | hearlier := mem_refusedDuring_concat.1 hrefused
        · rw [ha₀] at hn
          cases hn
          rw [if_pos ⟨htripped, hsubject⟩] at hpeak
          exact hpeak ▸ Nat.le_max_right _ _
        · exact Nat.le_trans (hupper (.inr hearlier)) hle

/-- The breaker of a job is a setting. -/
theorem job_of_settings {l l' : Ledger} (h : l'.settings = l.settings) {job i i' : Nat}
    {a a' : Account} (ha : l.jobs[job]? = some (i, a)) (ha' : l'.jobs[job]? = some (i', a')) :
    i' = i := by
  have hjobs := congrArg (fun s => s.2[job]?) h
  simp only [settings, List.getElem?_map, ha, ha', Option.map_some, Option.some.injEq,
    Prod.mk.injEq] at hjobs
  exact hjobs.1

/-- The limit of a breaker is one. -/
theorem breaker_of_settings {l l' : Ledger} (h : l'.settings = l.settings) {i : Nat} {c : Breaker}
    (hc : l.breakers[i]? = some c) : ∃ c', l'.breakers[i]? = some c' ∧ c'.limit = c.limit := by
  have hbreakers := congrArg (fun s => s.1[i]?) h
  simp only [settings, List.getElem?_map, hc, Option.map_some, Option.map_eq_some_iff] at hbreakers
  obtain ⟨c', hc', hsame⟩ := hbreakers
  exact ⟨c', hc', (Prod.mk.inj hsame).2⟩

/-- The total of a job is within the limit of its breaker, whatever was asked for before. -/
theorem Tallied.used_le_limit {l : Ledger} (hl : l.Tallied) {job i : Nat} {a : Account} {c : Breaker}
    (ha : l.jobs[job]? = some (i, a)) (hc : l.breakers[i]? = some c) : a.used ≤ c.limit := by
  have hsound := hl.account job i a ha
  by_cases hlow : c.limit < maxSize
  · have hheld := hsound.exact
    obtain ⟨hcount, hle⟩ := hl.breaker i c hc hlow
    have hon := heldBy_le_heldOn ha
    omega
  · -- a total is a size, which is all that such a limit asks for
    exact Nat.le_trans hsound.used_le_peak (Nat.le_trans hsound.size (Nat.le_of_not_lt hlow))

/-- All totals of a run are. -/
theorem totalsDuring_le_limit {l : Ledger} (hl : l.Tallied) {entries : List Entry}
    (h : l.AccountsSized entries) {job i : Nat} {a : Account} {c : Breaker}
    (ha : (l.run entries).jobs[job]? = some (i, a)) (hc : (l.run entries).breakers[i]? = some c) :
    ∀ total ∈ l.totalsDuring entries job, total ≤ c.limit := by
  rintro total ⟨before, hbefore, htotal⟩
  obtain ⟨⟨i₀, a₀⟩, ha₀, rfl⟩ := Option.map_eq_some_iff.1 htotal
  -- the job and its breaker have had these settings all along
  have hsized := h.of_prefix hbefore
  have hsettings := (hl.settings_run hsized).trans (hl.settings_run h).symm
  obtain rfl := job_of_settings hsettings ha ha₀
  obtain ⟨c₀, hc₀, hlimit⟩ := breaker_of_settings hsettings hc
  rw [← hlimit]
  exact (hl.run hsized).used_le_limit ha₀ hc₀

/-! ## From fresh counters

A fresh account has a peak that is its total, so that the greatest of all totals is the peak from
the start. -/

theorem tallied_opening (breakers : List (String × Nat)) (jobs : List (Nat × JobId × Option Nat)) :
    (opening breakers jobs).Tallied where
  account job i a ha := by
    obtain ⟨j, -, hj⟩ := List.mem_map.1 (List.mem_of_getElem? ha)
    cases hj
    exact ⟨rfl, Nat.le_refl _, Nat.zero_le _⟩
  breaker i c hc := by
    obtain ⟨j, -, rfl⟩ := List.mem_map.1 (List.mem_of_getElem? hc)
    exact fun _ => ⟨rfl, Nat.zero_le _⟩
  adrift _ _ := rfl

/-- **What the peak of a job is.** However the entries of any number of jobs and holders follow each
other, if no account comes to a sum beyond the sizes: the total is what the job holds, and the peak is
the greatest of the totals that the job counted and of the sums that the breaker refused to it. If the
breaker refused nothing to the job, it is the greatest total alone; and the totals, though not what was
refused, are within the limit of the breaker. A request that the quota refuses leaves every account as
it was; one that the breaker refuses changes nothing but the peak. -/
theorem opening_run_peak (breakers : List (String × Nat)) (jobs : List (Nat × JobId × Option Nat))
    (entries : List Entry) (hsized : (opening breakers jobs).AccountsSized entries) :
    let start := opening breakers jobs
    let l := start.run entries
    ∀ (job i : Nat) (a : Account), l.jobs[job]? = some (i, a) →
      (a.used = l.heldBy job ∧ a.peak ≤ maxSize) ∧
      IsGreatest (start.totalsDuring entries job ∪ start.refusedDuring entries job) a.peak ∧
      (start.refusedDuring entries job = ∅ → IsGreatest (start.totalsDuring entries job) a.peak) ∧
      (∀ c, l.breakers[i]? = some c → ∀ total ∈ start.totalsDuring entries job, total ≤ c.limit) ∧
      ∀ (e : Entry) (err : MemoryError), (l.apply e).1 = .error err →
        (err.isBreaker = false → (l.apply e).2.jobs = l.jobs) ∧
        (err.isBreaker = true → l.AccountHasRoom e → l.subject? e = some job → (l.apply e).2.jobs =
          l.jobs.set job (i, { a with peak := max a.peak (a.used + l.asked e) })) := by
  intro start l job i a ha
  have hstart := tallied_opening breakers jobs
  have hl : l.Tallied := hstart.run hsized
  -- a fresh account has taken note of nothing but its total
  have hfresh : ∀ j ∈ start.jobs, j.2.peak = j.2.used := by
    intro j hj
    obtain ⟨j, -, rfl⟩ := List.mem_map.1 hj
    rfl
  have hsound := hl.account job i a ha
  have hgreatest := isGreatest_accountPeak hstart hfresh hsized ha
  refine ⟨⟨hsound.exact, hsound.size⟩, hgreatest, fun hnone => ?_, fun c hc => ?_,
    fun e err herr => ?_⟩
  · rwa [hnone, Set.union_empty] at hgreatest
  · exact totalsDuring_le_limit hstart hsized ha hc
  · have hturn := turn_apply hl e
    rw [herr] at hturn
    obtain ⟨hquota, hbreaker⟩ := hturn.of_error
    exact ⟨hquota, fun htripped hroom hsubject => hbreaker htripped hroom job i a hsubject ha⟩

/-- A job that holds sixty of a hundred bytes asks for sixty more, which the breaker refuses. -/
def overreaching : List Entry := [.openScope 0 "sort", .add 0 60, .add 0 60]

theorem opening_run_peak_overreaching :
    let start := opening [("query", 100)] [(0, ⟨1⟩, none)]
    start.AccountsSized overreaching ∧
      IsGreatest (start.totalsDuring overreaching 0 ∪ start.refusedDuring overreaching 0) 120 ∧
      ∀ total ∈ start.totalsDuring overreaching 0, total ≤ 100 := by
  intro start
  have hsized : start.AccountsSized overreaching := by decide
  obtain ⟨-, hgreatest, -, hlimit, -⟩ := opening_run_peak [("query", 100)] [(0, ⟨1⟩, none)]
    overreaching hsized 0 0 ⟨⟨1⟩, none, 60, 120⟩ (by decide)
  exact ⟨hsized, hgreatest, hlimit ⟨"query", 100, 60, 60, 1⟩ (by decide)⟩

/-- **The peak is not the greatest total**, nor is it within the limit of the breaker: the refused request
took the peak to 120 bytes, while no more than 60 were ever counted after an entry. -/
theorem peak_above_totals :
    let start := opening [("query", 100)] [(0, ⟨1⟩, none)]
    ((start.run overreaching).jobs.map fun j => (j.2.used, j.2.peak)) = [(60, 120)] ∧
      ((start.run overreaching).breakers.map (·.limit)) = [100] ∧
      ¬IsGreatest (start.totalsDuring overreaching 0) 120 := by
  intro start
  refine ⟨by decide, by decide, fun hgreatest => ?_⟩
  obtain ⟨before, hbefore, hused⟩ := hgreatest.1
  have hnever : ∀ before ∈ overreaching.inits,
      (start.run before).jobs[0]?.map (·.2.used) ≠ some 120 := by decide
  exact hnever before ((List.mem_inits _ _).2 hbefore) hused

end Ledger

end RowStream
