import Mathlib.Algebra.GroupWithZero.Nat
import Mathlib.Data.List.DropRight
import Mathlib.Data.List.Infix
import Mathlib.Data.Nat.Log
import Mathlib.Order.Bounds.Basic
import RowStream.Proofs.Memory.Transfer

/-!
# Capacity of scratch buffers

The capacity of a buffer is accounted before its text grows, it is kept when the text is forgotten,
and any push can be refused. So what is accounted at some moment goes back to all that happened
since the last release; but all that is left of that is the greatest length that the text came to.

* `leastPowerOfTwo_eq`, `Scratch.capacityFor_eq` — capacities are powers of two, the least that will
  do.
* `Scratch.Call`, `Scratch.Event` — the calls of a buffer, and a log of which of them were granted.
* `Scratch.written`, `Scratch.reached` — what a log says of the text: what it is, and what lengths
  it came to since the last release.
* `Scratch.perform_cases` — all that a call can do.
* `Scratch.Accounted` — the invariant: the text is what was written, and the capacity is that of the
  greatest length. `Accounted.perform` is the step, `accounted_session` the run.
* `Scratch.session_accounts` — every session, under any limits.
-/

namespace RowStream

/-! ## Powers of two

The capacity for a length is monotone, and a length that fits into a capacity has the same one. So
the capacity for the greatest of several lengths is the greatest of their capacities, and it does
not matter how the buffer came there. -/

theorem leastPowerOfTwo_eq (n : Nat) : leastPowerOfTwo n = 2 ^ Nat.clog 2 n := by
  unfold leastPowerOfTwo
  split
  · next hle => rw [Nat.clog_of_right_le_one hle, Nat.pow_zero]
  · next hlt =>
    have hne : n - 1 ≠ 0 := by omega
    rw [Nat.one_shiftLeft]
    congr 1
    refine Nat.le_antisymm ?_ ?_
    · have hpow := Nat.le_pow_clog Nat.one_lt_two n
      exact (Nat.log2_lt hne).2 (by omega)
    · have hpow := (Nat.log2_lt hne).1 (Nat.lt_succ_self _)
      exact (Nat.clog_le_iff_le_pow Nat.one_lt_two).2 (by omega)

theorem isLeast_leastPowerOfTwo (n : Nat) :
    IsLeast {p | n ≤ p ∧ ∃ k, p = 2 ^ k} (leastPowerOfTwo n) := by
  rw [leastPowerOfTwo_eq]
  refine ⟨⟨Nat.le_pow_clog Nat.one_lt_two n, _, rfl⟩, ?_⟩
  rintro p ⟨hle, k, rfl⟩
  exact Nat.pow_le_pow_right Nat.two_pos ((Nat.clog_le_iff_le_pow Nat.one_lt_two).2 hle)

namespace Scratch

theorem capacityFor_eq (n : Nat) : capacityFor n = 2 ^ max (Nat.clog 2 n) 6 := by
  have hleast : leastCapacity = 2 ^ 6 := rfl
  rw [capacityFor, leastPowerOfTwo_eq, hleast]
  obtain hle | hle := Nat.le_total (Nat.clog 2 n) 6
  · rw [Nat.max_eq_right hle, Nat.max_eq_right (Nat.pow_le_pow_right Nat.two_pos hle)]
  · rw [Nat.max_eq_left hle, Nat.max_eq_left (Nat.pow_le_pow_right Nat.two_pos hle)]

theorem le_capacityFor (n : Nat) : n ≤ capacityFor n :=
  Nat.le_trans (isLeast_leastPowerOfTwo n).1.1 (Nat.le_max_left _ _)

/-- A longer text for which there is room has the same capacity. -/
theorem capacityFor_of_le {m n : Nat} (hmn : m ≤ n) (hroom : n ≤ capacityFor m) :
    capacityFor n = capacityFor m := by
  have hlow : Nat.clog 2 m ≤ Nat.clog 2 n := Nat.clog_mono_right 2 hmn
  have hhigh : Nat.clog 2 n ≤ max (Nat.clog 2 m) 6 := by
    rw [capacityFor_eq] at hroom
    exact (Nat.clog_le_iff_le_pow Nat.one_lt_two).2 hroom
  rw [capacityFor_eq, capacityFor_eq]
  congr 1
  omega

/-- The bytes that are accounted where the greatest length is this: none before there is a text. -/
def accountedFor (longest : Nat) : Nat := if longest = 0 then 0 else capacityFor longest

theorem le_accountedFor (n : Nat) : n ≤ accountedFor n := by
  unfold accountedFor
  split
  · omega
  · exact le_capacityFor n

/-- Capacity only grows where there is no room. -/
theorem accountedFor_max (longest n : Nat) : accountedFor (max n longest) =
    if n ≤ accountedFor longest then accountedFor longest else capacityFor n := by
  have hlongest := le_accountedFor longest
  split
  · next hroom =>
    obtain hlt | hle := Nat.lt_or_ge longest n
    · -- a text that did not fill its capacity before
      have hne : longest ≠ 0 := by
        rintro rfl
        exact absurd hroom (Nat.not_le.2 hlt)
      rw [accountedFor, if_neg hne] at hroom
      rw [Nat.max_eq_left (Nat.le_of_lt hlt), accountedFor, accountedFor, if_neg (by omega),
        if_neg hne]
      exact capacityFor_of_le (Nat.le_of_lt hlt) hroom
    · rw [Nat.max_eq_right hle]
  · next hfull =>
    have hlt : longest < n := by omega
    rw [Nat.max_eq_left (Nat.le_of_lt hlt), accountedFor, if_neg (by omega)]

/-! ## Calls and their log

A session is logged with what became of each call. The text and the lengths are read off the log,
from the last event that forgot the text or gave everything back. -/

/-- A call of a buffer. -/
inductive Call where
  | push (text : String)
  | pushChar (c : Char)
  | clear
  | release

namespace Call

def perform : Call → Metered MemoryError Scratch Unit
  | push text => Scratch.push text
  | pushChar c => Scratch.pushChar c
  | clear => Metered.modifyState Scratch.clear
  | release => Metered.update Scratch.release

/-- The text that a call is to append. -/
def text : Call → String
  | push text => text
  | pushChar c => .singleton c
  | clear | release => ""

/-- Whether the text is empty after the call, whatever it was. -/
def forgets : Call → Bool
  | clear | release => true
  | push _ | pushChar _ => false

/-- Whether the capacity is given back too. -/
def releases : Call → Bool
  | release => true
  | push _ | pushChar _ | clear => false

end Call

/-- A call that was made, and whether it was granted. -/
structure Event where
  call : Call
  granted : Bool

/-- The text that an event appended: a push that was refused appended nothing. -/
def Event.text (e : Event) : String := if e.granted then e.call.text else ""

/-- The log of a session and the buffer that the session leaves. Between two calls the rest of the
job and all other jobs may have moved memory, so every call comes with the budget that it finds. -/
def session (label : String) (history : List (Call × Budget)) : List Event × Scratch :=
  history.foldl
    (fun (log, s) (c, b) =>
      let (result, (t, _)) := c.perform.run (s, b)
      (log ++ [⟨c, result.isOk⟩], t))
    ([], .new label)

/-- What was written since the text was last forgotten. -/
def written (log : List Event) : String :=
  String.join ((log.rtakeWhile fun e => !e.call.forgets).map Event.text)

/-- What happened since the last release. -/
def sinceRelease (log : List Event) : List Event := log.rtakeWhile fun e => !e.call.releases

/-- The lengths that the text came to since the last release. -/
def reached (log : List Event) : Set Nat :=
  {n | ∃ before, before <+: sinceRelease log ∧ n = (written before).utf8ByteSize}

/-! ## Logs with one more event

The induction adds an event at the end, where its effect on what the log says is seen at once. -/

theorem written_concat (log : List Event) (e : Event) :
    written (log ++ [e]) = if e.call.forgets then "" else written log ++ e.text := by
  unfold written
  rw [List.rtakeWhile_concat]
  cases e.call.forgets <;> simp

theorem sinceRelease_concat (log : List Event) (e : Event) :
    sinceRelease (log ++ [e]) = if e.call.releases then [] else sinceRelease log ++ [e] := by
  unfold sinceRelease
  rw [List.rtakeWhile_concat]
  cases e.call.releases <;> rfl

theorem Call.forgets_of_releases {c : Call} (h : c.releases = true) : c.forgets = true := by
  cases c with
  | release => rfl
  | _ => cases h

theorem Call.not_releases {c : Call} (h : c.forgets = false) : c.releases = false := by
  refine Bool.eq_false_iff.2 fun hreleases => ?_
  rw [forgets_of_releases hreleases] at h
  cases h

/-- Nothing that is still there was written before the last release. -/
theorem written_sinceRelease (log : List Event) : written (sinceRelease log) = written log := by
  induction log using List.reverseRecOn with
  | nil => rfl
  | append_singleton log e ih =>
    rw [sinceRelease_concat, written_concat]
    cases hreleases : e.call.releases with
    | true =>
      rw [Call.forgets_of_releases hreleases]
      rfl
    | false =>
      simp only [Bool.false_eq_true, if_false]
      rw [written_concat, ih]

theorem length_mem_reached (log : List Event) : (written log).utf8ByteSize ∈ reached log :=
  ⟨sinceRelease log, List.prefix_refl _, by rw [written_sinceRelease]⟩

theorem reached_of_releases (log : List Event) {e : Event} (h : e.call.releases = true) :
    reached (log ++ [e]) = {0} := by
  have hsince : sinceRelease (log ++ [e]) = [] := by rw [sinceRelease_concat, if_pos h]
  unfold reached
  rw [hsince]
  ext n
  constructor
  · rintro ⟨before, hbefore, rfl⟩
    rw [List.prefix_nil.1 hbefore]
    rfl
  · rintro rfl
    exact ⟨[], List.prefix_refl [], rfl⟩

/-- An event that is no release adds the length that the text has after it. -/
theorem reached_concat (log : List Event) {e : Event} (h : e.call.releases = false) :
    reached (log ++ [e]) = insert (written (log ++ [e])).utf8ByteSize (reached log) := by
  have hsince : sinceRelease (log ++ [e]) = sinceRelease log ++ [e] := by
    rw [sinceRelease_concat, h]
    rfl
  have hwritten : written (sinceRelease log ++ [e]) = written (log ++ [e]) := by
    rw [written_concat, written_concat, written_sinceRelease]
  unfold reached
  rw [hsince]
  -- what begins a log with one more event is all of it, or begins the log without that event
  ext n
  constructor
  · rintro ⟨before, hbefore, rfl⟩
    obtain rfl | hearlier := List.prefix_concat_iff.1 hbefore
    · exact .inl (by rw [hwritten])
    · exact .inr ⟨before, hearlier, rfl⟩
  · rintro (rfl | ⟨before, hbefore, rfl⟩)
    · exact ⟨_, List.prefix_refl _, by rw [hwritten]⟩
    · exact ⟨before, hbefore.trans (List.prefix_append _ _), rfl⟩

/-! ## What a call does

The step: one inversion lemma for all calls of a buffer, from which the invariant of a session is
read off. -/

/-- The buffer with more text, and the capacity for it. -/
def grown (s : Scratch) (text : String) : Scratch :=
  ⟨{ s.scope with held := s.scope.held + s.missing text.utf8ByteSize }, s.text ++ text⟩

/-- The capacity is that for the new length, if there was no room for it. -/
theorem held_grown (s : Scratch) (text : String) : (s.grown text).scope.held =
    if (s.grown text).length ≤ s.scope.held then s.scope.held
    else capacityFor (s.grown text).length := by
  have hlength : (s.grown text).length = s.length + text.utf8ByteSize := String.utf8ByteSize_append
  have hcapacity := le_capacityFor (s.length + text.utf8ByteSize)
  rw [hlength]
  simp only [grown, missing]
  split <;> omega

/-- **What a call does**: a push is refused and leaves the buffer alone, or it appends its text; the
text is forgotten; or everything is given back. -/
theorem perform_cases (c : Call) (s : Scratch) (b : Budget) :
    (c.forgets = false ∧ ∃ e b', c.perform.run (s, b) = (.error e, (s, b'))) ∨
    (c.forgets = false ∧ ∃ b', c.perform.run (s, b) = (.ok (), (s.grown c.text, b'))) ∨
    (c = .clear ∧ c.perform.run (s, b) = (.ok (), (s.clear, b))) ∨
    (c = .release ∧ c.perform.run (s, b) = (.ok (), s.release b)) := by
  cases c with
  | push text =>
    -- both ways to append are one request and then more text
    have hpush : (Call.push text).perform (s, b) = _ := reserve_modify_eq s b
    unfold Metered.run
    rw [hpush]
    cases b.request s.scope.label (s.missing text.utf8ByteSize) with
    | ok u b' => exact .inr (.inl ⟨rfl, b', rfl⟩)
    | error e b' => exact .inl ⟨rfl, e, b', rfl⟩
  | pushChar c =>
    have hpush : (Call.pushChar c).perform (s, b) = _ := reserve_modify_eq s b
    have hsize : (String.singleton c).utf8ByteSize = c.utf8Size := String.utf8ByteSize_singleton
    unfold Metered.run
    rw [hpush]
    cases b.request s.scope.label (s.missing c.utf8Size) with
    | ok u b' =>
      refine .inr (.inl ⟨rfl, b', ?_⟩)
      simp only [grown, Call.text, hsize, String.append_singleton]
    | error e b' => exact .inl ⟨rfl, e, b', rfl⟩
  | clear => exact .inr (.inr (.inl ⟨rfl, rfl⟩))
  | release => exact .inr (.inr (.inr ⟨rfl, rfl⟩))

/-! ## Sessions

The invariant links the buffer to its log: the text is what was written, and what is accounted is
the capacity for the greatest length since the last release. A refused push leaves both as they are.
-/

/-- The buffer is what its log says: the text is what was written, and accounted is the capacity of
the greatest length that the text came to since the last release. -/
structure Accounted (log : List Event) (s : Scratch) : Prop where
  text : s.text = written log
  held : ∃ longest, IsGreatest (reached log) longest ∧ s.scope.held = accountedFor longest

namespace Accounted

variable {log : List Event} {s : Scratch}

theorem new (label : String) : Accounted [] (.new label) where
  text := rfl
  held := ⟨0, ⟨length_mem_reached [], fun n hn => by
    obtain ⟨before, hbefore, rfl⟩ := hn
    rw [List.prefix_nil.1 hbefore]
    exact Nat.le_refl _⟩, rfl⟩

theorem length_le_held (h : Accounted log s) : s.length ≤ s.scope.held := by
  obtain ⟨longest, hlongest, hheld⟩ := h.held
  have hmem := length_mem_reached log
  rw [← h.text] at hmem
  rw [hheld]
  exact Nat.le_trans (hlongest.2 hmem) (le_accountedFor longest)

/-- One more event that is no release: it adds a length, and capacity is added where there is no room
for that length. -/
theorem concat (h : Accounted log s) {e : Event} (he : e.call.releases = false) {t : Scratch}
    (htext : t.text = written (log ++ [e]))
    (hheld : t.scope.held = if t.length ≤ s.scope.held then s.scope.held else capacityFor t.length) :
    Accounted (log ++ [e]) t where
  text := htext
  held := by
    obtain ⟨longest, hlongest, hs⟩ := h.held
    refine ⟨max t.length longest, ?_, ?_⟩
    · rw [reached_concat log he, ← htext]
      exact hlongest.insert _
    · rw [accountedFor_max, hheld, hs]

/-- **A call keeps the buffer what its log says**, granted or refused. -/
theorem perform (h : Accounted log s) (c : Call) (b : Budget) :
    Accounted (log ++ [⟨c, (c.perform.run (s, b)).1.isOk⟩]) (c.perform.run (s, b)).2.1 := by
  have hroom := h.length_le_held
  obtain ⟨hkeeps, e, b', hrun⟩ | ⟨hkeeps, b', hrun⟩ | ⟨rfl, hrun⟩ | ⟨rfl, hrun⟩ :=
    perform_cases c s b
  all_goals rw [hrun]
  · -- refused: the text that there was is there once more
    refine h.concat (Call.not_releases hkeeps) ?_ (if_pos hroom).symm
    rw [written_concat, hkeeps, h.text]
    exact String.append_empty.symm
  · refine h.concat (Call.not_releases hkeeps) ?_ (s.held_grown c.text)
    rw [written_concat, hkeeps]
    exact congrArg (· ++ c.text) h.text
  · refine h.concat rfl ?_ (if_pos (Nat.zero_le _)).symm
    rw [written_concat]
    rfl
  · refine ⟨?_, 0, ?_, s.held_release b⟩
    · rw [written_concat]
      rfl
    · rw [reached_of_releases log rfl]
      exact isGreatest_singleton

end Accounted

theorem accounted_session (label : String) (history : List (Call × Budget)) :
    Accounted (session label history).1 (session label history).2 := by
  induction history using List.reverseRecOn with
  | nil => exact .new label
  | append_singleton history call ih =>
    rw [session, List.foldl_append]
    exact ih.perform call.1 call.2

/-- **What a buffer holds and what is accounted for it**, after any calls and under any limits: it
holds what was pushed and granted since it was last cleared or released. Accounted is nothing while
there has been no text since the last release, and else the least power of two, sixty-four at least,
that is not less than the greatest length of the text since then; so there is always room for
the text. A call that is refused changes nothing of that. -/
theorem session_accounts (label : String) (history : List (Call × Budget)) (next : Call)
    (b : Budget) :
    let log := (session label history).1
    let s := (session label history).2
    s.text = written log ∧
      (∃ longest power, IsGreatest (reached log) longest ∧
        IsLeast {p | longest ≤ p ∧ ∃ k, p = 2 ^ k} power ∧
        s.scope.held = if longest = 0 then 0 else max 64 power) ∧
      s.length ≤ s.scope.held ∧
      ∀ refusal, (next.perform.run (s, b)).1 = .error refusal →
        (next.perform.run (s, b)).2.1 = s := by
  intro log s
  have h : Accounted log s := accounted_session label history
  refine ⟨h.text, ?_, h.length_le_held, fun refusal hrefusal => ?_⟩
  · obtain ⟨longest, hlongest, hheld⟩ := h.held
    refine ⟨longest, leastPowerOfTwo longest, hlongest, isLeast_leastPowerOfTwo longest, ?_⟩
    rw [hheld, accountedFor, capacityFor, Nat.max_comm]
    rfl
  · obtain ⟨-, e, b', hrun⟩ | ⟨-, b', hrun⟩ | ⟨-, hrun⟩ | ⟨-, hrun⟩ := perform_cases next s b
    · rw [hrun]
    all_goals
      rw [hrun] at hrefusal
      cases hrefusal

/-- Of a hundred bytes sixty-four are the capacity of the buffer, so that a text that does not fit in
there is refused, before the buffer is cleared and after. -/
theorem session_accounts_refused :
    let counted (used : Nat) : Budget :=
      ⟨⟨"memory", 100, used, used, 0⟩, ⟨.nil, none, used, used⟩⟩
    let long := "0123456789012345678901234567890123456789012345678901234567890123"
    let history : List (Call × Budget) :=
      [(.push "left ", counted 0), (.push long, counted 64), (.clear, counted 64),
        (.pushChar 'é', counted 64)]
    let s := (session "concat" history).2
    let refused := (Call.push long).perform.run (s, counted 64)
    s.text = "é" ∧ s.length = 2 ∧ s.scope.held = 64 ∧
      refused.1 = .error (.circuitBreaking "memory" "concat" 64 100 64) ∧ refused.2.1 = s := by
  intro counted long history
  obtain ⟨htext, -, -, hrefused⟩ :=
    session_accounts "concat" history (.push long) (counted 64)
  have herror : ((Call.push long).perform.run ((session "concat" history).2, counted 64)).1 =
      .error (.circuitBreaking "memory" "concat" 64 100 64) := by decide +kernel
  exact ⟨htext.trans (by decide +kernel), by decide +kernel, by decide +kernel, herror,
    hrefused _ herror⟩

end Scratch

end RowStream
