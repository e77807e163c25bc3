import Mathlib.Data.List.Basic
import RowStream.Json.Fields
import RowStream.Json.Reader

/-!
# Spellings of numbers

A numeral that is put together well is read back from its spelling, whatever follows that does not go
on with the number. Integers are spelled by such numerals.

* `Numeral.WellFormed` — what may stand in the parts of a numeral.
* `Numeral.readNumber_spell`, `Numeral.ofSpelling_spell` — the spelling is taken off a text as a
  whole, and has the parts it was put together from.
* `integerWithin?_ofInt`, `size?_ofNat` — integers are read back.
-/

namespace RowStream.Json

/-! ## Digits

The decimal digits of a number, without a leading zero unless it is zero itself. -/

/-- At least one digit and nothing else. -/
structure AreDigits (ds : List Char) : Prop where
  ne_nil : ds ≠ []
  digit : ∀ c ∈ ds, isDigit c = true

theorem areDigits_toDigits (n : Nat) : AreDigits (Nat.toDigits 10 n) where
  ne_nil := Nat.toDigits_ne_nil
  digit := fun c hc => by
    have h := Nat.isDigit_of_mem_toDigits (by omega) (by omega) hc
    simpa [isDigit, Char.isDigit, Char.le_def] using h

theorem digitsValue_toDigits (n : Nat) : digitsValue (Nat.toDigits 10 n) = n := by
  have h := Nat.ofDigitChars_ten_toDigits (n := n)
  rwa [Nat.ofDigitChars_eq_foldl] at h

/-- Only zero is written with a leading zero. -/
theorem head?_toDigits {n : Nat} (h : (Nat.toDigits 10 n).head? = some '0') : n = 0 := by
  -- induction along the digits: the leading one stays when the last one is taken off
  induction n using Nat.strongRecOn with
  | ind n ih =>
    rw [Nat.toDigits_eq_if (by omega)] at h
    split_ifs at h with hlt
    · rw [List.head?_singleton, Option.some.injEq] at h
      exact Nat.digitChar_eq_zero.1 h
    · rw [List.head?_append_of_ne_nil _ Nat.toDigits_ne_nil] at h
      have hzero := ih (n / 10) (by omega) h
      omega

theorem toDigits_leading {n : Nat} (h : (Nat.toDigits 10 n).head? = some '0') :
    Nat.toDigits 10 n = ['0'] := by
  rw [head?_toDigits h]
  rfl

/-! ## Taking digits off a text

A reader takes as many digits as there are, so that a spelling has to be followed by something else.
-/

/-- A text that does not start with a digit. -/
def EndsDigits (text : List Char) : Prop := ∀ c ∈ text.head?, isDigit c = false

theorem takeWhile_digits {ds : List Char} (hds : ∀ c ∈ ds, isDigit c = true) {rest : List Char}
    (hrest : EndsDigits rest) : (ds ++ rest).takeWhile isDigit = ds := by
  rw [List.takeWhile_append_of_pos hds]
  cases rest with
  | nil => simp
  | cons c cs => simp [hrest c rfl]

theorem dropWhile_digits {ds : List Char} (hds : ∀ c ∈ ds, isDigit c = true) {rest : List Char}
    (hrest : EndsDigits rest) : (ds ++ rest).dropWhile isDigit = rest := by
  rw [List.dropWhile_append_of_pos hds]
  cases rest with
  | nil => simp
  | cons c cs => simp [hrest c rfl]

theorem readDigits_append {ds : List Char} (hds : AreDigits ds) {rest : List Char}
    (hrest : EndsDigits rest) : readDigits (ds ++ rest) = some (ds, rest) := by
  unfold readDigits
  rw [takeWhile_digits hds.digit hrest, dropWhile_digits hds.digit hrest]
  simp [hds.ne_nil]

/-! ## The parts of a numeral

Whole digits, fraction and exponent are taken off one after the other, each ended by the first
character of the next. -/

namespace Numeral

/-- The fraction with its point. -/
def spellFraction (n : Numeral) : List Char := if n.fraction = [] then [] else '.' :: n.fraction

/-- The exponent with its mark and its sign. -/
def spellExponent (n : Numeral) : List Char :=
  match n.exponent with
  | none => []
  | some (negative, digits) => 'e' :: (if negative then '-' else '+') :: digits

/-- The spelling of a numeral, an exponent always with its sign. -/
def spell (n : Numeral) : List Char :=
  (if n.negative then ['-'] else []) ++ (n.whole ++ (n.spellFraction ++ n.spellExponent))

/-- What may stand in the parts of a numeral. -/
structure WellFormed (n : Numeral) : Prop where
  whole : AreDigits n.whole
  leading : n.whole.head? = some '0' → n.whole = ['0']
  fraction : ∀ c ∈ n.fraction, isDigit c = true
  exponent : ∀ e ∈ n.exponent, AreDigits e.2

end Numeral

/-- A text that does not go on with a number. -/
def EndsNumber (text : List Char) : Prop :=
  ∀ c ∈ text.head?, isDigit c = false ∧ c ≠ '.' ∧ c ≠ 'e' ∧ c ≠ 'E'

namespace Numeral

variable {n : Numeral} {rest : List Char}

theorem endsDigits_exponent (hrest : EndsNumber rest) : EndsDigits (n.spellExponent ++ rest) := by
  unfold spellExponent
  cases n.exponent with
  | none => exact fun c hc => (hrest c hc).1
  | some e =>
    rintro c ⟨⟩
    rfl

theorem endsDigits_fraction (hrest : EndsNumber rest) :
    EndsDigits (n.spellFraction ++ (n.spellExponent ++ rest)) := by
  unfold spellFraction
  split_ifs with hnone
  · exact endsDigits_exponent hrest
  · rintro c ⟨⟩
    rfl

theorem readWhole_spell (h : n.WellFormed) (hrest : EndsDigits rest) :
    readWhole (n.whole ++ rest) = some (n.whole, rest) := by
  by_cases hzero : n.whole.head? = some '0'
  · rw [h.leading hzero]
    rfl
  · have hfirst : ∀ cs, n.whole ++ rest ≠ '0' :: cs := by
      intro cs heq
      have hhead := congrArg List.head? heq
      rw [List.head?_append_of_ne_nil _ h.whole.ne_nil] at hhead
      exact hzero hhead
    rw [readWhole.eq_2 _ hfirst, readDigits_append h.whole hrest]

theorem readFraction_spell (h : n.WellFormed) (hrest : EndsNumber rest) :
    readFraction (n.spellFraction ++ (n.spellExponent ++ rest)) =
      some (n.spellFraction, n.spellExponent ++ rest) := by
  unfold spellFraction
  split_ifs with hnone
  · rw [List.nil_append, readFraction.eq_2]
    -- neither an exponent nor what follows the number starts with a point
    intro cs heq
    cases hexp : n.exponent with
    | none =>
      simp only [spellExponent, hexp, List.nil_append] at heq
      subst heq
      exact (hrest '.' rfl).2.1 rfl
    | some e => simp [spellExponent, hexp] at heq
  · rw [List.cons_append, readFraction,
      readDigits_append ⟨hnone, h.fraction⟩ (endsDigits_exponent hrest)]
    rfl

theorem readExponent_spell (h : n.WellFormed) (hrest : EndsNumber rest) :
    readExponent (n.spellExponent ++ rest) = some (n.spellExponent, rest) := by
  unfold spellExponent
  cases hexp : n.exponent with
  | none =>
    cases rest with
    | nil => rfl
    | cons c cs =>
      obtain ⟨-, -, he, hE⟩ := hrest c rfl
      simp [readExponent, he, hE]
  | some e =>
    obtain ⟨negative, digits⟩ := e
    have hdigits : AreDigits digits := h.exponent _ hexp
    have hread := readDigits_append hdigits fun c hc => (hrest c hc).1
    cases negative <;> simp [readExponent, hread]

/-- What follows the sign does not start with one. -/
theorem unsigned_ne (h : n.WellFormed) (text cs : List Char) : n.whole ++ text ≠ '-' :: cs := by
  intro heq
  obtain ⟨c, ds, hwhole⟩ := List.exists_cons_of_ne_nil h.whole.ne_nil
  rw [hwhole, List.cons_append] at heq
  obtain ⟨rfl, -⟩ := List.cons.inj heq
  have hdigit := h.whole.digit '-' (hwhole ▸ List.mem_cons_self)
  cases hdigit

/-- **A spelling is taken off a text as a whole.** -/
theorem readNumber_spell (h : n.WellFormed) (hrest : EndsNumber rest) :
    readNumber (n.spell ++ rest) = some (n.spell, rest) := by
  have hwhole := readWhole_spell h (endsDigits_fraction (n := n) hrest)
  have hfraction := readFraction_spell h hrest
  have hexponent := readExponent_spell h hrest
  have hunsigned := unsigned_ne h (n.spellFraction ++ (n.spellExponent ++ rest))
  unfold readNumber spell
  simp only [List.append_assoc]
  cases n.negative
  · simp [hwhole, hfraction, hexponent]
  · simp [hwhole, hfraction, hexponent]

/-- The sign is seen from the first character, and what follows it are the other parts. -/
theorem sign_spell (h : n.WellFormed) :
    (n.spell.head? == some '-') = n.negative ∧
      (if n.negative then n.spell.drop 1 else n.spell) =
        n.whole ++ (n.spellFraction ++ n.spellExponent) := by
  unfold spell
  cases n.negative with
  | true => exact ⟨rfl, rfl⟩
  | false =>
    refine ⟨?_, rfl⟩
    rw [if_neg Bool.false_ne_true, List.nil_append, beq_eq_false_iff_ne]
    intro hhead
    obtain ⟨cs, heq⟩ := List.head?_eq_some_iff.1 hhead
    exact unsigned_ne h _ cs heq

/-- The point is seen from the first character after the whole digits, and the exponent is what is
left after the fraction. -/
theorem fraction_spell (h : n.WellFormed) :
    let text := n.spellFraction ++ n.spellExponent
    let hasFraction := text.head? == some '.'
    (if hasFraction then (text.drop 1).takeWhile isDigit else []) = n.fraction ∧
      (if hasFraction then (text.drop 1).dropWhile isDigit else text) = n.spellExponent := by
  have hend : EndsDigits n.spellExponent := by
    have h : EndsDigits (n.spellExponent ++ []) := endsDigits_exponent fun c hc => nomatch hc
    rwa [List.append_nil] at h
  unfold spellFraction
  split_ifs with hnone
  · have hpoint : (n.spellExponent.head? == some '.') = false := by
      unfold spellExponent
      cases n.exponent <;> rfl
    simp only [List.nil_append, hpoint, Bool.false_eq_true, if_false, hnone, and_self]
  · simp [takeWhile_digits h.fraction hend, dropWhile_digits h.fraction hend]

/-- **A spelling has the parts it was put together from.** -/
theorem ofSpelling_spell (h : n.WellFormed) : ofSpelling n.spell = n := by
  have hend : EndsDigits (n.spellFraction ++ n.spellExponent) := by
    have h : EndsDigits (n.spellFraction ++ (n.spellExponent ++ [])) :=
      endsDigits_fraction fun c hc => nomatch hc
    rwa [List.append_nil] at h
  obtain ⟨hsign, hunsigned⟩ := sign_spell h
  obtain ⟨hfraction, hexponent⟩ := fraction_spell h
  unfold ofSpelling
  simp only [hsign, hunsigned, takeWhile_digits h.whole.digit hend,
    dropWhile_digits h.whole.digit hend, hfraction, hexponent]
  obtain ⟨negative, whole, fraction, exponent⟩ := n
  cases exponent with
  | none => rfl
  | some e =>
    obtain ⟨minus, digits⟩ := e
    cases minus <;> rfl

end Numeral

/-! ## Integers

A numeral without fraction and exponent is an integer. -/

/-- The numeral of an integer. -/
def Numeral.ofInteger (i : Int) : Numeral := ⟨decide (i < 0), Nat.toDigits 10 i.natAbs, [], none⟩

theorem Numeral.wellFormed_ofInteger (i : Int) : (ofInteger i).WellFormed where
  whole := areDigits_toDigits _
  leading := toDigits_leading
  fraction := by rintro c ⟨⟩
  exponent := by rintro e ⟨⟩

theorem Numeral.integer?_ofInteger (i : Int) : (ofInteger i).integer? = some i := by
  unfold integer? ofInteger
  simp only [digitsValue_toDigits, List.isEmpty_nil, Option.isNone_none, Bool.and_self, if_true,
    decide_eq_true_eq]
  split_ifs with hneg hzero
  · omega
  · simp only [Option.some.injEq]
    omega
  · simp only [Option.some.injEq]
    omega

theorem Numeral.spell_ofInteger (i : Int) :
    (ofInteger i).spell = (if i < 0 then ['-'] else []) ++ Nat.toDigits 10 i.natAbs := by
  simp [ofInteger, spell, spellFraction, spellExponent]

theorem ofNat_eq (n : Nat) : ofNat n = number (Numeral.ofInteger n).spell := by
  rw [Numeral.spell_ofInteger, if_neg (by omega), Int.natAbs_natCast, List.nil_append]
  rfl

theorem ofInt_eq (i : Int) : ofInt i = number (Numeral.ofInteger i).spell := by
  rw [ofInt, Int.toString_eq_repr, Int.repr_eq_if, Numeral.spell_ofInteger]
  split_ifs with hpos hneg hneg
  · omega
  · rw [Nat.repr_eq_ofList_toDigits, String.toList_ofList, List.nil_append,
      show i.toNat = i.natAbs by omega]
  · simp only [Nat.repr_eq_ofList_toDigits, String.toList_append, String.toList_ofList,
      show (-i).toNat = i.natAbs by omega]
    rfl
  · omega

/-- An integer within the bounds is read back. -/
theorem integerWithin?_ofInt {least greatest i : Int} (hleast : least ≤ i) (hgreatest : i ≤ greatest) :
    (ofInt i).integerWithin? least greatest = some i := by
  have hnumeral : (ofInt i).numeral? = some (Numeral.ofInteger i) := by
    rw [ofInt_eq, numeral?, Numeral.ofSpelling_spell (Numeral.wellFormed_ofInteger i)]
  unfold integerWithin?
  simp only [hnumeral, Numeral.integer?_ofInteger, hleast, hgreatest, and_self, if_true]

theorem ofNat_eq_ofInt (n : Nat) : ofNat n = ofInt n := by rw [ofNat_eq, ofInt_eq]

/-- A size is read back. -/
theorem size?_ofNat {n : Nat} (h : n ≤ maxSize) : (ofNat n).size? = some n := by
  rw [ofNat_eq_ofInt, size?, integerWithin?_ofInt (by omega) (by omega)]
  rfl

end RowStream.Json
