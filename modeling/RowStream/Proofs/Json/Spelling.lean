import Mathlib.Tactic.SplitIfs
import RowStream.Json.Reader
import RowStream.Json.Spelling

/-!
# Spellings stand for what was spelled

Every character is written in one of three ways, and both who looks for the closing quote and who
asks for the meaning take each of them off the front of a text as a whole.

* `writes_escapeChar` — the three ways.
* `readSpelling_escape` — a spelling ends at the quote after it.
* `unescape?_escape` — a spelling stands for the text.
-/

namespace RowStream.Json

/-- The ways in which a character is written: as it is, as a letter after a backslash, or by its
number after a backslash. -/
inductive Writes : Char → List Char → Prop
  | plain {c : Char} (hquote : c ≠ '"') (hback : c ≠ '\\') (hcontrol : 0x20 ≤ c.toNat) :
      Writes c [c]
  | letter {c l : Char} (hletter : isEscapeLetter l = true) (hmeans : escapedLetter? l = some c) :
      Writes c ['\\', l]
  | code {c x y : Char} (hx : isHexDigit x = true) (hy : isHexDigit y = true)
      (hmeans : Text.hexNumber? ['0', '0', x, y] = some c.toNat) (hlow : c.toNat < 0x20) :
      Writes c ['\\', 'u', '0', '0', x, y]

/-- The digits of the number of a control character. -/
theorem byteDigits_control : ∀ n < 0x20, ∃ x y, Text.byteDigits n.toUInt8 = [x, y] ∧
    isHexDigit x = true ∧ isHexDigit y = true ∧ Text.hexNumber? ['0', '0', x, y] = some n := by
  have hdigits : ∀ n < 0x20, isHexDigit (Nat.digitChar (n.toUInt8.toNat / 16)) = true ∧
      isHexDigit (Nat.digitChar (n.toUInt8.toNat % 16)) = true ∧
      Text.hexNumber? ['0', '0', Nat.digitChar (n.toUInt8.toNat / 16),
        Nat.digitChar (n.toUInt8.toNat % 16)] = some n := by
    decide
  exact fun n hn => ⟨_, _, rfl, hdigits n hn⟩

theorem writes_escapeChar (c : Char) : Writes c (escapeChar c) := by
  have hnamed {d : Char} (h : c.toNat = d.toNat) : c = d := Char.toNat_inj.1 h
  unfold escapeChar
  split_ifs with hquote hback hb hf hn hr ht hcontrol
  · subst hquote
    exact .letter rfl rfl
  · subst hback
    exact .letter rfl rfl
  · rw [hnamed (d := Char.ofNat 0x08) hb]
    exact .letter rfl rfl
  · rw [hnamed (d := Char.ofNat 0x0c) hf]
    exact .letter rfl rfl
  · subst hn
    exact .letter rfl rfl
  · subst hr
    exact .letter rfl rfl
  · subst ht
    exact .letter rfl rfl
  · obtain ⟨x, y, hxy, hx, hy, hmeans⟩ := byteDigits_control c.toNat hcontrol
    rw [hxy]
    exact .code hx hy hmeans hcontrol
  · exact .plain hquote hback (by omega)

/-! ## The closing quote

A quote inside of a text is written behind a backslash, so that the first one without is the closing
one. -/

/-- What a character is written as is taken off the front of a text. -/
theorem readSpelling_writes {c : Char} {written : List Char} (h : Writes c written)
    (text : List Char) :
    readSpelling (written ++ text) =
      (readSpelling text).map fun (s, rest) => (written ++ s, rest) := by
  cases h with
  | plain hquote hback hcontrol =>
    have hc : (decide (c.toNat < 0x20) || c == '\\') = false := by simp [hback]; omega
    rw [List.singleton_append, readSpelling.eq_4 c text (by simp_all) (by simp_all) (by simp_all)]
    simp only [hc, Bool.false_eq_true, if_false]
    rfl
  | @letter l hletter hmeans =>
    have hu : l ≠ 'u' := by
      rintro rfl
      cases hmeans
    rw [List.cons_append, List.singleton_append, readSpelling.eq_3 l text (by simp [hu])]
    simp only [hletter, if_true]
    rfl
  | code hx hy hmeans hlow =>
    rw [List.cons_append, List.cons_append, List.cons_append, List.cons_append, List.cons_append,
      List.singleton_append, readSpelling]
    have hzero : isHexDigit '0' = true := rfl
    simp only [hzero, hx, hy, Bool.and_self, if_true]
    rfl

/-- **A spelling ends at the quote after it.** -/
theorem readSpelling_escape (s : String) (rest : List Char) :
    readSpelling (escape s ++ '"' :: rest) = some (escape s, rest) := by
  unfold escape
  induction s.toList with
  | nil => rfl
  | cons c cs ih =>
    rw [List.flatMap_cons, List.append_assoc, readSpelling_writes (writes_escapeChar c), ih]
    rfl

/-! ## The meaning

Induction on the characters of the text. -/

/-- What a character is written as stands for it. -/
theorem unescapeChars?_writes {c : Char} {written : List Char} (h : Writes c written)
    (spelling : List Char) :
    unescapeChars? (written ++ spelling) = (unescapeChars? spelling).map (c :: ·) := by
  cases h with
  | plain hquote hback hcontrol =>
    rw [List.singleton_append, unescapeChars?.eq_4 c spelling (by simp_all) (by simp_all)]
    simp only [hback, if_false]
  | @letter l hletter hmeans =>
    have hu : l ≠ 'u' := by
      rintro rfl
      cases hmeans
    rw [List.cons_append, List.singleton_append, unescapeChars?.eq_3 l spelling (by simp [hu])]
    simp only [hmeans]
  | @code x y hx hy hmeans hlow =>
    rw [List.cons_append, List.cons_append, List.cons_append, List.cons_append, List.cons_append,
      List.singleton_append, unescapeChars?]
    have hhigh : isHighSurrogate c.toNat = false := by simp [isHighSurrogate]; omega
    have hlow : isLowSurrogate c.toNat = false := by simp [isLowSurrogate]; omega
    simp only [hmeans, hhigh, hlow, Bool.false_eq_true, if_false, Char.ofNat_toNat]

/-- **A spelling stands for the text.** -/
theorem unescape?_escape (s : String) : unescape? (escape s) = some s := by
  have hchars : unescapeChars? (escape s) = some s.toList := by
    unfold escape
    induction s.toList with
    | nil => rfl
    | cons c cs ih =>
      rw [List.flatMap_cons, unescapeChars?_writes (writes_escapeChar c), ih]
      rfl
  rw [unescape?, hchars, Option.map_some, String.ofList_toList]

end RowStream.Json
