import RowStream.Proofs.Json.Number
import RowStream.Proofs.Json.Spelling

/-!
# Texts of trees

The text of a tree is read back as the tree, if its numbers and strings are spelled as writers spell
them.

* `WellSpelled` — the trees that writers make.
* `WellSpelled.readBack` — the text of a tree is taken off a longer text as a whole.
* `WellSpelled.parsed` — a text is read back as its tree.
-/

namespace RowStream.Json

/-- A tree whose numbers are well formed and whose strings are spelled by `escape`. -/
inductive WellSpelled : Json → Prop
  | null : WellSpelled null
  | bool (b : Bool) : WellSpelled (bool b)
  | number {n : Numeral} (h : n.WellFormed) : WellSpelled (number n.spell)
  | string (s : String) : WellSpelled (string (escape s))
  | array {items : List Json} (h : ∀ j ∈ items, WellSpelled j) : WellSpelled (array items)
  | object {members : List (List Char × Json)} (hkeys : ∀ m ∈ members, ∃ s, m.1 = escape s)
      (h : ∀ m ∈ members, WellSpelled m.2) : WellSpelled (object members)

/-- A tree whose text is taken off the front of any text in which it ends. Its first character is
no blank and closes no array. -/
structure ReadBack (j : Json) : Prop where
  opens : ∃ c cs, render j = c :: cs ∧ isBlank c = false ∧ c ≠ ']'
  read : ∀ bound rest, (render j).length ≤ bound → EndsNumber rest →
    readValue bound (render j ++ rest) = some (j, rest)

theorem ReadBack.length_pos {j : Json} (h : ReadBack j) : 0 < (render j).length := by
  obtain ⟨c, cs, hrender, -⟩ := h.opens
  rw [hrender, List.length_cons]
  omega

theorem skipBlanks_cons {c : Char} (h : isBlank c = false) (cs : List Char) :
    skipBlanks (c :: cs) = c :: cs := by
  rw [skipBlanks, List.dropWhile_cons_of_neg (by simp [h])]

/-- What stands between and around values ends a number. -/
theorem endsNumber_cons {c : Char} (hc : c = ',' ∨ c = ']' ∨ c = '\x7d') (cs : List Char) :
    EndsNumber (c :: cs) := by
  rintro d ⟨⟩
  obtain rfl | rfl | rfl := hc <;> decide

/-! ## Numbers

A number is recognised by its first character and ended by the first one that does not belong to it.
-/

/-- A character with which a number starts. -/
def StartsNumber (c : Char) : Prop := isDigit c = true ∨ c = '-'

theorem StartsNumber.ne {c d : Char} (h : StartsNumber c) (hd : isDigit d = false ∧ d ≠ '-') :
    c ≠ d := by
  rintro rfl
  simp [StartsNumber, hd.1, hd.2] at h

theorem StartsNumber.not_blank {c : Char} (h : StartsNumber c) : isBlank c = false := by
  simp only [isBlank, Bool.or_eq_false_iff, beq_eq_false_iff_ne]
  exact ⟨⟨⟨h.ne (by decide), h.ne (by decide)⟩, h.ne (by decide)⟩, h.ne (by decide)⟩

theorem Numeral.WellFormed.exists_cons {n : Numeral} (h : n.WellFormed) :
    ∃ c cs, n.spell = c :: cs ∧ StartsNumber c := by
  unfold Numeral.spell
  cases n.negative with
  | true => exact ⟨'-', _, rfl, .inr rfl⟩
  | false =>
    obtain ⟨c, ds, hwhole⟩ := List.exists_cons_of_ne_nil h.whole.ne_nil
    refine ⟨c, _, by rw [hwhole]; rfl, .inl (h.whole.digit c ?_)⟩
    rw [hwhole]
    exact List.mem_cons_self

/-- A value that starts like a number is one. -/
theorem readValue_number {c : Char} (h : StartsNumber c) (bound : Nat) (cs : List Char) :
    readValue (bound + 1) (c :: cs) =
      (readNumber (c :: cs)).map fun (s, rest) => (.number s, rest) := by
  rw [readValue, skipBlanks_cons h.not_blank]
  -- the other alternatives start with a letter, a quote, a bracket or a brace
  split
  case h_7 => rfl
  all_goals
    rename_i heq
    exact absurd (List.cons.inj heq).1 (h.ne (by decide))

theorem readBack_number {n : Numeral} (h : n.WellFormed) : ReadBack (number n.spell) := by
  obtain ⟨c, cs, hspell, hfirst⟩ := h.exists_cons
  refine ⟨⟨c, cs, hspell, hfirst.not_blank, hfirst.ne (by decide)⟩, fun bound rest hbound hrest => ?_⟩
  obtain _ | bound := bound
  · simp [render, hspell] at hbound
  have hread := Numeral.readNumber_spell h hrest
  rw [hspell] at hread
  rw [render, hspell, List.cons_append, readValue_number hfirst, ← List.cons_append, hread]
  rfl

/-! ## Arrays

Induction on the items: a comma or a bracket ends each of them. -/

theorem renderItems_cons (j : Json) {js : List Json} (hne : js ≠ []) :
    renderItems (j :: js) = render j ++ ',' :: renderItems js :=
  renderItems.eq_3 j js hne

/-- The items of an array are taken off with its bracket. -/
theorem readItems_render {items : List Json} (hne : items ≠ []) (h : ∀ j ∈ items, ReadBack j)
    {bound : Nat} (hbound : (renderItems items).length < bound) (rest : List Char) :
    readItems bound (renderItems items ++ ']' :: rest) = some (items, rest) := by
  induction items generalizing bound with
  | nil => exact absurd rfl hne
  | cons j js ih =>
    have hj := h j List.mem_cons_self
    obtain _ | bound := bound
    · omega
    by_cases hlast : js = []
    · subst hlast
      rw [renderItems] at hbound
      have hread := hj.read bound (']' :: rest) (by omega) (endsNumber_cons (by decide) rest)
      rw [renderItems, readItems]
      simp only [hread]
      rfl
    · rw [renderItems_cons j hlast] at hbound ⊢
      rw [List.length_append, List.length_cons] at hbound
      have hlen := hj.length_pos
      have hread := hj.read bound (',' :: (renderItems js ++ ']' :: rest)) (by omega)
        (endsNumber_cons (by decide) _)
      have hlength : (renderItems js).length < bound := by omega
      have hrest := ih hlast (fun j' hj' => h j' (List.mem_cons_of_mem j hj')) hlength
      rw [List.append_assoc, List.cons_append, readItems]
      simp only [hread, skipBlanks_cons (c := ',') rfl, hrest, Option.map_some]

theorem readBack_array {items : List Json} (h : ∀ j ∈ items, ReadBack j) :
    ReadBack (array items) := by
  refine ⟨⟨'[', _, rfl, by decide⟩, fun bound rest hbound hrest => ?_⟩
  rw [render, List.length_append, List.length_cons, List.length_singleton] at hbound
  obtain _ | bound := bound
  · omega
  rw [render, List.append_assoc, List.singleton_append, List.cons_append, readValue,
    skipBlanks_cons (c := '[') rfl]
  cases items with
  | nil => rfl
  | cons j js =>
    have hlength : (renderItems (j :: js)).length < bound := by omega
    have hread := readItems_render (List.cons_ne_nil j js) h hlength rest
    -- the first item does not start with a bracket
    obtain ⟨c, cs, hrender, hblank, hclose⟩ := (h j List.mem_cons_self).opens
    obtain ⟨tail, hitems⟩ : ∃ tail, renderItems (j :: js) = c :: tail := by
      cases js with
      | nil => exact ⟨cs, hrender⟩
      | cons j' js => exact ⟨_, by rw [renderItems_cons j (List.cons_ne_nil j' js), hrender]; rfl⟩
    rw [hitems, List.cons_append] at hread ⊢
    simp only [skipBlanks_cons hblank]
    split
    · rename_i heq
      exact absurd (List.cons.inj heq).1 hclose
    · rw [hread]
      rfl

/-! ## Objects

The same for members, whose keys end at their closing quotes. -/

theorem renderMembers_cons (key : List Char) (j : Json) {ms : List (List Char × Json)}
    (hne : ms ≠ []) :
    renderMembers ((key, j) :: ms) = '"' :: key ++ '"' :: ':' :: render j ++ ',' :: renderMembers ms :=
  renderMembers.eq_3 key j ms hne

/-- Members whose keys are spelled by `escape`, and whose values are read back. -/
def MembersReadBack (ms : List (List Char × Json)) : Prop :=
  ∀ m ∈ ms, (∃ s, m.1 = escape s) ∧ ReadBack m.2

/-- The members of an object are taken off with its brace. -/
theorem readMembers_render {ms : List (List Char × Json)} (hne : ms ≠ []) (h : MembersReadBack ms)
    {bound : Nat} (hbound : (renderMembers ms).length < bound) (rest : List Char) :
    readMembers bound (renderMembers ms ++ '\x7d' :: rest) = some (ms, rest) := by
  induction ms generalizing bound with
  | nil => exact absurd rfl hne
  | cons m ms ih =>
    obtain ⟨key, j⟩ := m
    obtain ⟨⟨s, hkey⟩, hj⟩ := h (key, j) List.mem_cons_self
    replace hj : ReadBack j := hj
    replace hkey : key = escape s := hkey
    subst hkey
    obtain _ | bound := bound
    · omega
    by_cases hlast : ms = []
    · subst hlast
      rw [renderMembers] at hbound
      simp only [List.length_append, List.length_cons] at hbound
      have hread := hj.read bound ('\x7d' :: rest) (by omega) (endsNumber_cons (by decide) rest)
      rw [renderMembers, readMembers]
      simp only [List.append_assoc, List.cons_append, skipBlanks_cons (c := '"') rfl,
        readSpelling_escape, skipBlanks_cons (c := ':') rfl, hread, skipBlanks_cons (c := '\x7d') rfl]
    · rw [renderMembers_cons (escape s) j hlast] at hbound ⊢
      simp only [List.length_append, List.length_cons] at hbound
      have hread := hj.read bound (',' :: (renderMembers ms ++ '\x7d' :: rest)) (by omega)
        (endsNumber_cons (by decide) _)
      have hlength : (renderMembers ms).length < bound := by omega
      have hrest := ih hlast (fun m hm => h m (List.mem_cons_of_mem _ hm)) hlength
      rw [readMembers]
      simp only [List.append_assoc, List.cons_append, skipBlanks_cons (c := '"') rfl,
        readSpelling_escape, skipBlanks_cons (c := ':') rfl, hread, skipBlanks_cons (c := ',') rfl,
        hrest, Option.map_some]

theorem render_object (ms : List (List Char × Json)) :
    render (object ms) = '\x7b' :: (renderMembers ms ++ ['\x7d']) :=
  rfl

theorem readBack_object {ms : List (List Char × Json)} (h : MembersReadBack ms) :
    ReadBack (object ms) := by
  refine ⟨⟨'\x7b', _, rfl, by decide⟩, fun bound rest hbound hrest => ?_⟩
  rw [render_object, List.length_cons, List.length_append, List.length_singleton] at hbound
  obtain _ | bound := bound
  · omega
  rw [render_object, List.cons_append, List.append_assoc, List.singleton_append, readValue,
    skipBlanks_cons (c := '\x7b') rfl]
  cases ms with
  | nil => rfl
  | cons m ms =>
    have hlength : (renderMembers (m :: ms)).length < bound := by omega
    have hread := readMembers_render (List.cons_ne_nil m ms) h hlength rest
    obtain ⟨key, j⟩ := m
    obtain ⟨tail, hmembers⟩ : ∃ tail, renderMembers ((key, j) :: ms) = '"' :: tail := by
      cases ms with
      | nil => exact ⟨_, rfl⟩
      | cons m ms => exact ⟨_, renderMembers_cons key j (List.cons_ne_nil m ms)⟩
    rw [hmembers, List.cons_append] at hread ⊢
    simp only [skipBlanks_cons (c := '"') rfl]
    show (readMembers bound ('"' :: (tail ++ '\x7d' :: rest))).map _ = _
    rw [hread]
    rfl

/-! ## Whole texts

Induction on the tree. The bound on the recursion of the reader is the length of the text, and every
value takes at least one character. -/

theorem WellSpelled.readBack {j : Json} (h : WellSpelled j) : ReadBack j := by
  induction h with
  | null =>
    refine ⟨⟨'n', _, rfl, by decide⟩, fun bound rest hbound _ => ?_⟩
    obtain _ | bound := bound
    · simp [render] at hbound
    · rfl
  | bool b =>
    refine ⟨by cases b <;> exact ⟨_, _, rfl, by decide⟩, fun bound rest hbound _ => ?_⟩
    obtain _ | bound := bound
    · cases b <;> simp [render] at hbound
    · cases b <;> rfl
  | number hn => exact readBack_number hn
  | string s =>
    refine ⟨⟨'"', _, rfl, by decide⟩, fun bound rest hbound _ => ?_⟩
    obtain _ | bound := bound
    · simp [render] at hbound
    · rw [render, List.append_assoc, List.cons_append, List.singleton_append, readValue,
        skipBlanks_cons (c := '"') rfl]
      simp only [readSpelling_escape, Option.map_some]
  | array _ ih => exact readBack_array ih
  | object hkeys _ ih => exact readBack_object fun m hm => ⟨hkeys m hm, ih m hm⟩

/-- **A text is read back as its tree.** -/
theorem WellSpelled.parsed {j : Json} (h : WellSpelled j) : ofText? j.toText = some j := by
  have hread := h.readBack.read (j.render.length + 1) [] (by omega) fun c hc => nomatch hc
  rw [List.append_nil] at hread
  unfold ofText? toText ofChars?
  rw [String.toList_ofList, hread]
  rfl

end RowStream.Json
