import RowStream.Proofs.Expr.History

/-!
# Quoted names

A name that would be read as something else in a query is put between quotes, and every quote in it
is written twice. So a quote inside never ends the name: what was written can be read back, and no two
names are written alike.

* `binSearchContains_iff` — halving finds what is in an ordered array; `Identifier.isKeyword_iff` for the
  keywords.
* `Identifier.Plain` — the names that stand as they are; `Identifier.isPlain_iff` says that the check finds
  them.
* `Identifier.unquote` — reads a written name; `Identifier.unquote_quote`.
* `Identifier.even_of_run` — quotes between the quotes come in pairs.
* `Evaluator.eval_quoteIdent` — the function of the expression language.
-/

namespace RowStream

/-! ## Looking up by halving

Keywords are looked up in an ordered array by halving. Correctness is the usual invariant, that a
name that is there stands between the two places; the order of the table is checked once, by
evaluation. -/

section Halving

variable {α : Type} [Ord α] [Std.TransOrd α] {words : Array α}

/-- No element is less than another, and so stands before it, and is not. -/
theorem not_lt_of_ordered (hordered : words.toList.Pairwise fun a b => compare a b = .lt) {i j : Nat}
    (hi : i < words.size) (hj : j < words.size) (hij : i ≤ j) : compare words[j] words[i] ≠ .lt := by
  obtain rfl | hij := Nat.eq_or_lt_of_le hij
  · simp
  · have hlt : compare words[i] words[j] = .lt := List.pairwise_iff_getElem.1 hordered i j hi hj hij
    intro hgt
    have hself : compare words[i] words[i] = .lt := Std.TransCmp.lt_trans hlt hgt
    simp at hself

variable [Std.LawfulEqOrd α]

/-- **Halving** finds, between two places of an ordered array, what stands there. -/
theorem binSearchAux_iff (hordered : words.toList.Pairwise fun a b => compare a b = .lt) (word : α)
    (lo : Fin (words.size + 1)) (hi : Fin words.size) (h : lo.1 ≤ hi.1) :
    Array.binSearchAux (fun a b => compare a b == .lt) Option.isSome words word lo hi h = true ↔
      ∃ i, ∃ hsize : i < words.size, lo.1 ≤ i ∧ i ≤ hi.1 ∧ words[i] = word := by
  fun_induction Array.binSearchAux with
  | case1 lo hi h m middle hless hmore _ ih =>
    -- the middle is less, so the word can only stand behind it
    refine ih.trans ⟨fun ⟨i, hsize, hlo, hhi, heq⟩ => ⟨i, hsize, ?_, hhi, heq⟩, ?_⟩
    · exact Nat.le_trans (by omega : lo.1 ≤ m + 1) hlo
    rintro ⟨i, hsize, hlo, hhi, rfl⟩
    refine ⟨i, hsize, Nat.lt_of_not_le fun hle => ?_, hhi, rfl⟩
    exact not_lt_of_ordered hordered hsize (by omega) hle (beq_iff_eq.1 hless)
  | case2 lo hi h m middle hless hend _ =>
    refine iff_of_false nofun ?_
    rintro ⟨i, hsize, hlo, hhi, rfl⟩
    exact not_lt_of_ordered hordered hsize (by omega) (by omega) (beq_iff_eq.1 hless)
  | case3 lo hi h m middle _ hgreater hend _ =>
    refine iff_of_false nofun ?_
    rintro ⟨i, hsize, hlo, hhi, rfl⟩
    exact not_lt_of_ordered hordered (by omega) hsize (by omega) (beq_iff_eq.1 hgreater)
  | case4 lo hi h m middle _ hgreater hmore _ ih =>
    -- the middle is greater, so the word can only stand before it
    refine ih.trans ⟨fun ⟨i, hsize, hlo, hhi, heq⟩ => ⟨i, hsize, hlo, ?_, heq⟩, ?_⟩
    · exact Nat.le_trans hhi (by omega : m - 1 ≤ hi.1)
    rintro ⟨i, hsize, hlo, hhi, rfl⟩
    refine ⟨i, hsize, hlo, Nat.le_sub_one_of_lt (Nat.lt_of_not_le fun hle => ?_), rfl⟩
    exact not_lt_of_ordered hordered (by omega) hsize hle (beq_iff_eq.1 hgreater)
  | case5 lo hi h m middle hless hgreater _ =>
    have heq : compare middle word = .eq := by
      cases hcompare : compare middle word with
      | lt => simp [hcompare] at hless
      | gt => simp [Std.OrientedCmp.lt_of_gt hcompare] at hgreater
      | eq => rfl
    exact iff_of_true rfl ⟨m, by omega, by omega, by omega, Std.LawfulEqCmp.eq_of_compare heq⟩

/-- In an ordered array, halving finds all elements and nothing else. -/
theorem binSearchContains_iff (hordered : words.toList.Pairwise fun a b => compare a b = .lt) (word : α) :
    words.binSearchContains word (fun a b => compare a b == .lt) = true ↔ word ∈ words := by
  rw [Array.mem_iff_getElem]
  unfold Array.binSearchContains
  by_cases hsize : 0 < words.size
  · have hlast : words.size - 1 < words.size := Nat.sub_one_lt_of_lt hsize
    simp only [hsize, hlast, Nat.zero_le, dif_pos, if_pos, binSearchAux_iff hordered,
      true_and]
    exact ⟨fun ⟨i, hi, _, heq⟩ => ⟨i, hi, heq⟩, fun ⟨i, hi, heq⟩ => ⟨i, hi, Nat.le_sub_one_of_lt hi, heq⟩⟩
  · rw [dif_neg hsize]
    exact iff_of_false nofun fun ⟨i, hi, _⟩ => hsize (Nat.zero_lt_of_lt hi)

end Halving

namespace Identifier

/-! ## Plain names

Which names need no quotes, character by character. -/

theorem ordered_keywords : keywords.toList.Pairwise fun a b => compare a b = .lt := by
  decide +kernel

theorem isKeyword_iff (word : String) : isKeyword word = true ↔ word ∈ keywords :=
  binSearchContains_iff ordered_keywords word

/-- A name of lower-case letters, digits and underscores that does not start with a digit and is no
keyword. -/
def Plain (name : String) : Prop :=
  (∃ c rest, name.toList = c :: rest ∧ (c.isLower ∨ c = '_') ∧
    ∀ d ∈ rest, d.isLower ∨ d.isDigit ∨ d = '_') ∧
  name ∉ keywords

theorem isStart_iff (c : Char) : isStart c = true ↔ c.isLower ∨ c = '_' := by
  unfold isStart Char.isLower
  simp [Char.le_def]

theorem isPart_iff (c : Char) : isPart c = true ↔ c.isLower ∨ c.isDigit ∨ c = '_' := by
  unfold isPart Char.isDigit
  rw [Bool.or_eq_true, isStart_iff]
  simp [Char.le_def]
  grind

theorem isPlain_iff (name : String) : isPlain name = true ↔ Plain name := by
  unfold isPlain Plain
  cases name.toList with
  | nil => simp
  | cons c rest =>
    simp only [Bool.and_eq_true, isStart_iff, List.all_eq_true, isPart_iff, Bool.not_eq_true',
      ← Bool.not_eq_true, isKeyword_iff]
    constructor
    · rintro ⟨⟨hc, hrest⟩, hkeyword⟩
      exact ⟨⟨c, rest, rfl, hc, hrest⟩, hkeyword⟩
    · rintro ⟨⟨_, _, ⟨⟩, hc, hrest⟩, hkeyword⟩
      exact ⟨⟨hc, hrest⟩, hkeyword⟩

/-- A plain name has no quotes in it. -/
theorem Plain.quote_not_mem {name : String} (h : Plain name) : '"' ∉ name.toList := by
  obtain ⟨⟨c, rest, hname, hc, hrest⟩, -⟩ := h
  rw [hname, List.mem_cons, not_or]
  refine ⟨?_, fun hmem => ?_⟩
  · rintro rfl
    exact absurd hc (by decide)
  · exact absurd (hrest _ hmem) (by decide)

/-! ## Quoted names

Inside the quotes every quote is doubled, so that undoubling takes the name apart again, by
induction on its characters. Everything else follows from that: names are written differently, and
only plain ones as they are. -/

theorem quote_of_plain {name : String} (h : Plain name) : quote name = name :=
  if_pos ((isPlain_iff name).2 h)

theorem quote_of_not_plain {name : String} (h : ¬Plain name) :
    quote name = .ofList (quotedChars name) :=
  if_neg (mt (isPlain_iff name).1 h)

/-- Makes one quote of two. -/
def undouble : List Char → List Char
  | '"' :: '"' :: rest => '"' :: undouble rest
  | c :: rest => c :: undouble rest
  | [] => []

/-- Takes the quotes off a name, if it has any, and makes one of each two between them. -/
def unquote (text : String) : String :=
  match text.toList with
  | '"' :: inner => .ofList (undouble inner.dropLast)
  | _ => text

theorem undouble_cons_of_ne {c : Char} (h : c ≠ '"') (rest : List Char) :
    undouble (c :: rest) = c :: undouble rest := by
  rw [undouble.eq_def]
  grind

theorem undouble_flatMap (cs : List Char) : undouble (cs.flatMap escapeChar) = cs := by
  induction cs with
  | nil => rfl
  | cons c cs ih =>
    rw [List.flatMap_cons]
    by_cases hc : c = '"'
    · subst hc
      exact congrArg ('"' :: ·) ih
    · rw [escapeChar, if_neg hc, List.singleton_append, undouble_cons_of_ne hc, ih]

/-- **What was written can be read back.** -/
theorem unquote_quote (name : String) : unquote (quote name) = name := by
  by_cases hplain : Plain name
  · rw [quote_of_plain hplain]
    unfold unquote
    split
    · next inner hname => exact absurd (hname ▸ List.mem_cons_self) hplain.quote_not_mem
    · rfl
  · rw [quote_of_not_plain hplain]
    unfold unquote quotedChars
    simp [undouble_flatMap]

theorem quote_injective {a b : String} (h : quote a = quote b) : a = b := by
  rw [← unquote_quote a, h, unquote_quote]

theorem length_le_flatMap (cs : List Char) : cs.length ≤ (cs.flatMap escapeChar).length := by
  induction cs with
  | nil => exact Nat.le_refl 0
  | cons c cs ih =>
    have hc : 1 ≤ (escapeChar c).length := by
      unfold escapeChar
      split <;> simp
    rw [List.flatMap_cons, List.length_append, List.length_cons]
    omega

/-- Only plain names are written as they are: quotes make a name longer. -/
theorem quote_eq_self_iff (name : String) : quote name = name ↔ Plain name := by
  refine ⟨fun h => ?_, quote_of_plain⟩
  by_cases hplain : Plain name
  · exact hplain
  · rw [quote_of_not_plain hplain] at h
    have hlength : (quotedChars name).length = name.toList.length := by
      rw [← String.toList_ofList (l := quotedChars name), h]
    have hle := length_le_flatMap name.toList
    simp only [quotedChars, List.length_append, List.length_cons, List.length_nil] at hlength
    omega

/-- **Quotes come in pairs**: between something that is no quote, or the start, and something that is none, or
the end, there is an even number of them. -/
theorem even_of_run {cs before after : List Char} {n : Nat}
    (h : cs.flatMap escapeChar = before ++ List.replicate n '"' ++ after)
    (hbefore : before.getLast? ≠ some '"') (hafter : after.head? ≠ some '"') : n % 2 = 0 := by
  -- induction on the characters; what is written for one lies in front of the run, or begins it
  induction cs generalizing before n with
  | nil =>
    obtain ⟨h, -⟩ := List.append_eq_nil_iff.1 h.symm
    rw [(List.replicate_eq_nil_iff _).1 (List.append_eq_nil_iff.1 h).2]
  | cons c cs ih =>
    rw [List.flatMap_cons] at h
    by_cases hc : c = '"'
    · subst hc
      replace h : '"' :: '"' :: cs.flatMap escapeChar = before ++ List.replicate n '"' ++ after := h
      match before with
      | [] =>
        match n with
        | 0 => rfl
        | 1 =>
          obtain ⟨-, h⟩ := List.cons.inj h
          exact absurd (congrArg List.head? h).symm hafter
        | n + 2 =>
          obtain ⟨-, h⟩ := List.cons.inj h
          obtain ⟨-, h⟩ := List.cons.inj h
          rw [Nat.add_mod_right]
          exact @ih [] n h nofun
      | [d] =>
        obtain ⟨rfl, -⟩ := List.cons.inj h
        exact absurd rfl hbefore
      | d :: d' :: before =>
        obtain ⟨-, h⟩ := List.cons.inj h
        obtain ⟨-, h⟩ := List.cons.inj h
        refine ih h fun hlast => hbefore ?_
        rw [List.getLast?_cons, List.getLast?_cons, hlast]
        rfl
    · rw [escapeChar, if_neg hc, List.singleton_append] at h
      match before with
      | [] =>
        match n with
        | 0 => rfl
        | n + 1 => exact absurd (List.cons.inj h).1 hc
      | d :: before =>
        obtain ⟨-, h⟩ := List.cons.inj h
        refine ih h fun hlast => hbefore ?_
        rw [List.getLast?_cons, hlast]
        rfl

end Identifier

namespace Evaluator

/-- **Quoted names.** Where memory is not limited, whatever evaluators did before, a name is written as it is
exactly if it is plain. Any other name is put between quotes with the quotes in it doubled. Taking the quotes off
gives the name back, no two names are written alike, and between the quotes each run of quotes is even. -/
theorem eval_quoteIdent (name : String) :
    let written := Identifier.quote name
    (∀ (e : Expr) (row : Row), e.value row = .ok (.text name) → ∀ (s : Scratch) (b : Budget), b.Unlimited →
      (((Expr.call .quoteIdent [e]).eval row).run (s, b)).1 = .ok (.text written)) ∧
    (written = name ↔ Identifier.Plain name) ∧
    (¬Identifier.Plain name → written =
      .ofList ('"' :: name.toList.flatMap (fun c => if c = '"' then ['"', '"'] else [c]) ++ ['"'])) ∧
    Identifier.unquote written = name ∧
    (∀ other, Identifier.quote other = written → other = name) ∧
    ∀ inner, written = .ofList ('"' :: inner ++ ['"']) → ∀ before n after,
      inner = before ++ List.replicate n '"' ++ after → before.getLast? ≠ some '"' →
        after.head? ≠ some '"' → n % 2 = 0 := by
  intro written
  refine ⟨fun e row hname s b hb => ?_, Identifier.quote_eq_self_iff name, Identifier.quote_of_not_plain,
    Identifier.unquote_quote name, fun other => Identifier.quote_injective, ?_⟩
  · have hvalue : (Expr.call .quoteIdent [e]).value row = .ok (.text written) := by
      rw [Expr.value, Expr.values, hname]
      rfl
    rw [((Expr.call .quoteIdent [e]).yields_eval row s).run_eq_of_unlimited hb, hvalue]
    rfl
  · intro inner hinner before n after hrun hbefore hafter
    -- a plain name has no quotes at all, any other one has them doubled between the outer two
    by_cases hplain : Identifier.Plain name
    · rw [show written = name from Identifier.quote_of_plain hplain] at hinner
      refine absurd ?_ hplain.quote_not_mem
      rw [hinner, String.toList_ofList]
      exact List.mem_cons_self
    · rw [show written = _ from Identifier.quote_of_not_plain hplain, String.ofList_inj] at hinner
      have hchars : name.toList.flatMap Identifier.escapeChar = inner :=
        List.append_cancel_right (List.cons.inj hinner).2
      exact Identifier.even_of_run (hchars.trans hrun) hbefore hafter

/-- A name that tries to end its quotes, in an evaluator that was refused memory in the middle of another. -/
theorem eval_quoteIdent_injection :
    let name := "a\"; drop"
    let written := "\"a\"\"; drop\""
    let refused : Call := .eval (.call .quoteIdent [.literal (.text "A")]) []
    let buffer := after "filter" [(refused, ⟨.new "memory" 0, .new .nil none⟩)]
    let b := Budget.unlimited "memory" .nil
    b.Unlimited ∧ ¬Identifier.Plain name ∧
      (((Expr.call .quoteIdent [.column 0]).eval [.text name]).run (buffer, b)).1 = .ok (.text written) ∧
      Identifier.unquote written = name ∧
      ∃ before n after, written = .ofList ('"' :: (before ++ List.replicate n '"' ++ after) ++ ['"']) ∧
        0 < n ∧ before.getLast? ≠ some '"' ∧ after.head? ≠ some '"' ∧ n % 2 = 0 := by
  intro name written refused buffer b
  have hb : b.Unlimited := Budget.unlimited_unlimited "memory" .nil
  have hwritten : Identifier.quote name = written := by decide +kernel
  obtain ⟨heval, hplain, -, hread, -, hruns⟩ := eval_quoteIdent name
  rw [hwritten] at heval hplain hread hruns
  have hinner : written = .ofList ('"' :: (['a'] ++ List.replicate 2 '"' ++ "; drop".toList) ++ ['"']) := by
    decide +kernel
  have hbefore : ['a'].getLast? ≠ some '"' := by decide
  have hafter : "; drop".toList.head? ≠ some '"' := by decide +kernel
  refine ⟨hb, mt hplain.2 (by decide +kernel), heval (.column 0) [.text name] rfl buffer b hb, hread, ?_⟩
  exact ⟨_, 2, _, hinner, Nat.two_pos, hbefore, hafter, hruns _ hinner _ _ _ rfl hbefore hafter⟩

end Evaluator

end RowStream
