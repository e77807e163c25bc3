import RowStream.Proofs.Numeric.Rounding

/-!
# Widening is exact

Every single precision number is a double precision number. With a hidden bit, its word in double precision is
a linear function of that in single precision. The numbers without one are compared where they stand, at the
least exponent of the narrower format, and with them the first number that has one. So magnitudes keep their
order strictly, from zero to infinity, and what is no number stays none.

* `Binary64.widen` — the word of a magnitude; `Binary64.widen_lt` is its order.
* `Binary64.isNaN_ofBinary32`, `Binary64.key_ofBinary32_inj` — numbers with a sign.
-/

namespace RowStream

namespace Binary64

open Format

/-! ## Words of single precision

A word below the sign is an exponent above a fraction of 23 bits. Everything after this is about
these two fields. -/

/-- The datum of a word that is given by its fields. -/
theorem decode_fields (negative : Bool) {field fraction : Nat} (hfield : field < 256)
    (hfraction : fraction < 2 ^ 23) :
    binary32.decode (negative.toNat * binary32.signWord + (field * 2 ^ 23 + fraction)) =
      if field = 255 then
        if fraction = 0 then .infinite negative else .nan
      else if field = 0 then .finite negative fraction (-149)
      else .finite negative (2 ^ 23 + fraction) (-149 + (field - 1 : Nat)) := by
  have hsign : (negative.toNat * 2147483648 + (field * 8388608 + fraction)) / 2147483648 % 2 =
      negative.toNat := by
    have := Bool.toNat_lt negative
    omega
  have hexponent : (negative.toNat * 2147483648 + (field * 8388608 + fraction)) / 8388608 % 256 =
      field := by omega
  have hrest : (negative.toNat * 2147483648 + (field * 8388608 + fraction)) % 8388608 = fraction := by
    omega
  have hnegative : decide (negative.toNat = 1) = negative := by cases negative <;> rfl
  have hfull : field + 1 = 256 ↔ field = 255 := by omega
  simp only [decode, signWord, binary32, leastExponent, Nat.shiftRight_eq_div_pow, Nat.one_shiftLeft,
    Nat.reducePow, Nat.reduceAdd, hsign, hexponent, hrest, hnegative, hfull]
  rfl

/-- A magnitude is an exponent field above a fraction. -/
theorem exists_fields {m : Nat} (hm : m < binary32.signWord) :
    ∃ field fraction, field < 256 ∧ fraction < 2 ^ 23 ∧ m = field * 2 ^ 23 + fraction := by
  have hsign : binary32.signWord = 2 ^ 31 := by decide
  exact ⟨m / 2 ^ 23, m % 2 ^ 23, by omega, by omega, by omega⟩

/-! ## Magnitudes in double precision

With a hidden bit the fraction moves 29 places up and the exponent grows by a constant. Without one,
the first bit that is set decides the exponent, and numbers like these are rounded from one place,
where they are exact. The first number with a hidden bit can be taken in either way and links the
two cases. -/

/-- The word of a single precision magnitude in double precision. -/
def widen (m : Nat) : Nat := binary64.ofDatum (binary32.decode m)

/-- Up to infinity the sign is kept, and nothing else depends on it. -/
theorem ofDatum_decode (negative : Bool) {m : Nat} (hm : m ≤ binary32.infinityWord) :
    binary64.ofDatum (binary32.decode (negative.toNat * binary32.signWord + m)) =
      widen m + negative.toNat * binary64.signWord := by
  have hword : binary32.infinityWord = 255 * 2 ^ 23 := by decide
  obtain ⟨field, fraction, hfield, hfraction, rfl⟩ :=
    exists_fields (hm.trans_lt (by decide : binary32.infinityWord < binary32.signWord))
  have hpositive := decode_fields false hfield hfraction
  rw [Bool.toNat_false, Nat.zero_mul, Nat.zero_add] at hpositive
  rw [widen, hpositive, decode_fields negative hfield hfraction]
  split
  · rw [if_pos (by omega), if_pos (by omega)]
    cases negative <;> simp [Format.ofDatum]
  · split <;> cases negative <;> simp [Format.ofDatum]

/-- What is no number is the one word of that kind. -/
theorem ofDatum_decode_nan (negative : Bool) {m : Nat} (hm : binary32.infinityWord < m)
    (hsign : m < binary32.signWord) :
    binary64.ofDatum (binary32.decode (negative.toNat * binary32.signWord + m)) =
      binary64.ofDatum .nan := by
  have hword : binary32.infinityWord = 255 * 2 ^ 23 := by decide
  obtain ⟨field, fraction, hfield, hfraction, rfl⟩ := exists_fields hsign
  rw [decode_fields negative hfield hfraction, if_pos (by omega), if_neg (by omega)]

theorem widen_fields {field fraction : Nat} (hfield : field < 256) (hfraction : fraction < 2 ^ 23) :
    widen (field * 2 ^ 23 + fraction) =
      if field = 255 then
        binary64.ofDatum (if fraction = 0 then .infinite false else .nan)
      else if field = 0 then binary64.nearest fraction (-149)
      else binary64.nearest (2 ^ 23 + fraction) (-149 + (field - 1 : Nat)) := by
  have hpositive := decode_fields false hfield hfraction
  rw [Bool.toNat_false, Nat.zero_mul, Nat.zero_add] at hpositive
  rw [widen, hpositive]
  split
  · rfl
  · split <;> rfl

theorem widen_infinityWord : widen binary32.infinityWord = binary64.infinityWord := by decide

/-- With a hidden bit. -/
theorem widen_normal {m : Nat} (hm : 2 ^ 23 ≤ m) (hfinite : m < binary32.infinityWord) :
    widen m = m * 2 ^ 29 + 896 * 2 ^ 52 := by
  have hword : binary32.infinityWord = 255 * 2 ^ 23 := by decide
  obtain ⟨field, fraction, hfield, hfraction, rfl⟩ :=
    exists_fields (hfinite.trans (by decide : binary32.infinityWord < binary32.signWord))
  -- the hidden bit is the highest, so the last place follows from the exponent alone
  have hlog : Nat.log2 (2 ^ 23 + fraction) = 23 := by
    rw [Nat.log2_eq_iff (by omega)]
    omega
  have hplace : binary64.lastPlace (2 ^ 23 + fraction) (-149 + (field - 1 : Nat)) = field - 179 := by
    have hleast : binary64.leastExponent = -1074 := by decide
    have hbits : binary64.fractionBits = 52 := rfl
    unfold lastPlace
    omega
  have hreading : binary64.reading (2 ^ 23 + fraction) (-149 + (field - 1 : Nat)) =
      (field * 2 ^ 23 + fraction) * 2 ^ 29 + 896 * 2 ^ 52 := by
    have hleast : binary64.leastExponent = -1074 := by decide
    have hbits : binary64.fractionBits = 52 := rfl
    have hleft : (-149 + (field - 1 : Nat) - (field - 179) : Int) = 29 := by omega
    have hstep : ((field : Int) - 179 - -1074).toNat = field + 895 := by omega
    rw [reading, hplace, hleft, scale_of_nonneg (by decide), hleast, hbits, hstep]
    show (field + 895) * 2 ^ 52 + (2 ^ 23 + fraction) * 2 ^ 29 = _
    ring
  have hinfinity : binary64.infinityWord = 2047 * 2 ^ 52 := by decide
  rw [widen_fields hfield hfraction, if_neg (by omega), if_neg (by omega), nearest_eq _ (by omega),
    hreading]
  omega

/-- Without a hidden bit, and with the first one that is set. -/
theorem widen_subnormal {m : Nat} (hm : m ≤ 2 ^ 23) : widen m = binary64.nearest m (-149) := by
  obtain hlt | rfl := hm.lt_or_eq
  · have hfields := widen_fields (by decide : 0 < 256) hlt
    rwa [Nat.zero_mul, Nat.zero_add] at hfields
  · decide

/-- Few digits are not rounded at the least exponent of the narrower format. -/
theorem nearest_lt_nearest {m n : Nat} (h : m < n) (hn : n ≤ 2 ^ 23) :
    binary64.nearest m (-149) < binary64.nearest n (-149) := by
  have hnzero : n ≠ 0 := by omega
  -- zero is read by a case of its own, and nothing here is cut off at infinity
  have hbelow : binary64.reading n (-149) < binary64.infinityWord :=
    (reading_mono (by decide) hn (-149)).trans_lt (by decide)
  rw [nearest_eq _ hnzero, min_eq_left hbelow.le]
  by_cases hm : m = 0
  · have hpositive : 0 < binary64.reading 1 (-149) := by decide
    rw [hm, nearest_zero]
    exact hpositive.trans_le (reading_mono hnzero (by omega) (-149))
  · -- the last place is below all digits, so different numbers have different readings
    have hlog : Nat.log2 m < 52 := (Nat.log2_lt hm).2 (by omega)
    have hexact : binary64.lastPlace m (-149) ≤ -149 := by
      have hleast : binary64.leastExponent ≤ -149 := by decide
      have hbits : binary64.fractionBits = 52 := rfl
      unfold lastPlace
      omega
    rw [nearest_eq _ hm]
    exact (min_le_left _ _).trans_lt (reading_lt_reading h hexact)

theorem widen_le_infinityWord {m : Nat} (hm : m ≤ binary32.infinityWord) :
    widen m ≤ binary64.infinityWord := by
  obtain hlt | rfl := hm.lt_or_eq
  · obtain hsub | hnormal := Nat.le_total m (2 ^ 23)
    · rw [widen_subnormal hsub]
      exact nearest_le_infinityWord _ _ _
    · have hword : binary32.infinityWord = 255 * 2 ^ 23 := by decide
      have hinfinity : binary64.infinityWord = 2047 * 2 ^ 52 := by decide
      rw [widen_normal hnormal hlt]
      omega
  · exact widen_infinityWord.le

/-- **Magnitudes keep their order**, each below the next one. -/
theorem widen_lt {m n : Nat} (h : m < n) (hn : n ≤ binary32.infinityWord) : widen m < widen n := by
  have hword : binary32.infinityWord = 255 * 2 ^ 23 := by decide
  have hinfinity : binary64.infinityWord = 2047 * 2 ^ 52 := by decide
  have hsubnormal {m n : Nat} (h : m < n) (hn : n ≤ 2 ^ 23) : widen m < widen n := by
    rw [widen_subnormal (h.le.trans hn), widen_subnormal hn]
    exact nearest_lt_nearest h hn
  have hnormal {m : Nat} (hm : 2 ^ 23 ≤ m) (h : m < n) : widen m < widen n := by
    obtain hlt | rfl := hn.lt_or_eq
    · rw [widen_normal hm (h.trans hlt), widen_normal (hm.trans h.le) hlt]
      omega
    · rw [widen_normal hm h, widen_infinityWord]
      omega
  -- the first number with a hidden bit belongs to both cases and links them
  obtain hbelow | habove := Nat.lt_or_ge m (2 ^ 23)
  · obtain hle | hlt := le_or_gt n (2 ^ 23)
    · exact hsubnormal h hle
    · exact (hsubnormal hbelow le_rfl).trans (hnormal le_rfl hlt)
  · exact hnormal habove h

theorem widen_eq_zero_iff {m : Nat} (hm : m ≤ binary32.infinityWord) : widen m = 0 ↔ m = 0 := by
  have hzero : widen 0 = 0 := by decide
  refine ⟨fun h => ?_, fun h => by rw [h, hzero]⟩
  by_contra hne
  have hlt := widen_lt (Nat.pos_of_ne_zero hne) hm
  omega

/-- Different magnitudes have different words. -/
theorem widen_inj {m n : Nat} (hm : m ≤ binary32.infinityWord) (hn : n ≤ binary32.infinityWord) :
    widen m = widen n ↔ m = n := by
  refine ⟨fun h => ?_, fun h => by rw [h]⟩
  obtain hlt | heq | hlt := Nat.lt_trichotomy m n
  · exact absurd h (widen_lt hlt hn).ne
  · exact heq
  · exact absurd h (widen_lt hlt hm).ne'

/-! ## Numbers with a sign

A sign is kept, so that keys of numbers are equal in double precision only if their magnitudes are,
and a NaN has no sign at all. -/

/-- A single precision word is a sign above a magnitude. -/
theorem exists_sign (x : Binary32) : ∃ negative : Bool,
    x.bits.toNat = negative.toNat * binary32.signWord + x.magnitude ∧
      x.key = if negative then -(x.magnitude : Int) else x.magnitude := by
  have hbits := x.bits.toNat_lt
  have hsign : binary32.signWord = 2 ^ 31 := by decide
  refine ⟨decide (binary32.signWord ≤ x.bits.toNat), ?_, ?_⟩
  · unfold Binary32.magnitude
    rw [hsign]
    by_cases hnegative : 2 ^ 31 ≤ x.bits.toNat
    · rw [decide_eq_true hnegative, Bool.toNat_true]
      omega
    · rw [decide_eq_false hnegative, Bool.toNat_false]
      omega
  · unfold Binary32.key
    by_cases hnegative : binary32.signWord ≤ x.bits.toNat <;> simp [hnegative]

/-- A word of a sign and a magnitude. -/
theorem magnitude_key_toUInt64 (negative : Bool) {m : Nat} (hm : m < binary64.signWord) :
    let x : Binary64 := ⟨(m + negative.toNat * binary64.signWord).toUInt64⟩
    x.magnitude = m ∧ x.key = if negative then -(m : Int) else m := by
  intro x
  have hsign : binary64.signWord = 2 ^ 63 := by decide
  have hbits : x.bits.toNat = m + negative.toNat * binary64.signWord := by
    show (m + negative.toNat * binary64.signWord).toUInt64.toNat = _
    rw [Nat.toUInt64_eq, UInt64.toNat_ofNat', Nat.mod_eq_of_lt]
    cases negative <;> simp [hsign] at hm ⊢ <;> omega
  have hmagnitude : x.magnitude = m := by
    unfold magnitude
    rw [hbits, Nat.add_mul_mod_self_right, Nat.mod_eq_of_lt hm]
  refine ⟨hmagnitude, ?_⟩
  unfold key
  rw [hmagnitude, hbits]
  cases negative <;> simp [hm]

theorem le_infinityWord_of_isNaN {x : Binary32} (h : x.isNaN = false) :
    x.magnitude ≤ binary32.infinityWord := by
  unfold Binary32.isNaN at h
  rw [decide_eq_false_iff_not] at h
  omega

/-- What is a number keeps its sign. -/
theorem magnitude_key_ofBinary32 {x : Binary32} (h : x.isNaN = false) : ∃ negative : Bool,
    (x.key = if negative then -(x.magnitude : Int) else x.magnitude) ∧
      (ofBinary32 x).magnitude = widen x.magnitude ∧
      (ofBinary32 x).key = if negative then -(widen x.magnitude : Int) else widen x.magnitude := by
  obtain ⟨negative, hbits, hkey⟩ := exists_sign x
  have hmagnitude := le_infinityWord_of_isNaN h
  have hword : widen x.magnitude < binary64.signWord :=
    (widen_le_infinityWord hmagnitude).trans_lt (by decide)
  have hwide : ofBinary32 x = ⟨(widen x.magnitude + negative.toNat * binary64.signWord).toUInt64⟩ := by
    rw [← ofDatum_decode negative hmagnitude, ← hbits]
    rfl
  rw [hwide]
  exact ⟨negative, hkey, magnitude_key_toUInt64 negative hword⟩

/-- **What is no number stays none**, and no number becomes one. -/
theorem isNaN_ofBinary32 (x : Binary32) : (ofBinary32 x).isNaN = x.isNaN := by
  cases h : x.isNaN with
  | false =>
    obtain ⟨-, -, hmagnitude, -⟩ := magnitude_key_ofBinary32 h
    unfold isNaN
    rw [hmagnitude, decide_eq_false_iff_not, Nat.not_lt]
    exact widen_le_infinityWord (le_infinityWord_of_isNaN h)
  | true =>
    obtain ⟨negative, hbits, -⟩ := exists_sign x
    have hsign : x.magnitude < binary32.signWord := Nat.mod_lt _ (by decide)
    have hwide : ofBinary32 x = ofDatum .nan := by
      unfold ofBinary32 ofDatum Binary32.datum
      rw [hbits, ofDatum_decode_nan negative (of_decide_eq_true h) hsign]
    rw [hwide]
    decide

/-- **Widening is exact**: numbers are equal in double precision only if they were so before. -/
theorem key_ofBinary32_inj {x y : Binary32} (hx : x.isNaN = false) (hy : y.isNaN = false) :
    (ofBinary32 x).key = (ofBinary32 y).key ↔ x.key = y.key := by
  obtain ⟨xneg, hxkey, -, hxwide⟩ := magnitude_key_ofBinary32 hx
  obtain ⟨yneg, hykey, -, hywide⟩ := magnitude_key_ofBinary32 hy
  have hxm := le_infinityWord_of_isNaN hx
  have hym := le_infinityWord_of_isNaN hy
  have hsame := widen_inj hxm hym
  have hxzero := widen_eq_zero_iff hxm
  have hyzero := widen_eq_zero_iff hym
  rw [hxkey, hykey, hxwide, hywide]
  -- with two signs, only the zeros are equal
  cases xneg <;> cases yneg <;> simp <;> omega

end Binary64

end RowStream
