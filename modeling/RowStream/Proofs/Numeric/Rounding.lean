import Mathlib.Data.Nat.Log
import Mathlib.Order.Lattice
import Mathlib.Tactic.Ring
import RowStream.Numeric.Binary

/-!
# Rounding keeps the order

A number that is rounded to a format may meet another one there, but it does not overtake it. The
rounding first chooses the last place of the result and then scales the significand to it, so there
are two cases: with one place for both numbers the scaling decides, with two places the one that is
coarser has a full significand there, and that is more than the finer one can reach.

* `halveEven_mono`, `scale_mono` — at one place.
* `Format.nearest_mono` — any format, any exponent.
* `Binary64.key_ofInt_mono` — integers in double precision; none of them is a NaN.
-/

namespace RowStream

namespace Format

/-! ## Dividing by a power of two

Rounding to an even half is the quotient, or one more. It is monotone, since numbers with one
quotient are rounded up from the greater remainders on. -/

theorem halveEven_eq (n k : Nat) : halveEven n k = n / 2 ^ k +
    if 2 * (n % 2 ^ k) > 2 ^ k ∨ (2 * (n % 2 ^ k) = 2 ^ k ∧ n / 2 ^ k % 2 = 1) then 1 else 0 := by
  simp only [halveEven, Nat.shiftRight_eq_div_pow, Nat.one_shiftLeft]
  split <;> rfl

theorem div_le_halveEven (n k : Nat) : n / 2 ^ k ≤ halveEven n k := by
  rw [halveEven_eq]
  exact Nat.le_add_right _ _

theorem halveEven_le_succ (n k : Nat) : halveEven n k ≤ n / 2 ^ k + 1 := by
  rw [halveEven_eq]
  split <;> omega

theorem halveEven_mono {m n : Nat} (h : m ≤ n) (k : Nat) : halveEven m k ≤ halveEven n k := by
  have hdiv : m / 2 ^ k ≤ n / 2 ^ k := Nat.div_le_div_right h
  obtain hlt | heq := hdiv.lt_or_eq
  · calc halveEven m k
      _ ≤ m / 2 ^ k + 1 := halveEven_le_succ m k
      _ ≤ n / 2 ^ k := hlt
      _ ≤ halveEven n k := div_le_halveEven n k
  · -- between the same two neighbours the remainder decides
    have hmod : m % 2 ^ k ≤ n % 2 ^ k := by
      have hm := Nat.div_add_mod m (2 ^ k)
      have hn := Nat.div_add_mod n (2 ^ k)
      rw [heq] at hm
      omega
    rw [halveEven_eq, halveEven_eq, heq]
    split <;> split <;> omega

theorem halveEven_mul_pow (c k : Nat) : halveEven (c * 2 ^ k) k = c := by
  have hpos : 0 < 2 ^ k := Nat.two_pow_pos k
  rw [halveEven_eq, Nat.mul_div_cancel _ hpos, Nat.mul_mod_left, if_neg (by omega)]
  rfl

/-! ## Scaling to a place

A significand is moved to the last place of its format: to the left without loss, to the right with
one rounding. The bounds say how many digits it has there. -/

/-- `n * 2 ^ e` as a natural number: exact to the left, to the nearest one to the right. -/
def scale (n : Nat) (e : Int) : Nat := if 0 ≤ e then n <<< e.toNat else halveEven n (-e).toNat

theorem scale_of_nonneg {e : Int} (h : 0 ≤ e) (n : Nat) : scale n e = n * 2 ^ e.toNat := by
  rw [scale, if_pos h, Nat.shiftLeft_eq]

theorem scale_of_neg {e : Int} (h : e < 0) (n : Nat) : scale n e = halveEven n (-e).toNat := by
  rw [scale, if_neg (by omega)]

theorem scale_mono {m n : Nat} (h : m ≤ n) (e : Int) : scale m e ≤ scale n e := by
  by_cases he : 0 ≤ e
  · rw [scale_of_nonneg he, scale_of_nonneg he]
    exact Nat.mul_le_mul_right _ h
  · rw [scale_of_neg (by omega), scale_of_neg (by omega)]
    exact halveEven_mono h _

/-- A number below `2 ^ j` is at most as large when scaled. -/
theorem scale_le_two_pow {n j b : Nat} {e : Int} (hn : n < 2 ^ j) (hb : j + e ≤ b) :
    scale n e ≤ 2 ^ b := by
  by_cases he : 0 ≤ e
  · rw [scale_of_nonneg he]
    calc n * 2 ^ e.toNat
      _ ≤ 2 ^ j * 2 ^ e.toNat := Nat.mul_le_mul_right _ hn.le
      _ = 2 ^ (j + e.toNat) := (Nat.pow_add ..).symm
      _ ≤ 2 ^ b := Nat.pow_le_pow_right Nat.two_pos (by omega)
  · have hwhole : n ≤ 2 ^ b * 2 ^ (-e).toNat := by
      rw [← Nat.pow_add]
      exact hn.le.trans (Nat.pow_le_pow_right Nat.two_pos (by omega))
    rw [scale_of_neg (by omega)]
    exact (halveEven_mono hwhole _).trans_eq (halveEven_mul_pow ..)

/-- To the left the bound is strict. -/
theorem scale_lt_two_pow {n j b : Nat} {e : Int} (hn : n < 2 ^ j) (he : 0 ≤ e) (hb : j + e ≤ b) :
    scale n e < 2 ^ b := by
  rw [scale_of_nonneg he]
  calc n * 2 ^ e.toNat
    _ < 2 ^ j * 2 ^ e.toNat := Nat.mul_lt_mul_of_pos_right hn (Nat.two_pow_pos _)
    _ = 2 ^ (j + e.toNat) := (Nat.pow_add ..).symm
    _ ≤ 2 ^ b := Nat.pow_le_pow_right Nat.two_pos (by omega)

/-- A number from `2 ^ j` on is at least as large when scaled. -/
theorem two_pow_le_scale {n j b : Nat} {e : Int} (hn : 2 ^ j ≤ n) (hb : b ≤ j + e) :
    2 ^ b ≤ scale n e := by
  by_cases he : 0 ≤ e
  · rw [scale_of_nonneg he]
    calc 2 ^ b
      _ ≤ 2 ^ (j + e.toNat) := Nat.pow_le_pow_right Nat.two_pos (by omega)
      _ = 2 ^ j * 2 ^ e.toNat := Nat.pow_add ..
      _ ≤ n * 2 ^ e.toNat := Nat.mul_le_mul_right _ hn
  · have hwhole : 2 ^ b * 2 ^ (-e).toNat ≤ n := by
      rw [← Nat.pow_add]
      exact (Nat.pow_le_pow_right Nat.two_pos (by omega)).trans hn
    rw [scale_of_neg (by omega)]
    exact (halveEven_mul_pow ..).symm.trans_le (halveEven_mono hwhole _)

/-! ## The nearest word

The word of a number is its scaled significand with the last place in the bits above. With one last
place for two numbers the significands decide. With two, the significand at the coarser place is
full, and one step of the place is worth a full significand, which the finer one does not reach. -/

variable (f : Format)

/-- The last place of the result of a rounding. -/
def lastPlace (significand : Nat) (exponent : Int) : Int :=
  max (exponent + Nat.log2 significand - f.fractionBits) f.leastExponent

/-- The word of a number that is not zero, before it is cut off at infinity. -/
def reading (significand : Nat) (exponent : Int) : Nat :=
  (f.lastPlace significand exponent - f.leastExponent).toNat * 2 ^ f.fractionBits +
    scale significand (exponent - f.lastPlace significand exponent)

theorem nearest_zero (exponent : Int) : f.nearest 0 exponent = 0 := rfl

theorem nearest_eq {significand : Nat} (h : significand ≠ 0) (exponent : Int) :
    f.nearest significand exponent = min (f.reading significand exponent) f.infinityWord := by
  have hscale (place : Int) : scale significand (exponent - place) =
      if place ≤ exponent then significand <<< (exponent - place).toNat
      else halveEven significand (place - exponent).toNat := by
    unfold scale
    by_cases hle : place ≤ exponent
    · rw [if_pos (by omega), if_pos hle]
    · rw [if_neg (by omega), if_neg hle, neg_sub]
  rw [nearest, if_neg h, reading, hscale, ← Nat.shiftLeft_eq]
  rfl

theorem nearest_le_infinityWord (significand : Nat) (exponent : Int) :
    f.nearest significand exponent ≤ f.infinityWord := by
  by_cases h : significand = 0
  · rw [h, nearest_zero]
    exact Nat.zero_le _
  · rw [f.nearest_eq h]
    exact min_le_right _ _

variable {f}

theorem lastPlace_mono {m n : Nat} (h : m ≤ n) (e : Int) : f.lastPlace m e ≤ f.lastPlace n e := by
  have hlog : Nat.log2 m ≤ Nat.log2 n := by
    rw [Nat.log2_eq_log_two, Nat.log2_eq_log_two]
    exact Nat.log_mono_right h
  unfold lastPlace
  omega

/-- At its place a significand has at most one digit more than the format's fractions. -/
theorem scale_lastPlace_le (n : Nat) (e : Int) :
    scale n (e - f.lastPlace n e) ≤ 2 ^ (f.fractionBits + 1) := by
  refine scale_le_two_pow (Nat.lt_log2_self (n := n)) ?_
  unfold lastPlace
  omega

/-- Above the least place a significand is full. -/
theorem le_scale_lastPlace {n : Nat} {e : Int} (hn : n ≠ 0)
    (hplace : f.leastExponent < f.lastPlace n e) :
    2 ^ f.fractionBits ≤ scale n (e - f.lastPlace n e) := by
  refine two_pow_le_scale (Nat.log2_self_le hn) ?_
  unfold lastPlace at hplace ⊢
  omega

/-- A significand at a finer place does not reach one at a coarser place. -/
theorem succ_mul_le_reading {m n : Nat} {e : Int} (hn : n ≠ 0)
    (hplace : f.lastPlace m e < f.lastPlace n e) :
    (f.lastPlace m e - f.leastExponent).toNat * 2 ^ f.fractionBits + 2 ^ (f.fractionBits + 1) ≤
      f.reading n e := by
  have hleast : f.leastExponent ≤ f.lastPlace m e := le_max_right _ _
  have hfull := le_scale_lastPlace hn (hleast.trans_lt hplace)
  have hsteps : (f.lastPlace m e - f.leastExponent).toNat + 1 ≤
      (f.lastPlace n e - f.leastExponent).toNat := by omega
  calc (f.lastPlace m e - f.leastExponent).toNat * 2 ^ f.fractionBits + 2 ^ (f.fractionBits + 1)
    _ = ((f.lastPlace m e - f.leastExponent).toNat + 1) * 2 ^ f.fractionBits
          + 2 ^ f.fractionBits := by ring
    _ ≤ (f.lastPlace n e - f.leastExponent).toNat * 2 ^ f.fractionBits + 2 ^ f.fractionBits :=
        Nat.add_le_add_right (Nat.mul_le_mul_right _ hsteps) _
    _ ≤ f.reading n e := Nat.add_le_add_left hfull _

theorem reading_mono {m n : Nat} (hn : n ≠ 0) (h : m ≤ n) (e : Int) :
    f.reading m e ≤ f.reading n e := by
  obtain hlt | heq := (lastPlace_mono (f := f) h e).lt_or_eq
  · exact (Nat.add_le_add_left (scale_lastPlace_le m e) _).trans (succ_mul_le_reading hn hlt)
  · unfold reading
    rw [heq]
    exact Nat.add_le_add_left (scale_mono h _) _

/-- **Rounding keeps the order** of magnitudes. -/
theorem nearest_mono {m n : Nat} (h : m ≤ n) (e : Int) : f.nearest m e ≤ f.nearest n e := by
  by_cases hm : m = 0
  · rw [hm, nearest_zero]
    exact Nat.zero_le _
  · have hn : n ≠ 0 := by omega
    rw [f.nearest_eq hm, f.nearest_eq hn]
    exact min_le_min_right _ (reading_mono hn h e)

/-- A number that fits into a significand is not rounded and stays below every larger one. -/
theorem reading_lt_reading {m n : Nat} {e : Int} (h : m < n)
    (hexact : f.lastPlace m e ≤ e) : f.reading m e < f.reading n e := by
  have hn : n ≠ 0 := by omega
  have hleft : 0 ≤ e - f.lastPlace m e := by omega
  obtain hlt | heq := (lastPlace_mono (f := f) h.le e).lt_or_eq
  · have hbelow : scale m (e - f.lastPlace m e) < 2 ^ (f.fractionBits + 1) := by
      refine scale_lt_two_pow (Nat.lt_log2_self (n := m)) hleft ?_
      unfold lastPlace
      omega
    exact (Nat.add_lt_add_left hbelow _).trans_le (succ_mul_le_reading hn hlt)
  · unfold reading
    rw [← heq, scale_of_nonneg hleft, scale_of_nonneg hleft]
    exact Nat.add_lt_add_left (Nat.mul_lt_mul_of_pos_right h (Nat.two_pow_pos _)) _

end Format

/-! ## Integers in double precision

The magnitude of an integer is rounded and the sign is put in front, so that the order of magnitudes
is that of the words on one side of zero and the reverse on the other. -/

namespace Binary64

open Format

/-- The word of the magnitude of an integer. -/
def wordOf (n : Int) : Nat := binary64.nearest n.natAbs 0

theorem wordOf_lt_signWord (n : Int) : wordOf n < binary64.signWord :=
  (binary64.nearest_le_infinityWord _ _).trans_lt (by decide)

theorem toNat_bits_ofInt (n : Int) :
    (ofInt n).bits.toNat = wordOf n + if n < 0 then binary64.signWord else 0 := by
  have hword := wordOf_lt_signWord n
  have hsign : binary64.signWord + binary64.signWord = UInt64.size := by decide
  have hofInt : (ofInt n).bits.toNat =
      (wordOf n + if n < 0 then binary64.signWord else 0) % UInt64.size := by
    unfold ofInt ofDatum Format.ofDatum wordOf
    rw [Nat.toUInt64_eq, UInt64.toNat_ofNat']
    simp only [decide_eq_true_eq]
  rw [hofInt, Nat.mod_eq_of_lt]
  split <;> omega

theorem magnitude_ofInt (n : Int) : (ofInt n).magnitude = wordOf n := by
  unfold magnitude
  rw [toNat_bits_ofInt]
  split
  · rw [Nat.add_mod_right, Nat.mod_eq_of_lt (wordOf_lt_signWord n)]
  · exact Nat.mod_eq_of_lt (wordOf_lt_signWord n)

/-- No integer is read as a NaN. -/
theorem isNaN_ofInt (n : Int) : (ofInt n).isNaN = false := by
  unfold isNaN
  rw [magnitude_ofInt, decide_eq_false_iff_not, Nat.not_lt]
  exact binary64.nearest_le_infinityWord _ _

theorem key_ofInt (n : Int) : (ofInt n).key = if n < 0 then -(wordOf n : Int) else wordOf n := by
  have hword := wordOf_lt_signWord n
  unfold key
  rw [magnitude_ofInt, toNat_bits_ofInt]
  by_cases h : n < 0
  · rw [if_pos h, if_pos h, if_neg (by omega)]
  · rw [if_neg h, if_neg h, if_pos (by omega)]

/-- **Integers keep their order** in double precision. -/
theorem key_ofInt_mono {m n : Int} (h : m ≤ n) : (ofInt m).key ≤ (ofInt n).key := by
  have hup (hle : m.natAbs ≤ n.natAbs) : wordOf m ≤ wordOf n := nearest_mono hle 0
  have hdown (hle : n.natAbs ≤ m.natAbs) : wordOf n ≤ wordOf m := nearest_mono hle 0
  rw [key_ofInt, key_ofInt]
  split <;> split <;> omega

end Binary64

end RowStream
