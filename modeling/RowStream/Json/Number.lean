import RowStream.Memory.Budget
import RowStream.Numeric.Binary

/-!
# JSON numbers

A number is spelled as an optional minus sign, whole digits, an optional fraction and an optional
exponent. Only a spelling without fraction and exponent is an integer, and `-0` is none.

A floating-point number is read in one pass: digits are taken into a significand as long as it
stays below `2 ^ 64`, the significand is rounded, and the result is multiplied or divided by a
power of ten. The result can differ from the nearest number in the last places.
-/

namespace RowStream.Json

def isDigit (c : Char) : Bool := '0' ≤ c && c ≤ '9'

def digitValue (c : Char) : Nat := c.toNat - '0'.toNat

/-- The number that decimal digits write. -/
def digitsValue (digits : List Char) : Nat := digits.foldl (fun n c => 10 * n + digitValue c) 0

/-- The parts of the spelling of a number. -/
structure Numeral where
  negative : Bool
  whole : List Char
  fraction : List Char
  /-- The exponent's sign, set for minus, and digits. -/
  exponent : Option (Bool × List Char)
  deriving DecidableEq

namespace Numeral

/-- Takes a spelling apart. -/
def ofSpelling (spelling : List Char) : Numeral :=
  let negative := spelling.head? == some '-'
  let unsigned := if negative then spelling.drop 1 else spelling
  let afterWhole := unsigned.dropWhile isDigit
  let hasFraction := afterWhole.head? == some '.'
  let fraction := if hasFraction then (afterWhole.drop 1).takeWhile isDigit else []
  let afterFraction :=
    if hasFraction then (afterWhole.drop 1).dropWhile isDigit else afterWhole
  let exponent :=
    match afterFraction with
    | _ :: '-' :: digits => some (true, digits)
    | _ :: '+' :: digits => some (false, digits)
    | _ :: digits => some (false, digits)
    | [] => none
  ⟨negative, unsigned.takeWhile isDigit, fraction, exponent⟩

/-- The integer that is spelled. -/
def integer? (n : Numeral) : Option Int :=
  if n.fraction.isEmpty && n.exponent.isNone then
    let magnitude := digitsValue n.whole
    if n.negative then
      if magnitude = 0 then none else some (-(magnitude : Int))
    else some magnitude
  else none

/-- Takes digits into a significand until it would not be a size any more; also gives back the
digits that were not taken. -/
def takeDigits (significand : Nat) : List Char → Nat × List Char
  | [] => (significand, [])
  | c :: rest =>
    let next := 10 * significand + digitValue c
    if maxSize < next then (significand, c :: rest) else takeDigits next rest

/-- The power of ten nearest to `10 ^ n`. -/
def powerOfTen (n : Nat) : Binary64 := .ofDatum (.finite false (Nat.pow 10 n) 0)

/-- `x * 10 ^ e`, large negative exponents in several steps. A result beyond all numbers is
refused. -/
def scale : (steps : Nat) → Binary64 → Int → Option Binary64
  | steps, x, e =>
    if e.natAbs ≤ 308 then
      if 0 ≤ e then
        let y := x * powerOfTen e.natAbs
        if y.isInfinite then none else some y
      else some (x / powerOfTen e.natAbs)
    else if x.key = 0 then some x
    else if 0 ≤ e then none
    else
      match steps with
      | 0 => some .zero
      | steps + 1 => scale steps (x / powerOfTen 308) (e + 308)

/-- The greatest exponent that is counted. -/
def maxExponent : Nat := Int32.maxValue.toInt.toNat

/-- An exponent within the range that is counted. -/
def clampExponent (e : Int) : Int := max Int32.minValue.toInt (min e maxExponent)

/-- The magnitude that is spelled. -/
def magnitude? (n : Numeral) : Option Binary64 :=
  let (significand, droppedWhole) := takeDigits 0 n.whole
  let (significand, droppedFraction) := takeDigits significand n.fraction
  let place : Int := droppedWhole.length - (n.fraction.length - droppedFraction.length : Nat)
  let x := Binary64.ofInt significand
  match n.exponent with
  | none => scale 4 x place
  | some (negative, digits) =>
    let e := digitsValue digits
    if maxExponent < e then
      if significand = 0 ∨ negative then some .zero else none
    else scale 4 x (clampExponent (if negative then place - e else place + e))

/-- The double precision number that is spelled. -/
def binary64? (n : Numeral) : Option Binary64 :=
  n.magnitude?.map fun x => if n.negative then x.negate else x

/-- Whether a number is spelled as an integer of 64 bits, with or without sign. -/
def isWord (n : Numeral) : Bool :=
  match n.integer? with
  | some i => Int64.minValue.toInt ≤ i && i ≤ (maxSize : Int)
  | none => false

/-- The single precision number that is spelled. Integers are rounded once, other numbers by way
of double precision. -/
def binary32? (n : Numeral) : Option Binary32 :=
  if n.isWord then n.integer?.map Binary32.ofInt else n.binary64?.map Binary64.toBinary32

end Numeral

end RowStream.Json
