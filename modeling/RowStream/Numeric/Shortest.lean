import RowStream.Numeric.Format

/-!
# Shortest decimal digits

A finite number of a format is the nearest one to every decimal in an interval around it.
`Format.shortest` gives the decimal in that interval with the fewest digits, and of those the
nearest to the number. If a point of a decimal grid lies in the interval, then so does one of the
number's two neighbours on that grid, so only these two are tried on each grid.
-/

namespace RowStream

/-- Which of two equally near decimals is taken. -/
inductive Tie where
  | up
  | toEven
  deriving DecidableEq

/-- A positive decimal `d.ddd * 10 ^ exponent`: its digits, the first of them not `0` and the
last of them not `0`, and the exponent of the first. -/
structure Decimal where
  digits : List Char
  exponent : Int
  deriving DecidableEq

namespace Decimal

/-- The decimal `n * 10 ^ k`. -/
def ofScaled (n : Nat) (k : Int) : Decimal :=
  let all := Nat.toDigits 10 n
  ⟨(all.reverse.dropWhile (· == '0')).reverse, k + (all.length - 1 : Nat)⟩

end Decimal

/-- A positive number between the ends of the interval that rounds to it, all over one
denominator; the ends belong to the interval iff `closed`. -/
structure RoundingInterval where
  low : Nat
  value : Nat
  high : Nat
  denominator : Nat
  closed : Bool

namespace RoundingInterval

/-- The interval of `significand * 2 ^ exponent`. Each end is half way to the next number; below
the first number of a binade the next one is only half as far, except for the first normal
number, whose lower neighbour is subnormal. -/
def ofNumber (f : Format) (significand : Nat) (exponent : Int) : RoundingInterval :=
  let narrow := significand = 1 <<< f.fractionBits ∧ f.leastExponent < exponent
  let scale := 1 <<< (exponent - 2).toNat
  { low := (4 * significand - if narrow then 1 else 2) * scale
    value := 4 * significand * scale
    high := (4 * significand + 2) * scale
    denominator := 1 <<< (2 - exponent).toNat
    closed := significand % 2 = 0 }

/-- The same interval measured in units of `10 ^ k`. -/
def inUnits (i : RoundingInterval) (k : Int) : RoundingInterval :=
  let up := Nat.pow 10 (-k).toNat
  { i with
    low := i.low * up
    value := i.value * up
    high := i.high * up
    denominator := i.denominator * Nat.pow 10 k.toNat }

def contains (i : RoundingInterval) (n : Nat) : Bool :=
  let point := n * i.denominator
  if i.closed then i.low ≤ point && point ≤ i.high else i.low < point && point < i.high

/-- The natural number in the interval that is nearest to the value, if one of the value's two
neighbours lies in it. -/
def nearest? (i : RoundingInterval) (tie : Tie) : Option Nat :=
  let below := i.value / i.denominator
  let above := below + 1
  match i.contains below, i.contains above with
  | false, false => none
  | true, false => some below
  | false, true => some above
  | true, true =>
    let gap := 2 * (i.value - below * i.denominator)
    if gap < i.denominator then some below
    else if i.denominator < gap then some above
    else match tie with
      | .up => some above
      | .toEven => some (if below % 2 = 0 then below else above)

/-- The exponent of the value's first decimal digit. -/
def decimalExponent (i : RoundingInterval) : Int :=
  if i.denominator ≤ i.value then ((Nat.toDigits 10 (i.value / i.denominator)).length - 1 : Nat)
  else -((Nat.toDigits 10 ((i.denominator - 1) / i.value)).length : Int)

/-- Tries grids from the unit `10 ^ k` down to finer ones, `grids` of them. -/
def search (i : RoundingInterval) (tie : Tie) : (grids : Nat) → (k : Int) → Decimal
  | 0, k => .ofScaled ((i.inUnits k).value / (i.inUnits k).denominator) k
  | grids + 1, k =>
    match (i.inUnits k).nearest? tie with
    | some n => .ofScaled n k
    | none => search i tie grids (k - 1)

end RoundingInterval

/-- The shortest decimal that rounds to `significand * 2 ^ exponent`, which must be positive.
Seventeen digits are enough for double precision and so for single precision. -/
def Format.shortest (f : Format) (tie : Tie) (significand : Nat) (exponent : Int) : Decimal :=
  let interval := RoundingInterval.ofNumber f significand exponent
  interval.search tie 17 interval.decimalExponent

end RowStream
