/-!
# Binary floating-point formats

A format is given by the widths of its two fields. `Format.decode` reads a word as the datum it
stands for, and `Format.nearest` is the one rounding of this library: conversions between
formats and from integers all go through it. Words are natural numbers here; the fixed-width
types are in `RowStream.Numeric.Binary`.
-/

namespace RowStream

/-- A binary format: one sign bit above `exponentBits` bits of biased exponent above
`fractionBits` bits of fraction. -/
structure Format where
  fractionBits : Nat
  exponentBits : Nat
  deriving DecidableEq

/-- What a word stands for. A finite datum has the magnitude `significand * 2 ^ exponent`; the
sign of a zero is kept. -/
inductive Datum where
  | nan
  | infinite (negative : Bool)
  | finite (negative : Bool) (significand : Nat) (exponent : Int)
  deriving DecidableEq

namespace Format

/-- Single precision. -/
def binary32 : Format := ⟨23, 8⟩

/-- Double precision. -/
def binary64 : Format := ⟨52, 11⟩

/-- The word that has only the sign bit set. -/
def signWord (f : Format) : Nat := 1 <<< (f.fractionBits + f.exponentBits)

/-- The word of positive infinity: the exponent field full, the fraction empty. -/
def infinityWord (f : Format) : Nat := ((1 <<< f.exponentBits) - 1) <<< f.fractionBits

/-- The exponent of the last place of a subnormal number, the finest there is. -/
def leastExponent (f : Format) : Int :=
  2 - (1 <<< (f.exponentBits - 1) : Nat) - (f.fractionBits : Int)

/-- The datum of a word. Numbers with an empty exponent field have no hidden bit and the same
last place as those with the field `1`. -/
def decode (f : Format) (word : Nat) : Datum :=
  let negative := decide (word / f.signWord % 2 = 1)
  let field := (word >>> f.fractionBits) % (1 <<< f.exponentBits)
  let fraction := word % (1 <<< f.fractionBits)
  if field + 1 = 1 <<< f.exponentBits then
    if fraction = 0 then .infinite negative else .nan
  else if field = 0 then
    .finite negative fraction f.leastExponent
  else
    .finite negative ((1 <<< f.fractionBits) + fraction) (f.leastExponent + (field - 1 : Nat))

/-- `n / 2 ^ k` to the nearest natural number, a half to the even neighbour. -/
def halveEven (n k : Nat) : Nat :=
  let quotient := n >>> k
  let unit := 1 <<< k
  let twice := 2 * (n % unit)
  if twice > unit ∨ (twice = unit ∧ quotient % 2 = 1) then quotient + 1 else quotient

/-- The word nearest to `significand * 2 ^ exponent`, a tie going to the even significand and
what is too large to infinity. The last place of the result is the finest that the format and
its precision allow; because the hidden bit is added into the exponent field, a carry out of the
significand moves to the next binade by itself. -/
def nearest (f : Format) (significand : Nat) (exponent : Int) : Nat :=
  if significand = 0 then 0 else
  let place := max (exponent + Nat.log2 significand - f.fractionBits) f.leastExponent
  let rounded :=
    if place ≤ exponent then significand <<< (exponent - place).toNat
    else halveEven significand (place - exponent).toNat
  min (((place - f.leastExponent).toNat <<< f.fractionBits) + rounded) f.infinityWord

/-- The word of a datum of another format: the sign is kept, the magnitude is rounded. -/
def ofDatum (f : Format) : Datum → Nat
  | .nan => f.infinityWord + (1 <<< (f.fractionBits - 1))
  | .infinite negative => f.infinityWord + if negative then f.signWord else 0
  | .finite negative significand exponent =>
    f.nearest significand exponent + if negative then f.signWord else 0

end Format

end RowStream
