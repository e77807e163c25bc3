import RowStream.Numeric.Binary
import RowStream.Numeric.Shortest

/-!
# Written forms of floating-point numbers

All written forms show the shortest digits and differ only in how they lay them out. A `Layout`
records the decisions of one form; the forms of this library are listed at the end.
-/

namespace RowStream

/-- The decisions of one written form. Exponents in the positional range are written without an
exponent part; a missing bound leaves the range open. -/
structure Layout where
  tie : Tie
  leastPositional : Option Int
  greatestPositional : Option Int
  /-- Whether a whole number in positional form ends in `.0`. -/
  keepsPoint : Bool
  /-- Whether a positive exponent has a sign. -/
  plusSign : Bool
  nan : String
  infinity : String
  negativeInfinity : String

namespace Layout

def isPositional (l : Layout) (exponent : Int) : Bool :=
  l.leastPositional.all (· ≤ exponent) && l.greatestPositional.all (exponent ≤ ·)

/-- Digits with the point where the exponent says, zeros filling the places between. -/
def positional (l : Layout) (d : Decimal) : List Char :=
  if d.exponent < 0 then
    ['0', '.'] ++ List.replicate (-d.exponent - 1).toNat '0' ++ d.digits
  else
    let whole := d.exponent.toNat + 1
    if d.digits.length ≤ whole then
      d.digits ++ List.replicate (whole - d.digits.length) '0'
        ++ if l.keepsPoint then ['.', '0'] else []
    else d.digits.take whole ++ '.' :: d.digits.drop whole

/-- One digit, the others after a point, and the exponent of ten. -/
def scientific (l : Layout) (d : Decimal) : List Char :=
  let fraction := d.digits.drop 1
  let sign := if d.exponent < 0 then ['-'] else if l.plusSign then ['+'] else []
  d.digits.take 1 ++ (if fraction.isEmpty then [] else '.' :: fraction)
    ++ 'e' :: sign ++ Nat.toDigits 10 d.exponent.natAbs

/-- The written form of a datum of a format. -/
def write (l : Layout) (f : Format) : Datum → String
  | .nan => l.nan
  | .infinite negative => if negative then l.negativeInfinity else l.infinity
  | .finite negative significand exponent =>
    let sign := if negative then ['-'] else []
    if significand = 0 then String.ofList (sign ++ l.positional ⟨['0'], 0⟩)
    else
      let decimal := f.shortest l.tie significand exponent
      String.ofList (sign ++
        if l.isPositional decimal.exponent then l.positional decimal else l.scientific decimal)

/-- The form shown to users: never an exponent, no point in a whole number. -/
def shown : Layout where
  tie := .up
  leastPositional := none
  greatestPositional := none
  keepsPoint := false
  plusSign := false
  nan := "NaN"
  infinity := "inf"
  negativeInfinity := "-inf"

/-- The form in diagnostics: a whole number keeps its point, and numbers below `0.0001` or from
`1e16` on have an exponent. -/
def diagnostic : Layout where
  tie := .up
  leastPositional := some (-4)
  greatestPositional := some 15
  keepsPoint := true
  plusSign := false
  nan := "NaN"
  infinity := "inf"
  negativeInfinity := "-inf"

/-- The form of a double precision number in JSON, which has no word for what is not finite. -/
def json64 : Layout where
  tie := .toEven
  leastPositional := some (-5)
  greatestPositional := some 15
  keepsPoint := true
  plusSign := true
  nan := "null"
  infinity := "null"
  negativeInfinity := "null"

/-- The form of a single precision number in JSON. -/
def json32 : Layout := { json64 with leastPositional := some (-6), greatestPositional := some 12 }

end Layout

namespace Binary32

def write (l : Layout) (x : Binary32) : String := l.write Format.binary32 x.datum

end Binary32

namespace Binary64

def write (l : Layout) (x : Binary64) : String := l.write Format.binary64 x.datum

end Binary64

end RowStream
