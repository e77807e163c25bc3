import RowStream.Numeric.Format

/-!
# Single and double precision numbers

`Binary32` and `Binary64` are words under a format. Their order is read off the word: without
the sign bit it grows with the magnitude, so `key` is an integer that orders all numbers, and
both zeros have the key `0`.
-/

namespace RowStream

/-- A single precision number. -/
structure Binary32 where
  bits : UInt32
  deriving DecidableEq, Inhabited

/-- A double precision number. -/
structure Binary64 where
  bits : UInt64
  deriving DecidableEq, Inhabited

namespace Binary32

def datum (x : Binary32) : Datum := Format.binary32.decode x.bits.toNat

def ofDatum (d : Datum) : Binary32 := ⟨(Format.binary32.ofDatum d).toUInt32⟩

/-- The word without its sign bit. -/
def magnitude (x : Binary32) : Nat := x.bits.toNat % Format.binary32.signWord

def isNaN (x : Binary32) : Bool := Format.binary32.infinityWord < x.magnitude

/-- The magnitude, negated when the sign bit is set. -/
def key (x : Binary32) : Int :=
  if x.bits.toNat < Format.binary32.signWord then x.magnitude else -(x.magnitude : Int)

/-- Numeric equality: both zeros are equal, and a NaN equals nothing. -/
def equals (x y : Binary32) : Bool := !x.isNaN && !y.isNaN && x.key == y.key

/-- The nearest number to an integer. -/
def ofInt (n : Int) : Binary32 := ofDatum (.finite (n < 0) n.natAbs 0)

end Binary32

namespace Binary64

def datum (x : Binary64) : Datum := Format.binary64.decode x.bits.toNat

def ofDatum (d : Datum) : Binary64 := ⟨(Format.binary64.ofDatum d).toUInt64⟩

def zero : Binary64 := ⟨0⟩

/-- The word without its sign bit. -/
def magnitude (x : Binary64) : Nat := x.bits.toNat % Format.binary64.signWord

def isNaN (x : Binary64) : Bool := Format.binary64.infinityWord < x.magnitude

def isInfinite (x : Binary64) : Bool := x.magnitude == Format.binary64.infinityWord

/-- The magnitude, negated when the sign bit is set. -/
def key (x : Binary64) : Int :=
  if x.bits.toNat < Format.binary64.signWord then x.magnitude else -(x.magnitude : Int)

/-- Numeric equality: both zeros are equal, and a NaN equals nothing. -/
def equals (x y : Binary64) : Bool := !x.isNaN && !y.isNaN && x.key == y.key

/-- Numeric order with the NaNs after all numbers and equal to each other. -/
def order (x y : Binary64) : Ordering :=
  match x.isNaN, y.isNaN with
  | true, true => .eq
  | true, false => .gt
  | false, true => .lt
  | false, false => compare x.key y.key

/-- The nearest number to an integer. -/
def ofInt (n : Int) : Binary64 := ofDatum (.finite (n < 0) n.natAbs 0)

/-- Every single precision number is a double precision number. -/
def ofBinary32 (x : Binary32) : Binary64 := ofDatum x.datum

/-- The nearest single precision number. -/
def toBinary32 (x : Binary64) : Binary32 := .ofDatum x.datum

def negate (x : Binary64) : Binary64 := ⟨x.bits ^^^ 0x8000000000000000⟩

def toFloat (x : Binary64) : Float := Float.ofBits x.bits

def ofFloat (x : Float) : Binary64 := ⟨x.toBits⟩

def add (x y : Binary64) : Binary64 := ofFloat (x.toFloat + y.toFloat)

def mul (x y : Binary64) : Binary64 := ofFloat (x.toFloat * y.toFloat)

def div (x y : Binary64) : Binary64 := ofFloat (x.toFloat / y.toFloat)

def exp (x : Binary64) : Binary64 := ofFloat x.toFloat.exp

instance : Add Binary64 := ⟨add⟩
instance : Mul Binary64 := ⟨mul⟩
instance : Div Binary64 := ⟨div⟩

end Binary64

end RowStream
