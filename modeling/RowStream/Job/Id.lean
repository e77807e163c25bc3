import RowStream.Text.Hex

/-!
# Job identifiers

A job is identified by a 128-bit number, written as 32 lower-case hexadecimal digits in five
groups. Four spellings are read: with and without hyphens, in braces, and after the name of the
registered name space; digits and that name may be of either case.
-/

namespace RowStream

/-- The identifier of a job. -/
structure JobId where
  value : BitVec 128
  deriving DecidableEq, Inhabited

namespace JobId

def nil : JobId := ⟨0⟩

/-- The 32 digits. -/
def digits (id : JobId) : List Char :=
  let significant := Nat.toDigits 16 id.value.toNat
  List.replicate (32 - significant.length) '0' ++ significant

/-- Digits in groups of 8, 4, 4, 4 and 12 with hyphens between them. -/
def hyphenate (digits : List Char) : List Char :=
  digits.take 8 ++ '-' :: (digits.drop 8).take 4 ++ '-' :: (digits.drop 12).take 4
    ++ '-' :: (digits.drop 16).take 4 ++ '-' :: digits.drop 20

def toText (id : JobId) : String := String.ofList (hyphenate id.digits)

/-- Reads 32 digits. -/
def ofDigits? (digits : List Char) : Option JobId :=
  if digits.length = 32 then (Text.hexNumber? digits).map fun n => ⟨BitVec.ofNat 128 n⟩ else none

/-- Reads hyphenated digits. -/
def ofHyphenated? (text : List Char) : Option JobId :=
  let digits := text.take 8 ++ (text.drop 9).take 4 ++ (text.drop 14).take 4
    ++ (text.drop 19).take 4 ++ text.drop 24
  if text.length = 36 ∧ text = hyphenate digits then ofDigits? digits else none

/-- The name of the registered name space, which may be in either case. -/
def registeredSpace : List Char := "urn:uuid:".toList

/-- Reads any of the spellings. -/
def ofText? (s : String) : Option JobId :=
  let text := s.toList
  match text.length with
  | 32 => ofDigits? text
  | 36 => ofHyphenated? text
  | 38 =>
    if text.head? = some (Char.ofNat 0x7b) ∧ text.getLast? = some (Char.ofNat 0x7d) then
      ofHyphenated? ((text.drop 1).take 36)
    else none
  | 45 =>
    if (text.take 9).map Char.toLower = registeredSpace then ofHyphenated? (text.drop 9) else none
  | _ => none

end JobId

end RowStream
