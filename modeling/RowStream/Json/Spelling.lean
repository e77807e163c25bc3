import RowStream.Text.Hex

/-!
# Spelling of JSON strings

`escape` writes a text between the quotes of a JSON string, with an escape for what may not stand
there as it is. `unescape?` reads any spelling that JSON allows; code points above the basic
plane may be spelled as a pair of surrogates, but a surrogate cannot stand alone.
-/

namespace RowStream.Json

/-- How one character is written. -/
def escapeChar (c : Char) : List Char :=
  if c = '"' then ['\\', '"']
  else if c = '\\' then ['\\', '\\']
  else if c.toNat = 0x08 then ['\\', 'b']
  else if c.toNat = 0x0c then ['\\', 'f']
  else if c = '\n' then ['\\', 'n']
  else if c = '\r' then ['\\', 'r']
  else if c = '\t' then ['\\', 't']
  else if c.toNat < 0x20 then ['\\', 'u', '0', '0'] ++ Text.byteDigits c.toNat.toUInt8
  else [c]

/-- The spelling of a text. -/
def escape (s : String) : List Char := s.toList.flatMap escapeChar

/-- What a letter after a backslash stands for. -/
def escapedLetter? (c : Char) : Option Char :=
  match c with
  | '"' => some '"'
  | '\\' => some '\\'
  | '/' => some '/'
  | 'b' => some (Char.ofNat 0x08)
  | 'f' => some (Char.ofNat 0x0c)
  | 'n' => some '\n'
  | 'r' => some '\r'
  | 't' => some '\t'
  | _ => none

def isHighSurrogate (n : Nat) : Bool := 0xd800 ≤ n && n < 0xdc00

def isLowSurrogate (n : Nat) : Bool := 0xdc00 ≤ n && n < 0xe000

/-- The code point of a pair of surrogates. -/
def joinSurrogates (high low : Nat) : Nat := 0x10000 + (high - 0xd800) * 0x400 + (low - 0xdc00)

/-- The characters that a spelling stands for. -/
def unescapeChars? : List Char → Option (List Char)
  | [] => some []
  | '\\' :: 'u' :: a :: b :: c :: d :: rest =>
    match Text.hexNumber? [a, b, c, d] with
    | none => none
    | some n =>
      if isLowSurrogate n then none
      else if isHighSurrogate n then
        match rest with
        | '\\' :: 'u' :: e :: f :: g :: h :: rest =>
          match Text.hexNumber? [e, f, g, h] with
          | none => none
          | some m =>
            if isLowSurrogate m then
              (unescapeChars? rest).map (Char.ofNat (joinSurrogates n m) :: ·)
            else none
        | _ => none
      else (unescapeChars? rest).map (Char.ofNat n :: ·)
  | '\\' :: c :: rest =>
    match escapedLetter? c with
    | none => none
    | some d => (unescapeChars? rest).map (d :: ·)
  | c :: rest => if c = '\\' then none else (unescapeChars? rest).map (c :: ·)

/-- The text that a spelling stands for. -/
def unescape? (spelling : List Char) : Option String :=
  (unescapeChars? spelling).map String.ofList

end RowStream.Json
