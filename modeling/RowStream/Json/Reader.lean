import RowStream.Json.Basic
import RowStream.Json.Number

/-!
# Reading JSON texts

The readers take characters off the front of a text and give back what they read together with
the rest. Strings must be well formed between their quotes, but a lone surrogate in an escape is
left to whoever asks for the meaning of the spelling.
-/

namespace RowStream.Json

def isBlank (c : Char) : Bool := c == ' ' || c == '\n' || c == '\t' || c == '\r'

def skipBlanks (text : List Char) : List Char := text.dropWhile isBlank

def isHexDigit (c : Char) : Bool :=
  isDigit c || ('a' ≤ c && c ≤ 'f') || ('A' ≤ c && c ≤ 'F')

/-- A letter that may follow a backslash. -/
def isEscapeLetter (c : Char) : Bool :=
  c == '"' || c == '\\' || c == '/' || c == 'b' || c == 'f' || c == 'n' || c == 'r' || c == 't'

/-- Reads the spelling of a string up to its closing quote and takes the quote off. -/
def readSpelling : List Char → Option (List Char × List Char)
  | '"' :: rest => some ([], rest)
  | '\\' :: 'u' :: a :: b :: c :: d :: rest =>
    if isHexDigit a && isHexDigit b && isHexDigit c && isHexDigit d then
      (readSpelling rest).map fun (s, rest) => ('\\' :: 'u' :: a :: b :: c :: d :: s, rest)
    else none
  | '\\' :: c :: rest =>
    if isEscapeLetter c then (readSpelling rest).map fun (s, rest) => ('\\' :: c :: s, rest)
    else none
  | c :: rest =>
    if c.toNat < 0x20 || c == '\\' then none
    else (readSpelling rest).map fun (s, rest) => (c :: s, rest)
  | [] => none

/-- Reads at least one digit. -/
def readDigits (text : List Char) : Option (List Char × List Char) :=
  let digits := text.takeWhile isDigit
  if digits.isEmpty then none else some (digits, text.dropWhile isDigit)

/-- Reads whole digits: a single `0`, or digits that do not start with `0`. -/
def readWhole : List Char → Option (List Char × List Char)
  | '0' :: rest => some (['0'], rest)
  | text => readDigits text

/-- Reads a fraction with its point, if there is one. -/
def readFraction : List Char → Option (List Char × List Char)
  | '.' :: rest => (readDigits rest).map fun (digits, rest) => ('.' :: digits, rest)
  | text => some ([], text)

/-- Reads an exponent with its mark, if there is one. -/
def readExponent : List Char → Option (List Char × List Char)
  | mark :: rest =>
    if mark == 'e' || mark == 'E' then
      let (sign, rest) := match rest with
        | '+' :: rest => (['+'], rest)
        | '-' :: rest => (['-'], rest)
        | rest => ([], rest)
      (readDigits rest).map fun (digits, rest) => (mark :: sign ++ digits, rest)
    else some ([], mark :: rest)
  | [] => some ([], [])

/-- Reads the spelling of a number. -/
def readNumber (text : List Char) : Option (List Char × List Char) := do
  let (sign, text) := match text with
    | '-' :: rest => (['-'], rest)
    | text => ([], text)
  let (whole, text) ← readWhole text
  let (fraction, text) ← readFraction text
  let (exponent, text) ← readExponent text
  some (sign ++ whole ++ fraction ++ exponent, text)

mutual

/-- Reads a value. Every level of nesting takes characters off the text, so a bound above its
length is never reached. -/
def readValue : (bound : Nat) → List Char → Option (Json × List Char)
  | 0, _ => none
  | bound + 1, text =>
    match skipBlanks text with
    | 'n' :: 'u' :: 'l' :: 'l' :: rest => some (.null, rest)
    | 't' :: 'r' :: 'u' :: 'e' :: rest => some (.bool true, rest)
    | 'f' :: 'a' :: 'l' :: 's' :: 'e' :: rest => some (.bool false, rest)
    | '"' :: rest => (readSpelling rest).map fun (s, rest) => (.string s, rest)
    | '[' :: rest =>
      match skipBlanks rest with
      | ']' :: rest => some (.array [], rest)
      | rest => (readItems bound rest).map fun (items, rest) => (.array items, rest)
    | '\x7b' :: rest =>
      match skipBlanks rest with
      | '\x7d' :: rest => some (.object [], rest)
      | rest => (readMembers bound rest).map fun (members, rest) => (.object members, rest)
    | text => (readNumber text).map fun (s, rest) => (.number s, rest)

/-- Reads the items of an array up to its bracket and takes the bracket off. -/
def readItems : (bound : Nat) → List Char → Option (List Json × List Char)
  | 0, _ => none
  | bound + 1, text =>
    match readValue bound text with
    | none => none
    | some (j, rest) =>
      match skipBlanks rest with
      | ',' :: rest => (readItems bound rest).map fun (js, rest) => (j :: js, rest)
      | ']' :: rest => some ([j], rest)
      | _ => none

/-- Reads the members of an object up to its brace and takes the brace off. -/
def readMembers : (bound : Nat) → List Char → Option (List (List Char × Json) × List Char)
  | 0, _ => none
  | bound + 1, text =>
    match skipBlanks text with
    | '"' :: rest =>
      match readSpelling rest with
      | none => none
      | some (key, rest) =>
        match skipBlanks rest with
        | ':' :: rest =>
          match readValue bound rest with
          | none => none
          | some (j, rest) =>
            match skipBlanks rest with
            | ',' :: rest => (readMembers bound rest).map fun (ms, rest) => ((key, j) :: ms, rest)
            | '\x7d' :: rest => some ([(key, j)], rest)
            | _ => none
        | _ => none
    | _ => none

end

/-- Reads a text that holds one value and blanks. -/
def ofChars? (text : List Char) : Option Json :=
  match readValue (text.length + 1) text with
  | some (j, rest) => if (skipBlanks rest).isEmpty then some j else none
  | none => none

def ofText? (text : String) : Option Json := ofChars? text.toList

end RowStream.Json
