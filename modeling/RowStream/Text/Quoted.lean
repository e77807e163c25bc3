import RowStream.Text.Unprintable

/-!
# Text in diagnostics

A text in a diagnostic stands between double quotes, with everything in it that a reader could
not see or could mistake for the end written as an escape. Optional texts and records have forms
of their own.
-/

namespace RowStream.Text

/-- The escape of a code point: its hexadecimal digits between braces. -/
def codePointEscape (c : Char) : List Char :=
  ['\\', 'u', Char.ofNat 0x7b] ++ Nat.toDigits 16 c.toNat ++ [Char.ofNat 0x7d]

/-- How one character is written between the quotes. -/
def quoteChar (c : Char) : List Char :=
  if c = '"' then ['\\', '"']
  else if c = '\\' then ['\\', '\\']
  else if c = '\n' then ['\\', 'n']
  else if c = '\r' then ['\\', 'r']
  else if c = '\t' then ['\\', 't']
  else if c = Char.ofNat 0 then ['\\', '0']
  else if isUnprintable c then codePointEscape c
  else [c]

/-- The quoted form of a text. -/
def quoted (s : String) : String :=
  String.ofList ('"' :: s.toList.flatMap quoteChar ++ ['"'])

/-- An optional text, said to be there or not. -/
def optional : Option String → String
  | none => "None"
  | some s => "Some(" ++ s ++ ")"

/-- The name of a record and its fields. -/
def record (name : String) (fields : List (String × String)) : String :=
  name ++ " \x7b " ++ String.intercalate ", " (fields.map fun (key, value) => key ++ ": " ++ value)
    ++ " \x7d"

end RowStream.Text
