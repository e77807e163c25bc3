import RowStream.Json.Basic
import RowStream.Json.Number
import RowStream.Json.Spelling

/-!
# Forms of records and alternatives in JSON

A record is an object with a member per field, in any order and among other members, or an array
of its fields in order. An alternative without content is its name as a string; one with content
is an object whose only member has the name as its key.

Readers of values take the number of arrays and objects that may still be entered. This bounds
the nesting of what they read, and recursive readers are recursive in it.
-/

namespace RowStream.Json

/-- How many arrays and objects may be nested in a text that is read as a value. -/
def maxDepth : Nat := 127

def isNull : Json → Bool
  | null => true
  | _ => false

def bool? : Json → Option Bool
  | bool b => some b
  | _ => none

def text? : Json → Option String
  | string spelling => unescape? spelling
  | _ => none

def numeral? : Json → Option Numeral
  | number spelling => some (.ofSpelling spelling)
  | _ => none

/-- An integer between two bounds. -/
def integerWithin? (least greatest : Int) (j : Json) : Option Int :=
  match j.numeral? with
  | some n =>
    match n.integer? with
    | some i => if least ≤ i ∧ i ≤ greatest then some i else none
    | none => none
  | none => none

/-- A size. -/
def size? (j : Json) : Option Nat := (j.integerWithin? 0 maxSize).map Int.toNat

/-- Null, or a value. -/
def optional? {α : Type} (read : Json → Option α) (j : Json) : Option (Option α) :=
  if j.isNull then some none else (read j).map some

/-- All items of a list, if all can be read. -/
def each? {α : Type} (read : Json → Option α) : List Json → Option (List α)
  | [] => some []
  | j :: js =>
    match read j with
    | none => none
    | some a => (each? read js).map (a :: ·)

/-- An array, the items read one level deeper. -/
def list? {α : Type} (room : Nat) (read : Nat → Json → Option α) : Json → Option (List α)
  | array items =>
    match room with
    | 0 => none
    | room + 1 => each? (read room) items
  | _ => none

/-- The values of named fields among members. A name that occurs twice is refused, members of
other names are passed over; all keys must be well spelled. -/
def collect? (names : List String) : List (List Char × Json) → Option (List (String × Json))
  | [] => some []
  | (key, j) :: rest =>
    match unescape? key, collect? names rest with
    | some name, some found =>
      if names.contains name then
        if found.any (·.1 == name) then none else some ((name, j) :: found)
      else some found
    | _, _ => none

/-- The fields of a record in the order of their names, missing ones being `none`. -/
def fields? (names : List String) : Json → Option (List (Option Json))
  | object members =>
    (collect? names members).map fun found => names.map fun name => found.lookup name
  | array items => if items.length = names.length then some (items.map some) else none
  | _ => none

/-- An alternative by its name, with its content unless it is a string. -/
def alternative? : Json → Option (String × Option Json)
  | string spelling => (unescape? spelling).map fun name => (name, none)
  | object [(key, j)] => (unescape? key).map fun name => (name, some j)
  | _ => none

/-- One of several alternatives without content. -/
def word? {α : Type} (word : α → String) (all : List α) (room : Nat) (j : Json) : Option α :=
  match j.alternative? with
  | some (name, none) => all.find? (word · == name)
  | some (name, some content) =>
    if room = 0 ∨ !content.isNull then none else all.find? (word · == name)
  | none => none

/-! ## Writing -/

def ofNat (n : Nat) : Json := number (Nat.toDigits 10 n)

def ofInt (n : Int) : Json := number (toString n).toList

def ofText (s : String) : Json := string (escape s)

def ofOption {α : Type} (write : α → Json) : Option α → Json
  | none => null
  | some a => write a

def ofList {α : Type} (write : α → Json) (xs : List α) : Json := array (xs.map write)

/-- A record. -/
def ofFields (fields : List (String × Json)) : Json :=
  object (fields.map fun (name, j) => (escape name, j))

/-- An alternative with content. -/
def ofAlternative (name : String) (content : Json) : Json := object [(escape name, content)]

end RowStream.Json
