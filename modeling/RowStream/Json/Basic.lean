/-!
# JSON

A `Json` is the tree of a JSON text. Numbers and strings are kept as they are spelled, without
the quotes: what a spelling means is a question of its own, which a reader asks only where it
needs the answer. `render` writes a tree without blanks.
-/

namespace RowStream

/-- The tree of a JSON text. -/
inductive Json where
  | null
  | bool (b : Bool)
  | number (spelling : List Char)
  | string (spelling : List Char)
  | array (items : List Json)
  | object (members : List (List Char × Json))
  deriving Inhabited

namespace Json

mutual

/-- The text of a tree. -/
def render : Json → List Char
  | null => "null".toList
  | bool true => "true".toList
  | bool false => "false".toList
  | number spelling => spelling
  | string spelling => '"' :: spelling ++ ['"']
  | array items => '[' :: renderItems items ++ [']']
  | object members => Char.ofNat 0x7b :: renderMembers members ++ [Char.ofNat 0x7d]

/-- The texts of trees with commas between them. -/
def renderItems : List Json → List Char
  | [] => []
  | [j] => render j
  | j :: js => render j ++ ',' :: renderItems js

/-- The texts of members with commas between them. -/
def renderMembers : List (List Char × Json) → List Char
  | [] => []
  | [(key, j)] => '"' :: key ++ '"' :: ':' :: render j
  | (key, j) :: rest => '"' :: key ++ '"' :: ':' :: render j ++ ',' :: renderMembers rest

end

def toText (j : Json) : String := String.ofList j.render

end Json

end RowStream
