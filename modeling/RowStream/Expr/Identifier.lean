/-!
# Quoted identifiers

A name can stand in a query as it is if it is made of lower-case letters, digits and underscores,
does not start with a digit and is no keyword. Any other name is put between double quotes, with
the double quotes inside it doubled.
-/

namespace RowStream.Identifier

/-- Words that cannot stand as a name without quotes, in order. -/
def keywords : Array String := #[
  "add", "all", "alter", "and", "any", "array", "as", "asc", "between", "by", "called",
  "case", "cast", "column", "constraint", "costs", "create", "cross", "current_date",
  "current_schema", "current_time", "current_timestamp", "current_user", "default",
  "delete", "deny", "desc", "describe", "directory", "distinct", "drop", "else", "end",
  "escape", "except", "exists", "extract", "false", "first", "for", "from", "full",
  "function", "grant", "group", "having", "if", "in", "index", "inner", "input", "insert",
  "intersect", "into", "is", "join", "last", "left", "like", "limit", "match", "natural",
  "not", "null", "nulls", "object", "offset", "on", "or", "order", "outer", "persistent",
  "recursive", "reset", "returns", "revoke", "right", "select", "session_user", "set",
  "some", "stratify", "table", "then", "transient", "true", "try_cast", "unbounded",
  "union", "update", "user", "using", "when", "where", "with"]

/-- Whether a word is a keyword, looked up by halving. -/
def isKeyword (word : String) : Bool :=
  keywords.binSearchContains word fun a b => compare a b == .lt

/-- A character that a plain name may start with. -/
def isStart (c : Char) : Bool := ('a' ≤ c && c ≤ 'z') || c == '_'

/-- A character that may follow in a plain name. -/
def isPart (c : Char) : Bool := isStart c || ('0' ≤ c && c ≤ '9')

/-- Whether a name can stand without quotes. -/
def isPlain (name : String) : Bool :=
  match name.toList with
  | [] => false
  | c :: rest => isStart c && rest.all isPart && !isKeyword name

/-- A character as it is written between the quotes. -/
def escapeChar (c : Char) : List Char := if c = '"' then ['"', '"'] else [c]

/-- The characters of the quoted name. -/
def quotedChars (name : String) : List Char := '"' :: name.toList.flatMap escapeChar ++ ['"']

/-- The name as it can stand in a query. -/
def quote (name : String) : String :=
  if isPlain name then name else String.ofList (quotedChars name)

end RowStream.Identifier
