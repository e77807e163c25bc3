import RowStream.Json.Plan

/-!
# What is assumed of a JSON library

The texts of plans are written and read by code that is made from the declarations of their types by a
library. Here that library is a parameter: how its texts look and how it comes from a text to a value stays
open. What is stated is what it documents, one form at a time.

* A text that was printed is parsed as the value that it spells.
* A truth value, a number and a string stand for themselves, as far as they are in the range of their type.
  An optional value is null or the value, a list is an array.
* A record is an object of its fields under their names. A variant is tagged from outside: without content
  it is its name, with content it is an object whose only key is its name.
* A reader enters only so many arrays and objects, and each of them takes one.

How the parts of a form are read is left to the readers of the parts. Nothing is said of numbers that are
no integers, and nothing of any other form that a reader may accept.

* `Tree` — values in JSON, and `Codec`, a writer and a reader of them.
* `Codec.HasUnit`, `Codec.HasVariant`, `Codec.HasPair`, `Codec.HasFields`, `Codec.IsRecord` — the forms.
* `Library`, `Library.Documented` — the library, and what it documents of every declaration.
-/

namespace RowStream.Json

/-! ## Values

Codecs go between values of a type and values in JSON. How a value in JSON becomes a text is another
matter, which only printing and parsing are about. -/

/-- A value in JSON. A number that is no integer is kept as it is spelled. -/
inductive Tree where
  | null
  | bool (b : Bool)
  | integer (n : Int)
  | decimal (spelling : List Char)
  | text (s : String)
  | array (items : List Tree)
  | object (members : List (String × Tree))
  deriving Inhabited

namespace Tree

mutual

/-- How many arrays and objects are nested in each other at most. -/
def depth : Tree → Nat
  | array items => itemsDepth items + 1
  | object members => membersDepth members + 1
  | _ => 0

def itemsDepth : List Tree → Nat
  | [] => 0
  | t :: ts => max (depth t) (itemsDepth ts)

def membersDepth : List (String × Tree) → Nat
  | [] => 0
  | (_, t) :: rest => max (depth t) (membersDepth rest)

end

mutual

/-- All numbers are integers. -/
def Exact : Tree → Prop
  | decimal _ => False
  | array items => ItemsExact items
  | object members => MembersExact members
  | _ => True

def ItemsExact : List Tree → Prop
  | [] => True
  | t :: ts => Exact t ∧ ItemsExact ts

def MembersExact : List (String × Tree) → Prop
  | [] => True
  | (_, t) :: rest => Exact t ∧ MembersExact rest

end

end Tree

/-! ## Forms

The forms of declarations, one structure each. A law says what is written, and what is read where
exactly that stands; it does not say that what is written can be read back, for the parts may fail
to. -/

/-- How the values of a type are written, and how they are read where so many arrays and objects may still
be entered. -/
structure Codec (α : Type) where
  write : α → Tree
  read (room : Nat) : Tree → Option α

/-- The declared fields of a record, in order. -/
structure Fields (β : Type) where
  names : List String
  members : β → List (String × Tree)
  read (room : Nat) : List Tree → Option β
  names_members : ∀ b, (members b).map Prod.fst = names

namespace Fields

variable {β γ : Type}

/-- The last field. -/
def last (name : String) (c : Codec β) : Fields β where
  names := [name]
  members b := [(name, c.write b)]
  read room
    | [t] => c.read room t
    | _ => none
  names_members _ := rfl

/-- A field before others. -/
def field (name : String) (c : Codec β) (rest : Fields γ) : Fields (β × γ) where
  names := name :: rest.names
  members b := (name, c.write b.1) :: rest.members b.2
  read room
    | [] => none
    | t :: ts => do some (← c.read room t, ← rest.read room ts)
  names_members b := congrArg (name :: ·) (rest.names_members b.2)

end Fields

namespace Codec

variable {α β : Type}

/-- A variant without content is its name. -/
structure HasUnit (c : Codec α) (name : String) (a : α) : Prop where
  write : c.write a = .text name
  read (room : Nat) : c.read room (.text name) = some a

/-- A variant with one content. -/
structure HasVariant (c : Codec α) (name : String) (content : Codec β) (make : β → α) : Prop where
  write (b : β) : c.write (make b) = .object [(name, content.write b)]
  read (room : Nat) (t : Tree) : c.read (room + 1) (.object [(name, t)]) = (content.read room t).map make

/-- A variant with two contents, which are an array. -/
structure HasPair (c : Codec α) (name : String) (content : Codec β) (make : β → β → α) : Prop where
  write (x y : β) : c.write (make x y) = .object [(name, .array [content.write x, content.write y])]
  read (room : Nat) (s t : Tree) : c.read (room + 2) (.object [(name, .array [s, t])]) = do
    some (make (← content.read room s) (← content.read room t))

/-- A variant whose content has fields. -/
structure HasFields (c : Codec α) (name : String) (fields : Fields β) (make : β → α) : Prop where
  write (b : β) : c.write (make b) = .object [(name, .object (fields.members b))]
  read (room : Nat) {ms : List (String × Tree)} (hnames : ms.map Prod.fst = fields.names) :
    c.read (room + 2) (.object [(name, .object ms)]) = (fields.read room (ms.map Prod.snd)).map make

/-- A record. -/
structure IsRecord (c : Codec α) (fields : Fields β) (make : β → α) : Prop where
  write (b : β) : c.write (make b) = .object (fields.members b)
  read (room : Nat) {ms : List (String × Tree)} (hnames : ms.map Prod.fst = fields.names) :
    c.read (room + 1) (.object ms) = (fields.read room (ms.map Prod.snd)).map make

/-- Integers that are read if they are in the range of their type. -/
structure IsInteger (c : Codec α) (toInt : α → Int) (InRange : α → Prop) : Prop where
  write (a : α) : c.write a = .integer (toInt a)
  read (room : Nat) {a : α} (h : InRange a) : c.read room (.integer (toInt a)) = some a

/-- Optional values. -/
structure IsOption (c : Codec (Option α)) (value : Codec α) : Prop where
  write_none : c.write none = .null
  write_some (a : α) : c.write (some a) = value.write a
  read_null (room : Nat) : c.read room .null = some none
  read (room : Nat) {t : Tree} (h : t ≠ .null) : c.read room t = (value.read room t).map some

/-- Lists. -/
structure IsList (c : Codec (List α)) (item : Codec α) : Prop where
  write (as : List α) : c.write as = .array (as.map item.write)
  read (room : Nat) (ts : List Tree) : c.read (room + 1) (.array ts) = ts.mapM (item.read room)

end Codec

/-! ## The library

All declarations with their forms. Names of fields and variants are those of the declarations. -/

/-- What a library offers: texts, the types that are built in, and a codec for every declaration. -/
structure Library where
  print : Tree → String
  parse : String → Option Tree
  bool : Codec Bool
  text : Codec String
  byte : Codec UInt8
  int32 : Codec Int32
  int64 : Codec Int64
  size : Codec Nat
  float32 : Codec Binary32
  float64 : Codec Binary64
  option {α : Type} : Codec α → Codec (Option α)
  list {α : Type} : Codec α → Codec (List α)
  scalar : Codec Scalar
  compareOp : Codec CompareOp
  function : Codec ScalarFunction
  expr : Codec Expr
  kind : Codec AggregateKind
  mode : Codec AggregateMode
  granularity : Codec Granularity
  aggregation : Codec Aggregation
  filterPlan : Codec FilterPlan
  topNPlan : Codec TopNPlan
  orderedTopNPlan : Codec OrderedTopNPlan
  aggregationPlan : Codec AggregationPlan
  groupPlan : Codec GroupPlan
  projection : Codec Projection

namespace Library

/-- The text of a value. -/
def toText {α : Type} (L : Library) (c : Codec α) (a : α) : String := L.print (c.write a)

/-- Reads a value from a text that holds nothing else. -/
def ofText? {α : Type} (L : Library) (c : Codec α) (text : String) : Option α :=
  (L.parse text).bind (c.read maxDepth)

/-- **What a library documents.** -/
structure Documented (L : Library) : Prop where
  parse_print {t : Tree} (h : t.Exact) : L.parse (L.print t) = some t
  -- built-in types
  write_bool (b : Bool) : L.bool.write b = .bool b
  read_bool (room : Nat) (b : Bool) : L.bool.read room (.bool b) = some b
  write_text (s : String) : L.text.write s = .text s
  read_text (room : Nat) (s : String) : L.text.read room (.text s) = some s
  byte : L.byte.IsInteger (·.toNat) fun _ => True
  int32 : L.int32.IsInteger (·.toInt) fun _ => True
  int64 : L.int64.IsInteger (·.toInt) fun _ => True
  size : L.size.IsInteger (·) (· ≤ maxSize)
  option {α : Type} (c : Codec α) : (L.option c).IsOption c
  list {α : Type} (c : Codec α) : (L.list c).IsList c
  -- scalars
  null : L.scalar.HasUnit "Null" .null
  bool : L.scalar.HasVariant "Bool" L.bool .bool
  scalar_int32 : L.scalar.HasVariant "I32" L.int32 .int32
  scalar_int64 : L.scalar.HasVariant "I64" L.int64 .int64
  scalar_float32 : L.scalar.HasVariant "F32" L.float32 .float32
  scalar_float64 : L.scalar.HasVariant "F64" L.float64 .float64
  text : L.scalar.HasVariant "Str" L.text .text
  bytes : L.scalar.HasVariant "Bin" (L.list L.byte) .bytes
  array : L.scalar.HasVariant "Array" (L.list L.scalar) .array
  -- expressions
  compareOp (op : CompareOp) : L.compareOp.HasUnit op.word op
  function (f : ScalarFunction) : L.function.HasUnit f.word f
  column : L.expr.HasVariant "Column" L.size .column
  literal : L.expr.HasVariant "Literal" L.scalar .literal
  compare : L.expr.HasFields "Compare"
    (.field "op" L.compareOp (.field "left" L.expr (.last "right" L.expr)))
    fun (op, l, r) => .compare op l r
  and : L.expr.HasPair "And" L.expr .and
  or : L.expr.HasPair "Or" L.expr .or
  not : L.expr.HasVariant "Not" L.expr .not
  isNull : L.expr.HasVariant "IsNull" L.expr .isNull
  call : L.expr.HasFields "Call" (.field "function" L.function (.last "args" (L.list L.expr)))
    fun (f, args) => .call f args
  -- aggregates
  kind (kind : AggregateKind) : L.kind.HasUnit kind.word kind
  mode (mode : AggregateMode) : L.mode.HasUnit mode.word mode
  granularity (granularity : Granularity) : L.granularity.HasUnit granularity.word granularity
  aggregation : L.aggregation.IsRecord (.field "kind" L.kind (.last "inputs" (L.list L.size)))
    fun (kind, inputs) => ⟨kind, inputs⟩
  -- plans
  filterPlan : L.filterPlan.IsRecord
    (.field "predicate" L.expr (.last "outputs" (L.list L.expr)))
    fun (predicate, outputs) => ⟨predicate, outputs⟩
  topNPlan : L.topNPlan.IsRecord
    (.field "limit" (L.option L.size) (.field "offset" L.size (.last "outputs" (L.list L.expr))))
    fun (limit, offset, outputs) => ⟨limit, offset, outputs⟩
  orderedTopNPlan : L.orderedTopNPlan.IsRecord
    (.field "limit" (L.option L.size) (.field "offset" L.size (.field "outputs" (L.list L.expr)
      (.field "order_by" (L.list L.size) (.field "reverse_flags" (L.list L.bool)
        (.last "nulls_first" (L.list (L.option L.bool))))))))
    fun (limit, offset, outputs, orderBy, descending, nullsFirst) =>
      ⟨limit, offset, outputs, orderBy, descending, nullsFirst⟩
  aggregationPlan : L.aggregationPlan.IsRecord
    (.field "aggregations" (L.list L.aggregation) (.field "mode" L.mode
      (.last "granularity" L.granularity)))
    fun (aggregations, mode, granularity) => ⟨aggregations, mode, granularity⟩
  groupPlan : L.groupPlan.IsRecord
    (.field "keys" (L.list L.size) (.field "aggregations" (L.list L.aggregation) (.field "mode" L.mode
      (.last "granularity" L.granularity))))
    fun (keys, aggregations, mode, granularity) => ⟨keys, aggregations, mode, granularity⟩
  filter : L.projection.HasVariant "Filter" L.filterPlan .filter
  topN : L.projection.HasVariant "TopN" L.topNPlan .topN
  orderedTopN : L.projection.HasVariant "OrderedTopN" L.orderedTopNPlan .orderedTopN
  projection_aggregation : L.projection.HasVariant "Aggregation" L.aggregationPlan .aggregation
  group : L.projection.HasVariant "Group" L.groupPlan .group

end Library

end RowStream.Json
