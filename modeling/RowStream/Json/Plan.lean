import RowStream.Json.Fields
import RowStream.Numeric.Layout
import RowStream.Projection

/-!
# Plans in JSON

Scalars, expressions and projections as JSON trees, writer beside reader. A floating-point number
that is not finite is written as null, which is not read back.
-/

namespace RowStream

/-! ## Scalars -/

namespace Binary32

def isFinite (x : Binary32) : Bool := x.magnitude < Format.binary32.infinityWord

def toJson (x : Binary32) : Json :=
  if x.isFinite then .number (x.write .json32).toList else .null

end Binary32

namespace Binary64

def isFinite (x : Binary64) : Bool := x.magnitude < Format.binary64.infinityWord

def toJson (x : Binary64) : Json :=
  if x.isFinite then .number (x.write .json64).toList else .null

end Binary64

namespace Scalar

mutual

def toJson : Scalar → Json
  | null => .ofText "Null"
  | bool b => .ofAlternative "Bool" (.bool b)
  | int32 n => .ofAlternative "I32" (.ofInt n.toInt)
  | int64 n => .ofAlternative "I64" (.ofInt n.toInt)
  | float32 x => .ofAlternative "F32" x.toJson
  | float64 x => .ofAlternative "F64" x.toJson
  | text s => .ofAlternative "Str" (.ofText s)
  | bytes b => .ofAlternative "Bin" (.ofList (fun byte => .ofNat byte.toNat) b)
  | array items => .ofAlternative "Array" (.array (itemsToJson items))

def itemsToJson : List Scalar → List Json
  | [] => []
  | a :: as => toJson a :: itemsToJson as

end

/-- Reads a byte. -/
def byteOfJson? (j : Json) : Option UInt8 := (j.integerWithin? 0 255).map fun n => n.toNat.toUInt8

/-- Reads a scalar that is not an array from its name and content. -/
def atomOfJson? (room : Nat) (name : String) (content : Json) : Option Scalar :=
  match name with
  | "Null" => if content.isNull then some null else none
  | "Bool" => content.bool?.map bool
  | "I32" =>
    (content.integerWithin? Int32.minValue.toInt Int32.maxValue.toInt).map
      fun n => int32 (.ofInt n)
  | "I64" =>
    (content.integerWithin? Int64.minValue.toInt Int64.maxValue.toInt).map
      fun n => int64 (.ofInt n)
  | "F32" => (content.numeral?.bind Json.Numeral.binary32?).map float32
  | "F64" => (content.numeral?.bind Json.Numeral.binary64?).map float64
  | "Str" => content.text?.map text
  | "Bin" => (content.list? room fun _ => byteOfJson?).map bytes
  | _ => none

def ofJson? : (room : Nat) → Json → Option Scalar
  | 0, j => if j.alternative? matches some ("Null", none) then some null else none
  | room + 1, j =>
    match j.alternative? with
    | some (name, none) => if name = "Null" then some null else none
    | some (name, some content) =>
      if name = "Array" then
        match room, content with
        | room + 1, .array items => (Json.each? (ofJson? room) items).map array
        | _, _ => none
      else atomOfJson? room name content
    | none => none

end Scalar

/-! ## Expressions -/

namespace CompareOp

def word : CompareOp → String
  | eq => "Eq"
  | notEq => "NotEq"
  | lt => "Lt"
  | ltEq => "LtEq"
  | gt => "Gt"
  | gtEq => "GtEq"

def all : List CompareOp := [eq, notEq, lt, ltEq, gt, gtEq]

def ofJson? : Nat → Json → Option CompareOp := Json.word? word all

end CompareOp

namespace ScalarFunction

def word : ScalarFunction → String
  | concat => "Concat"
  | concatWs => "ConcatWs"
  | exp => "Exp"
  | quoteIdent => "QuoteIdent"

def all : List ScalarFunction := [concat, concatWs, exp, quoteIdent]

def ofJson? : Nat → Json → Option ScalarFunction := Json.word? word all

end ScalarFunction

namespace Expr

mutual

def toJson : Expr → Json
  | column i => .ofAlternative "Column" (.ofNat i)
  | literal v => .ofAlternative "Literal" v.toJson
  | compare op l r =>
    .ofAlternative "Compare"
      (.ofFields [("op", .ofText op.word), ("left", toJson l), ("right", toJson r)])
  | and l r => .ofAlternative "And" (.array [toJson l, toJson r])
  | or l r => .ofAlternative "Or" (.array [toJson l, toJson r])
  | not e => .ofAlternative "Not" (toJson e)
  | isNull e => .ofAlternative "IsNull" (toJson e)
  | call f args =>
    .ofAlternative "Call"
      (.ofFields [("function", .ofText f.word), ("args", .array (listToJson args))])

def listToJson : List Expr → List Json
  | [] => []
  | e :: es => toJson e :: listToJson es

end

def ofJson? : (room : Nat) → Json → Option Expr
  | 0, _ => none
  | room + 1, j =>
    match j.alternative? with
    | some (name, some content) =>
      match name with
      | "Column" => content.size?.map column
      | "Literal" => (Scalar.ofJson? room content).map literal
      | "Not" => (ofJson? room content).map not
      | "IsNull" => (ofJson? room content).map isNull
      | "And" =>
        match room, content with
        | room + 1, .array [l, r] => do some (and (← ofJson? room l) (← ofJson? room r))
        | _, _ => none
      | "Or" =>
        match room, content with
        | room + 1, .array [l, r] => do some (or (← ofJson? room l) (← ofJson? room r))
        | _, _ => none
      | "Compare" =>
        match room, content.fields? ["op", "left", "right"] with
        | room + 1, some [some op, some l, some r] => do
          some (compare (← CompareOp.ofJson? room op) (← ofJson? room l) (← ofJson? room r))
        | _, _ => none
      | "Call" =>
        match room, content.fields? ["function", "args"] with
        | room + 1, some [some f, some args] =>
          match room, args with
          | inner + 1, .array items => do
            some (call (← ScalarFunction.ofJson? room f) (← Json.each? (ofJson? inner) items))
          | _, _ => none
        | _, _ => none
      | _ => none
    | _ => none

/-- Reads a list of expressions. -/
def listOfJson? (room : Nat) (j : Json) : Option (List Expr) := j.list? room ofJson?

end Expr

/-! ## Projections -/

namespace Json

/-- The fields of a record that is entered, and how much room is left in it. -/
def record? (room : Nat) (names : List String) (j : Json) : Option (Nat × List (Option Json)) :=
  match room with
  | 0 => none
  | room + 1 => (j.fields? names).map fun fields => (room, fields)

/-- Reads a field that may be missing. -/
def optionalField? {α : Type} (read : Json → Option α) : Option Json → Option (Option α)
  | none => some none
  | some j => j.optional? read

end Json

namespace AggregateKind

def all : List AggregateKind := [count, countStar, sum, avg, min, max, arbitrary]

def ofJson? : Nat → Json → Option AggregateKind := Json.word? word all

end AggregateKind

namespace AggregateMode

def all : List AggregateMode := [iterFinal, iterPartial, partialFinal]

def ofJson? : Nat → Json → Option AggregateMode := Json.word? word all

end AggregateMode

namespace Granularity

def all : List Granularity := [doc, shard, node, cluster]

def ofJson? : Nat → Json → Option Granularity := Json.word? word all

end Granularity

namespace Aggregation

def toJson (a : Aggregation) : Json :=
  .ofFields [("kind", .ofText a.kind.word), ("inputs", .ofList .ofNat a.inputs)]

def ofJson? (room : Nat) (j : Json) : Option Aggregation := do
  match ← j.record? room ["kind", "inputs"] with
  | (room, [some kind, some inputs]) =>
    some ⟨← AggregateKind.ofJson? room kind, ← inputs.list? room fun _ => Json.size?⟩
  | _ => none

end Aggregation

namespace FilterPlan

def toJson (p : FilterPlan) : Json :=
  .ofFields [("predicate", p.predicate.toJson), ("outputs", .array (Expr.listToJson p.outputs))]

def ofJson? (room : Nat) (j : Json) : Option FilterPlan := do
  match ← j.record? room ["predicate", "outputs"] with
  | (room, [some predicate, some outputs]) =>
    some ⟨← Expr.ofJson? room predicate, ← Expr.listOfJson? room outputs⟩
  | _ => none

end FilterPlan

namespace TopNPlan

def toJson (p : TopNPlan) : Json :=
  .ofFields [("limit", .ofOption .ofNat p.limit), ("offset", .ofNat p.offset),
    ("outputs", .array (Expr.listToJson p.outputs))]

def ofJson? (room : Nat) (j : Json) : Option TopNPlan := do
  match ← j.record? room ["limit", "offset", "outputs"] with
  | (room, [limit, some offset, some outputs]) =>
    some ⟨← Json.optionalField? Json.size? limit, ← offset.size?, ← Expr.listOfJson? room outputs⟩
  | _ => none

end TopNPlan

namespace OrderedTopNPlan

def toJson (p : OrderedTopNPlan) : Json :=
  .ofFields [("limit", .ofOption .ofNat p.limit), ("offset", .ofNat p.offset),
    ("outputs", .array (Expr.listToJson p.outputs)), ("order_by", .ofList .ofNat p.orderBy),
    ("reverse_flags", .ofList .bool p.descending),
    ("nulls_first", .ofList (.ofOption .bool) p.nullsFirst)]

def ofJson? (room : Nat) (j : Json) : Option OrderedTopNPlan := do
  let names := ["limit", "offset", "outputs", "order_by", "reverse_flags", "nulls_first"]
  match ← j.record? room names with
  | (room, [limit, some offset, some outputs, some orderBy, some descending, some nullsFirst]) =>
    some {
      limit := ← Json.optionalField? Json.size? limit
      offset := ← offset.size?
      outputs := ← Expr.listOfJson? room outputs
      orderBy := ← orderBy.list? room fun _ => Json.size?
      descending := ← descending.list? room fun _ => Json.bool?
      nullsFirst := ← nullsFirst.list? room fun _ => Json.optional? Json.bool? }
  | _ => none

end OrderedTopNPlan

namespace AggregationPlan

def toJson (p : AggregationPlan) : Json :=
  .ofFields [("aggregations", .ofList Aggregation.toJson p.aggregations),
    ("mode", .ofText p.mode.word), ("granularity", .ofText p.granularity.word)]

def ofJson? (room : Nat) (j : Json) : Option AggregationPlan := do
  match ← j.record? room ["aggregations", "mode", "granularity"] with
  | (room, [some aggregations, some mode, some granularity]) =>
    some ⟨← aggregations.list? room Aggregation.ofJson?, ← AggregateMode.ofJson? room mode,
      ← Granularity.ofJson? room granularity⟩
  | _ => none

end AggregationPlan

namespace GroupPlan

def toJson (p : GroupPlan) : Json :=
  .ofFields [("keys", .ofList .ofNat p.keys),
    ("aggregations", .ofList Aggregation.toJson p.aggregations),
    ("mode", .ofText p.mode.word), ("granularity", .ofText p.granularity.word)]

def ofJson? (room : Nat) (j : Json) : Option GroupPlan := do
  match ← j.record? room ["keys", "aggregations", "mode", "granularity"] with
  | (room, [some keys, some aggregations, some mode, some granularity]) =>
    some ⟨← keys.list? room fun _ => Json.size?, ← aggregations.list? room Aggregation.ofJson?,
      ← AggregateMode.ofJson? room mode, ← Granularity.ofJson? room granularity⟩
  | _ => none

end GroupPlan

namespace Projection

def toJson : Projection → Json
  | filter p => .ofAlternative "Filter" p.toJson
  | topN p => .ofAlternative "TopN" p.toJson
  | orderedTopN p => .ofAlternative "OrderedTopN" p.toJson
  | aggregation p => .ofAlternative "Aggregation" p.toJson
  | group p => .ofAlternative "Group" p.toJson

def ofJson? (room : Nat) (j : Json) : Option Projection :=
  match room, j.alternative? with
  | room + 1, some (name, some content) =>
    match name with
    | "Filter" => (FilterPlan.ofJson? room content).map filter
    | "TopN" => (TopNPlan.ofJson? room content).map topN
    | "OrderedTopN" => (OrderedTopNPlan.ofJson? room content).map orderedTopN
    | "Aggregation" => (AggregationPlan.ofJson? room content).map aggregation
    | "Group" => (GroupPlan.ofJson? room content).map group
    | _ => none
  | _, _ => none

end Projection

end RowStream
