import RowStream.Digest.Fingerprint
import RowStream.Engine.Error
import RowStream.Json.Plan
import RowStream.Stream.Operator

/-!
# From plans to operators

Each plan that has no fault has an operator. An ordered top-N without limit sorts all rows, one
with a limit keeps only as many as can come out.
-/

namespace RowStream

namespace Projection

/-- Refuses a plan with a fault. -/
def validate (p : Projection) : Except SetupError Unit :=
  p.check.mapError fun fault => .plan fault.message

/-- The digest by which a plan is recognized. -/
def fingerprint (p : Projection) : Fingerprint := .ofText p.toJson.toText

/-- The operator of a plan. -/
def operator (footprint : Footprint) : Projection → Operator
  | filter p => .filter (.new p.predicate p.outputs)
  | topN p => .limit (.new p.offset p.limit p.outputs)
  | orderedTopN p =>
    let order := RowOrder.ofColumns p.orderBy p.descending p.nullsFirst
    .collect (.new
      (match p.limit with
        | none => .sort (.new order p.offset p.outputs footprint)
        | some limit => .top (.new order limit p.offset p.outputs footprint)))
  | aggregation p => .collect (.new (.totals (.new ⟨p.aggregations, p.mode⟩)))
  | group p => .collect (.new (.group (.new p.keys ⟨p.aggregations, p.mode⟩ footprint)))

/-- The operator of a plan, unless the plan has a fault. -/
def compile (footprint : Footprint) (p : Projection) : Except SetupError Operator :=
  match p.validate with
  | .ok () => .ok (p.operator footprint)
  | .error e => .error e

/-- The operators of plans, up to the first that has a fault. -/
def compileAll (footprint : Footprint) : List Projection → Except SetupError (List Operator)
  | [] => .ok []
  | p :: ps =>
    match p.compile footprint with
    | .error e => .error e
    | .ok op =>
      match compileAll footprint ps with
      | .error e => .error e
      | .ok ops => .ok (op :: ops)

end Projection

end RowStream
