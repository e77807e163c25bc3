import RowStream.Engine.Config
import RowStream.Engine.Summary
import RowStream.Json.Plan
import RowStream.Json.Reader
import RowStream.Row.Bucket

/-!
# Records in JSON

Footprints, buckets, job identifiers, settings and run summaries as JSON trees. Summaries are
only written.
-/

namespace RowStream

namespace Footprint

def toJson (f : Footprint) : Json :=
  .ofFields [("bytes_per_row", .ofNat f.bytesPerRow), ("bytes_per_state", .ofNat f.bytesPerState)]

def ofJson? (room : Nat) (j : Json) : Option Footprint := do
  match ← j.record? room ["bytes_per_row", "bytes_per_state"] with
  | (_, [some row, some state]) => some ⟨← row.size?, ← state.size?⟩
  | _ => none

end Footprint

namespace Bucket

def toJson (b : Bucket) : Json :=
  .ofFields [("rows", .ofList (fun row => .array (Scalar.itemsToJson row)) b.toList)]

def ofJson? (room : Nat) (j : Json) : Option Bucket := do
  match ← j.record? room ["rows"] with
  | (room, [some rows]) =>
    ofList <$> rows.list? room fun room row => row.list? room Scalar.ofJson?
  | _ => none

end Bucket

namespace JobId

def toJson (id : JobId) : Json := .ofText id.toText

def ofJson? (j : Json) : Option JobId := j.text?.bind ofText?

end JobId

namespace Config

def toJson (c : Config) : Json :=
  .ofFields [("breaker_limit_bytes", .ofNat c.breakerLimit), ("breaker_name", .ofText c.breakerName),
    ("job_quota_bytes", .ofOption .ofNat c.jobQuota), ("max_parallel_tasks", .ofNat c.maxParallel),
    ("source_batch_size", .ofNat c.sourceBatch), ("channel_capacity", .ofNat c.channelCapacity)]

def ofJson? (room : Nat) (j : Json) : Option Config := do
  let names := ["breaker_limit_bytes", "breaker_name", "job_quota_bytes", "max_parallel_tasks",
    "source_batch_size", "channel_capacity"]
  match ← j.record? room names with
  | (_, [some limit, some name, quota, some parallel, some batch, some capacity]) =>
    some {
      breakerLimit := ← limit.size?
      breakerName := ← name.text?
      jobQuota := ← Json.optionalField? Json.size? quota
      maxParallel := ← parallel.size?
      sourceBatch := ← batch.size?
      channelCapacity := ← capacity.size? }
  | _ => none

end Config

namespace Summary

def toJson (s : Summary) : Json :=
  .ofFields [("job_id", s.job.toJson), ("stages", .ofNat s.stages), ("rows", .ofNat s.rows),
    ("peak_bytes", .ofNat s.peakBytes), ("breaker_tripped", .bool s.breakerTripped),
    ("elapsed", .ofFields [("secs", .ofNat s.elapsed.seconds),
      ("nanos", .ofNat s.elapsed.nanoseconds)]),
    ("outcome", .ofText s.outcome.word)]

end Summary

/-- Reads a value from a text that holds nothing else. -/
def Json.read? {α : Type} (ofJson? : Nat → Json → Option α) (text : String) : Option α :=
  (Json.ofText? text).bind (ofJson? Json.maxDepth)

end RowStream
