import RowStream.Engine.Error
import RowStream.Json.Number

/-!
# Configuration

The settings of an engine: the breaker that all its jobs share, the quota of each job, how many
jobs run at once and how sources hand out rows. Settings can come from environment variables; a
variable that does not hold a size leaves its setting as it is.
-/

namespace RowStream

/-- The settings of an engine. -/
structure Config where
  breakerLimit : Nat
  breakerName : String
  jobQuota : Option Nat
  maxParallel : Nat
  sourceBatch : Nat
  channelCapacity : Nat
  deriving DecidableEq

/-- What makes settings unusable. -/
inductive ConfigFault where
  | noBreakerLimit
  | noJobQuota
  | noParallel
  | noSourceBatch
  | noChannelCapacity
  deriving DecidableEq

namespace ConfigFault

def message : ConfigFault → String
  | noBreakerLimit => "breaker_limit_bytes must be > 0"
  | noJobQuota => "job_quota_bytes must be > 0 when set"
  | noParallel => "max_parallel_tasks must be > 0"
  | noSourceBatch => "source_batch_size must be > 0"
  | noChannelCapacity => "channel_capacity must be > 0"

end ConfigFault

/-- A size in decimal digits, with or without a plus sign. -/
def sizeOfText? (text : String) : Option Nat :=
  let digits := match text.toList with
    | '+' :: rest => rest
    | all => all
  if digits.isEmpty || !digits.all Json.isDigit then none
  else
    let n := Json.digitsValue digits
    if n ≤ maxSize then some n else none

namespace Config

/-- The settings used where nothing else is said. -/
def standard : Config where
  breakerLimit := 512 * 1024 * 1024
  breakerName := "query"
  jobQuota := none
  maxParallel := 4
  sourceBatch := 1024
  channelCapacity := 8

/-- The standard settings with those of the environment put in their place. The variables of an
engine are named after its system. -/
def ofEnvironment (system : String) (setting? : String → Option String) : Config :=
  let size? (name : String) : Option Nat := (setting? (system ++ name)).bind sizeOfText?
  { breakerLimit := (size? "_BREAKER_LIMIT_BYTES").getD standard.breakerLimit
    breakerName := (setting? (system ++ "_BREAKER_NAME")).getD standard.breakerName
    jobQuota := size? "_JOB_QUOTA_BYTES"
    maxParallel := (size? "_MAX_PARALLEL_TASKS").getD standard.maxParallel
    sourceBatch := (size? "_SOURCE_BATCH_SIZE").getD standard.sourceBatch
    channelCapacity := (size? "_CHANNEL_CAPACITY").getD standard.channelCapacity }

/-- Finds the first fault of the settings. -/
def check (c : Config) : Except ConfigFault Unit :=
  if c.breakerLimit = 0 then .error .noBreakerLimit
  else if c.jobQuota = some 0 then .error .noJobQuota
  else if c.maxParallel = 0 then .error .noParallel
  else if c.sourceBatch = 0 then .error .noSourceBatch
  else if c.channelCapacity = 0 then .error .noChannelCapacity
  else .ok ()

/-- Refuses settings with a fault. -/
def validate (c : Config) : Except SetupError Unit :=
  c.check.mapError fun fault => .config fault.message

end Config

end RowStream
