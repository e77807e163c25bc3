import RowStream.Error

/-!
# Errors of the engine

A `SetupError` is found before any row is read; a `RunError` is what a run of a pipeline can end
with. A setup error ends a run as a fault of the plan unless it is one of the configuration.
-/

namespace RowStream

/-- What can be wrong before a run. -/
inductive SetupError where
  | config (text : String)
  | plan (text : String)
  | hash (text : String)
  | invariant (text : String)
  deriving DecidableEq

namespace SetupError

def message : SetupError → String
  | config text => "Invalid configuration: " ++ text
  | plan text => "Invalid projection: " ++ text
  | hash text => "Hashing error: " ++ text
  | invariant text => "Internal invariant failed: " ++ text

end SetupError

/-- How a run can fail. -/
inductive RunError where
  | plan (text : String)
  | operator (cause : OpError)
  | config (text : String)
  | join (text : String)
  deriving DecidableEq

namespace RunError

def message : RunError → String
  | plan text => "invalid projection: " ++ text
  | operator cause => "operator: " ++ cause.message
  | config text => "invalid configuration: " ++ text
  | join text => "pipeline task: " ++ text

def ofSetup : SetupError → RunError
  | .config text => config text
  | other => plan other.message

def isResourceExhaustion : RunError → Bool
  | operator cause => cause.isResourceExhaustion
  | _ => false

def isKilled : RunError → Bool
  | operator cause => cause.isKilled
  | _ => false

end RunError

end RowStream
