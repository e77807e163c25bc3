import RowStream.Engine.Config
import RowStream.Engine.Drive
import RowStream.Engine.Plan
import RowStream.Stream.Chain
import RowStream.Stream.Source

/-!
# Runners

A runner owns the breaker that all its jobs share. A job that cannot be set up closes its source
without pulling a row; any other is driven into a result set.
-/

namespace RowStream

/-- The settings of an engine and the breaker that its jobs share. -/
structure Runner where
  config : Config
  breaker : Breaker

namespace Runner

def new (config : Config) : Except RunError Runner :=
  match config.validate with
  | .ok () => .ok ⟨config, .new config.breakerName config.breakerLimit⟩
  | .error e => .error (.ofSetup e)

/-- A job on the breaker of the runner, with the configured quota. -/
def job (r : Runner) (id : JobId) : Job := .new ⟨r.breaker, .new id r.config.jobQuota⟩

/-- Rows in memory, in pages of the configured size. -/
def memorySource (r : Runner) (rows : List Row) : Source :=
  .memory (.paged rows r.config.sourceBatch)

/-- A channel of the configured capacity. -/
def channelSource (r : Runner) : Source := .channel (.new (.new r.config.channelCapacity))

/-- What a runner is once a job has given back its breaker. -/
def leave (r : Runner) (job : Job) : Runner := { r with breaker := job.budget.breaker }

end Runner

/-- A job on its way: refused before it began, or driven into a result set. -/
inductive Run (β : Type) where
  | refused (source : β)
  | driven (depth : Nat) (drive : Drive (Chain β depth) ResultSet)

namespace Run

variable {β : Type}

/-- The source of the job, as it is by now. -/
def source : Run β → β
  | refused source => source
  | driven _ drive => drive.chain.source

/-- Works on the source from outside of the job. -/
def modifySource (f : β → β) : Run β → Run β
  | refused source => refused (f source)
  | driven depth drive => driven depth { drive with chain := drive.chain.modifySource f }

variable [BatchIterator β]

/-- The answer of a drive as the answer of a run. -/
def answer : Progress OpError → Progress RunError
  | .pending => .pending
  | .finished result => .finished (result.mapError .operator)
  | .over => .over

/-- Goes on with a job until it is over or its source has to be waited for. -/
def poll (run : Run β) (job : Job) : Progress RunError × Run β × Job :=
  match run with
  | refused source => (.over, refused source, job)
  | driven depth drive =>
    let (progress, drive, job) := drive.poll job
    (answer progress, driven depth drive, job)

/-- Sets up the stages of a job over its source and begins. -/
def start (source : β) (plans : List Projection) (job : Job) :
    Progress RunError × Run β × Job :=
  match Projection.compileAll .standard plans with
  | .error e =>
    let (source, job) := BatchIterator.close source job
    (.finished (.error (.ofSetup e)), refused source, job)
  | .ok operators =>
    (driven operators.reverse.length (.new (compose source operators) .new)).poll job

end Run

end RowStream
