import RowStream.Stream.Pull

/-!
# Drives

A drive pulls all rows of a chain into a consumer. It can be suspended where its source has no page
yet. However it ends, the chain is closed once and the consumer gives back what it accounted; only
a drive that is abandoned discards them both without closing the chain.
-/

namespace RowStream

/-- How far a drive is. -/
inductive Phase where
  | fresh
  | suspended
  | over
  deriving DecidableEq, Repr

/-- What is answered when a drive is asked to go on. -/
inductive Progress (ε : Type) where
  | pending
  | finished (result : Except ε Bucket)
  | over

/-- A chain, a consumer for its rows, and how far the one was pulled into the other. -/
structure Drive (σ κ : Type) where
  chain : σ
  consumer : κ
  phase : Phase

namespace Drive

variable {σ κ : Type} [BatchIterator σ] [RowConsumer κ]

def new (chain : σ) (consumer : κ) : Drive σ κ := ⟨chain, consumer, .fresh⟩

/-- Ends a drive: the chain is closed, and the rows are taken out of the consumer. -/
def finish (chain : σ) (consumer : κ) (result : Except OpError Unit) (job : Job) :
    Progress OpError × Drive σ κ × Job :=
  let (chain, job) := BatchIterator.close chain job
  let rows := RowConsumer.rows consumer
  let (consumer, job) := RowConsumer.release consumer job
  (.finished (result.map fun () => rows), ⟨chain, consumer, .over⟩, job)

/-- What a drive is after pulling. -/
def settle : StepResult OpError Job (σ × κ) Pulled → Progress OpError × Drive σ κ × Job
  | .ok .exhausted ((chain, consumer), job) => finish chain consumer (.ok ()) job
  | .ok .suspended ((chain, consumer), job) => (.pending, ⟨chain, consumer, .suspended⟩, job)
  | .error e ((chain, consumer), job) => finish chain consumer (.error e) job

/-- Goes on with a drive until it is over or has to wait. -/
def poll (d : Drive σ κ) (job : Job) : Progress OpError × Drive σ κ × Job :=
  match d.phase with
  | .fresh => settle (pull d.chain d.consumer job)
  | .suspended => settle (resume d.chain d.consumer job)
  | .over => (.over, d, job)

/-- Abandons a drive. -/
def abort (d : Drive σ κ) (job : Job) : Drive σ κ × Job :=
  match d.phase with
  | .over => (d, job)
  | _ =>
    let (chain, job) := BatchIterator.discard d.chain job
    let (consumer, job) := RowConsumer.release d.consumer job
    (⟨chain, consumer, .over⟩, job)

end Drive

/-- Pulls all rows out of an iterator and closes it. -/
def drain {σ : Type} [BatchIterator σ] (s : σ) (job : Job) :
    Progress OpError × Drive σ Recorder × Job :=
  (Drive.new s Recorder.new).poll job

end RowStream
