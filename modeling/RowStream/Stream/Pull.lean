import RowStream.Stream.Consumer

/-!
# Pulling

`pull` takes rows out of an iterator until it has to wait, there are no more, or something fails.
The kill switch of the job is looked at before every row and before every page, so that no row is
taken once it is flipped.
-/

namespace RowStream

/-- Why pulling came to an end without a failure. -/
inductive Pulled where
  | exhausted
  | suspended
  deriving DecidableEq, Repr

variable {σ κ : Type} [BatchIterator σ] [RowConsumer κ]

/-- Asks for a page, unless the job is killed. -/
def request : Running σ Load := fun (s, job) =>
  match job.kill.check with
  | .error e => .error e (s, job)
  | .ok () => BatchIterator.load (s, job)

theorem pages_of_request {s t : σ} {job job' : Job}
    (h : request (s, job) = .ok .ready (t, job')) : BatchIterator.pages t < BatchIterator.pages s := by
  unfold request at h
  simp only at h
  split at h
  · cases h
  · exact BatchIterator.pages_of_load h

/-- Hands the loaded rows to a consumer. -/
def pullPage (s : σ) (k : κ) (job : Job) : StepResult OpError Job (σ × κ) Unit :=
  match job.kill.check with
  | .error e => .error e ((s, k), job)
  | .ok () =>
    match _ : BatchIterator.moveNext (s, job) with
    | .error e (s, job) => .error e ((s, k), job)
    | .ok false (s, job) => .ok () ((s, k), job)
    | .ok true (s, job) =>
      match RowConsumer.accept (BatchIterator.current s) (k, job) with
      | .error e (k, job) => .error e ((s, k), job)
      | .ok () (k, job) => pullPage s k job
termination_by BatchIterator.ready s
decreasing_by exact BatchIterator.ready_lt_of_moveNext ‹_›

theorem pages_of_pullPage {s t : σ} {k l : κ} {job job' : Job}
    (h : pullPage s k job = .ok () ((t, l), job')) :
    BatchIterator.pages t ≤ BatchIterator.pages s := by
  fun_induction pullPage s k job with
  | case1 => cases h
  | case2 => cases h
  | case3 s k job _ _ _ hm =>
    cases h
    exact BatchIterator.pages_of_moveNext hm
  | case4 => cases h
  | case5 s k job _ _ _ hm _ _ _ ih =>
    exact Nat.le_trans (ih h) (BatchIterator.pages_of_moveNext hm)

/-- Hands rows to a consumer, page after page. -/
def pull (s : σ) (k : κ) (job : Job) : StepResult OpError Job (σ × κ) Pulled :=
  match _ : pullPage s k job with
  | .error e ((s, k), job) => .error e ((s, k), job)
  | .ok () ((s, k), job) =>
    if BatchIterator.allLoaded s then .ok .exhausted ((s, k), job)
    else
      match _ : request (s, job) with
      | .error e (s, job) => .error e ((s, k), job)
      | .ok .pending (s, job) => .ok .suspended ((s, k), job)
      | .ok .ready (s, job) => pull s k job
termination_by BatchIterator.pages s
decreasing_by
  exact Nat.lt_of_lt_of_le (pages_of_request ‹_›) (pages_of_pullPage ‹_›)

/-- Goes on pulling where it had to wait: at the request for a page. -/
def resume (s : σ) (k : κ) (job : Job) : StepResult OpError Job (σ × κ) Pulled :=
  match request (s, job) with
  | .error e (s, job) => .error e ((s, k), job)
  | .ok .pending (s, job) => .ok .suspended ((s, k), job)
  | .ok .ready (s, job) => pull s k job

end RowStream
