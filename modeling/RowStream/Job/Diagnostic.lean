import RowStream.Job.KillSwitch
import RowStream.Memory.Budget
import RowStream.Scalar.Written

/-!
# Diagnostics of jobs

The forms in which breakers, accounts and kill switches are shown in diagnostics.
-/

namespace RowStream

def Breaker.diagnostic (b : Breaker) : String :=
  Text.record "CircuitBreaker"
    [("name", Text.quoted b.name), ("limit", toString b.limit), ("used", toString b.used)]

def Account.diagnostic (a : Account) : String :=
  Text.record "RamAccounting"
    [("job_id", "JobId(" ++ a.job.toText ++ ")"), ("quota", Text.optional (a.quota.map toString)),
      ("used", toString a.used)]

def KillSwitch.diagnostic (k : KillSwitch) : String :=
  Text.record "KillSwitch"
    [("killed", Scalar.boolWord k.isKilled), ("reason", Text.optional (k.reason.map Text.quoted))]

end RowStream
