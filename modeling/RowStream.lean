import RowStream.Engine.Runner
import RowStream.Job.Diagnostic
import RowStream.Json.Record
import RowStream.Memory.Ledger
import RowStream.Stream.Source.Counted
import RowStream.Proofs.Memory.Movement
import RowStream.Proofs.Memory.Trace
import RowStream.Proofs.Stream.Simulation
import RowStream.Proofs.Stream.Release
import RowStream.Proofs.Stream.Supply
import RowStream.Proofs.Stream.Pull
import RowStream.Proofs.Engine.Attend
import RowStream.Proofs.Engine.Meaning
import RowStream.Proofs.Memory.Limits
import RowStream.Proofs.Engine.Limits
import RowStream.Proofs.Memory.Transfer
import RowStream.Proofs.Memory.Balance
import RowStream.Proofs.Collector.Ordered
import RowStream.Proofs.Engine.Ordered
import RowStream.Proofs.Collector.Custody
import RowStream.Proofs.Memory.Custody
import RowStream.Proofs.Stream.Custody
import RowStream.Proofs.Engine.Custody
import RowStream.Proofs.Engine.Grouping
import RowStream.Proofs.Engine.TwoPhase
import RowStream.Proofs.Scalar.Preorder
import RowStream.Proofs.Stream.Lifecycle
import RowStream.Proofs.Engine.Conduct
import RowStream.Proofs.Engine.Merging
import RowStream.Proofs.Memory.Peak
import RowStream.Proofs.Collector.Retention
import RowStream.Proofs.Engine.Bounds
import RowStream.Proofs.Memory.Oblivious
import RowStream.Proofs.Collector.Oblivious
import RowStream.Proofs.Stream.Oblivious
import RowStream.Proofs.Engine.Isolation
import RowStream.Proofs.Json.Shipping
import RowStream.Proofs.Engine.Prefetch
import RowStream.Proofs.Engine.Kill
import RowStream.Proofs.Expr.History
import RowStream.Proofs.Memory.Decision
import RowStream.Proofs.Engine.Refusal
import RowStream.Proofs.Collector.Holding
import RowStream.Proofs.Engine.Sorting
import RowStream.Proofs.Aggregate.Sum
import RowStream.Proofs.Scalar.Shape
import RowStream.Proofs.Aggregate.InPlace
import RowStream.Proofs.Engine.Termination
import RowStream.Proofs.Engine.Reading
import RowStream.Proofs.Expr.Quoting
import RowStream.Proofs.Expr.Logic
import RowStream.Proofs.Expr.Concat
import RowStream.Proofs.Expr.PassThrough
import RowStream.Proofs.Memory.Capacity
import RowStream.Proofs.Collector.Arity
import RowStream.Proofs.Stream.Arity
import RowStream.Proofs.Stream.Logged
import RowStream.Proofs.Engine.Arity
import RowStream.Proofs.Stream.Mailbox
