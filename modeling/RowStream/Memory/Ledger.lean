import RowStream.Memory.Scratch

/-!
# Ledgers

A ledger is all that is accounted at one moment: the breakers, the jobs on them, and the scopes
and scratch buffers of the jobs. Everything that can happen to it is an `Ledger.Entry`; entries
of different jobs and scopes can follow each other in any order.
-/

namespace RowStream

/-- Breakers, jobs by the number of their breaker, and scopes and buffers by the number of their
job. A scope or buffer that was dropped leaves an empty place, so that numbers stay valid. -/
structure Ledger where
  breakers : List Breaker
  jobs : List (Nat × Account)
  scopes : List (Nat × Option Scope)
  buffers : List (Nat × Option Scratch)

namespace Ledger

/-- What can happen to a ledger. -/
inductive Entry where
  | openScope (job : Nat) (label : String)
  | add (scope bytes : Nat)
  | sub (scope bytes : Nat)
  | releaseScope (scope : Nat)
  | dropScope (scope : Nat)
  | openBuffer (job : Nat) (label : String)
  | push (buffer : Nat) (text : String)
  | pushChar (buffer : Nat) (c : Char)
  | clear (buffer : Nat)
  | releaseBuffer (buffer : Nat)
  | dropBuffer (buffer : Nat)
  deriving DecidableEq

/-- A ledger without scopes and buffers. -/
def new (breakers : List Breaker) (jobs : List (Nat × Account)) : Ledger := ⟨breakers, jobs, [], []⟩

/-- The counters that a job's requests go through. -/
def budget? (l : Ledger) (job : Nat) : Option Budget := do
  let (breaker, account) ← l.jobs[job]?
  some ⟨← l.breakers[breaker]?, account⟩

/-- Puts the counters of a job back. -/
def setBudget (l : Ledger) (job : Nat) (b : Budget) : Ledger :=
  match l.jobs[job]? with
  | none => l
  | some (breaker, _) =>
    { l with
      breakers := l.breakers.set breaker b.breaker
      jobs := l.jobs.set job (breaker, b.account) }

/-- The scope of a number, unless it was dropped. -/
def scope? (l : Ledger) (i : Nat) : Option Scope := l.scopes[i]?.bind (·.2)

/-- The buffer of a number, unless it was dropped. -/
def buffer? (l : Ledger) (i : Nat) : Option Scratch := l.buffers[i]?.bind (·.2)

/-- Lets a scope go through a computation. A scope that is not there stays as it is. -/
def onScope (l : Ledger) (i : Nat) (m : Metered MemoryError Scope Unit) :
    Except MemoryError Unit × Ledger :=
  match l.scopes[i]? with
  | some (job, some scope) =>
    match l.budget? job with
    | some b =>
      let (r, (scope, b)) := m.run (scope, b)
      (r, { l.setBudget job b with scopes := l.scopes.set i (job, some scope) })
    | none => (.ok (), l)
  | _ => (.ok (), l)

/-- Lets a buffer go through a computation. A buffer that is not there stays as it is. -/
def onBuffer (l : Ledger) (i : Nat) (m : Metered MemoryError Scratch Unit) :
    Except MemoryError Unit × Ledger :=
  match l.buffers[i]? with
  | some (job, some buffer) =>
    match l.budget? job with
    | some b =>
      let (r, (buffer, b)) := m.run (buffer, b)
      (r, { l.setBudget job b with buffers := l.buffers.set i (job, some buffer) })
    | none => (.ok (), l)
  | _ => (.ok (), l)

/-- Leaves the place of a scope empty. -/
def forgetScope (l : Ledger) (i : Nat) : Ledger :=
  match l.scopes[i]? with
  | some (job, _) => { l with scopes := l.scopes.set i (job, none) }
  | none => l

/-- Leaves the place of a buffer empty. -/
def forgetBuffer (l : Ledger) (i : Nat) : Ledger :=
  match l.buffers[i]? with
  | some (job, _) => { l with buffers := l.buffers.set i (job, none) }
  | none => l

/-- What an entry does. Only requests for bytes can be refused. -/
def apply (l : Ledger) : Entry → Except MemoryError Unit × Ledger
  | .openScope job label => (.ok (), { l with scopes := l.scopes ++ [(job, some (.new label))] })
  | .add i bytes => l.onScope i (Scope.add bytes)
  | .sub i bytes => l.onScope i (Metered.update fun s b => s.sub bytes b)
  | .releaseScope i => l.onScope i (Metered.update Scope.release)
  | .dropScope i => (.ok (), (l.onScope i (Metered.update Scope.release)).2.forgetScope i)
  | .openBuffer job label =>
    (.ok (), { l with buffers := l.buffers ++ [(job, some (.new label))] })
  | .push i text => l.onBuffer i (Scratch.push text)
  | .pushChar i c => l.onBuffer i (Scratch.pushChar c)
  | .clear i => l.onBuffer i (Metered.modifyState Scratch.clear)
  | .releaseBuffer i => l.onBuffer i (Metered.update Scratch.release)
  | .dropBuffer i => (.ok (), (l.onBuffer i (Metered.update Scratch.release)).2.forgetBuffer i)

/-- The ledger after entries in order, refused ones included. -/
def run (l : Ledger) (entries : List Entry) : Ledger := entries.foldl (fun l e => (l.apply e).2) l

end Ledger

end RowStream
