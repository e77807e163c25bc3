import RowStream.Stream.Iterator

/-!
# Channels as sources

A channel takes batches of rows from producers, as many at a time as its capacity says, and hands
them to the source at its other end, one batch a page. The source is fully loaded once all batches
are taken and all producers have left. A producer can also send a failure. Once the source is
closed, nothing is taken any more.

What carries the messages is not part of the source: it works with anything that has the two ends of a
`Mailbox`. `Channel` is a mailbox that keeps its messages in a list.
-/

namespace RowStream

/-- What a producer sends. -/
inductive Message where
  | batch (rows : List Row)
  | failure (reason : String)

/-- What became of a message. -/
inductive Delivery where
  | taken
  | full
  | refused
  deriving DecidableEq, Repr

/-- What a source is told that asks for a message. -/
inductive Receipt where
  | message (m : Message)
  /-- There is none yet. -/
  | waiting
  /-- There will be none any more. -/
  | over

/-- The two ends of a bounded queue of messages. -/
class Mailbox (Q : Type) where
  /-- A mailbox with one producer and room for at least one message. -/
  new (capacity : Nat) : Q
  /-- Sends a message, unless that means to wait. -/
  send (m : Message) : Q → Delivery × Q
  /-- One more producer joins. -/
  join : Q → Q
  /-- A producer leaves. -/
  leave : Q → Q
  receive : Q → Receipt × Q
  /-- Nothing is received any more. -/
  shut : Q → Q

/-- The messages between producers and source. -/
structure Channel where
  capacity : Nat
  queue : List Message
  /-- The number of producers that have not left. -/
  producers : Nat
  /-- Whether the source still takes messages. -/
  isOpen : Bool

namespace Channel

/-- A channel with one producer and room for at least one message. -/
def new (capacity : Nat) : Channel := ⟨max capacity 1, [], 1, true⟩

/-- Sends a message, unless that means to wait. -/
def send (c : Channel) (m : Message) : Delivery × Channel :=
  if !c.isOpen then (.refused, c)
  else if c.queue.length < c.capacity then (.taken, { c with queue := c.queue ++ [m] })
  else (.full, c)

/-- One more producer joins. -/
def join (c : Channel) : Channel := { c with producers := c.producers + 1 }

/-- A producer leaves. -/
def leave (c : Channel) : Channel := { c with producers := c.producers - 1 }

/-- Sends a failure as the last message of a producer. -/
def fail (c : Channel) (reason : String) : Delivery × Channel :=
  let (delivery, c) := c.send (.failure reason)
  (delivery, c.leave)

/-- Receives the oldest message. -/
def receive (c : Channel) : Receipt × Channel :=
  match c.queue with
  | m :: queue => (.message m, { c with queue })
  | [] => (if c.producers = 0 then .over else .waiting, c)

def shut (c : Channel) : Channel := { c with isOpen := false }

instance : Mailbox Channel where
  new := new
  send m c := c.send m
  join := join
  leave := leave
  receive := receive
  shut := shut

end Channel

/-- The source at the end of a mailbox. -/
structure MailboxSource (Q : Type) where
  channel : Q
  /-- The rows of the last batch that were not handed out yet. -/
  page : List Row
  current : Row
  finished : Bool
  state : IteratorState

namespace MailboxSource

variable {Q : Type}

def new (channel : Q) : MailboxSource Q := ⟨channel, [], [], false, .notStarted⟩

def moveNext : Running (MailboxSource Q) Bool := fun (s, job) =>
  match s.state with
  | .closed => .error .closed (s, job)
  | .failed => .error (.contract (.pulledAfterFailure "source")) (s, job)
  | _ =>
    match s.page with
    | row :: page => .ok true ({ s with page, current := row, state := .hasNext }, job)
    | [] => .ok false ({ s with current := [], state := .idle s.finished }, job)

variable [Mailbox Q]

/-- Takes the next message. Rows that are left of the batch before are dropped. -/
def receive : Running (MailboxSource Q) Load := fun (s, job) =>
  match Mailbox.receive s.channel with
  | (.message (.batch rows), channel) =>
    .ok .ready ({ s with channel, page := rows, current := [] }, job)
  | (.message (.failure reason), channel) =>
    .error (.sourceFailed reason) ({ s with channel, state := .failed }, job)
  | (.over, channel) => .ok .ready ({ s with channel, page := [], finished := true }, job)
  | (.waiting, channel) => .ok .pending ({ s with channel }, job)

def load : Running (MailboxSource Q) Load := fun (s, job) =>
  if s.state = .closed then .error .closed (s, job)
  else if s.finished then .error (.contract .allLoaded) (s, job)
  else receive (s, job)

def close (s : MailboxSource Q) (job : Job) : MailboxSource Q × Job :=
  ({ s with channel := Mailbox.shut s.channel, page := [], current := [], state := .closed }, job)

/-- Nobody has the source any more. -/
def discard (s : MailboxSource Q) (job : Job) : MailboxSource Q × Job :=
  ({ s with channel := Mailbox.shut s.channel }, job)

end MailboxSource

/-- The source at the end of a channel. -/
abbrev ChannelSource := MailboxSource Channel

namespace ChannelSource

open MailboxSource

/-- What a source receives from a list of messages. -/
theorem receive_eq (s : ChannelSource) (job : Job) : receive (s, job) =
    match s.channel.queue with
    | .batch rows :: queue =>
      .ok .ready ({ s with
        channel := { s.channel with queue }, page := rows, current := [] }, job)
    | .failure reason :: queue =>
      .error (.sourceFailed reason) ({ s with
        channel := { s.channel with queue }, state := .failed }, job)
    | [] =>
      if s.channel.producers = 0 then .ok .ready ({ s with page := [], finished := true }, job)
      else .ok .pending (s, job) := by
  obtain ⟨⟨capacity, _ | ⟨_ | _, queue⟩, producers, isOpen⟩, page, current, finished, state⟩ := s
  · by_cases hleft : producers = 0 <;> simp [receive, Mailbox.receive, Channel.receive, hleft]
  · rfl
  · rfl

theorem ready_of_moveNext {s t : ChannelSource} {job job' : Job} {b : Bool}
    (h : moveNext (s, job) = .ok b (t, job')) :
    t.page.length + b.toNat ≤ s.page.length ∧
      t.channel.queue.length + (!t.finished).toNat ≤
        s.channel.queue.length + (!s.finished).toNat := by
  unfold moveNext at h
  grind

theorem pages_of_load {s t : ChannelSource} {job job' : Job}
    (h : load (s, job) = .ok .ready (t, job')) :
    t.channel.queue.length + (!t.finished).toNat <
      s.channel.queue.length + (!s.finished).toNat := by
  simp only [load, receive_eq] at h
  grind

instance : BatchIterator ChannelSource where
  moveNext := moveNext
  current := current
  allLoaded := finished
  load := load
  close := close
  discard := discard
  state := state
  ready s := s.page.length
  pages s := s.channel.queue.length + (!s.finished).toNat
  ready_of_moveNext h := (ready_of_moveNext h).1
  pages_of_moveNext h := (ready_of_moveNext h).2
  pages_of_load := pages_of_load

end ChannelSource

end RowStream
