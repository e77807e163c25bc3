import RowStream.Stream.Source.Channel

/-!
# Sources over any mailbox

A source of messages knows its mailbox by the two ends alone. What is documented of bounded queues is
stated here as laws of a mailbox: messages come out in the order in which they were sent, a full queue
takes none, the end is told once all producers have left and nothing is on its way, and nothing is taken
once the receiver has closed. The laws are about what can be seen of a mailbox and leave open what it is
made of. They say nothing of what is received from a mailbox that was closed, which a source never asks
for.

* `LawfulMailbox` — the laws, and the instance for channels.
* `MailboxSource.Attended` — a source that is not closed has not closed its mailbox either.
* `MailboxSource.turn_seen`, `MailboxSource.answers_seen` — one call or one message, and all of them.
* `MailboxSource.answers_new` — a source answers the same over every lawful mailbox.
-/

namespace RowStream

/-! ## The laws

Each law says what one end of the mailbox does in one situation. What can be seen of a mailbox is
stated as a channel, so that the laws together are a refinement of channels. -/

/-- What is documented of bounded queues of messages. -/
class LawfulMailbox (Q : Type) extends Mailbox Q where
  /-- What can be seen of a mailbox: the messages on their way, the oldest first, how many there may be,
  how many producers there are, and whether it still takes messages. -/
  seen : Q → Channel
  seen_new (capacity : Nat) : seen (new capacity) = ⟨max capacity 1, [], 1, true⟩
  /-- First in, first out: a message stands behind all those that were sent before. -/
  send_taken {q : Q} (m : Message) (hopen : (seen q).isOpen = true)
    (hroom : (seen q).queue.length < (seen q).capacity) :
    (send m q).1 = .taken ∧ seen (send m q).2 = { seen q with queue := (seen q).queue ++ [m] }
  send_full {q : Q} (m : Message) (hopen : (seen q).isOpen = true)
    (hfull : (seen q).capacity ≤ (seen q).queue.length) :
    (send m q).1 = .full ∧ seen (send m q).2 = seen q
  /-- A mailbox that was closed takes nothing. -/
  send_refused {q : Q} (m : Message) (hshut : (seen q).isOpen = false) :
    (send m q).1 = .refused ∧ seen (send m q).2 = seen q
  /-- First in, first out: the oldest message is received. -/
  receive_message {q : Q} {m : Message} {ms : List Message} (hopen : (seen q).isOpen = true)
    (hqueue : (seen q).queue = m :: ms) :
    (receive q).1 = .message m ∧ seen (receive q).2 = { seen q with queue := ms }
  receive_waiting {q : Q} (hopen : (seen q).isOpen = true) (hqueue : (seen q).queue = [])
    (hproducers : (seen q).producers ≠ 0) :
    (receive q).1 = .waiting ∧ seen (receive q).2 = seen q
  /-- The end is told when all producers have left and nothing is on its way. -/
  receive_over {q : Q} (hopen : (seen q).isOpen = true) (hqueue : (seen q).queue = [])
    (hproducers : (seen q).producers = 0) :
    (receive q).1 = .over ∧ seen (receive q).2 = seen q
  seen_join (q : Q) : seen (join q) = { seen q with producers := (seen q).producers + 1 }
  seen_leave (q : Q) : seen (leave q) = { seen q with producers := (seen q).producers - 1 }
  seen_shut (q : Q) : seen (shut q) = { seen q with isOpen := false }

/-- Everything about a channel can be seen. -/
instance : LawfulMailbox Channel where
  seen := id
  seen_new _ := rfl
  send_taken {c} m hopen hroom := by
    replace hopen : c.isOpen = true := hopen
    replace hroom : c.queue.length < c.capacity := hroom
    simp [Mailbox.send, Channel.send, hopen, hroom]
  send_full {c} m hopen hfull := by
    replace hopen : c.isOpen = true := hopen
    replace hfull : ¬c.queue.length < c.capacity := Nat.not_lt.2 hfull
    simp [Mailbox.send, Channel.send, hopen, hfull]
  send_refused {c} m hshut := by
    replace hshut : c.isOpen = false := hshut
    simp [Mailbox.send, Channel.send, hshut]
  receive_message {c} m ms _ hqueue := by
    replace hqueue : c.queue = m :: ms := hqueue
    simp [Mailbox.receive, Channel.receive, hqueue]
  receive_waiting {c} _ hqueue hproducers := by
    replace hqueue : c.queue = [] := hqueue
    replace hproducers : c.producers ≠ 0 := hproducers
    simp [Mailbox.receive, Channel.receive, hqueue, hproducers]
  receive_over {c} _ hqueue hproducers := by
    replace hqueue : c.queue = [] := hqueue
    replace hproducers : c.producers = 0 := hproducers
    simp [Mailbox.receive, Channel.receive, hqueue, hproducers]
  seen_join _ := rfl
  seen_leave _ := rfl
  seen_shut _ := rfl

namespace LawfulMailbox

variable {Q : Type} [LawfulMailbox Q]

/-- A message has the same fate in the channel that a mailbox looks like. -/
theorem send_seen (m : Message) (q : Q) :
    Mailbox.send m (seen q) = ((Mailbox.send m q).1, seen (Mailbox.send m q).2) := by
  cases hopen : (seen q).isOpen with
  | false =>
    obtain ⟨hdelivery, hseen⟩ := send_refused m hopen
    rw [hdelivery, hseen]
    exact Prod.ext_iff.2 (send_refused (Q := Channel) m hopen)
  | true =>
    by_cases hroom : (seen q).queue.length < (seen q).capacity
    · obtain ⟨hdelivery, hseen⟩ := send_taken m hopen hroom
      rw [hdelivery, hseen]
      exact Prod.ext_iff.2 (send_taken (Q := Channel) m hopen hroom)
    · obtain ⟨hdelivery, hseen⟩ := send_full m hopen (Nat.not_lt.1 hroom)
      rw [hdelivery, hseen]
      exact Prod.ext_iff.2 (send_full (Q := Channel) m hopen (Nat.not_lt.1 hroom))

/-- The same is received, as long as the mailbox is open. -/
theorem receive_seen {q : Q} (hopen : (seen q).isOpen = true) :
    Mailbox.receive (seen q) = ((Mailbox.receive q).1, seen (Mailbox.receive q).2) := by
  cases hqueue : (seen q).queue with
  | cons m ms =>
    obtain ⟨hreceipt, hseen⟩ := receive_message hopen hqueue
    rw [hreceipt, hseen]
    exact Prod.ext_iff.2 (receive_message (Q := Channel) hopen hqueue)
  | nil =>
    by_cases hproducers : (seen q).producers = 0
    · obtain ⟨hreceipt, hseen⟩ := receive_over hopen hqueue hproducers
      rw [hreceipt, hseen]
      exact Prod.ext_iff.2 (receive_over (Q := Channel) hopen hqueue hproducers)
    · obtain ⟨hreceipt, hseen⟩ := receive_waiting hopen hqueue hproducers
      rw [hreceipt, hseen]
      exact Prod.ext_iff.2 (receive_waiting (Q := Channel) hopen hqueue hproducers)

/-- Receiving does not close a mailbox. -/
theorem isOpen_receive {q : Q} (hopen : (seen q).isOpen = true) :
    (seen (Mailbox.receive q).2).isOpen = true := by
  cases hqueue : (seen q).queue with
  | cons m ms => rwa [(receive_message hopen hqueue).2]
  | nil =>
    by_cases hproducers : (seen q).producers = 0
    · rwa [(receive_over hopen hqueue hproducers).2]
    · rwa [(receive_waiting hopen hqueue hproducers).2]

theorem isOpen_send (m : Message) (q : Q) :
    (seen (Mailbox.send m q).2).isOpen = (seen q).isOpen := by
  cases hopen : (seen q).isOpen with
  | false => rw [(send_refused m hopen).2, hopen]
  | true =>
    by_cases hroom : (seen q).queue.length < (seen q).capacity
    · rw [(send_taken m hopen hroom).2]
      exact hopen
    · rw [(send_full m hopen (Nat.not_lt.1 hroom)).2, hopen]

end LawfulMailbox

/-! ## What happens to a source

Producers and whoever asks the source take turns in any order. Producers may be told that the
mailbox is full or closed; the source answers with a result and shows its row and its state. -/

/-- A call of a source, or something that a producer does. -/
inductive Turn where
  | moveNext
  | load
  | close
  | send (m : Message)
  | join
  | leave

/-- What comes back from a turn. -/
inductive Reply where
  | moved (r : Except OpError Bool)
  | loaded (r : Except OpError Load)
  | delivered (d : Delivery)
  | done

namespace MailboxSource

variable {Q : Type}

section Turns

variable [Mailbox Q]

/-- The source after a turn, and what came back from it. -/
def turn (s : MailboxSource Q) (job : Job) : Turn → Reply × MailboxSource Q × Job
  | .moveNext =>
    match moveNext (s, job) with
    | .ok more p => (.moved (.ok more), p)
    | .error e p => (.moved (.error e), p)
  | .load =>
    match load (s, job) with
    | .ok progress p => (.loaded (.ok progress), p)
    | .error e p => (.loaded (.error e), p)
  | .close => (.done, s.close job)
  | .send m => (.delivered (Mailbox.send m s.channel).1,
      { s with channel := (Mailbox.send m s.channel).2 }, job)
  | .join => (.done, { s with channel := Mailbox.join s.channel }, job)
  | .leave => (.done, { s with channel := Mailbox.leave s.channel }, job)

/-- What is seen of a source from one turn to the next: the reply, the row, whether all is loaded, and the
state. -/
def answers (s : MailboxSource Q) (job : Job) : List Turn → List (Reply × Row × Bool × IteratorState)
  | [] => []
  | t :: turns =>
    let (reply, u, job) := s.turn job t
    (reply, u.current, u.finished, u.state) :: u.answers job turns

theorem load_of_closed {s : MailboxSource Q} (hclosed : s.state = .closed) (job : Job) :
    load (s, job) = .error .closed (s, job) := if_pos hclosed

theorem load_of_finished {s : MailboxSource Q} (hopen : s.state ≠ .closed) (hfinished : s.finished = true)
    (job : Job) : load (s, job) = .error (.contract .allLoaded) (s, job) :=
  (if_neg hopen).trans (if_pos hfinished)

theorem load_of_open {s : MailboxSource Q} (hopen : s.state ≠ .closed) (hmore : s.finished = false)
    (job : Job) : load (s, job) = receive (s, job) :=
  (if_neg hopen).trans (if_neg (Bool.eq_false_iff.1 hmore))

end Turns

variable [LawfulMailbox Q]

/-- The source over a channel that looks like its mailbox. -/
def seen (s : MailboxSource Q) : ChannelSource := { s with channel := LawfulMailbox.seen s.channel }

/-- A source has not closed its mailbox, unless it is closed itself. -/
def Attended (s : MailboxSource Q) : Prop := s.state ≠ .closed → (LawfulMailbox.seen s.channel).isOpen = true

/-! ### One turn

The step: the reply is the same, and the two sources look alike afterwards. It needs that the source
is attended, since nothing is said of receiving from a mailbox that was closed. -/

theorem moveNext_seen (s : MailboxSource Q) (job : Job) :
    moveNext (s.seen, job) = StepResult.within seen (moveNext (s, job)) := by
  obtain ⟨channel, page, current, finished, state⟩ := s
  cases state with
  | closed | failed => rfl
  | _ => cases page <;> rfl

theorem receive_seen {s : MailboxSource Q} (hopen : (LawfulMailbox.seen s.channel).isOpen = true)
    (job : Job) : receive (s.seen, job) = StepResult.within seen (receive (s, job)) := by
  have hreceive := LawfulMailbox.receive_seen hopen
  simp only [receive, seen, hreceive]
  rcases Mailbox.receive s.channel with ⟨⟨_ | _⟩ | _ | _, channel⟩ <;> rfl

theorem load_seen {s : MailboxSource Q} (h : s.Attended) (job : Job) :
    load (s.seen, job) = StepResult.within seen (load (s, job)) := by
  by_cases hclosed : s.state = .closed
  · rw [load_of_closed hclosed]
    exact load_of_closed (s := s.seen) hclosed job
  · cases hfinished : s.finished with
    | true =>
      rw [load_of_finished hclosed hfinished]
      exact load_of_finished (s := s.seen) hclosed hfinished job
    | false =>
      rw [load_of_open hclosed hfinished, load_of_open (s := s.seen) hclosed hfinished]
      exact receive_seen (h hclosed) job

/-- **One turn** leads to the same reply, and to a source that looks the same. -/
theorem turn_seen {s : MailboxSource Q} (h : s.Attended) (job : Job) (t : Turn) :
    s.seen.turn job t = ((s.turn job t).1, (s.turn job t).2.1.seen, (s.turn job t).2.2) := by
  cases t with
  | moveNext =>
    simp only [turn, moveNext_seen]
    rcases moveNext (s, job) with ⟨_, _, _⟩ | ⟨_, _, _⟩ <;> rfl
  | load =>
    simp only [turn, load_seen h]
    rcases load (s, job) with ⟨_, _, _⟩ | ⟨_, _, _⟩ <;> rfl
  | close =>
    simp only [turn, close, seen, LawfulMailbox.seen_shut]
    rfl
  | send m =>
    simp only [turn, seen, LawfulMailbox.send_seen]
  | join =>
    simp only [turn, seen, LawfulMailbox.seen_join]
    rfl
  | leave =>
    simp only [turn, seen, LawfulMailbox.seen_leave]
    rfl

theorem Attended.turn {s : MailboxSource Q} (h : s.Attended) (job : Job) (t : Turn) :
    (s.turn job t).2.1.Attended := by
  cases t with
  | moveNext =>
    obtain ⟨channel, page, current, finished, state⟩ := s
    cases state with
    | closed => exact fun hopen => absurd rfl hopen
    | failed => exact fun _ => h nofun
    | _ => cases page <;> exact fun _ => h nofun
  | load =>
    by_cases hclosed : s.state = .closed
    · simpa only [MailboxSource.turn, load_of_closed hclosed] using h
    · cases hfinished : s.finished with
      | true => simpa only [MailboxSource.turn, load_of_finished hclosed hfinished] using h
      | false =>
        -- receiving leaves the receiving end as it is, whatever comes out of the queue
        have hopen := LawfulMailbox.isOpen_receive (h hclosed)
        simp only [MailboxSource.turn, load_of_open hclosed hfinished, receive]
        rcases hreceive : Mailbox.receive s.channel with ⟨⟨_ | _⟩ | _ | _, channel⟩ <;>
          rw [hreceive] at hopen <;> exact fun _ => hopen
  | close => exact fun hopen => absurd rfl hopen
  | send m => exact fun hopen => (LawfulMailbox.isOpen_send m s.channel).trans (h hopen)
  | join =>
    intro hopen
    rw [show (s.turn job .join).2.1.channel = Mailbox.join s.channel from rfl, LawfulMailbox.seen_join]
    exact h hopen
  | leave =>
    intro hopen
    rw [show (s.turn job .leave).2.1.channel = Mailbox.leave s.channel from rfl, LawfulMailbox.seen_leave]
    exact h hopen

/-! ### All turns

Induction on the turns. -/

/-- **A source answers** like one over the channel that its mailbox looks like. -/
theorem answers_seen {s : MailboxSource Q} (h : s.Attended) (job : Job) (turns : List Turn) :
    s.answers job turns = s.seen.answers job turns := by
  induction turns generalizing s job with
  | nil => rfl
  | cons t turns ih =>
    simp only [answers, turn_seen h]
    rw [ih (h.turn job t)]
    rfl

/-- **A source answers the same over every lawful mailbox** as over a channel, whatever it is asked and
whatever the producers do. -/
theorem answers_new (capacity : Nat) (job : Job) (turns : List Turn) :
    (new (Mailbox.new capacity : Q)).answers job turns =
      (new (Channel.new capacity)).answers job turns := by
  have hseen : (new (Mailbox.new capacity : Q)).seen = new (Channel.new capacity) :=
    congrArg new (LawfulMailbox.seen_new capacity)
  have hattended : (new (Mailbox.new capacity : Q)).Attended := fun _ => by
    rw [show (new (Mailbox.new capacity : Q)).channel = Mailbox.new capacity from rfl,
      LawfulMailbox.seen_new]
  rw [answers_seen hattended, hseen]

end MailboxSource

end RowStream
