import ChatRelay.Wire.Message

/-!
# Mailboxes

A mailbox is a queue of messages together with permits, one for each message that is not spoken for.
A message is stored first and its permit given after that. A dequeue asks for a permit, waits for one
until its deadline, and then takes the message at the head. Permits go to waiting dequeues in the
order in which those began.
-/

namespace ChatRelay

open Wire

/-- A dequeue that has no permit yet. -/
structure Waiting where
  ticket : Nat
  deadline : Nat
  deriving DecidableEq, Repr

/-- Messages, free permits, the dequeues that wait for a permit, and those that hold one and have not
taken their message yet. -/
structure Mailbox where
  messages : List Message := []
  permits : Nat := 0
  waiting : List Waiting := []
  holding : List Nat := []
  deriving DecidableEq, Repr

namespace Mailbox

/-- Store a message at the end. -/
def push (b : Mailbox) (m : Message) : Mailbox :=
  { b with messages := b.messages ++ [m] }

/-- Give one permit: to the dequeue that waits longest, or to whoever asks next. -/
def release (b : Mailbox) : Mailbox :=
  match b.waiting with
  | [] => { b with permits := b.permits + 1 }
  | first :: rest => { b with waiting := rest, holding := b.holding ++ [first.ticket] }

/-- Store a message and give its permit. -/
def enqueue (b : Mailbox) (m : Message) : Mailbox :=
  (b.push m).release

/-- Begin a dequeue: it gets a free permit at once, or waits. -/
def ask (b : Mailbox) (ticket deadline : Nat) : Mailbox :=
  match b.permits with
  | 0 => { b with waiting := b.waiting ++ [⟨ticket, deadline⟩] }
  | permits + 1 => { b with permits, holding := b.holding ++ [ticket] }

/-- The dequeue holds a permit. -/
def holds (b : Mailbox) (ticket : Nat) : Bool :=
  b.holding.contains ticket

/-- A dequeue that holds a permit spends it on the message at the head. -/
def take (b : Mailbox) (ticket : Nat) : Mailbox × Option Message :=
  ({ b with messages := b.messages.tail, holding := b.holding.erase ticket }, b.messages.head?)

/-- A waiting dequeue gives up. -/
def giveUp (b : Mailbox) (ticket : Nat) : Mailbox :=
  { b with waiting := b.waiting.filter (·.ticket != ticket) }

/-- The waiting dequeues whose deadline has come. -/
def due (b : Mailbox) (now : Nat) : List Waiting :=
  b.waiting.filter (·.deadline ≤ now)

/-- The waiting dequeue with this ticket has to give up now. -/
def isDue (b : Mailbox) (ticket now : Nat) : Bool :=
  (b.due now).any (·.ticket == ticket)

/-- Dequeue without waiting. -/
def poll (b : Mailbox) : Mailbox × Option Message :=
  match b.permits with
  | 0 => (b, none)
  | permits + 1 => ({ b with permits, messages := b.messages.tail }, b.messages.head?)

/-- Dequeue without waiting until there is no permit left. -/
def drain (b : Mailbox) : Mailbox × List Message :=
  ({ b with permits := 0, messages := b.messages.drop b.permits }, b.messages.take b.permits)

/-- No dequeue is under way, and each message has its permit. -/
def Quiet (b : Mailbox) : Prop :=
  b.permits = b.messages.length ∧ b.waiting = [] ∧ b.holding = []

@[simp] theorem messages_enqueue (b : Mailbox) (m : Message) :
    (b.enqueue m).messages = b.messages ++ [m] := by
  unfold enqueue release
  split <;> rfl

@[simp] theorem messages_ask (b : Mailbox) (ticket deadline : Nat) :
    (b.ask ticket deadline).messages = b.messages := by
  unfold ask
  split <;> rfl

/-- Draining is polling until nothing comes. -/
theorem drain_eq_poll (b : Mailbox) (permits : Nat) (h : b.permits = permits + 1)
    (m : Message) (hm : b.messages.head? = some m) :
    b.drain = ((b.poll.1).drain.1, m :: (b.poll.1).drain.2) := by
  cases hmessages : b.messages with
  | nil => simp [hmessages] at hm
  | cons first rest =>
      rw [hmessages, List.head?_cons, Option.some.injEq] at hm
      simp [drain, poll, h, hmessages, hm]

/-- The permits that are free or held grow by one with each message enqueued. -/
theorem permits_enqueue (b : Mailbox) (m : Message) :
    (b.enqueue m).permits + (b.enqueue m).holding.length =
      b.permits + b.holding.length + 1 := by
  unfold enqueue release
  split <;> simp [push] <;> omega

/-- Beginning a dequeue neither makes nor loses a permit. -/
theorem permits_ask (b : Mailbox) (ticket deadline : Nat) :
    (b.ask ticket deadline).permits + (b.ask ticket deadline).holding.length =
      b.permits + b.holding.length := by
  unfold ask
  split <;> simp [*]
  omega

end Mailbox

end ChatRelay
