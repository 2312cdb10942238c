import ChatRelay.Server.System

/-!
# How much a system still has to do

`System.effort` bounds the steps that the workers can make before each of them waits, with nothing
arriving and no time passing. Each byte that is still to be read pays for everything that one message
can cause, which for a broadcast is a delivery to each of the workers; each message in a mailbox pays for
being written.
-/

namespace ChatRelay.Server

open Wire

/-- A quantity summed over a list. -/
def total {α : Type} (quantity : α → Nat) : List α → Nat
  | [] => 0
  | a :: rest => quantity a + total quantity rest

theorem total_append {α : Type} (quantity : α → Nat) (left right : List α) :
    total quantity (left ++ right) = total quantity left + total quantity right := by
  induction left with
  | nil => simp [total]
  | cons a rest ih => simp only [List.cons_append, total, ih, Nat.add_assoc]

/-- What it takes to write a message out of a mailbox and to look at the mailbox again. -/
def messageEffort (m : Message) : Nat :=
  m.bytes.length + 10

/-- What one byte still to be read can cause among so many workers. -/
def byteEffort (workers : Nat) : Nat :=
  300 * workers + 1000

/-- What is left to do after a send. -/
def After.effort : After → Nat
  | .part _ | .quit => 2
  | .loggedIn _ | .replied _ => 200
  | .joined _ | .delivered _ => 8

/-- What is left to do from a control point among so many workers, apart from what the backlog and the
mailbox of the worker in this place cause. A broadcast may reach every worker, and a dequeue whose
deadline has come goes round once more. -/
def Control.effort (hub : Hub) (workers place : Nat) : Control → Nat
  | .receive _ => 200
  | .openRoom _ | .addMember _ => 400
  | .enterRoom _ => 401
  | .broadcast _ _ => 300 * workers + 400
  | .send rest after => rest.length + 1 + after.effort
  | .testFlag _ => 7
  | .dequeue _ => 6
  | .collect _ =>
      if (hub.directory.mailbox place).isDue Worker.ticket hub.now then 8 else 5
  | .removeMember _ _ => 3
  | .close _ => 1
  | .ended _ => 0

/-- What a worker still has to do, among so many workers. -/
def Worker.effort (hub : Hub) (workers : Nat) (w : Worker) : Nat :=
  byteEffort workers * w.connection.buffer.length +
    (byteEffort workers + 1) * w.connection.stream.unread.length +
    w.control.effort hub workers w.place

/-- What it takes to write all messages of a subscriber's mailbox. -/
def subscriberEffort (subscriber : Subscriber) : Nat :=
  total messageEffort subscriber.mailbox.messages

/-- What a system still has to do. -/
def System.effort (s : System) : Nat :=
  total (Worker.effort s.hub s.workers.length) s.workers +
    total subscriberEffort s.hub.directory.subscribers.values

end ChatRelay.Server
