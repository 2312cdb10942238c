import ChatRelay.Mailbox.Basic

/-!
# A mailbox in virtual time

Any number of dequeues share one mailbox under a clock of milliseconds. `Move` lists everything that
can happen, in the smallest pieces; any order of moves is a run. The functions below it make the moves
in the order of an idle machine: whatever can happen without time passing happens first, and the clock
then goes to the next deadline.
-/

namespace ChatRelay.Mailbox

open Wire

/-- How a dequeue ended: with a message, or with none because its deadline came. -/
structure Outcome where
  ticket : Nat
  got : Option Message
  time : Nat
  deriving DecidableEq, Repr

/-- A mailbox, the time, how many messages are stored whose permit is not given yet, how many dequeues
have begun, and how dequeues ended, in the order in which they did. -/
structure Timed where
  mailbox : Mailbox := {}
  now : Nat := 0
  owed : Nat := 0
  begun : Nat := 0
  outcomes : List Outcome := []
  deriving DecidableEq, Repr

/-- What can happen to a mailbox in time. -/
inductive Move where
  /-- An enqueue stores its message. -/
  | push (m : Message)
  /-- An enqueue that has stored its message gives the permit. -/
  | release
  /-- A dequeue begins, with the next ticket. -/
  | ask (timeout : Nat)
  /-- A dequeue that holds a permit takes its message. -/
  | take (ticket : Nat)
  /-- A waiting dequeue whose deadline has come gives up. -/
  | lapse (ticket : Nat)
  /-- Time passes. -/
  | pass (ms : Nat)
  deriving DecidableEq, Repr

namespace Timed

/-- The move happens if it can; otherwise nothing does. -/
def move (t : Timed) : Move → Timed
  | .push m => { t with mailbox := t.mailbox.push m, owed := t.owed + 1 }
  | .release =>
      match t.owed with
      | 0 => t
      | owed + 1 => { t with mailbox := t.mailbox.release, owed }
  | .ask timeout =>
      { t with mailbox := t.mailbox.ask t.begun (t.now + timeout), begun := t.begun + 1 }
  | .take ticket =>
      if t.mailbox.holds ticket then
        let (mailbox, got) := t.mailbox.take ticket
        { t with mailbox, outcomes := t.outcomes ++ [⟨ticket, got, t.now⟩] }
      else t
  | .lapse ticket =>
      if t.mailbox.isDue ticket t.now then
        { t with
          mailbox := t.mailbox.giveUp ticket
          outcomes := t.outcomes ++ [⟨ticket, none, t.now⟩] }
      else t
  | .pass ms => { t with now := t.now + ms }

/-- Nothing is left to happen without time passing. -/
def Settled (t : Timed) : Prop :=
  t.owed = 0 ∧ t.mailbox.holding = [] ∧ t.mailbox.due t.now = []

/-- Every dequeue that can end does: those that hold a permit first. -/
def settle (t : Timed) : Timed :=
  let t := t.mailbox.holding.foldl (fun t ticket ↦ t.move (.take ticket)) t
  (t.mailbox.due t.now).foldl (fun t waiting ↦ t.move (.lapse waiting.ticket)) t

/-- Enqueue a message. -/
def enqueue (t : Timed) (m : Message) : Timed :=
  ((t.move (.push m)).move .release).settle

/-- Begin a dequeue beside the others. -/
def ask (t : Timed) (timeout : Nat) : Timed :=
  (t.move (.ask timeout)).settle

/-- Let the clock go to this time. -/
def goTo (t : Timed) (time : Nat) : Timed :=
  (t.move (.pass (time - t.now))).settle

/-- Let time pass, stopping at each deadline on the way. -/
def advance (t : Timed) (ms : Nat) : Timed :=
  let target := t.now + ms
  let deadlines := (t.mailbox.due target).map (·.deadline)
  ((deadlines.mergeSort (· ≤ ·)).foldl goTo t).goTo target

/-- How the dequeue with this ticket ended, if it has. -/
def outcome? (t : Timed) (ticket : Nat) : Option Outcome :=
  t.outcomes.find? (·.ticket == ticket)

/-- Dequeue and wait for the outcome. -/
def dequeue (t : Timed) (timeout : Nat) : Timed × Option Message :=
  let asked := t.ask timeout
  let ended := if (asked.outcome? t.begun).isSome then asked else asked.advance timeout
  (ended, (ended.outcome? t.begun).bind (·.got))

end Timed

end ChatRelay.Mailbox
