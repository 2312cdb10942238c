import ChatRelay.Client.Request
import ChatRelay.Connection.Backlog
import ChatRelay.Wire.Delivery

/-!
# Subscribers

A subscriber logs in, joins one room and from then on only reads what is broadcast there.
-/

namespace ChatRelay.Client

open Wire

/-- A subscriber that has joined its room. -/
structure Subscriber where
  connection : Connection
  username : String
  room : String

namespace Subscriber

/-- Log in and join over an open connection. -/
def join (c : Connection) (username room : String) : Connection × Answer Subscriber :=
  match request c ⟨.rlogin, username⟩ with
  | (c, none) => (c, none)
  | (c, some (.error failure)) => (c, some (.error failure))
  | (c, some (.ok ())) =>
      match request c ⟨.join, room⟩ with
      | (c, none) => (c, none)
      | (c, some (.error failure)) => (c, some (.error failure))
      | (c, some (.ok ())) => (c, some (.ok { connection := c, username, room }))

/-- What a message means for a subscriber: a delivery or a reason why there is none. Other messages
mean nothing to it. -/
def meaning? (m : Message) : Option (Except Failure Delivery) :=
  match m.tag with
  | .delivery =>
      match Delivery.ofPayload m.payload with
      | .error violation => some (.error (.protocol violation))
      | .ok delivery => some (.ok delivery)
  | .err => some (.error (.rejected m.payload))
  | _ => none

/-- Receive until a message means something; no delivery at the end of the stream. -/
def nextFrom (c : Connection) : Connection × Answer (Option Delivery) :=
  match _h : c.receive with
  | (after, none) => (after, none)
  | (after, some (.error .closed)) => (after, some (.ok none))
  | (after, some (.error failure)) => (after, some (.error failure))
  | (after, some (.ok m)) =>
      match meaning? m with
      | some (.ok delivery) => (after, some (.ok (some delivery)))
      | some (.error failure) => (after, some (.error failure))
      | none => nextFrom after
termination_by c.backlog.length
decreasing_by exact Connection.backlog_receive_lt _h

/-- Wait for the next delivery. -/
def next (s : Subscriber) : Subscriber × Answer (Option Delivery) :=
  let (c, answer) := nextFrom s.connection
  ({ s with connection := c }, answer)

/-- Close the connection. -/
def close (s : Subscriber) : Connection :=
  s.connection.close

end Subscriber

end ChatRelay.Client
