/-!
# Server-wide counters

Counters are 64-bit words and wrap around.
-/

namespace ChatRelay

/-- What a server counts: connections ever made and open now, logins in each role, broadcasts
accepted, and deliveries written to subscribers. -/
structure Counters where
  totalConnections : UInt64 := 0
  activeConnections : UInt64 := 0
  publisherLogins : UInt64 := 0
  subscriberLogins : UInt64 := 0
  broadcasts : UInt64 := 0
  deliveriesSent : UInt64 := 0
  deriving DecidableEq, Repr

/-- What makes a counter move. -/
inductive CountedEvent where
  | opened
  | closed
  | publisherLogin
  | subscriberLogin
  | broadcast
  | deliverySent
  deriving DecidableEq, Repr

/-- Count an event. A closed connection is taken off the open ones. -/
def Counters.count (c : Counters) : CountedEvent → Counters
  | .opened =>
      { c with
        totalConnections := c.totalConnections + 1
        activeConnections := c.activeConnections + 1 }
  | .closed => { c with activeConnections := c.activeConnections - 1 }
  | .publisherLogin => { c with publisherLogins := c.publisherLogins + 1 }
  | .subscriberLogin => { c with subscriberLogins := c.subscriberLogins + 1 }
  | .broadcast => { c with broadcasts := c.broadcasts + 1 }
  | .deliverySent => { c with deliveriesSent := c.deliveriesSent + 1 }

end ChatRelay
