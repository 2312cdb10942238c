import ChatRelay.Transport.Address
import ChatRelay.Wire.Limits

/-!
# Server settings

Where a server listens, how long a subscriber's worker waits for a delivery, and whether small writes
go out at once.
-/

namespace ChatRelay.Server

open Transport Wire

/-- The settings of a server. The timeout is in milliseconds. -/
structure Settings where
  address : Address := .anyInterface defaultPort
  dequeueTimeout : Nat := defaultDequeueTimeout
  noDelay : Bool := true
  deriving DecidableEq, Repr

namespace Settings

/-- Listen at this address; all else is as by default. -/
def atAddress (address : Address) : Settings :=
  { address }

/-- Listen at this port on every interface; all else is as by default. -/
def atPort (port : Nat) : Settings :=
  atAddress (.anyInterface port)

end Settings

end ChatRelay.Server
