import ChatRelay.Connection.Basic

/-!
# Requests

A client asks one thing at a time: it sends a request and waits for the one reply to it.
-/

namespace ChatRelay.Client

open Wire

/-- What came of a call that waits for the peer; none if it still waits. -/
abbrev Answer (α : Type) := Option (Except Failure α)

/-- What a reply means for the request. -/
def verdict (reply : Message) : Except Failure Unit :=
  match reply.tag with
  | .ok => .ok ()
  | .err => .error (.rejected reply.payload)
  | tag => .error (.unexpectedReply tag)

/-- Send a request and receive its reply. -/
def request (c : Connection) (m : Message) : Connection × Answer Unit :=
  match c.send m with
  | (c, none) => (c, none)
  | (c, some (.error failure)) => (c, some (.error failure))
  | (c, some (.ok ())) =>
      match c.receive with
      | (c, none) => (c, none)
      | (c, some (.error failure)) => (c, some (.error failure))
      | (c, some (.ok reply)) => (c, some (verdict reply))

end ChatRelay.Client
