import ChatRelay.Transport.Fault
import ChatRelay.Wire.Tag
import ChatRelay.Wire.Violation

/-!
# Failures

Why a call on a connection failed. Rejections and unexpected replies arise on the client's side only.
-/

namespace ChatRelay

/-- Why a call on a connection failed. -/
inductive Failure where
  /-- The stream failed. -/
  | io (cause : Transport.Fault)
  /-- The peer ended the stream, or this side closed it. -/
  | closed
  /-- The line protocol was violated. -/
  | protocol (violation : Wire.Violation)
  /-- The peer refused the request, with this reason. -/
  | rejected (reason : String)
  /-- The peer answered with a tag that no request allows. -/
  | unexpectedReply (tag : Wire.Tag)
  deriving DecidableEq, Repr

namespace Failure

/-- The failure in words. -/
def message : Failure → String
  | io cause => "I/O error: " ++ cause.message
  | closed => "Connection closed"
  | protocol violation => "Protocol error: " ++ violation.message
  | rejected reason => "Rejected: " ++ reason
  | unexpectedReply tag => "Unexpected reply: " ++ tag.symbol

/-- The peer is gone rather than misbehaving. -/
def isDisconnect : Failure → Bool
  | io _ | closed => true
  | _ => false

end Failure

end ChatRelay
