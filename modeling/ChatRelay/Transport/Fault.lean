/-!
# Faults of a stream

How a read or a write on a byte stream can fail.
-/

namespace ChatRelay.Transport

/-- Why a read, a write, a flush or a shutdown of a stream failed. -/
inductive Fault where
  | brokenPipe
  | connectionReset
  | connectionAborted
  | connectionRefused
  | timedOut
  | unexpectedEnd
  | permissionDenied
  /-- The address to listen at belongs to somebody else. -/
  | addressInUse
  /-- A write accepted no byte. -/
  | writeZero
  deriving DecidableEq, Repr

/-- The fault in words. -/
def Fault.message : Fault → String
  | brokenPipe => "broken pipe"
  | connectionReset => "connection reset"
  | connectionAborted => "connection aborted"
  | connectionRefused => "connection refused"
  | timedOut => "timed out"
  | unexpectedEnd => "unexpected end of file"
  | permissionDenied => "permission denied"
  | addressInUse => "address in use"
  | writeZero => "write zero"

end ChatRelay.Transport
