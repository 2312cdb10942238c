/-!
# Violations of the line protocol

Why a line or a payload is not acceptable, and how that is said.
-/

namespace ChatRelay.Wire

/-- Why a line or a payload is not acceptable. -/
inductive Violation where
  /-- The line has no colon. -/
  | missingDelimiter
  /-- What stands before the first colon is no symbol. -/
  | unknownTag (text : String)
  /-- No terminator comes within the longest line. -/
  | lineTooLong (limit : Nat)
  /-- The line is not well-formed UTF-8. -/
  | invalidUtf8
  /-- The payload is longer than allowed. -/
  | payloadTooLong (length limit : Nat)
  /-- A CR or LF stands inside the payload. -/
  | embeddedTerminator
  /-- The payload of a delivery lacks one of its two colons. -/
  | malformedDelivery
  deriving DecidableEq, Repr

/-- The violation in words. -/
def Violation.message : Violation → String
  | missingDelimiter => "missing ':' delimiter"
  | unknownTag text => "unknown tag: " ++ text
  | lineTooLong limit => "line exceeds " ++ toString limit ++ " bytes"
  | invalidUtf8 => "line is not valid UTF-8"
  | payloadTooLong length limit =>
      "payload of " ++ toString length ++ " bytes exceeds maximum of " ++ toString limit
  | embeddedTerminator => "payload contains a line terminator"
  | malformedDelivery => "malformed delivery payload"

end ChatRelay.Wire
