/-!
# Limits of the line protocol

All lengths count bytes.
-/

namespace ChatRelay.Wire

/-- The longest payload. -/
def maxPayload : Nat := 255

/-- The longest tag symbol. -/
def maxSymbol : Nat := 8

/-- The longest line: symbol, colon, payload, CR and LF. -/
def maxLine : Nat := maxSymbol + 1 + maxPayload + 2

/-- What separates the symbol from the payload, and the parts of a delivery from each other. -/
def delimiter : Char := ':'

/-- The port a server listens on unless told otherwise. -/
def defaultPort : Nat := 5000

/-- How long, in milliseconds, a subscriber's worker waits for a delivery before it looks at the
shutdown flag again, unless told otherwise. -/
def defaultDequeueTimeout : Nat := 1000

end ChatRelay.Wire
