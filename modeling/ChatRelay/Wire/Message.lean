import ChatRelay.Text.Terminator
import ChatRelay.Text.Utf8
import ChatRelay.Wire.Limits
import ChatRelay.Wire.Tag
import ChatRelay.Wire.Violation

/-!
# Messages

A message is a tag and a payload, written as the line `symbol:payload` and LF. Only the first colon
separates; the payload may hold more. `encode` writes any message, `decode` reads a line without the
terminators at its end, and `validate` states what a payload has to keep for the line to carry it.
-/

namespace ChatRelay.Wire

open ChatRelay.Text

/-- A message of the protocol. -/
structure Message where
  tag : Tag
  payload : String
  deriving DecidableEq, Repr

namespace Message

/-- The reply to a request that succeeded. -/
def ok : Message := ⟨.ok, ""⟩

/-- The reply to a request that failed, with the reason. -/
def err (reason : String) : Message := ⟨.err, reason⟩

/-- The characters of the line that carries the message. -/
def line (m : Message) : List Char :=
  m.tag.symbol.toList ++ delimiter :: m.payload.toList ++ ['\n']

/-- The line that carries the message, its terminator included. The payload is written as it is. -/
def encode (m : Message) : String :=
  String.ofList m.line

/-- The bytes of the line that carries the message. -/
def bytes (m : Message) : List UInt8 :=
  utf8 m.encode

/-- Read a line. Terminators at its end do not count; what stands before the first colon has to be
a symbol. -/
def decode (text : String) : Except Violation Message :=
  let chars := trimEnd text.toList
  match chars.dropWhile (· != delimiter) with
  | [] => .error .missingDelimiter
  | _ :: payload =>
      let symbol := String.ofList (chars.takeWhile (· != delimiter))
      match Tag.ofSymbol? symbol with
      | none => .error (.unknownTag symbol)
      | some tag => .ok ⟨tag, String.ofList payload⟩

/-- A payload that a line can carry holds no terminator and keeps within the limit. A terminator is
reported first. -/
def validate (m : Message) : Except Violation Unit :=
  if hasTerminator m.payload then .error .embeddedTerminator
  else if size m.payload > maxPayload then
    .error (.payloadTooLong (size m.payload) maxPayload)
  else .ok ()

/-- A line can carry the message as it is. -/
def Valid (m : Message) : Prop :=
  hasTerminator m.payload = false ∧ size m.payload ≤ maxPayload

instance (m : Message) : Decidable m.Valid :=
  inferInstanceAs (Decidable (_ ∧ _))

theorem validate_eq_ok_iff {m : Message} : m.validate = .ok () ↔ m.Valid := by
  unfold validate Valid
  split
  · simp [*]
  · split
    · simp only [reduceCtorEq, false_iff]
      omega
    · simp only [true_iff]
      exact ⟨by simpa using ‹¬hasTerminator m.payload = true›, by omega⟩

@[simp] theorem toList_encode (m : Message) : m.encode.toList = m.line :=
  String.toList_ofList

end Message

end ChatRelay.Wire
