import ChatRelay.Wire.Message

/-!
# Reply texts

Why a server refuses a message.
-/

namespace ChatRelay.Wire

/-- Why a server refuses a message. -/
inductive Refusal where
  /-- The first line could not be read. -/
  | invalidLogin
  /-- The first message is no login. -/
  | expectedLogin
  | missingUsername
  /-- The username holds a colon, so no delivery could carry it. -/
  | invalidUsername
  /-- A subscriber's second message is no join. -/
  | expectedJoin
  | missingRoom
  /-- The room name holds a colon, so no delivery could carry it. -/
  | invalidRoom
  | notInRoom
  | invalidCommand
  /-- The delivery would be longer than a payload may be. -/
  | messageTooLong
  deriving DecidableEq, Repr

namespace Refusal

/-- All refusals, in the order of the protocol's table. -/
def all : List Refusal :=
  [invalidLogin, expectedLogin, missingUsername, invalidUsername, expectedJoin, missingRoom,
    invalidRoom, notInRoom, invalidCommand, messageTooLong]

/-- The reason given to the client. -/
def text : Refusal → String
  | invalidLogin => "Invalid login"
  | expectedLogin => "Expected slogin or rlogin"
  | missingUsername => "Missing username"
  | invalidUsername => "Username may not contain ':'"
  | expectedJoin => "Expected join"
  | missingRoom => "Missing room name"
  | invalidRoom => "Room name may not contain ':'"
  | notInRoom => "Not in a room"
  | invalidCommand => "Invalid command"
  | messageTooLong => "Message too long"

/-- The reply that gives the reason. -/
def reply (r : Refusal) : Message :=
  .err r.text

/-- Every reason can be sent. -/
theorem reply_valid (r : Refusal) : r.reply.Valid := by
  cases r <;> decide

end Refusal

/-- A name that a delivery can carry is not empty and holds no colon; otherwise the reason to refuse
it, given the two reasons that apply. -/
def nameRefusal? (missing invalid : Refusal) (name : String) : Option Refusal :=
  if name.isEmpty then some missing
  else if name.toList.contains delimiter then some invalid
  else none

/-- Why a username is refused, if it is. -/
def usernameRefusal? : String → Option Refusal :=
  nameRefusal? .missingUsername .invalidUsername

/-- Why a room name is refused, if it is. -/
def roomRefusal? : String → Option Refusal :=
  nameRefusal? .missingRoom .invalidRoom

end ChatRelay.Wire
