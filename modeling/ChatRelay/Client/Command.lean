import ChatRelay.Text.Blank
import ChatRelay.Wire.Message

/-!
# Input lines of a publisher

What a publisher types is either a command, whose first word begins with a slash, or text to
broadcast. A slash on its own is text.
-/

namespace ChatRelay.Client

open Text Wire

/-- What an input line asks for. -/
inductive Command where
  | join (room : String)
  | leave
  | quit
  | sendAll (text : String)
  deriving DecidableEq, Repr

/-- Why an input line is refused. -/
inductive CommandError where
  | empty
  /-- A join names no room. -/
  | missingRoom
  | unknown (word : String)
  /-- The text is longer than a payload may be. -/
  | tooLong
  deriving DecidableEq, Repr

/-- The reason in words. -/
def CommandError.message : CommandError → String
  | empty => "Empty line"
  | missingRoom => "Invalid room"
  | unknown word => "Invalid command: " ++ word
  | tooLong => "Message exceeds max length of " ++ toString maxPayload

namespace Command

/-- The text is sent as it stands, blanks included, if it is short enough. -/
def ofText (text : String) : Except CommandError Command :=
  if size text > maxPayload then .error .tooLong else .ok (.sendAll text)

/-- The command with this word, given what follows it on the line. Words that are not needed are
not looked at. -/
def ofWord (word : String) (rest : List Char) : Except CommandError Command :=
  if word == "/join" then
    match firstWord? rest with
    | none => .error .missingRoom
    | some (room, _) => .ok (.join (String.ofList room))
  else if word == "/leave" then .ok .leave
  else if word == "/quit" then .ok .quit
  else .error (.unknown word)

/-- The word names a command: a slash and at least one more character. -/
def isCommandWord : List Char → Bool
  | '/' :: _ :: _ => true
  | _ => false

/-- Read an input line. Terminators at its end do not count. -/
def parse (line : String) : Except CommandError Command :=
  let chars := trimEnd line.toList
  if chars.isEmpty then .error .empty
  else
    match firstWord? chars with
    | none => ofText (String.ofList chars)
    | some (word, rest) =>
        if isCommandWord word then ofWord (String.ofList word) rest
        else ofText (String.ofList chars)

/-- The request that the command stands for. -/
def message : Command → Message
  | join room => ⟨.join, room⟩
  | leave => ⟨.leave, ""⟩
  | quit => ⟨.quit, "bye"⟩
  | sendAll text => ⟨.sendall, text⟩

end Command

end ChatRelay.Client
