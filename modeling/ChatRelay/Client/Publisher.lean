import ChatRelay.Client.Command
import ChatRelay.Client.Request

/-!
# Publishers

A publisher logs in, picks a room and broadcasts into it. It knows its room by the replies it got: a
call that fails, or whose reply is missing, leaves the room as it was.
-/

namespace ChatRelay.Client

open Wire

/-- A logged-in publisher, with the room whose join the server confirmed last. -/
structure Publisher where
  connection : Connection
  username : String
  room : Option String := none

namespace Publisher

/-- Log in over an open connection. -/
def login (c : Connection) (username : String) : Connection × Answer Publisher :=
  match request c ⟨.slogin, username⟩ with
  | (c, none) => (c, none)
  | (c, some (.error failure)) => (c, some (.error failure))
  | (c, some (.ok ())) => (c, some (.ok { connection := c, username }))

/-- Send a request over the publisher's connection. -/
def ask (p : Publisher) (m : Message) : Publisher × Answer Unit :=
  let (c, answer) := request p.connection m
  ({ p with connection := c }, answer)

/-- Make a room the target of broadcasts. -/
def join (p : Publisher) (room : String) : Publisher × Answer Unit :=
  match p.ask ⟨.join, room⟩ with
  | (p, some (.ok ())) => ({ p with room := some room }, some (.ok ()))
  | other => other

/-- Have no target any more. -/
def leave (p : Publisher) : Publisher × Answer Unit :=
  match p.ask ⟨.leave, ""⟩ with
  | (p, some (.ok ())) => ({ p with room := none }, some (.ok ()))
  | other => other

/-- Broadcast a text. One that no line can carry is refused before anything is sent. -/
def sendAll (p : Publisher) (text : String) : Publisher × Answer Unit :=
  let m : Message := ⟨.sendall, text⟩
  match m.validate with
  | .error violation => (p, some (.error (.protocol violation)))
  | .ok () => p.ask m

/-- End the session and close the connection, whatever the reply; it stays open only while the reply
is missing. -/
def quit (p : Publisher) : Connection × Answer Unit :=
  match request p.connection Command.quit.message with
  | (c, none) => (c, none)
  | (c, some result) => (c.close, some result)

/-- Carry out a command; the answer says whether the session has ended. Unlike `quit`, a quit that
is refused leaves the connection open. -/
def execute (p : Publisher) (command : Command) : Publisher × Answer Bool :=
  match command with
  | .join room => goesOn (p.join room)
  | .leave => goesOn p.leave
  | .sendAll text => goesOn (p.sendAll text)
  | .quit =>
      match p.ask command.message with
      | (p, none) => (p, none)
      | (p, some (.error failure)) => (p, some (.error failure))
      | (p, some (.ok ())) => ({ p with connection := p.connection.close }, some (.ok true))
where
  /-- The session goes on after a command that succeeded. -/
  goesOn : Publisher × Answer Unit → Publisher × Answer Bool
    | (p, none) => (p, none)
    | (p, some (.error failure)) => (p, some (.error failure))
    | (p, some (.ok ())) => (p, some (.ok false))

end Publisher

end ChatRelay.Client
