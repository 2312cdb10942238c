import ChatRelay.Connection.Basic
import ChatRelay.Counters
import ChatRelay.Directory
import ChatRelay.Session
import ChatRelay.Wire.Reply

/-!
# Workers

One worker serves one connection from login to close. It is a machine whose control point says what
it does next; `Worker.step` makes one step, which touches the stream or the shared state at most once,
and gives none while the worker waits or once it has ended. The order in which the workers of a server
make their steps is left to whoever runs them.
-/

namespace ChatRelay.Server

open Wire

/-- How a worker's run ends. -/
abbrev Result := Except Failure Unit

/-- What the workers of a server share: the rooms, the counters, whether the server is shutting down,
the time, and how long a subscriber's worker waits for a delivery. -/
structure Hub where
  directory : Directory := {}
  counters : Counters := {}
  closing : Bool := false
  now : Nat := 0
  dequeueTimeout : Nat := defaultDequeueTimeout

/-- Count an event. -/
def Hub.count (hub : Hub) (event : CountedEvent) : Hub :=
  { hub with counters := hub.counters.count event }

/-- What a worker receives next: a login, a subscriber's join, or a command of a publisher whose
current room is this. -/
inductive Await where
  | login
  | join
  | command (room : Option Nat)
  deriving DecidableEq, Repr

/-- What follows a send. -/
inductive After where
  /-- The session ends with this result, whether the message went out or not. -/
  | part (result : Result)
  /-- The login was confirmed. -/
  | loggedIn (role : Role)
  /-- A publisher got its reply, and its current room is this. -/
  | replied (room : Option Nat)
  /-- The quit was confirmed. -/
  | quit
  /-- A subscriber's join was confirmed. -/
  | joined (room : Nat)
  /-- A delivery went out. -/
  | delivered (room : Nat)

/-- What a worker does next. `openRoom` and `enterRoom` find or make the room that a publisher and a
subscriber join, `addMember` and `removeMember` change the room's members, `broadcast` fills their
mailboxes, `send` writes what is left of a line and then flushes, `testFlag` looks at the shutdown flag,
`dequeue` asks the mailbox for a delivery and `collect` waits for it, and `close` shuts the stream
down. -/
inductive Control where
  | receive (await : Await)
  | openRoom (name : String)
  | enterRoom (name : String)
  | addMember (room : Nat)
  | broadcast (room : Nat) (text : String)
  | send (rest : List UInt8) (after : After)
  | testFlag (room : Nat)
  | dequeue (room : Nat)
  | collect (room : Nat)
  | removeMember (room : Nat) (result : Result)
  | close (result : Result)
  | ended (result : Result)

/-- A worker with its session and its connection. Its place among the workers is also the number under
which a subscriber is taken up. The end of a counted worker is taken off the open connections. -/
structure Worker where
  place : Nat
  session : Session
  connection : Connection
  counted : Bool := false
  control : Control := .receive .login

namespace Worker

/-- The only dequeue that a worker ever has under way on its subscriber's mailbox. -/
def ticket : Nat := 0

/-- Go to this control point. -/
def goTo (w : Worker) (control : Control) : Worker :=
  { w with control }

/-- Send a message, and go on from there. -/
def say (w : Worker) (m : Message) (after : After) : Worker :=
  w.goTo (.send m.bytes after)

/-- The role that a tag logs in to. -/
def roleOf? : Tag → Option Role
  | .slogin => some .publisher
  | .rlogin => some .subscriber
  | _ => none

/-- The login in this role, as counted. -/
def loginEvent : Role → CountedEvent
  | .publisher => .publisherLogin
  | .subscriber => .subscriberLogin

/-- The first message has to be a login with a username that deliveries can carry. A refusal is sent
if it can be, and ends the session. -/
def onLogin (hub : Hub) (w : Worker) : Except Failure Message → Hub × Worker
  | .error failure => (hub, w.say (Refusal.reply .invalidLogin) (.part (.error failure)))
  | .ok m =>
      let w := { w with session := w.session.countReceived }
      match roleOf? m.tag with
      | none => (hub, w.say (Refusal.reply .expectedLogin) (.part (.ok ())))
      | some role =>
          match usernameRefusal? m.payload with
          | some refusal => (hub, w.say refusal.reply (.part (.ok ())))
          | none =>
              let w := { w with session := w.session.login role m.payload }
              (hub.count (loginEvent role), w.say .ok (.loggedIn role))

/-- A subscriber's second message has to be a join of a room that deliveries can carry. -/
def onJoin (w : Worker) : Except Failure Message → Worker
  | .error failure => w.say (Refusal.reply .expectedJoin) (.part (.error failure))
  | .ok m =>
      let w := { w with session := w.session.countReceived }
      match m.tag with
      | .join =>
          match roomRefusal? m.payload with
          | some refusal => w.say refusal.reply (.part (.ok ()))
          | none => w.goTo (.enterRoom m.payload)
      | _ => w.say (Refusal.reply .expectedJoin) (.part (.ok ()))

/-- The delivery of a text to the current room would be too long. -/
def tooLong (hub : Hub) (w : Worker) (room : Nat) (text : String) : Bool :=
  Delivery.payloadSize ⟨hub.directory.name room, w.session.name, text⟩ > maxPayload

/-- A publisher's command. A refusal leaves the current room as it is, and the session goes on. The
end of the stream ends the session in good order, a malformed line does not. -/
def onCommand (hub : Hub) (w : Worker) (room : Option Nat) : Except Failure Message → Worker
  | .error failure => w.goTo (.close (if failure.isDisconnect then .ok () else .error failure))
  | .ok m =>
      let w := { w with session := w.session.countReceived }
      match m.tag with
      | .join =>
          match roomRefusal? m.payload with
          | some refusal => w.say refusal.reply (.replied room)
          | none => w.goTo (.openRoom m.payload)
      | .sendall =>
          match room with
          | none => w.say (Refusal.reply .notInRoom) (.replied none)
          | some target =>
              if tooLong hub w target m.payload then
                w.say (Refusal.reply .messageTooLong) (.replied room)
              else w.goTo (.broadcast target m.payload)
      | .leave => { w with session := w.session.leave }.say .ok (.replied none)
      | .quit => w.say .ok .quit
      | .slogin | .rlogin | .ok | .err | .delivery =>
          w.say (Refusal.reply .invalidCommand) (.replied room)

/-- What a worker does with what it received. -/
def onReceived (hub : Hub) (w : Worker) (await : Await) (result : Except Failure Message) :
    Hub × Worker :=
  match await with
  | .login => onLogin hub w result
  | .join => (hub, onJoin w result)
  | .command room => (hub, onCommand hub w room result)

/-- What a worker does after a message went out. A subscriber is taken up once its login is
confirmed. -/
def onSent (hub : Hub) (w : Worker) : After → Hub × Worker
  | .part result => (hub, w.goTo (.close result))
  | .loggedIn .publisher => (hub, w.goTo (.receive (.command none)))
  | .loggedIn .subscriber =>
      let directory := hub.directory.subscribe w.place w.session.id w.session.name
      ({ hub with directory }, w.goTo (.receive .join))
  | .replied room => (hub, w.goTo (.receive (.command room)))
  | .quit => (hub, w.goTo (.close (.ok ())))
  | .joined room => (hub, w.goTo (.testFlag room))
  | .delivered room => (hub.count .deliverySent, w.goTo (.testFlag room))

/-- What a worker does after a message did not go out. A subscriber whose peer is gone ends in good
order. -/
def onUnsent (w : Worker) (failure : Failure) : After → Worker
  | .part result => w.goTo (.close result)
  | .loggedIn _ | .replied _ | .quit => w.goTo (.close (.error failure))
  | .joined room => w.goTo (.removeMember room (.error failure))
  | .delivered room =>
      w.goTo (.removeMember room
        (if failure.isDisconnect then .ok () else .error failure))

/-- Wait for the delivery asked for: one that is there is taken first, and if the deadline has come
without one, the flag is looked at again. -/
def collect (hub : Hub) (w : Worker) (room : Nat) : Option (Hub × Worker) :=
  let mailbox := hub.directory.mailbox w.place
  if mailbox.holds ticket then
    let directory := hub.directory.updateMailbox w.place fun b ↦ (b.take ticket).1
    match (mailbox.take ticket).2 with
    | some m => some ({ hub with directory }, w.say m (.delivered room))
    | none => some ({ hub with directory }, w.goTo (.testFlag room))
  else if mailbox.isDue ticket hub.now then
    let directory := hub.directory.updateMailbox w.place (·.giveUp ticket)
    some ({ hub with directory }, w.goTo (.testFlag room))
  else none

/-- One step of a worker; none while it waits and once it has ended. -/
def step (hub : Hub) (w : Worker) : Option (Hub × Worker) :=
  match w.control with
  | .receive await =>
      match w.connection.receiveStep with
      | (_, .waiting) => none
      | (connection, .more) => some (hub, { w with connection })
      | (connection, .done result) => some (onReceived hub { w with connection } await result)
  | .openRoom name =>
      let (directory, room) := hub.directory.findOrCreate name
      let w := { w with session := w.session.join (directory.name room) }
      some ({ hub with directory }, w.say .ok (.replied (some room)))
  | .enterRoom name =>
      let (directory, room) := hub.directory.findOrCreate name
      some ({ hub with directory }, w.goTo (.addMember room))
  | .addMember room =>
      let (directory, _) := hub.directory.addMember room w.place
      let w := { w with session := w.session.join (directory.name room) }
      some ({ hub with directory }, w.say .ok (.joined room))
  | .broadcast room text =>
      let (directory, _) := hub.directory.broadcast room w.session.name text
      some ({ hub with directory }.count .broadcast, w.say .ok (.replied (some room)))
  | .send rest after =>
      match w.connection.sendStep rest with
      | (_, .waiting) => none
      | (connection, .more left) => some (hub, { w with connection, control := .send left after })
      | (connection, .done (.ok ())) =>
          some (onSent hub { w with connection, session := w.session.countSent } after)
      | (connection, .done (.error failure)) =>
          some (hub, onUnsent { w with connection } failure after)
  | .testFlag room =>
      if hub.closing then some (hub, w.goTo (.removeMember room (.ok ())))
      else some (hub, w.goTo (.dequeue room))
  | .dequeue room =>
      let directory := hub.directory.updateMailbox w.place
        (·.ask ticket (hub.now + hub.dequeueTimeout))
      some ({ hub with directory }, w.goTo (.collect room))
  | .collect room => collect hub w room
  | .removeMember room result =>
      let (directory, _) := hub.directory.removeMember room w.place
      some ({ hub with directory }, w.goTo (.close result))
  | .close result =>
      let hub := if w.counted then hub.count .closed else hub
      some (hub, {
        w with
        session := w.session.close
        connection := w.connection.close
        control := .ended result })
  | .ended _ => none

/-- The worker is sending, and its peer takes no byte for now. -/
def isStalled (w : Worker) : Bool :=
  match w.control with
  | .send rest _ =>
      match (w.connection.sendStep rest).2 with
      | .waiting => true
      | _ => false
  | _ => false

/-- The result of a worker that has ended. -/
def result? (w : Worker) : Option Result :=
  match w.control with
  | .ended result => some result
  | _ => none

end Worker

end ChatRelay.Server
