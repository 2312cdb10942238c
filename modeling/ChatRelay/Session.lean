/-!
# Sessions

A session follows one connection from its start to its end. A login chooses the role, and the role
the way from there: a publisher joins and leaves rooms, a subscriber joins one. An event that the phase
does not allow changes nothing.
-/

namespace ChatRelay

/-- What a session may do: broadcast into rooms, or read what is broadcast in one. -/
inductive Role where
  | publisher
  | subscriber
  deriving DecidableEq, Repr

/-- Where a session stands. -/
inductive Phase where
  | awaitLogin
  | publisherLoop
  | awaitJoin
  | subscriberLoop
  | closed
  deriving DecidableEq, Repr

/-- The state of a session. The room is a publisher's current one or the one a subscriber joined. The
id and the counts stand for numbers of 64 bits, which no run of fewer than 2^64 actions outgrows. -/
structure Session where
  id : Nat
  phase : Phase := .awaitLogin
  role : Option Role := none
  username : Option String := none
  room : Option String := none
  received : Nat := 0
  sent : Nat := 0
  deriving DecidableEq, Repr

namespace Session

/-- The phase in which a role begins. -/
def firstPhase : Role → Phase
  | .publisher => .publisherLoop
  | .subscriber => .awaitJoin

/-- Log in, if the session awaits it. -/
def login (s : Session) (role : Role) (username : String) : Session :=
  match s.phase with
  | .awaitLogin =>
      { s with role := some role, username := some username, phase := firstPhase role }
  | _ => s

/-- Enter a room. A subscriber does so once. -/
def join (s : Session) (room : String) : Session :=
  match s.phase with
  | .publisherLoop => { s with room := some room }
  | .awaitJoin => { s with room := some room, phase := .subscriberLoop }
  | _ => s

/-- Leave the room. Only a publisher can. -/
def leave (s : Session) : Session :=
  match s.phase with
  | .publisherLoop => { s with room := none }
  | _ => s

/-- End the session. -/
def close (s : Session) : Session :=
  { s with phase := .closed }

/-- The name given at login, empty before it. -/
def name (s : Session) : String :=
  s.username.getD ""

/-- Count a message received. -/
def countReceived (s : Session) : Session :=
  { s with received := s.received + 1 }

/-- Count a message sent. -/
def countSent (s : Session) : Session :=
  { s with sent := s.sent + 1 }

end Session

end ChatRelay
