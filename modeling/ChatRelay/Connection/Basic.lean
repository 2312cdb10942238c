import ChatRelay.Failure
import ChatRelay.Transport.Stream
import ChatRelay.Wire.Line

/-!
# Connections

A connection sends and receives whole messages over one stream. A send writes one line, a receive
reads one. Both are given as steps, each of which touches the stream at most once, and as calls that
run the steps to the end. Bytes that were read and make no whole line yet stay in the buffer, also
over a failed or abandoned receive.
-/

namespace ChatRelay

open Transport Wire

/-- How the latest finished send or receive ended. -/
inductive LastResult where
  | success
  | endOrError
  deriving DecidableEq, Repr

/-- A connection over a stream. Once closed it leaves the stream alone. -/
structure Connection where
  stream : Stream
  isOpen : Bool := true
  buffer : List UInt8 := []
  last : LastResult := .success

/-- How a step of a receive went. -/
inductive Receiving where
  /-- The call ended. -/
  | done (result : Except Failure Message)
  /-- Bytes came in; the call goes on. -/
  | more
  /-- There is nothing to read yet. -/
  | waiting

/-- How a step of a send went. -/
inductive Sending where
  /-- The call ended. -/
  | done (result : Except Failure Unit)
  /-- These bytes are still to be written. -/
  | more (rest : List UInt8)
  /-- The peer takes no byte for now. -/
  | waiting

namespace Connection

/-- The connection after a call that ended this way. -/
def record {α : Type} (c : Connection) (result : Except Failure α) : Connection :=
  { c with
    last := match result with
      | .ok _ => .success
      | .error _ => .endOrError }

/-- One step of a receive. A whole line in the buffer is taken out and read, too long or not; a
buffer that is as long as the longest line and holds none is thrown away; otherwise the stream is read
once. -/
def receiveStep (c : Connection) : Connection × Receiving :=
  let done (c : Connection) (result : Except Failure Message) : Connection × Receiving :=
    (c.record result, .done result)
  match Line.cut? c.buffer with
  | some (line, rest) =>
      let c := { c with buffer := rest }
      if line.length > maxLine then done c (.error (.protocol (.lineTooLong maxLine)))
      else
        match Line.read line with
        | .error violation => done c (.error (.protocol violation))
        | .ok m => done c (.ok m)
  | none =>
      if c.buffer.length ≥ maxLine then
        done { c with buffer := [] } (.error (.protocol (.lineTooLong maxLine)))
      else if !c.isOpen then done c (.error .closed)
      else
        match c.stream.read with
        | (_, .pending) => (c, .waiting)
        | (s, .fault cause) => done { c with stream := s } (.error (.io cause))
        | (s, .bytes []) => done { c with stream := s } (.error .closed)
        | (s, .bytes (byte :: bytes)) =>
            ({ c with stream := s, buffer := c.buffer ++ byte :: bytes }, .more)

/-- A step that brings in bytes takes them from the stream. -/
theorem unread_lt_of_more {c after : Connection} (h : c.receiveStep = (after, .more)) :
    after.stream.unread.length < c.stream.unread.length := by
  unfold receiveStep at h
  dsimp only at h
  split at h
  · split at h
    · simp at h
    · split at h <;> simp at h
  · split at h
    · simp at h
    · split at h
      · simp at h
      · have hunread := c.stream.read_unread
        split at h
        · simp at h
        · simp at h
        · simp at h
        · rename_i s byte bytes hread
          simp only [Prod.mk.injEq, and_true] at h
          rw [hread] at hunread
          dsimp only at hunread
          rw [← h, ← hunread]
          simp only [List.length_append, List.length_cons]
          omega

/-- Receive one message; none if the stream has not brought it yet. -/
def receive (c : Connection) : Connection × Option (Except Failure Message) :=
  match _h : c.receiveStep with
  | (after, .done result) => (after, some result)
  | (after, .waiting) => (after, none)
  | (after, .more) => after.receive
termination_by c.stream.unread.length
decreasing_by exact unread_lt_of_more _h

/-- One step of a send of which these bytes are still to be written. When all are written, the
stream is flushed. -/
def sendStep (c : Connection) (rest : List UInt8) : Connection × Sending :=
  let done (c : Connection) (result : Except Failure Unit) : Connection × Sending :=
    (c.record result, .done result)
  if !c.isOpen then done c (.error .closed)
  else if rest.isEmpty then
    match c.stream.flush with
    | none => done c (.ok ())
    | some (.fault cause) => done c (.error (.io cause))
    | some .wait => (c, .waiting)
  else
    match c.stream.write rest with
    | (_, .pending) => (c, .waiting)
    | (s, .fault cause) => done { c with stream := s } (.error (.io cause))
    | (s, .accepted 0) => done { c with stream := s } (.error (.io .writeZero))
    | (s, .accepted (count + 1)) => ({ c with stream := s }, .more (rest.drop (count + 1)))

/-- A step that goes on has written something. -/
theorem rest_lt_of_more {c after : Connection} {rest left : List UInt8}
    (h : c.sendStep rest = (after, .more left)) : left.length < rest.length := by
  unfold sendStep at h
  dsimp only at h
  split at h
  · simp at h
  · split at h
    · split at h <;> simp at h
    · rename_i hrest
      split at h
      · simp at h
      · simp at h
      · simp at h
      · simp only [Prod.mk.injEq, Sending.more.injEq] at h
        have hpos : 0 < rest.length := by
          cases rest with
          | nil => simp at hrest
          | cons byte bytes => simp
        rw [← h.2, List.length_drop]
        omega

/-- Write these bytes and flush; none if the peer has not taken them yet. -/
def sendBytes (c : Connection) (rest : List UInt8) : Connection × Option (Except Failure Unit) :=
  match _h : c.sendStep rest with
  | (after, .done result) => (after, some result)
  | (after, .waiting) => (after, none)
  | (after, .more left) => after.sendBytes left
termination_by rest.length
decreasing_by exact rest_lt_of_more _h

/-- Send one message; none if the peer has not taken it yet. A failed send leaves the stream open. -/
def send (c : Connection) (m : Message) : Connection × Option (Except Failure Unit) :=
  c.sendBytes m.bytes

/-- Shut the stream down and forget what was read. The stream's own failure to shut down does not
count, and closing again does nothing. -/
def close (c : Connection) : Connection :=
  if c.isOpen then
    { c with stream := c.stream.shutdown.1, isOpen := false, buffer := [] }
  else { c with buffer := [] }

/-- The state of the connection in one line. -/
def describe (c : Connection) : String :=
  "Connection \x7b open: " ++ toString c.isOpen ++ ", buffered: " ++ toString c.buffer.length ++
    ", last_result: " ++ (match c.last with
      | .success => "Success"
      | .endOrError => "EofOrError") ++ " \x7d"

end Connection

end ChatRelay
