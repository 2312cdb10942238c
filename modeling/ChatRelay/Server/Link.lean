import ChatRelay.Client.Request
import ChatRelay.Server.Schedule

/-!
# Clients linked to workers

A link carries every byte that a client writes to its worker and every byte that the worker writes to
the client, and the end of the stream once the other side has shut down. `converse` runs a client's
call against the system: what the call writes reaches the worker, and the call goes on with what the
worker answers.
-/

namespace ChatRelay.Server

open Client Transport

/-- A link to a worker: how it cuts bytes into chunks, how many bytes went each way so far, and
whether the end did. -/
structure Link where
  worker : Nat
  cut : List UInt8 → List (List UInt8) := fun bytes ↦ [bytes]
  sent : Nat := 0
  brought : Nat := 0
  sentEnd : Bool := false
  broughtEnd : Bool := false

namespace Link

/-- What a link still has to carry from a stream, after so many bytes and perhaps the end. -/
def pending (link : Link) (source : Stream) (passed : Nat) (ended : Bool) : List Arrival :=
  let bytes := source.written.drop passed
  (if bytes.isEmpty then [] else (link.cut bytes).map .chunk) ++
    (if source.shutdowns > 0 && !ended then [.finish] else [])

/-- Let these come in at the end of a stream. -/
def bring (stream : Stream) (arrivals : List Arrival) : Stream :=
  { stream with arrivals := stream.arrivals ++ arrivals }

/-- Carry what the client wrote to the worker. -/
def toWorker (link : Link) (c : Connection) (s : System) : Link × System :=
  ({ link with sent := c.stream.written.length, sentEnd := c.stream.shutdowns > 0 },
    s.updateStream link.worker
      (bring · (link.pending c.stream link.sent link.sentEnd)))

/-- Carry what the worker wrote to the client. -/
def toClient (link : Link) (c : Connection) (s : System) : Link × Connection :=
  match s.workers[link.worker]? with
  | none => (link, c)
  | some w =>
      let source := w.connection.stream
      ({ link with brought := source.written.length, broughtEnd := source.shutdowns > 0 },
        { c with
          stream := bring c.stream (link.pending source link.brought link.broughtEnd) })

/-- The worker has written nothing that the client's stream has not got. -/
def isQuiet (link : Link) (s : System) : Bool :=
  match s.workers[link.worker]? with
  | none => true
  | some w => (link.pending w.connection.stream link.brought link.broughtEnd).isEmpty

/-- Run a call over a link in at most so many rounds. In a round the call is made with what has come
in; if it still waits, what it wrote reaches the worker, and the call is made again from its start with
the worker's answer behind what had come in. A worker that has nothing to say is given one timeout of
its mailbox. -/
def converse {α : Type} (call : Connection → Connection × Answer α) :
    Nat → Link → Connection → System → Link × System × Connection × Answer α
  | 0, link, c, s =>
      let (after, answer) := call c
      let (link, s) := link.toWorker after s
      (link, s.settle, after, answer)
  | rounds + 1, link, c, s =>
      match call c with
      | (after, some result) =>
          let (link, s) := link.toWorker after s
          (link, s.settle, after, some result)
      | (after, none) =>
          let (link, s) := link.toWorker after s
          let s := s.settle
          let s := if link.isQuiet s then s.advance s.hub.dequeueTimeout else s
          let (link, c) := link.toClient c s
          converse call rounds link c s

end Link

end ChatRelay.Server
