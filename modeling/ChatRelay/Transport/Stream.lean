import ChatRelay.Transport.Fault

/-!
# Byte streams

A stream is what the peer and the network do to one end of a connection: the bytes, failures and end
that are still to be read, and how writes are accepted. A read takes bytes of the first chunk only
and at most `maxRead` of them. A write may accept fewer bytes than it is given, and a write or a flush
may wait for a peer that takes nothing. What was accepted stays in `written`. The main statements are
`read_unread`, that a read loses no byte, and `written_write`, that a write adds a first part of its
bytes.
-/

namespace ChatRelay.Transport

/-- The most bytes that one read returns. -/
def maxRead : Nat := 512

/-- What a read can come upon. -/
inductive Arrival where
  /-- Bytes that arrived together. -/
  | chunk (bytes : List UInt8)
  /-- A read that fails, once. -/
  | fault (cause : Fault)
  /-- The end of the stream, which stays. -/
  | finish
  deriving DecidableEq, Repr

/-- What keeps a write or a flush from succeeding: it fails, or it waits for the peer. -/
inductive Halt where
  | fault (cause : Fault)
  | wait
  deriving DecidableEq, Repr

/-- A limit on writes: after so many more bytes every write is halted like this, or accepts nothing if
there is no halt. -/
structure Barrier where
  after : Nat
  halt : Option Halt
  deriving DecidableEq, Repr

/-- One end of a connection. `pace n` is the most bytes that the write after `n` writes accepts. -/
structure Stream where
  arrivals : List Arrival := []
  pace : Nat → Option Nat := fun _ ↦ none
  writes : Nat := 0
  barrier : Option Barrier := none
  flushHalt : Option Halt := none
  shutdownFault : Option Fault := none
  written : List UInt8 := []
  shutdowns : Nat := 0

/-- What a read returned. No bytes mean the end of the stream, or an empty chunk. -/
inductive Reading where
  | pending
  | bytes (bytes : List UInt8)
  | fault (cause : Fault)
  deriving DecidableEq, Repr

/-- What a write came to. -/
inductive Writing where
  | pending
  | accepted (count : Nat)
  | fault (cause : Fault)
  deriving DecidableEq, Repr

namespace Stream

/-- Read once. -/
def read (s : Stream) : Stream × Reading :=
  match s.arrivals with
  | [] => (s, .pending)
  | .finish :: _ => (s, .bytes [])
  | .fault cause :: rest => ({ s with arrivals := rest }, .fault cause)
  | .chunk bytes :: rest =>
      if bytes.length ≤ maxRead then ({ s with arrivals := rest }, .bytes bytes)
      else
        ({ s with arrivals := .chunk (bytes.drop maxRead) :: rest }, .bytes (bytes.take maxRead))

/-- Accept the first `count` of the bytes. -/
def accept (s : Stream) (bytes : List UInt8) (count : Nat) : Stream :=
  { s with writes := s.writes + 1, written := s.written ++ bytes.take count }

/-- The most bytes that the next write accepts, were there no barrier. -/
def allowance (s : Stream) (bytes : List UInt8) : Nat :=
  match s.pace s.writes with
  | none => bytes.length
  | some most => min most bytes.length

/-- Write once. -/
def write (s : Stream) (bytes : List UInt8) : Stream × Writing :=
  match s.barrier with
  | none => (s.accept bytes (s.allowance bytes), .accepted (s.allowance bytes))
  | some ⟨0, none⟩ => (s.accept bytes 0, .accepted 0)
  | some ⟨0, some (.fault cause)⟩ => (s, .fault cause)
  | some ⟨0, some .wait⟩ => (s, .pending)
  | some ⟨after, halt⟩ =>
      let count := min after (s.allowance bytes)
      ({ s.accept bytes count with barrier := some ⟨after - count, halt⟩ }, .accepted count)

/-- Flush what was written; the answer is what halts the flush, if it does not succeed. -/
def flush (s : Stream) : Option Halt :=
  s.flushHalt

/-- Shut the stream down. A failing shutdown counts as one. -/
def shutdown (s : Stream) : Stream × Except Fault Unit :=
  ({ s with shutdowns := s.shutdowns + 1 },
    match s.shutdownFault with
    | none => .ok ()
    | some cause => .error cause)

/-- The bytes that reads can still return, in order. -/
def unread (s : Stream) : List UInt8 :=
  go s.arrivals
where
  /-- The bytes before the end of the stream. -/
  go : List Arrival → List UInt8
    | [] => []
    | .chunk bytes :: rest => bytes ++ go rest
    | .fault _ :: rest => go rest
    | .finish :: _ => []

/-- A read loses no byte: what it returns and what is still to be read is what was to be read. -/
theorem read_unread (s : Stream) :
    (match s.read.2 with
      | .bytes bytes => bytes
      | _ => []) ++ s.read.1.unread = s.unread := by
  cases ha : s.arrivals with
  | nil => simp [read, ha]
  | cons arrival rest =>
      cases arrival with
      | finish => simp [read, ha]
      | fault cause => simp [read, ha, unread, unread.go]
      | chunk bytes =>
          by_cases hsize : bytes.length ≤ maxRead
          · simp [read, ha, hsize, unread, unread.go]
          · simp only [read, ha, hsize, if_false, unread, unread.go]
            rw [← List.append_assoc, List.take_append_drop]

theorem length_read_le (s : Stream) {bytes : List UInt8} (h : s.read.2 = .bytes bytes) :
    bytes.length ≤ maxRead := by
  cases ha : s.arrivals with
  | nil => simp [read, ha] at h
  | cons arrival rest =>
      cases arrival with
      | finish =>
          simp only [read, ha, Reading.bytes.injEq] at h
          simp [← h]
      | fault cause => simp [read, ha] at h
      | chunk chunk =>
          by_cases hsize : chunk.length ≤ maxRead
          · simp only [read, ha, hsize, if_true, Reading.bytes.injEq] at h
            rw [← h]
            exact hsize
          · simp only [read, ha, hsize, if_false, Reading.bytes.injEq] at h
            rw [← h, List.length_take]
            omega

/-- A write adds the accepted first part of its bytes, and nothing if it fails or waits. -/
theorem written_write (s : Stream) (bytes : List UInt8) :
    (s.write bytes).1.written =
      s.written ++ bytes.take (match (s.write bytes).2 with
        | .accepted count => count
        | .fault _ | .pending => 0) := by
  unfold write
  split <;> simp [accept]

end Stream

/-- What the peer and the network can do to a stream. -/
inductive Cue where
  /-- Bytes, a failing read or the end arrives. -/
  | arrive (arrival : Arrival)
  /-- Writes fail, or wait, from now on as the barrier says. -/
  | block (barrier : Barrier)
  /-- Every flush fails, or waits. -/
  | haltFlush (halt : Halt)
  /-- The shutdown fails. -/
  | breakShutdown (cause : Fault)
  /-- A write accepts at most this many bytes. -/
  | limit (most : Nat)
  /-- Writes and flushes succeed again. -/
  | heal
  /-- The peer is gone: no write succeeds, and the stream ends. -/
  | drop
  deriving DecidableEq, Repr

/-- The stream after the cue. -/
def Stream.cue (s : Stream) : Cue → Stream
  | .arrive arrival => { s with arrivals := s.arrivals ++ [arrival] }
  | .block barrier => { s with barrier := some barrier }
  | .haltFlush halt => { s with flushHalt := some halt }
  | .breakShutdown cause => { s with shutdownFault := some cause }
  | .limit most => { s with pace := fun _ ↦ some most }
  | .heal => { s with barrier := none, flushHalt := none }
  | .drop =>
      { s with
        barrier := some ⟨0, some (.fault .brokenPipe)⟩
        arrivals := s.arrivals ++ [.finish] }

end ChatRelay.Transport
