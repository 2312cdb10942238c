import ChatRelay.Proofs.ConfirmedRoom

/-!
# Connections in use

Whoever owns a connection makes one call at a time and may give a call up for the next one, and the
peer does to the stream what it likes, also in the middle of a call. A `Usage` is a connection with the
call under way; it is run step by step, so that every moment of every call is a state of some run
(`Usage.exists_run_receive`, `Usage.exists_run_send`). `Bounded` is what holds at every moment, `Shut`
what holds for good once the connection is closed. The main statement is
`Usage.bounded_and_shut_for_good`.
-/

namespace ChatRelay.Connection

open Transport Wire

/-! ## Steps -/

/-- What a step of a receive can make of a connection. -/
inductive Reception (c : Connection) : Connection × Receiving → Prop where
  /-- The line at the head of the buffer is taken out, and the answer is about it. -/
  | line (line rest : List UInt8) (result : Except Failure Message)
      (hcut : Line.cut? c.buffer = some (line, rest)) (hsaid : ¬IsSilence (some result)) :
      Reception c ({ c with buffer := rest }.record result, .done result)
  /-- The buffer is as long as the longest line, there is no LF in it, and all of it is thrown away. -/
  | overlong (hfree : lineFeed ∉ c.buffer) (hlong : maxLine ≤ c.buffer.length) :
      Reception c ({ c with buffer := [] }.record tooLong, .done tooLong)
  /-- The stream failed or is over, and the buffer stays. -/
  | lost (stream : Stream) (failure : Failure) (hnone : NoVerdict c.buffer) :
      Reception c
        ({ c with stream }.record (.error failure : Except Failure Message), .done (.error failure))
  /-- Nothing has come in, and the buffer stays. -/
  | waiting (hnone : NoVerdict c.buffer) : Reception c (c, .waiting)
  /-- What one read returned is put into the buffer. -/
  | more (stream : Stream) (bytes : List UInt8) (hnone : NoVerdict c.buffer)
      (hread : c.stream.read = (stream, .bytes bytes)) :
      Reception c ({ c with stream, buffer := c.buffer ++ bytes }, .more)

/-- There is nothing else that a step can do. -/
theorem reception (c : Connection) : Reception c c.receiveStep := by
  cases hcut : Line.cut? c.buffer with
  | some split =>
      obtain ⟨line, rest⟩ := split
      rw [receiveStep_of_line hcut]
      refine .line line rest _ hcut ?_
      by_cases hlong : line.length > maxLine
      · rw [if_pos hlong]
        exact id
      · rw [if_neg hlong]
        exact not_isSilence_judge line
  | none =>
      have hfree := Line.cut?_eq_none_iff.mp hcut
      by_cases hlong : c.buffer.length ≥ maxLine
      · simp only [receiveStep, hcut, hlong, if_true]
        exact .overlong hfree hlong
      · have hnone : NoVerdict c.buffer := ⟨hfree, Nat.lt_of_not_le hlong⟩
        simp only [receiveStep, hcut, hlong, if_false]
        split
        · exact .lost c.stream .closed hnone
        · split
          · exact .waiting hnone
          · exact .lost _ _ hnone
          · exact .lost _ .closed hnone
          · exact .more _ _ hnone ‹_›

variable {c : Connection} {next : Connection × Receiving}

/-- A step reads only into a buffer with less than the longest line. -/
theorem Reception.length_buffer_le (h : Reception c next) :
    next.1.buffer.length ≤ max c.buffer.length (maxLine - 1 + maxRead) := by
  cases h with
  | line line rest result hcut =>
      exact Nat.le_trans (Nat.le_of_lt (Line.length_cut?_lt hcut)) (Nat.le_max_left _ _)
  | overlong => exact Nat.zero_le _
  | lost | waiting => exact Nat.le_max_left _ _
  | more stream bytes hnone hread =>
      -- the only step that adds to the buffer, and there was room for a whole read before it
      have hroom : c.buffer.length ≤ maxLine - 1 := Nat.le_sub_one_of_lt hnone.2
      have hbrought : bytes.length ≤ maxRead := c.stream.length_read_le (congrArg Prod.snd hread)
      refine Nat.le_trans ?_ (Nat.le_max_right _ _)
      rw [List.length_append]
      exact Nat.add_le_add hroom hbrought

/-- A step of a receive on a closed connection whose buffer is empty fails and touches nothing. -/
theorem receiveStep_of_closed {c : Connection} (hopen : c.isOpen = false) (hbuffer : c.buffer = []) :
    c.receiveStep =
      (c.record (.error .closed : Except Failure Message), .done (.error .closed)) := by
  have hcut : Line.cut? c.buffer = none := by
    rw [hbuffer]
    rfl
  have hshort : ¬c.buffer.length ≥ maxLine := by
    rw [hbuffer]
    decide
  simp only [receiveStep, hcut, hshort, if_false, hopen, Bool.not_false, if_true]

/-- A step of a send on a closed connection fails and touches nothing. -/
theorem sendStep_of_closed {c : Connection} (hopen : c.isOpen = false) (rest : List UInt8) :
    c.sendStep rest = (c.record (.error .closed : Except Failure Unit), .done (.error .closed)) := by
  simp [sendStep, hopen]

/-- Closing shuts an open stream down. -/
theorem stream_close_of_open {c : Connection} (h : c.isOpen = true) :
    c.close.stream = { c.stream with shutdowns := c.stream.shutdowns + 1 } := by
  simp [close, h, Stream.shutdown]

/-- Closing again leaves the stream alone. -/
theorem stream_close_of_closed {c : Connection} (h : c.isOpen = false) :
    c.close.stream = c.stream := by
  simp [close, h]

theorem buffer_close (c : Connection) : c.close.buffer = [] := by
  unfold close
  split <;> rfl

/-! ## Usage -/

/-- How far the latest call on a connection has come. -/
inductive Progress where
  /-- No call is under way. -/
  | idle
  /-- A receive goes on. -/
  | receiving
  /-- A receive ended with this answer; without one it waits for the stream. -/
  | received (answer : Option (Except Failure Message))
  /-- A send goes on, with these bytes left to be written. -/
  | sending (rest : List UInt8)
  /-- A send ended this way. -/
  | sent (result : Except Failure Unit)

namespace Progress

/-- How far a receive has come with a step. -/
def ofReceiving : Receiving → Progress
  | .done result => .received (some result)
  | .more => .receiving
  | .waiting => .received none

/-- How far a send of which these bytes were left has come with a step. -/
def ofSending (left : List UInt8) : Sending → Progress
  | .done result => .sent result
  | .more rest => .sending rest
  | .waiting => .sending left

/-- How far a whole send has come. If the peer has not taken it, these bytes are left. -/
def ofAnswer (left : List UInt8) : Option (Except Failure Unit) → Progress
  | some result => .sent result
  | none => .sending left

/-- A receive waits for the stream, or ended because the stream failed or was over. -/
def IsStalled : Progress → Prop
  | .received answer => IsSilence answer
  | _ => False

/-- The call has come to nothing but that the connection is closed. -/
def IsRefused : Progress → Prop
  | .received answer => answer = some (.error .closed)
  | .sent result => result = .error .closed
  | .idle | .receiving | .sending _ => True

end Progress

/-- A receive stalls only where the buffer leaves everything open. -/
theorem Reception.noVerdict (h : Reception c next)
    (hstalled : (Progress.ofReceiving next.2).IsStalled) : NoVerdict next.1.buffer := by
  cases h with
  | line line rest result _ hsaid => exact absurd hstalled hsaid
  | overlong => exact hstalled.elim
  | lost stream failure hnone => exact hnone
  | waiting hnone => exact hnone
  | more => exact hstalled.elim

/-- A connection, and how far the latest call on it has come. -/
structure Usage where
  connection : Connection
  progress : Progress := .idle

namespace Usage

/-- A new connection, on which no call has been made. -/
def start (stream : Stream) : Usage :=
  { connection := { stream } }

/-- What can happen to a connection in use. -/
inductive Event where
  /-- The peer or the network does something to the stream. -/
  | cue (cue : Cue)
  /-- A receive begins. -/
  | receive
  /-- A send begins. -/
  | send (m : Message)
  /-- The call under way makes a step. -/
  | proceed
  /-- The connection is closed. -/
  | close
  deriving DecidableEq

/-- What the event is to the stream, if it comes from the peer or the network. -/
def Event.cue? : Event → Option Cue
  | .cue given => some given
  | _ => none

variable {u : Usage}

/-- One step of the call under way, if there is any. -/
def proceed (u : Usage) : Usage :=
  match u.progress with
  | .receiving | .received none =>
      ⟨u.connection.receiveStep.1, .ofReceiving u.connection.receiveStep.2⟩
  | .sending rest =>
      ⟨(u.connection.sendStep rest).1, .ofSending rest (u.connection.sendStep rest).2⟩
  | .idle | .received (some _) | .sent _ => u

/-- The connection after the event. Where a call begins, or the connection is closed, a call under way
is given up. -/
def act (u : Usage) : Event → Usage
  | .cue cue => { u with connection := { u.connection with stream := u.connection.stream.cue cue } }
  | .receive => { u with progress := .receiving }
  | .send m => { u with progress := .sending m.bytes }
  | .proceed => u.proceed
  | .close => { connection := u.connection.close }

/-- The connection after these events. -/
def run (u : Usage) (events : List Event) : Usage :=
  events.foldl act u

@[simp] theorem run_cons (u : Usage) (event : Event) (rest : List Event) :
    u.run (event :: rest) = (u.act event).run rest :=
  rfl

/-- The ways in which a call under way can make a step. -/
theorem proceed_cases (u : Usage) :
    u.proceed = u ∨
    u.proceed = ⟨u.connection.receiveStep.1, .ofReceiving u.connection.receiveStep.2⟩ ∨
    ∃ rest, u.proceed =
      ⟨(u.connection.sendStep rest).1, .ofSending rest (u.connection.sendStep rest).2⟩ := by
  unfold proceed
  split
  · exact .inr (.inl rfl)
  · exact .inr (.inl rfl)
  · exact .inr (.inr ⟨_, rfl⟩)
  all_goals exact .inl rfl

/-! ## Whole calls -/

/-- A whole receive is a run of its steps. -/
theorem exists_run_receive (c : Connection) :
    ∃ n, run ⟨c, .receiving⟩ (List.replicate n .proceed) =
      ⟨c.receive.1, .received c.receive.2⟩ := by
  fun_induction Connection.receive c with
  | case1 c after result hstep => exact ⟨1, by simp [run, act, proceed, hstep, Progress.ofReceiving]⟩
  | case2 c after hstep => exact ⟨1, by simp [run, act, proceed, hstep, Progress.ofReceiving]⟩
  | case3 c after hstep ih =>
      obtain ⟨n, hrest⟩ := ih
      have hfirst : act ⟨c, .receiving⟩ .proceed = ⟨after, .receiving⟩ := by
        simp [act, proceed, hstep, Progress.ofReceiving]
      refine ⟨n + 1, ?_⟩
      rw [List.replicate_succ, run_cons, hfirst]
      exact hrest

/-- A whole send is a run of its steps. -/
theorem exists_run_sendBytes (c : Connection) (bytes : List UInt8) :
    ∃ n left, run ⟨c, .sending bytes⟩ (List.replicate n .proceed) =
      ⟨(c.sendBytes bytes).1, .ofAnswer left (c.sendBytes bytes).2⟩ := by
  fun_induction Connection.sendBytes c bytes with
  | case1 c bytes after result hstep =>
      exact ⟨1, [], by simp [run, act, proceed, hstep, Progress.ofSending, Progress.ofAnswer]⟩
  | case2 c bytes after hstep =>
      exact ⟨1, bytes, by simp [run, act, proceed, hstep, Progress.ofSending, Progress.ofAnswer]⟩
  | case3 c bytes after left hstep ih =>
      obtain ⟨n, last, hrest⟩ := ih
      have hfirst : act ⟨c, .sending bytes⟩ .proceed = ⟨after, .sending left⟩ := by
        simp [act, proceed, hstep, Progress.ofSending]
      refine ⟨n + 1, last, ?_⟩
      rw [List.replicate_succ, run_cons, hfirst]
      exact hrest

/-! ## The buffer at every moment -/

/-- The buffer holds at most what one read adds to less than the longest line, and less than the
longest line, without an LF, where a receive stalls. -/
structure Bounded (u : Usage) : Prop where
  buffer_le : u.connection.buffer.length ≤ maxLine - 1 + maxRead
  stalled : u.progress.IsStalled → NoVerdict u.connection.buffer

theorem Bounded.proceed (h : u.Bounded) : u.proceed.Bounded := by
  rcases u.proceed_cases with hsame | hreceive | ⟨rest, hsend⟩
  · rw [hsame]
    exact h
  · rw [hreceive]
    refine ⟨?_, u.connection.reception.noVerdict⟩
    exact Nat.le_trans u.connection.reception.length_buffer_le
      (Nat.max_le.mpr ⟨h.buffer_le, Nat.le_refl _⟩)
  · rw [hsend]
    refine ⟨?_, fun hstalled ↦ ?_⟩
    · show (u.connection.sendStep rest).1.buffer.length ≤ _
      rw [(u.connection.sendStep_frame rest).2]
      exact h.buffer_le
    · cases hwent : (u.connection.sendStep rest).2 <;> rw [hwent] at hstalled <;>
        exact hstalled.elim

theorem Bounded.act (h : u.Bounded) (event : Event) : (u.act event).Bounded := by
  cases event with
  | cue cue => exact ⟨h.buffer_le, h.stalled⟩
  | receive => exact ⟨h.buffer_le, False.elim⟩
  | send m => exact ⟨h.buffer_le, False.elim⟩
  | proceed => exact h.proceed
  | close =>
      refine ⟨?_, False.elim⟩
      show u.connection.close.buffer.length ≤ _
      rw [buffer_close]
      exact Nat.zero_le _

theorem Bounded.run (h : u.Bounded) (events : List Event) : (u.run events).Bounded := by
  induction events generalizing u with
  | nil => exact h
  | cons event rest ih => exact ih (h.act event)

/-! ## Once the connection is closed -/

/-- The connection is closed and nothing is left in its buffer, and no call since has come to anything
else. -/
structure Shut (u : Usage) : Prop where
  isOpen : u.connection.isOpen = false
  buffer : u.connection.buffer = []
  refused : u.progress.IsRefused

theorem shut_close (u : Usage) : (u.act .close).Shut :=
  ⟨u.connection.isOpen_close, u.connection.buffer_close, trivial⟩

/-- A step of a call on a closed connection ends it, and leaves the stream alone. -/
theorem Shut.proceed (h : u.Shut) :
    u.proceed.Shut ∧ u.proceed.connection.stream = u.connection.stream := by
  rcases u.proceed_cases with hsame | hreceive | ⟨rest, hsend⟩
  · rw [hsame]
    exact ⟨h, rfl⟩
  · rw [hreceive, receiveStep_of_closed h.isOpen h.buffer]
    exact ⟨⟨h.isOpen, h.buffer, rfl⟩, rfl⟩
  · rw [hsend, sendStep_of_closed h.isOpen]
    exact ⟨⟨h.isOpen, h.buffer, rfl⟩, rfl⟩

/-- A closed connection stays closed, and only the peer still does anything to its stream. -/
theorem Shut.act (h : u.Shut) (event : Event) :
    (u.act event).Shut ∧
      (u.act event).connection.stream = event.cue?.toList.foldl Stream.cue u.connection.stream := by
  cases event with
  | cue cue => exact ⟨⟨h.isOpen, h.buffer, h.refused⟩, rfl⟩
  | receive => exact ⟨⟨h.isOpen, h.buffer, trivial⟩, rfl⟩
  | send m => exact ⟨⟨h.isOpen, h.buffer, trivial⟩, rfl⟩
  | proceed => exact h.proceed
  | close => exact ⟨u.shut_close, stream_close_of_closed h.isOpen⟩

theorem Shut.run (h : u.Shut) (events : List Event) :
    (u.run events).Shut ∧
      (u.run events).connection.stream =
        (events.filterMap Event.cue?).foldl Stream.cue u.connection.stream := by
  induction events generalizing u with
  | nil => exact ⟨h, rfl⟩
  | cons event rest ih =>
      obtain ⟨hnext, hstream⟩ := h.act event
      obtain ⟨hlast, hrest⟩ := ih hnext
      refine ⟨hlast, ?_⟩
      rw [run_cons, hrest, hstream]
      cases event <;> rfl

/-- The peer writes nothing to this side's stream and does not shut it down. -/
theorem foldl_cue_frame (s : Stream) (cues : List Cue) :
    (cues.foldl Stream.cue s).written = s.written ∧
      (cues.foldl Stream.cue s).shutdowns = s.shutdowns ∧
      s.arrivals <+: (cues.foldl Stream.cue s).arrivals := by
  induction cues generalizing s with
  | nil => exact ⟨rfl, rfl, List.prefix_refl _⟩
  | cons cue rest ih =>
      obtain ⟨hwritten, hshutdowns, harrivals⟩ := ih (s.cue cue)
      have hfirst : (s.cue cue).written = s.written ∧ (s.cue cue).shutdowns = s.shutdowns ∧
          s.arrivals <+: (s.cue cue).arrivals := by
        cases cue <;> simp [Stream.cue]
      exact ⟨hwritten.trans hfirst.1, hshutdowns.trans hfirst.2.1, hfirst.2.2.trans harrivals⟩

theorem Shut.shutdowns_run (h : u.Shut) (events : List Event) :
    (u.run events).connection.stream.shutdowns = u.connection.stream.shutdowns := by
  rw [(h.run events).2]
  exact (foldl_cue_frame _ _).2.1

/-- Nothing but a close closes the connection or shuts its stream down. -/
theorem act_of_ne_close {event : Event} (h : event ≠ .close) :
    (u.act event).connection.isOpen = u.connection.isOpen ∧
      (u.act event).connection.stream.shutdowns = u.connection.stream.shutdowns := by
  cases event with
  | cue cue => exact ⟨rfl, (foldl_cue_frame u.connection.stream [cue]).2.1⟩
  | receive | send m => exact ⟨rfl, rfl⟩
  | close => exact absurd rfl h
  | proceed =>
      rcases u.proceed_cases with hsame | hreceive | ⟨rest, hsend⟩
      · simp [act, hsame]
      · obtain ⟨arrivals, hstream⟩ := u.connection.stream_receiveStep
        simp [act, hreceive, hstream, isOpen_receiveStep]
      · obtain ⟨written, writes, barrier, hstream⟩ := u.connection.stream_sendStep rest
        simp [act, hsend, hstream, (u.connection.sendStep_frame rest).1]

/-- From an open connection on, the stream is shut down once if the connection is closed at all, and
never if it is not. -/
theorem shutdowns_run (h : u.connection.isOpen = true) (events : List Event) :
    (u.run events).connection.stream.shutdowns =
      u.connection.stream.shutdowns + if .close ∈ events then 1 else 0 := by
  induction events generalizing u with
  | nil => rfl
  | cons event rest ih =>
      by_cases hclose : event = .close
      · subst hclose
        -- closes further on find the connection shut, so they do not count again
        rw [run_cons, u.shut_close.shutdowns_run rest, if_pos List.mem_cons_self]
        exact congrArg Stream.shutdowns (stream_close_of_open h)
      · obtain ⟨hopen, hshutdowns⟩ := u.act_of_ne_close hclose
        rw [run_cons, ih (hopen.trans h), hshutdowns]
        simp [Ne.symm hclose]

/-- After a close, whenever it was, the connection is shut. -/
theorem shut_run {events : List Event} (h : .close ∈ events) (u : Usage) : (u.run events).Shut := by
  induction events generalizing u with
  | nil => cases h
  | cons event rest ih =>
      -- what counts is the last close: behind it the connection only has to stay shut
      by_cases hrest : .close ∈ rest
      · exact ih hrest (u.act event)
      · obtain rfl := (List.mem_cons.mp h).resolve_right hrest
        exact (u.shut_close.run rest).1

/-- Whatever is called on a connection, gone through with or given up, and whatever the peer does
meanwhile: the buffer never holds more than 777 bytes, and no more than 265, with no LF, where a receive
waits or has ended because the stream failed or was over. The stream is shut down once if the connection
is closed, however often, and otherwise never. From the first close on the buffer is empty, a call comes
to nothing but that the connection is closed, and of the stream nothing is read and nothing is written to
it. Whole calls are runs like these. -/
theorem bounded_and_shut_for_good (stream : Stream) (events : List Event) :
    let u := (start stream).run events
    (u.connection.buffer.length ≤ 777 ∧
      (u.progress.IsStalled →
        lineFeed ∉ u.connection.buffer ∧ u.connection.buffer.length ≤ 265)) ∧
    u.connection.stream.shutdowns = stream.shutdowns + (if .close ∈ events then 1 else 0) ∧
    (.close ∈ events →
      u.connection.buffer = [] ∧ u.progress.IsRefused ∧
      u.connection.receive.2 = some (.error .closed) ∧
      (∀ m, (u.connection.send m).2 = some (.error .closed)) ∧
      ∀ more, let v := u.run more
        v.connection.stream =
          (more.filterMap Event.cue?).foldl Stream.cue u.connection.stream ∧
        v.connection.stream.written = u.connection.stream.written ∧
        u.connection.stream.arrivals <+: v.connection.stream.arrivals) ∧
    (∃ n, u.run (.receive :: List.replicate n .proceed) =
      ⟨u.connection.receive.1, .received u.connection.receive.2⟩) ∧
    ∀ m, ∃ n left, u.run (.send m :: List.replicate n .proceed) =
      ⟨(u.connection.send m).1, .ofAnswer left (u.connection.send m).2⟩ := by
  intro u
  have hstart : (start stream).Bounded := ⟨Nat.zero_le _, False.elim⟩
  have hbounded : u.Bounded := hstart.run events
  refine ⟨⟨hbounded.buffer_le, fun hstalled ↦ ?_⟩, shutdowns_run rfl events, fun hclose ↦ ?_,
    exists_run_receive u.connection, fun m ↦ exists_run_sendBytes u.connection m.bytes⟩
  · obtain ⟨hfree, hshort⟩ := hbounded.stalled hstalled
    exact ⟨hfree, Nat.le_of_lt_succ hshort⟩
  · have hshut : u.Shut := shut_run hclose _
    have hreceive := receive_of_done (receiveStep_of_closed hshut.isOpen hshut.buffer)
    refine ⟨hshut.buffer, hshut.refused, congrArg Prod.snd hreceive,
      fun m ↦ congrArg Prod.snd (send_of_closed hshut.isOpen m), fun more ↦ ?_⟩
    dsimp only
    obtain ⟨-, hstream⟩ := hshut.run more
    obtain ⟨hwritten, -, harrivals⟩ :=
      foldl_cue_frame u.connection.stream (more.filterMap Event.cue?)
    rw [hstream]
    exact ⟨rfl, hwritten, harrivals⟩

/-- Two messages come in at once, and one of them is received. -/
def receivingOne : List Event :=
  [.cue (.arrive (.chunk (Message.bytes .ok ++ Message.bytes ⟨.quit, ""⟩))), .receive, .proceed,
    .proceed]

/-- The connection is closed, twice, and another receive is tried. -/
def closingTwice : List Event :=
  [.close, .close, .receive, .proceed]

/-- The message that is already in the buffer when the connection is closed is not received. -/
theorem bounded_and_shut_for_good_receiving :
    let last := (start {}).run (receivingOne ++ closingTwice)
    ((start {}).run receivingOne).connection.buffer = Message.bytes ⟨.quit, ""⟩ ∧
      .close ∈ receivingOne ++ closingTwice ∧ last.connection.buffer = [] ∧
      last.progress.IsRefused ∧ last.connection.receive.2 = some (.error .closed) ∧
      last.connection.stream.shutdowns = 1 := by
  have hclose : .close ∈ receivingOne ++ closingTwice := by
    simp [closingTwice]
  have hbuffered : ((start {}).run receivingOne).connection.buffer = Message.bytes ⟨.quit, ""⟩ := by
    decide +kernel
  obtain ⟨-, hshutdowns, hshut, -⟩ := bounded_and_shut_for_good {} (receivingOne ++ closingTwice)
  obtain ⟨hbuffer, hrefused, hreceive, -⟩ := hshut hclose
  rw [if_pos hclose] at hshutdowns
  exact ⟨hbuffered, hclose, hbuffer, hrefused, hreceive, hshutdowns⟩

/-- The bound is met: a whole read comes in behind 265 bytes that are no line yet. -/
example :
    let piece (count : Nat) : Event := .cue (.arrive (.chunk (List.replicate count 0x61)))
    ((start {}).run
      [piece 265, .receive, .proceed, .proceed, piece 600, .proceed]).connection.buffer.length = 777 := by
  decide +kernel

end Usage

end ChatRelay.Connection
