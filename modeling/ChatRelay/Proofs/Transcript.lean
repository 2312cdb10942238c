import ChatRelay.Proofs.Receiving
import ChatRelay.Proofs.Sending

/-!
# The messages that a stream brings

`transcript` is what repeated receives on a connection yield: the messages, and how the receives
end. It is settled by what is there to be read: `Alike.transcript` says that the writing side has no
part in it, and `transcript_feed_of_more` and its siblings say what a step takes from it while more
may still come in.
-/

namespace ChatRelay.Connection

open Transport Wire

theorem receive_of_done {c after : Connection} {result : Except Failure Message}
    (h : c.receiveStep = (after, .done result)) : c.receive = (after, some result) := by
  rw [receive]
  split
  all_goals
    rename_i hstep
    rw [h] at hstep
    cases hstep
  rfl

theorem receive_of_waiting {c after : Connection} (h : c.receiveStep = (after, .waiting)) :
    c.receive = (after, none) := by
  rw [receive]
  split
  all_goals
    rename_i hstep
    rw [h] at hstep
    cases hstep
  rfl

theorem receive_of_more {c after : Connection} (h : c.receiveStep = (after, .more)) :
    c.receive = after.receive := by
  rw [receive]
  split
  all_goals
    rename_i hstep
    rw [h] at hstep
    cases hstep
  rfl

/-- The messages that repeated receives yield, and the failure of the one that ends them; none if
they end because nothing more has come in. -/
def transcript (c : Connection) : List Message × Option Failure :=
  match _h : c.receive with
  | (after, some (.ok m)) => (m :: after.transcript.1, after.transcript.2)
  | (_, some (.error failure)) => ([], some failure)
  | (_, none) => ([], none)
termination_by c.backlog.length
decreasing_by all_goals exact backlog_receive_lt _h

theorem transcript_of_ok {c after : Connection} {m : Message}
    (h : c.receive = (after, some (.ok m))) :
    c.transcript = (m :: after.transcript.1, after.transcript.2) := by
  rw [transcript]
  split
  all_goals
    rename_i hreceive
    rw [h] at hreceive
    cases hreceive
  rfl

theorem transcript_of_error {c after : Connection} {failure : Failure}
    (h : c.receive = (after, some (.error failure))) : c.transcript = ([], some failure) := by
  rw [transcript]
  split
  all_goals
    rename_i hreceive
    rw [h] at hreceive
    cases hreceive
  rfl

theorem transcript_of_none {c after : Connection} (h : c.receive = (after, none)) :
    c.transcript = ([], none) := by
  rw [transcript]
  split
  · rename_i hreceive
    rw [h] at hreceive
    cases hreceive
  · rename_i hreceive
    rw [h] at hreceive
    cases hreceive
  · rfl

/-! ## The writing side has no part in it -/

/-- The two connections have the same to be read. -/
structure Alike (c other : Connection) : Prop where
  buffer : c.buffer = other.buffer
  isOpen : c.isOpen = other.isOpen
  arrivals : c.stream.arrivals = other.stream.arrivals

/-- A read is the same where the same is to be read. -/
theorem read_alike {s other : Stream} (h : s.arrivals = other.arrivals) :
    s.read.2 = other.read.2 ∧ s.read.1.arrivals = other.read.1.arrivals := by
  unfold Stream.read
  rw [← h]
  split
  · exact ⟨rfl, h⟩
  · exact ⟨rfl, h⟩
  · exact ⟨rfl, rfl⟩
  · split <;> exact ⟨rfl, rfl⟩

/-- A step of a receive goes the same way where the same is to be read. -/
theorem Alike.receiveStep {c other : Connection} (h : Alike c other) :
    c.receiveStep.2 = other.receiveStep.2 ∧ Alike c.receiveStep.1 other.receiveStep.1 := by
  obtain ⟨stream, isOpen, buffer, last⟩ := c
  obtain ⟨stream', isOpen', buffer', last'⟩ := other
  obtain ⟨hbuffer, hopen, harrivals⟩ := h
  dsimp only at hbuffer hopen harrivals
  subst hbuffer hopen
  obtain ⟨hreading, hleft⟩ := read_alike harrivals
  unfold Connection.receiveStep
  dsimp only
  split
  · split
    · exact ⟨rfl, rfl, rfl, harrivals⟩
    · split <;> exact ⟨rfl, rfl, rfl, harrivals⟩
  · split
    · exact ⟨rfl, rfl, rfl, harrivals⟩
    · split
      · exact ⟨rfl, rfl, rfl, harrivals⟩
      · -- the step comes to a read, which goes the same way on both sides
        rcases hread : stream.read with ⟨s, reading⟩
        rcases hread' : stream'.read with ⟨s', reading'⟩
        rw [hread, hread'] at hreading hleft
        dsimp only at hreading hleft
        subst hreading
        cases reading with
        | pending => exact ⟨rfl, rfl, rfl, harrivals⟩
        | fault cause => exact ⟨rfl, rfl, rfl, hleft⟩
        | bytes bytes =>
            cases bytes with
            | nil => exact ⟨rfl, rfl, rfl, hleft⟩
            | cons byte bytes => exact ⟨rfl, rfl, rfl, hleft⟩

/-- A receive goes the same way where the same is to be read. -/
theorem Alike.receive {c other : Connection} (h : Alike c other) :
    c.receive.2 = other.receive.2 ∧ Alike c.receive.1 other.receive.1 := by
  rcases hstep' : other.receiveStep with ⟨after', went'⟩
  fun_induction Connection.receive c generalizing other after' went' with
  | case1 c after result hstep =>
      obtain ⟨hwent, hafter⟩ := h.receiveStep
      rw [hstep, hstep'] at hwent hafter
      cases hwent
      rw [receive_of_done hstep']
      exact ⟨rfl, hafter⟩
  | case2 c after hstep =>
      obtain ⟨hwent, hafter⟩ := h.receiveStep
      rw [hstep, hstep'] at hwent hafter
      cases hwent
      rw [receive_of_waiting hstep']
      exact ⟨rfl, hafter⟩
  | case3 c after hstep ih =>
      obtain ⟨hwent, hafter⟩ := h.receiveStep
      rw [hstep, hstep'] at hwent hafter
      cases hwent
      rw [receive_of_more hstep']
      exact ih hafter _ _ rfl

/-- The transcript is the same where the same is to be read. -/
theorem Alike.transcript {c other : Connection} (h : Alike c other) :
    c.transcript = other.transcript := by
  rcases hreceive' : other.receive with ⟨after', answer'⟩
  fun_induction Connection.transcript c generalizing other after' answer' with
  | case1 c after m hreceive ih =>
      obtain ⟨hanswer, hafter⟩ := h.receive
      rw [hreceive, hreceive'] at hanswer hafter
      cases hanswer
      rw [transcript_of_ok hreceive', ih hafter _ _ rfl]
  | case2 c after failure hreceive =>
      have hanswer := h.receive.1
      rw [hreceive, hreceive'] at hanswer
      cases hanswer
      rw [transcript_of_error hreceive']
  | case3 c after hreceive =>
      have hanswer := h.receive.1
      rw [hreceive, hreceive'] at hanswer
      cases hanswer
      rw [transcript_of_none hreceive']

/-! ## What a step takes from it -/

/-- A read that finds something goes the same way when more comes behind it. -/
theorem read_feed_of_ne {s after : Stream} {reading : Reading} (h : s.read = (after, reading))
    (hne : reading ≠ .pending) (more : List Arrival) :
    Stream.read { s with arrivals := s.arrivals ++ more } =
      ({ after with arrivals := after.arrivals ++ more }, reading) := by
  unfold Stream.read at h ⊢
  cases ha : s.arrivals with
  | nil =>
      rw [ha] at h
      cases h
      exact absurd rfl hne
  | cons arrival rest =>
      rw [ha] at h
      cases arrival with
      | finish =>
          cases h
          simp [ha]
      | fault cause =>
          cases h
          rfl
      | chunk bytes =>
          dsimp only [List.cons_append] at h ⊢
          split at h <;> rename_i hsize <;> cases h
          · rw [if_pos hsize]
          · rw [if_neg hsize]
            rfl

/-- A step of a receive that does not wait goes the same way when more comes behind. -/
theorem receiveStep_feed {c after : Connection} {went : Receiving}
    (h : c.receiveStep = (after, went)) (hne : went ≠ .waiting) (more : List Arrival) :
    (c.feed more).receiveStep = (after.feed more, went) := by
  unfold receiveStep at h ⊢
  dsimp only [feed] at h ⊢
  split
  · -- a line in the buffer is judged without a look at the stream
    rename_i line rest hcut
    rw [hcut] at h
    dsimp only at h
    split
    · rename_i hlong
      rw [if_pos hlong] at h
      cases h
      rfl
    · rename_i hshort
      rw [if_neg hshort] at h
      cases hread : Line.read line with
      | error violation =>
          rw [hread] at h
          cases h
          rfl
      | ok m =>
          rw [hread] at h
          cases h
          rfl
  · rename_i hcut
    rw [hcut] at h
    dsimp only at h
    by_cases hlong : c.buffer.length ≥ maxLine
    · simp only [hlong, if_true] at h ⊢
      cases h
      rfl
    · simp only [hlong, if_false] at h ⊢
      by_cases hclosed : (!c.isOpen) = true
      · simp only [hclosed, if_true] at h ⊢
        cases h
        rfl
      · simp only [hclosed] at h ⊢
        rcases hread : c.stream.read with ⟨s, reading⟩
        rw [hread] at h
        cases reading with
        -- only a step that waits would go on to what comes behind
        | pending =>
            cases h
            exact absurd rfl hne
        | fault cause =>
            rw [read_feed_of_ne hread (by simp) more]
            cases h
            rfl
        | bytes bytes =>
            rw [read_feed_of_ne hread (by simp) more]
            cases bytes with
            | nil =>
                cases h
                rfl
            | cons byte bytes =>
                cases h
                rfl

/-- Bytes that come in change nothing about the transcript. -/
theorem transcript_feed_of_more {c after : Connection} (h : c.receiveStep = (after, .more))
    (more : List Arrival) : (c.feed more).transcript = (after.feed more).transcript := by
  have hreceive := receive_of_more (receiveStep_feed h (by simp) more)
  rcases hafter : (after.feed more).receive with ⟨last, answer⟩
  rw [hafter] at hreceive
  cases answer with
  | none => rw [transcript_of_none hreceive, transcript_of_none hafter]
  | some result =>
      cases result with
      | ok m => rw [transcript_of_ok hreceive, transcript_of_ok hafter]
      | error failure => rw [transcript_of_error hreceive, transcript_of_error hafter]

/-- A message received is the first of the transcript, and the others are left. -/
theorem transcript_feed_of_ok {c after : Connection} {m : Message}
    (h : c.receiveStep = (after, .done (.ok m))) (more : List Arrival) :
    (c.feed more).transcript =
      (m :: (after.feed more).transcript.1, (after.feed more).transcript.2) :=
  transcript_of_ok (receive_of_done (receiveStep_feed h (by simp) more))

/-- A failure ends the transcript. -/
theorem transcript_feed_of_error {c after : Connection} {failure : Failure}
    (h : c.receiveStep = (after, .done (.error failure))) (more : List Arrival) :
    (c.feed more).transcript = ([], some failure) :=
  transcript_of_error (receive_of_done (receiveStep_feed h (by simp) more))

/-- A step of a send takes nothing from what is to be read. -/
theorem alike_sendStep (c : Connection) (rest : List UInt8) (more : List Arrival) :
    Alike ((c.sendStep rest).1.feed more) (c.feed more) := by
  obtain ⟨written, writes, barrier, hstream⟩ := c.stream_sendStep rest
  obtain ⟨hopen, hbuffer⟩ := c.sendStep_frame rest
  exact ⟨hbuffer, hopen, by rw [arrivals_feed, arrivals_feed, hstream]⟩

/-- What a cue brings in. -/
def brought : Cue → List Arrival
  | .arrive arrival => [arrival]
  | .drop => [.finish]
  | _ => []

/-- What happens to a stream only puts what it brings in behind what is there. -/
theorem alike_cue (c : Connection) (cue : Cue) (more : List Arrival) :
    Alike ({ c with stream := c.stream.cue cue }.feed more) (c.feed (brought cue ++ more)) := by
  refine ⟨rfl, rfl, ?_⟩
  cases cue <;> simp [Stream.cue, brought]

end ChatRelay.Connection
