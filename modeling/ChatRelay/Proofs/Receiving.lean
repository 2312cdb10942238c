import ChatRelay.Connection.Backlog

/-!
# What one receive does

`receive_outcome` says how a receive on an open connection can go: it judges exactly the line at the
head of the backlog, or finds no line end within the longest line, or leaves the backlog as it is.
The backlog is taken together with whatever may still arrive behind it, so that each of these facts
stays true when more comes in.
-/

namespace ChatRelay.Connection

open Transport Wire

/-- The connection with more to come in at the end of its stream. -/
def feed (c : Connection) (arrivals : List Arrival) : Connection :=
  { c with stream := { c.stream with arrivals := c.stream.arrivals ++ arrivals } }

@[simp] theorem feed_nil (c : Connection) : c.feed [] = c := by
  simp [feed]

theorem feed_feed (c : Connection) (first second : List Arrival) :
    (c.feed first).feed second = c.feed (first ++ second) := by
  simp [feed]

@[simp] theorem arrivals_feed (c : Connection) (arrivals : List Arrival) :
    (c.feed arrivals).stream.arrivals = c.stream.arrivals ++ arrivals :=
  rfl

/-- A line is what stands before its only LF, and the LF. -/
def IsLine (line : List UInt8) : Prop :=
  ∃ body, line = body ++ [lineFeed] ∧ lineFeed ∉ body

/-- The verdict on a line, taken alone. -/
def judge (line : List UInt8) : Except Failure Message :=
  (Line.read line).mapError .protocol

/-- The verdict where the longest line ends before an LF comes. -/
def tooLong : Except Failure Message :=
  .error (.protocol (.lineTooLong maxLine))

/-- The longest line goes by without an LF. -/
def Overlong (bytes : List UInt8) : Prop :=
  maxLine ≤ bytes.length ∧ lineFeed ∉ bytes.take maxLine

/-- There is neither a line nor room for more of one. -/
def NoVerdict (bytes : List UInt8) : Prop :=
  lineFeed ∉ bytes ∧ bytes.length < maxLine

/-- The failures that say something of the stream and nothing of a line. -/
def IsLoss : Failure → Prop
  | .io _ | .closed => True
  | _ => False

/-- What a receive answers, and what it leaves of the backlog. -/
inductive Outcome (c after : Connection) : Option (Except Failure Message) → Prop where
  /-- The line at the head is judged, and nothing else is taken. -/
  | judged (line : List UInt8) (hline : IsLine line) (hsize : line.length ≤ maxLine)
      (htaken : ∀ more, (c.feed more).backlog = line ++ (after.feed more).backlog) :
      Outcome c after (some (judge line))
  /-- The longest line goes by without an LF. -/
  | overlong (hlong : ∀ more, Overlong (c.feed more).backlog) : Outcome c after (some tooLong)
  /-- The stream fails or ends, and nothing is taken. -/
  | lost (failure : Failure) (hloss : IsLoss failure)
      (hkept : ∀ more, (after.feed more).backlog = (c.feed more).backlog)
      (hspent : after.stream.arrivals.length < c.stream.arrivals.length ∨ NoVerdict after.backlog) :
      Outcome c after (some (.error failure))
  /-- Nothing has come in yet, and nothing is taken. -/
  | waiting (hkept : ∀ more, (after.feed more).backlog = (c.feed more).backlog)
      (hempty : after.stream.arrivals = []) (hnone : NoVerdict after.backlog) :
      Outcome c after none

/-- What is read and what is still to be read is what was to be read, whatever comes behind it. -/
theorem read_feed (s : Stream) (more : List Arrival) :
    (match s.read.2 with
      | .bytes bytes => bytes
      | _ => []) ++ Stream.unread.go (s.read.1.arrivals ++ more) =
      Stream.unread.go (s.arrivals ++ more) := by
  cases ha : s.arrivals with
  | nil => simp [Stream.read, ha]
  | cons arrival rest =>
      cases arrival with
      | finish => simp [Stream.read, ha]
      | fault cause => simp [Stream.read, ha, Stream.unread.go]
      | chunk bytes =>
          by_cases hsize : bytes.length ≤ maxRead
          · simp [Stream.read, ha, hsize, Stream.unread.go]
          · simp only [Stream.read, ha, hsize, if_false, List.cons_append, Stream.unread.go]
            rw [← List.append_assoc, List.take_append_drop]

/-- Bytes that come in only move from the stream to the buffer, whatever comes behind them. -/
theorem backlog_feed_of_more {c after : Connection} (h : c.receiveStep = (after, .more))
    (more : List Arrival) : (after.feed more).backlog = (c.feed more).backlog := by
  have hunread := read_feed c.stream more
  unfold receiveStep at h
  dsimp only at h
  split at h
  · split at h
    · simp at h
    · split at h <;> simp at h
  · split at h
    · simp at h
    · split at h
      · simp at h
      · split at h
        · simp at h
        · simp at h
        · simp at h
        · rename_i s byte bytes hread
          simp only [Prod.mk.injEq, and_true] at h
          rw [hread] at hunread
          dsimp only at hunread
          rw [← h]
          simp only [backlog, feed, Stream.unread, List.append_assoc, hunread]

/-- A read takes arrivals from the front and adds none. -/
theorem length_arrivals_read_le (s : Stream) :
    s.read.1.arrivals.length ≤ s.arrivals.length := by
  unfold Stream.read
  split
  · exact Nat.le_refl _
  · exact Nat.le_refl _
  · simp [*]
  · split <;> simp [*]

/-- A read that fails takes the failure away. -/
theorem length_arrivals_read_fault {s after : Stream} {cause : Fault}
    (h : s.read = (after, .fault cause)) : after.arrivals.length < s.arrivals.length := by
  unfold Stream.read at h
  split at h
  · simp at h
  · simp at h
  · rename_i hs
    simp only [Prod.mk.injEq] at h
    rw [← h.1, hs]
    exact Nat.lt_succ_self _
  · split at h <;> simp at h

/-- A read of no bytes takes an empty chunk away, or the stream has come to its end. -/
theorem arrivals_read_empty {s after : Stream} (h : s.read = (after, .bytes [])) :
    after.arrivals.length < s.arrivals.length ∨ after.unread = [] := by
  unfold Stream.read at h
  split at h
  · simp at h
  · rename_i hs
    simp only [Prod.mk.injEq] at h
    right
    rw [← h.1, Stream.unread, hs, Stream.unread.go]
  · simp at h
  · rename_i bytes rest hs
    split at h
    · simp only [Prod.mk.injEq] at h
      left
      rw [← h.1, hs]
      exact Nat.lt_succ_self _
    · rename_i hsize
      simp only [Prod.mk.injEq, Reading.bytes.injEq, List.take_eq_nil_iff] at h
      have hempty : bytes = [] := h.2.resolve_left (by decide)
      simp [hempty] at hsize

/-- A step of a receive leaves the connection open. -/
theorem isOpen_receiveStep (c : Connection) : c.receiveStep.1.isOpen = c.isOpen := by
  unfold receiveStep
  dsimp only
  split
  · split
    · rfl
    · split <;> rfl
  · split
    · rfl
    · split
      · rfl
      · split <;> rfl

/-- What has no LF and is too long stays so when more comes behind it. -/
theorem overlong_append {bytes : List UInt8} (hnone : lineFeed ∉ bytes)
    (hsize : maxLine ≤ bytes.length) (more : List UInt8) : Overlong (bytes ++ more) := by
  constructor
  · rw [List.length_append]
    omega
  · rw [List.take_append_of_le_length hsize]
    exact fun hmem ↦ hnone (List.mem_of_mem_take hmem)

/-- A line at the head of the buffer is taken out and judged, unless it is too long. -/
theorem receiveStep_of_line {c : Connection} {line rest : List UInt8}
    (hcut : Line.cut? c.buffer = some (line, rest)) :
    c.receiveStep =
      let result := if line.length > maxLine then tooLong else judge line
      ({ c with buffer := rest }.record result, .done result) := by
  unfold receiveStep
  simp only [hcut]
  split
  · rfl
  · unfold judge
    cases Line.read line <;> rfl

/-- A step that finds a line ends the receive with an outcome. -/
theorem outcome_of_line {c : Connection} {line rest : List UInt8}
    (hcut : Line.cut? c.buffer = some (line, rest)) :
    match c.receiveStep with
    | (after, .done result) => Outcome c after (some result)
    | _ => False := by
  have happend := Line.cut?_append hcut
  obtain ⟨body, hbody, hfree⟩ := Line.cut?_line hcut
  rw [receiveStep_of_line hcut]
  by_cases hlong : line.length > maxLine
  · simp only [hlong, if_true]
    refine .overlong fun more ↦ ?_
    have hsize : maxLine ≤ body.length := by
      rw [hbody, List.length_append, List.length_singleton] at hlong
      omega
    have hsplit : (c.feed more).backlog =
        body ++ (lineFeed :: rest ++ (c.feed more).stream.unread) := by
      simp [backlog, feed, happend, hbody]
    rw [hsplit]
    exact overlong_append hfree hsize _
  · simp only [hlong, if_false]
    refine .judged line ⟨body, hbody, hfree⟩ (Nat.le_of_not_lt hlong) fun more ↦ ?_
    simp [backlog, feed, record, happend]

/-- Only a stream with nothing to bring makes a read wait. -/
theorem arrivals_of_pending {s after : Stream} (h : s.read = (after, .pending)) :
    s.arrivals = [] := by
  unfold Stream.read at h
  split at h
  · assumption
  · simp at h
  · simp at h
  · split at h <;> simp at h

/-- A step that finds no line on an open connection ends with an outcome, unless bytes come in. -/
theorem outcome_of_no_line {c : Connection} (hopen : c.isOpen = true)
    (hcut : Line.cut? c.buffer = none) :
    match c.receiveStep with
    | (after, .done result) => Outcome c after (some result)
    | (after, .waiting) => Outcome c after none
    | (_, .more) => True := by
  have hfree := Line.cut?_eq_none_iff.mp hcut
  unfold receiveStep
  simp only [hcut]
  by_cases hlong : c.buffer.length ≥ maxLine
  · simp only [hlong, if_true]
    exact .overlong fun more ↦ overlong_append hfree hlong _
  · simp only [hlong, if_false, hopen, Bool.not_true, Bool.false_eq_true]
    have hnone : NoVerdict c.buffer := ⟨hfree, Nat.lt_of_not_le hlong⟩
    have hkept := read_feed c.stream
    -- the read finds nothing, the end, bytes or a fault; with bytes there is no outcome yet
    rcases hread : c.stream.read with ⟨s, _ | ⟨_ | ⟨byte, bytes⟩⟩ | cause⟩ <;>
      rw [hread] at hkept <;> simp only
    · have hempty := arrivals_of_pending hread
      refine .waiting (fun _ ↦ rfl) hempty ?_
      simpa [backlog, Stream.unread, hempty, Stream.unread.go] using hnone
    · refine .lost _ trivial (fun more ↦ ?_) ((arrivals_read_empty hread).imp id fun hend ↦ ?_)
      · simpa [backlog, feed, record, Stream.unread] using hkept more
      · simpa [backlog, record, hend] using hnone
    · refine .lost _ trivial (fun more ↦ ?_) (.inl (length_arrivals_read_fault hread))
      simpa [backlog, feed, record, Stream.unread] using hkept more

/-- A step that brings bytes in adds no arrivals. -/
theorem length_arrivals_receiveStep_le (c : Connection) :
    c.receiveStep.1.stream.arrivals.length ≤ c.stream.arrivals.length := by
  have hread := length_arrivals_read_le c.stream
  unfold receiveStep
  dsimp only
  split
  · split
    · exact Nat.le_refl _
    · split <;> exact Nat.le_refl _
  · split
    · exact Nat.le_refl _
    · split
      · exact Nat.le_refl _
      · split <;> simp_all [record]

/-- An outcome is one already for the connection before bytes came in. -/
theorem Outcome.of_more {c next after : Connection} {answer : Option (Except Failure Message)}
    (hstep : c.receiveStep = (next, .more)) (h : Outcome next after answer) :
    Outcome c after answer := by
  have hsame := backlog_feed_of_more hstep
  have hle : next.stream.arrivals.length ≤ c.stream.arrivals.length := by
    simpa [hstep] using length_arrivals_receiveStep_le c
  cases h with
  | judged line hline hsize htaken =>
      exact .judged line hline hsize fun more ↦ (hsame more).symm.trans (htaken more)
  | overlong hlong => exact .overlong fun more ↦ hsame more ▸ hlong more
  | lost failure hloss hkept hspent =>
      exact .lost failure hloss (fun more ↦ (hkept more).trans (hsame more))
        (hspent.imp (fun hlt ↦ Nat.lt_of_lt_of_le hlt hle) id)
  | waiting hkept hempty hnone =>
      exact .waiting (fun more ↦ (hkept more).trans (hsame more)) hempty hnone

/-- A step on an open connection ends the receive with an outcome, unless bytes come in. -/
theorem receiveStep_outcome {c : Connection} (hopen : c.isOpen = true) :
    match c.receiveStep with
    | (after, .done result) => Outcome c after (some result)
    | (after, .waiting) => Outcome c after none
    | (_, .more) => True := by
  cases hcut : Line.cut? c.buffer with
  | none => exact outcome_of_no_line hopen hcut
  | some split =>
      have hline := outcome_of_line hcut
      rcases hstep : c.receiveStep with ⟨after, result | _ | _⟩ <;> rw [hstep] at hline
      · exact hline
      · trivial
      · exact hline.elim

/-- Every receive on an open connection has one of the outcomes. -/
theorem receive_outcome {c after : Connection} {answer : Option (Except Failure Message)}
    (hopen : c.isOpen = true) (h : c.receive = (after, answer)) : Outcome c after answer := by
  fun_induction receive c with
  | case1 c next result hstep =>
      cases h
      simpa [hstep] using receiveStep_outcome hopen
  | case2 c next hstep =>
      cases h
      simpa [hstep] using receiveStep_outcome hopen
  | case3 c next hstep ih =>
      have hnext : next.isOpen = true := by
        simpa [hstep, hopen] using isOpen_receiveStep c
      exact (ih hnext h).of_more hstep

/-- A receive leaves the connection open. -/
theorem isOpen_receive (c : Connection) : c.receive.1.isOpen = c.isOpen := by
  fun_induction receive c with
  | case1 c next result hstep => simpa [hstep] using isOpen_receiveStep c
  | case2 c next hstep => simpa [hstep] using isOpen_receiveStep c
  | case3 c next hstep ih => exact ih.trans (by simpa [hstep] using isOpen_receiveStep c)

/-- A receive takes arrivals from the front and adds none. -/
theorem length_arrivals_receive_le (c : Connection) :
    c.receive.1.stream.arrivals.length ≤ c.stream.arrivals.length := by
  fun_induction receive c with
  | case1 c next result hstep => simpa [hstep] using length_arrivals_receiveStep_le c
  | case2 c next hstep => simpa [hstep] using length_arrivals_receiveStep_le c
  | case3 c next hstep ih =>
      exact Nat.le_trans ih (by simpa [hstep] using length_arrivals_receiveStep_le c)

end ChatRelay.Connection
