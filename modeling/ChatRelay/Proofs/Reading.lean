import ChatRelay.Proofs.Codec
import ChatRelay.Proofs.Transcript

/-!
# Receives on a stream that does not fail

Where a stream only brings bytes and its end, the bytes alone settle what a receive answers:
`Readable.receive_line` where a line is at their head, `Readable.receive_rest` where none is left, and
`Readable.receive_overlong` where the first is too long. `Healthy.send` is the other side: a send
leaves exactly the line of its message behind.
-/

namespace ChatRelay.Connection

open Transport Wire

/-- What arrives is bytes, never an empty piece of them, and perhaps the end of the stream. -/
def Plain : List Arrival → Prop
  | [] => True
  | .chunk bytes :: rest => bytes ≠ [] ∧ Plain rest
  | .fault _ :: _ => False
  | .finish :: _ => True

/-- The connection is open, and its stream does not fail. -/
structure Readable (c : Connection) : Prop where
  isOpen : c.isOpen = true
  plain : Plain c.stream.arrivals

/-- The end of the stream has come. -/
def HasEnded (c : Connection) : Prop :=
  Arrival.finish ∈ c.stream.arrivals

theorem not_hasEnded_of_nil {c : Connection} (h : c.stream.arrivals = []) : ¬c.HasEnded := by
  intro hended
  rw [HasEnded, h] at hended
  cases hended

/-- What comes behind counts only as long as the stream has not ended. -/
theorem plain_append_iff {first second : List Arrival} :
    Plain (first ++ second) ↔ Plain first ∧ (Arrival.finish ∈ first ∨ Plain second) := by
  induction first with
  | nil => simp [Plain]
  | cons arrival rest ih =>
      cases arrival with
      | chunk bytes => simp [Plain, ih, and_assoc]
      | fault cause => simp [Plain]
      | finish => simp [Plain]

/-- Pieces that are not empty, and then what else is plain. -/
theorem plain_chunks {chunks : List (List UInt8)} (h : ∀ chunk ∈ chunks, chunk ≠ [])
    {rest : List Arrival} (hrest : Plain rest) : Plain (chunks.map .chunk ++ rest) := by
  induction chunks with
  | nil => exact hrest
  | cons chunk chunks ih =>
      rw [List.forall_mem_cons] at h
      exact ⟨h.1, ih h.2⟩

/-- What the pieces bring is what they were cut from. -/
theorem unread_chunks (chunks : List (List UInt8)) (rest : List Arrival) :
    Stream.unread.go (chunks.map .chunk ++ rest) = chunks.flatten ++ Stream.unread.go rest := by
  induction chunks with
  | nil => rfl
  | cons chunk chunks ih => simp [Stream.unread.go, ih]

/-- Any bytes can come in, and none come in for none. -/
theorem exists_arrivals (bytes : List UInt8) :
    ∃ arrivals, Plain arrivals ∧ Stream.unread.go arrivals = bytes ∧ (bytes = [] → arrivals = []) := by
  cases bytes with
  | nil => exact ⟨[], trivial, rfl, fun _ ↦ rfl⟩
  | cons byte rest =>
      exact ⟨[.chunk (byte :: rest)], ⟨List.cons_ne_nil _ _, trivial⟩, by simp [Stream.unread.go],
        nofun⟩

/-- Behind the end of a stream nothing is read. -/
theorem unread_append_of_finish {arrivals : List Arrival} (h : Arrival.finish ∈ arrivals)
    (more : List Arrival) : Stream.unread.go (arrivals ++ more) = Stream.unread.go arrivals := by
  induction arrivals with
  | nil => cases h
  | cons arrival rest ih =>
      have hrest (hne : arrival ≠ .finish) : Arrival.finish ∈ rest :=
        (List.mem_cons.mp h).resolve_left fun heq ↦ hne heq.symm
      cases arrival with
      | chunk bytes => exact congrArg (bytes ++ ·) (ih (hrest (by simp)))
      | fault cause => exact ih (hrest (by simp))
      | finish => rfl

/-- Before the end of a stream everything is read. -/
theorem unread_append {first : List Arrival} (h : Arrival.finish ∉ first) (second : List Arrival) :
    Stream.unread.go (first ++ second) = Stream.unread.go first ++ Stream.unread.go second := by
  induction first with
  | nil => rfl
  | cons arrival rest ih =>
      rw [List.mem_cons, not_or] at h
      cases arrival with
      | chunk bytes => simp [Stream.unread.go, ih h.2]
      | fault cause => simp [Stream.unread.go, ih h.2]
      | finish => exact absurd rfl h.1

theorem HasEnded.backlog_feed {c : Connection} (h : c.HasEnded) (more : List Arrival) :
    (c.feed more).backlog = c.backlog :=
  congrArg (c.buffer ++ ·) (unread_append_of_finish h more)

/-- Where all has been read and no byte comes in, nothing is left to be read. -/
theorem backlog_feed_of_read {c : Connection} (h : c.backlog = []) {more : List Arrival}
    (hmore : Stream.unread.go more = []) : (c.feed more).backlog = [] := by
  by_cases hended : c.HasEnded
  · exact (hended.backlog_feed more).trans h
  · obtain ⟨hbuffer, hunread⟩ := List.append_eq_nil_iff.mp h
    show c.buffer ++ Stream.unread.go (c.stream.arrivals ++ more) = []
    rw [unread_append hended, hmore, List.append_nil, hbuffer]
    exact hunread

/-- A read of a stream that does not fail waits, comes to the end or brings bytes. -/
theorem Plain.read {s : Stream} (h : Plain s.arrivals) :
    (s.read = (s, .pending) ∧ s.arrivals = []) ∨
    (s.read = (s, .bytes []) ∧ Arrival.finish ∈ s.arrivals ∧ s.unread = []) ∨
    ∃ byte bytes, s.read.2 = .bytes (byte :: bytes) ∧ Plain s.read.1.arrivals ∧
      (Arrival.finish ∈ s.read.1.arrivals ↔ Arrival.finish ∈ s.arrivals) := by
  cases ha : s.arrivals with
  | nil => exact .inl ⟨by simp [Stream.read, ha], rfl⟩
  | cons arrival rest =>
      rw [ha] at h
      cases arrival with
      | fault cause => exact h.elim
      | finish =>
          refine .inr (.inl ⟨by simp [Stream.read, ha], List.mem_cons_self, ?_⟩)
          rw [Stream.unread, ha, Stream.unread.go]
      | chunk bytes =>
          refine .inr (.inr ?_)
          obtain ⟨byte, bytes, rfl⟩ := List.exists_cons_of_ne_nil h.1
          by_cases hsize : (byte :: bytes).length ≤ maxRead
          · refine ⟨byte, bytes, ?_, ?_, ?_⟩
            all_goals simp only [Stream.read, ha, hsize, if_true]
            · exact h.2
            · simp
          · have hdrop : (byte :: bytes).drop maxRead ≠ [] := by
              intro hnil
              exact hsize (List.drop_eq_nil_iff.mp hnil)
            refine ⟨byte, bytes.take (maxRead - 1), ?_, ?_, ?_⟩
            all_goals simp only [Stream.read, ha, hsize, if_false]
            · rfl
            · exact ⟨hdrop, h.2⟩
            · simp

/-- A judged line is no loss. -/
theorem not_isLoss_of_judge {line : List UInt8} {failure : Failure}
    (h : judge line = .error failure) : ¬IsLoss failure := by
  unfold judge at h
  cases hread : Line.read line with
  | ok m =>
      rw [hread] at h
      cases h
  | error violation =>
      rw [hread] at h
      cases h
      exact id

/-- A step of a receive keeps a connection readable. It loses the stream only at its end, when no line
is left. -/
theorem Readable.receiveStep {c : Connection} (h : Readable c) :
    Readable c.receiveStep.1 ∧ (c.receiveStep.1.HasEnded ↔ c.HasEnded) ∧
      ∀ failure, c.receiveStep.2 = .done (.error failure) → IsLoss failure →
        failure = .closed ∧ c.HasEnded ∧ NoVerdict c.backlog := by
  obtain ⟨hopen, hplain⟩ := h
  cases hcut : Line.cut? c.buffer with
  | some split =>
      rw [receiveStep_of_line hcut]
      refine ⟨⟨hopen, hplain⟩, Iff.rfl, fun failure hfailed hloss ↦ ?_⟩
      dsimp only at hfailed
      split at hfailed
      · cases hfailed
        exact hloss.elim
      · exact absurd hloss (not_isLoss_of_judge (Receiving.done.inj hfailed))
  | none =>
      have hfree := Line.cut?_eq_none_iff.mp hcut
      unfold Connection.receiveStep
      simp only [hcut]
      by_cases hlong : c.buffer.length ≥ maxLine
      · simp only [hlong, if_true]
        refine ⟨⟨hopen, hplain⟩, Iff.rfl, fun failure hfailed hloss ↦ ?_⟩
        cases hfailed
        exact hloss.elim
      · simp only [hlong, if_false, hopen, Bool.not_true, Bool.false_eq_true]
        rcases hplain.read with ⟨hread, -⟩ | ⟨hread, hend, hnone⟩ | ⟨byte, bytes, hread, hleft, hend⟩
        · rw [hread]
          exact ⟨⟨hopen, hplain⟩, Iff.rfl, fun failure hfailed ↦ by cases hfailed⟩
        · rw [hread]
          refine ⟨⟨rfl, hplain⟩, Iff.rfl, fun failure hfailed _ ↦ ?_⟩
          cases hfailed
          refine ⟨rfl, hend, ?_⟩
          rw [backlog, hnone, List.append_nil]
          exact ⟨hfree, Nat.lt_of_not_le hlong⟩
        · rcases hs : c.stream.read with ⟨s, reading⟩
          rw [hs] at hread hleft hend
          dsimp only at hread
          subst hread
          exact ⟨⟨rfl, hleft⟩, hend, fun failure hfailed ↦ by cases hfailed⟩

/-- A receive keeps a connection readable. It loses the stream only at its end, when no line is
left. -/
theorem Readable.receive {c : Connection} (h : Readable c) :
    Readable c.receive.1 ∧ (c.receive.1.HasEnded ↔ c.HasEnded) ∧
      ∀ failure, c.receive.2 = some (.error failure) → IsLoss failure →
        failure = .closed ∧ c.HasEnded ∧ NoVerdict c.backlog := by
  fun_induction Connection.receive c with
  | case1 c after result hstep =>
      obtain ⟨hreadable, hend, hloss⟩ := h.receiveStep
      rw [hstep] at hreadable hend hloss
      refine ⟨hreadable, hend, fun failure hfailed ↦ hloss failure ?_⟩
      rw [Option.some.inj hfailed]
  | case2 c after hstep =>
      obtain ⟨hreadable, hend, -⟩ := h.receiveStep
      rw [hstep] at hreadable hend
      exact ⟨hreadable, hend, fun failure hfailed ↦ by cases hfailed⟩
  | case3 c after hstep ih =>
      obtain ⟨hreadable, hend, -⟩ := h.receiveStep
      rw [hstep] at hreadable hend
      obtain ⟨hlast, hend', hloss⟩ := ih hreadable
      rw [← backlog_of_more hstep, ← hend]
      exact ⟨hlast, hend', hloss⟩

/-! ## The bytes settle the answer -/

/-- Bytes have one line at their head at most. -/
theorem IsLine.head_unique {line other rest left : List UInt8} (hline : IsLine line)
    (hother : IsLine other) (h : line ++ rest = other ++ left) : line = other ∧ rest = left := by
  obtain ⟨body, rfl, hbody⟩ := hline
  obtain ⟨body', rfl, hbody'⟩ := hother
  have hcut := Line.cut?_line_append rest hbody
  have hcut' := Line.cut?_line_append left hbody'
  simp only [List.append_assoc, List.singleton_append] at h
  rw [h, hcut'] at hcut
  obtain ⟨hsame, hleft⟩ := Prod.mk.inj (Option.some.inj hcut)
  exact ⟨hsame.symm, hleft.symm⟩

theorem IsLine.lineFeed_mem {line : List UInt8} (h : IsLine line) : lineFeed ∈ line := by
  obtain ⟨body, rfl, -⟩ := h
  simp

/-- A line within the limit shows an LF in time. -/
theorem IsLine.not_overlong {line : List UInt8} (h : IsLine line) (hsize : line.length ≤ maxLine)
    (rest : List UInt8) : ¬Overlong (line ++ rest) := by
  intro hlong
  apply hlong.2
  rw [List.take_append, List.take_of_length_le hsize]
  exact List.mem_append_left _ h.lineFeed_mem

/-- Where a line is at the head of the bytes, a receive judges it and takes nothing else, or waits for
the rest of it. -/
theorem Readable.receive_line {c : Connection} (h : Readable c) {more : List Arrival}
    {line rest : List UInt8} (hline : IsLine line) (hsize : line.length ≤ maxLine)
    (hbytes : (c.feed more).backlog = line ++ rest) :
    (c.receive.2 = some (judge line) ∧ (c.receive.1.feed more).backlog = rest) ∨
    (c.receive.2 = none ∧ ¬c.HasEnded ∧ (c.receive.1.feed more).backlog = line ++ rest) := by
  have houtcome := receive_outcome h.isOpen (Prod.ext rfl rfl : c.receive = (_, _))
  obtain ⟨-, hend, hloss⟩ := h.receive
  generalize hanswer : c.receive.2 = answer at houtcome hloss
  cases houtcome with
  | judged other hother hfits htaken =>
      have hhead := htaken more
      rw [hbytes] at hhead
      obtain ⟨rfl, rfl⟩ := hline.head_unique hother hhead
      exact .inl ⟨rfl, rfl⟩
  | overlong hlong =>
      have hover := hlong more
      rw [hbytes] at hover
      exact absurd hover (hline.not_overlong hsize rest)
  | lost failure hlost hkept hspent =>
      obtain ⟨-, hended, hnone⟩ := hloss failure rfl hlost
      rw [← hended.backlog_feed more, hbytes] at hnone
      exact absurd (List.mem_append_left _ hline.lineFeed_mem) hnone.1
  | waiting hkept hempty hnone =>
      exact .inr ⟨rfl, mt hend.mpr (not_hasEnded_of_nil hempty), (hkept more).trans hbytes⟩

/-- Where no line can come any more, a receive finds the end of the stream or waits for it. -/
theorem Readable.receive_rest {c : Connection} (h : Readable c) {more : List Arrival}
    (hrest : NoVerdict (c.feed more).backlog) :
    ((c.receive.2 = some (.error .closed) ∧ c.HasEnded) ∨ (c.receive.2 = none ∧ ¬c.HasEnded)) ∧
      (c.receive.1.feed more).backlog = (c.feed more).backlog := by
  have houtcome := receive_outcome h.isOpen (Prod.ext rfl rfl : c.receive = (_, _))
  obtain ⟨-, hend, hloss⟩ := h.receive
  generalize hanswer : c.receive.2 = answer at houtcome hloss
  cases houtcome with
  | judged other hother hfits htaken =>
      refine absurd ?_ hrest.1
      rw [htaken more]
      exact List.mem_append_left _ hother.lineFeed_mem
  | overlong hlong => exact absurd hrest.2 (Nat.not_lt_of_le (hlong more).1)
  | lost failure hlost hkept hspent =>
      obtain ⟨rfl, hended, -⟩ := hloss failure rfl hlost
      exact ⟨.inl ⟨rfl, hended⟩, hkept more⟩
  | waiting hkept hempty hnone =>
      exact ⟨.inr ⟨rfl, mt hend.mpr (not_hasEnded_of_nil hempty)⟩, hkept more⟩

/-- Where a whole line has come in, a receive judges it and takes nothing else. -/
theorem Readable.receive_whole {c : Connection} (h : Readable c) {line rest : List UInt8}
    (hline : IsLine line) (hsize : line.length ≤ maxLine) (hbytes : c.backlog = line ++ rest) :
    c.receive.2 = some (judge line) ∧ c.receive.1.backlog = rest := by
  have houtcome := receive_outcome h.isOpen (Prod.ext rfl rfl : c.receive = (_, _))
  rw [← c.feed_nil] at hbytes
  rcases h.receive_line hline hsize hbytes with ⟨hjudged, hleft⟩ | ⟨hwaits, -, hleft⟩
  · rw [feed_nil] at hleft
    exact ⟨hjudged, hleft⟩
  · rw [hwaits] at houtcome
    cases houtcome with
    | waiting hkept hempty hnone =>
        rw [feed_nil] at hleft
        rw [hleft] at hnone
        exact absurd (List.mem_append_left _ hline.lineFeed_mem) hnone.1

/-- Where the line of a valid message has come in, a receive returns the message. -/
theorem Readable.receive_message {c : Connection} (h : Readable c) {m : Message} (hvalid : m.Valid)
    {rest : List UInt8} (hbytes : c.backlog = m.bytes ++ rest) :
    c.receive.2 = some (.ok m) ∧ c.receive.1.backlog = rest := by
  obtain ⟨hanswer, hleft⟩ := h.receive_whole (Message.isLine_bytes hvalid.1)
    (Message.length_bytes_le hvalid) hbytes
  rw [Message.judge_bytes hvalid] at hanswer
  exact ⟨hanswer, hleft⟩

/-- Where the longest line has gone by without an LF, a receive says so. -/
theorem Readable.receive_overlong {c : Connection} (h : Readable c) (hlong : Overlong c.backlog) :
    c.receive.2 = some tooLong := by
  have houtcome := receive_outcome h.isOpen (Prod.ext rfl rfl : c.receive = (_, _))
  obtain ⟨-, -, hloss⟩ := h.receive
  have hshort (hnone : NoVerdict c.backlog) : False := Nat.not_lt_of_le hlong.1 hnone.2
  generalize hanswer : c.receive.2 = answer at houtcome hloss
  cases houtcome with
  | judged line hline hsize htaken =>
      have hhead := htaken []
      rw [feed_nil, feed_nil] at hhead
      rw [hhead] at hlong
      exact absurd hlong (hline.not_overlong hsize _)
  | overlong => rfl
  | lost failure hlost => exact (hshort (hloss failure rfl hlost).2.2).elim
  | waiting hkept hempty hnone =>
      have hsame := hkept []
      rw [feed_nil, feed_nil] at hsame
      exact (hshort (hsame ▸ hnone)).elim

/-! ## Sends on a stream that does not fail -/

/-- What a send leaves behind: the bytes, and a connection that can send again. -/
structure Sent (c after : Connection) (bytes : List UInt8) : Prop where
  written : after.stream.written = c.stream.written ++ bytes
  isOpen : after.isOpen = c.isOpen
  buffer : after.buffer = c.buffer
  arrivals : after.stream.arrivals = c.stream.arrivals
  healthy : Healthy after.stream

/-- On a healthy stream the bytes are written as they are. -/
theorem Healthy.sendBytes {c : Connection} (h : Healthy c.stream) (hopen : c.isOpen = true)
    (bytes : List UInt8) :
    (c.sendBytes bytes).2 = some (.ok ()) ∧ Sent c (c.sendBytes bytes).1 bytes := by
  fun_induction Connection.sendBytes c bytes with
  | case1 c bytes after result hstep =>
      have hframe := c.sendStep_frame bytes
      obtain ⟨written, writes, barrier, hstream⟩ := c.stream_sendStep bytes
      have hhealthy := h.sendStep bytes
      have hfine := h.sendStep_ne_error hopen bytes
      rw [hstep] at hframe hstream hhealthy hfine
      cases result with
      | error failure => exact absurd rfl (hfine failure)
      | ok value =>
          obtain ⟨rfl, hsame⟩ := written_of_ok hstep
          refine ⟨rfl, ?_, hframe.1, hframe.2, ?_, hhealthy⟩
          · rw [hsame, List.append_nil]
          · rw [hsame]
  | case2 c bytes after hstep => exact absurd (by rw [hstep]) (h.responsive.sendStep_ne_waiting bytes)
  | case3 c bytes after left hstep ih =>
      have hframe := c.sendStep_frame bytes
      obtain ⟨written, writes, barrier, hstream⟩ := c.stream_sendStep bytes
      have hhealthy := h.sendStep bytes
      rw [hstep] at hframe hstream hhealthy
      obtain ⟨taken, -, rfl, hwritten⟩ := written_of_more hstep
      obtain ⟨hok, hsent⟩ := ih hhealthy (hframe.1.trans hopen)
      refine ⟨hok, ?_, hsent.isOpen.trans hframe.1, hsent.buffer.trans hframe.2, ?_, hsent.healthy⟩
      · rw [hsent.written, hwritten, List.append_assoc]
      · rw [hsent.arrivals, hstream]

/-- On a healthy stream a send leaves the line of its message behind. -/
theorem Healthy.send {c : Connection} (h : Healthy c.stream) (hopen : c.isOpen = true)
    (m : Message) : (c.send m).2 = some (.ok ()) ∧ Sent c (c.send m).1 m.bytes :=
  h.sendBytes hopen m.bytes

end ChatRelay.Connection
