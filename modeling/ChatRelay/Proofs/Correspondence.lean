import ChatRelay.Proofs.Framing
import ChatRelay.Proofs.RoundTrip

/-!
# Messages sent one by one are received one by one

One side sends valid messages of any kind; the other side receives again and again, while the bytes
arrive in pieces of any size. `Expects.receive` says what one receive takes from the bytes, and
`Expects.answers` what the receives of a whole run answer. The main statement is
`receives_what_was_sent`: the answers are the messages in order, and then that the stream has ended.
-/

namespace ChatRelay.Connection

open Text Transport Wire

/-- The connection is to read the lines of these messages, once the rest has arrived, and behind them
nothing that makes a line. -/
structure Expects (c : Connection) (more : List Arrival) (messages : List Message)
    (tail : List UInt8) : Prop where
  readable : Readable c
  plain : Plain (c.stream.arrivals ++ more)
  valid : ∀ m ∈ messages, m.Valid
  bytes : (c.feed more).backlog = messages.flatMap Message.bytes ++ tail
  noVerdict : NoVerdict tail

/-- The answer of a receive whose turn it is to read this message, or to find the end of the stream.
-/
def inTurn : Option Message → Except Failure Message
  | some m => .ok m
  | none => .error .closed

/-- The answers to the calls of these turns, without the calls that were abandoned. -/
def answers (c : Connection) (turns : List Turn) : List (Except Failure Message) :=
  (c.play turns).2.filterMap id

variable {c : Connection} {more : List Arrival} {messages left : List Message} {tail : List UInt8}

theorem answers_call (c : Connection) (rest : List Turn) :
    c.answers (.call :: rest) = c.receive.2.toList ++ c.receive.1.answers rest := by
  cases hanswer : c.receive.2 <;> simp [answers, hanswer]

/-- What arrives is no longer ahead. -/
theorem Expects.arrive {arrival : Arrival} (h : Expects c (arrival :: more) messages tail) :
    Expects (c.feed [arrival]) more messages tail := by
  have hplain : Plain (c.stream.arrivals ++ [arrival] ++ more) := by
    rw [List.append_assoc]
    exact h.plain
  refine ⟨⟨h.readable.isOpen, (plain_append_iff.mp hplain).1⟩, hplain, h.valid, ?_, h.noVerdict⟩
  rw [feed_feed]
  exact h.bytes

/-- A receive leaves the messages that it has not taken. -/
theorem Expects.of_receive (h : Expects c more messages tail) (hleft : ∀ m ∈ left, m.Valid)
    (hbytes : (c.receive.1.feed more).backlog = left.flatMap Message.bytes ++ tail) :
    Expects c.receive.1 more left tail := by
  obtain ⟨hreadable, hend, -⟩ := h.readable.receive
  have hmore := (plain_append_iff.mp h.plain).2
  exact ⟨hreadable, plain_append_iff.mpr ⟨hreadable.plain, hmore.imp hend.mpr id⟩, hleft, hbytes,
    h.noVerdict⟩

/-- A receive takes the next message, or finds the end behind the last one, or it waits and takes
nothing. It waits only as long as the stream has not ended. -/
theorem Expects.receive (h : Expects c more messages tail) :
    (c.receive.1.HasEnded ↔ c.HasEnded) ∧
    ((c.receive.2 = some (inTurn messages.head?) ∧ Expects c.receive.1 more messages.tail tail) ∨
      (c.receive.2 = none ∧ ¬c.HasEnded ∧ Expects c.receive.1 more messages tail)) := by
  refine ⟨h.readable.receive.2.1, ?_⟩
  cases messages with
  | nil =>
      have hrest : NoVerdict (c.feed more).backlog := by
        rw [h.bytes]
        exact h.noVerdict
      obtain ⟨hanswer, hkept⟩ := h.readable.receive_rest hrest
      have hafter : Expects c.receive.1 more [] tail := h.of_receive h.valid (hkept.trans h.bytes)
      rcases hanswer with ⟨hclosed, -⟩ | ⟨hwaits, hopen⟩
      · exact .inl ⟨hclosed, hafter⟩
      · exact .inr ⟨hwaits, hopen, hafter⟩
  | cons m rest =>
      obtain ⟨hm, hrest⟩ := List.forall_mem_cons.mp h.valid
      have hbytes : (c.feed more).backlog =
          m.bytes ++ (rest.flatMap Message.bytes ++ tail) := by
        rw [h.bytes, List.flatMap_cons, List.append_assoc]
      rcases h.readable.receive_line (Message.isLine_bytes hm.1) (Message.length_bytes_le hm)
        hbytes with ⟨htaken, hleft⟩ | ⟨hwaits, hopen, hkept⟩
      · rw [Message.judge_bytes hm] at htaken
        exact .inl ⟨htaken, h.of_receive hrest hleft⟩
      · exact .inr ⟨hwaits, hopen, h.of_receive h.valid (hkept.trans (hbytes.symm.trans h.bytes))⟩

/-- Whatever the turns, the answers so far are the messages in order, and past the last of them that
the stream has ended. -/
theorem Expects.answers {turns : List Turn} (h : Expects c (arrivals turns) messages tail) (i : Nat)
    (hi : i < (c.answers turns).length) : (c.answers turns)[i]? = some (inTurn messages[i]?) := by
  induction turns generalizing c messages i with
  | nil => simp [Connection.answers, play] at hi
  | cons turn rest ih =>
      cases turn with
      | arrive arrival => exact ih (c := c.feed [arrival]) h.arrive i hi
      | call =>
          rw [answers_call] at hi ⊢
          rcases h.receive.2 with ⟨hanswer, hafter⟩ | ⟨hwaits, -, hafter⟩
          · rw [hanswer] at hi ⊢
            cases i with
            | zero => simp [List.head?_eq_getElem?]
            | succ i =>
                have hlater := ih hafter i (by simpa using hi)
                simpa using hlater
          · rw [hwaits] at hi ⊢
            exact ih hafter i hi

/-- Once the end of the stream has arrived, no receive waits. -/
theorem Expects.length_answers {turns : List Turn} (h : Expects c (arrivals turns) messages tail)
    (hend : Arrival.finish ∈ c.stream.arrivals ++ arrivals turns) (n : Nat) :
    n ≤ (c.answers (turns ++ List.replicate n .call)).length := by
  -- by induction on the turns, and then on the calls behind them
  induction turns generalizing c messages with
  | nil =>
      rw [arrivals, List.append_nil] at hend
      induction n generalizing c messages with
      | zero => exact Nat.zero_le _
      | succ n ih =>
          obtain ⟨hended, htaken⟩ := h.receive
          rw [List.nil_append, List.replicate_succ, answers_call, List.length_append]
          rcases htaken with ⟨hanswer, hafter⟩ | ⟨-, hopen, -⟩
          · have hlater := ih hafter (hended.mpr hend)
            rw [List.nil_append] at hlater
            rw [hanswer, Option.toList_some, List.length_singleton]
            omega
          · exact absurd hend hopen
  | cons turn rest ih =>
      cases turn with
      | arrive arrival =>
          refine ih (c := c.feed [arrival]) h.arrive ?_
          rw [arrivals_feed, List.append_assoc]
          exact hend
      | call =>
          obtain ⟨hended, htaken⟩ := h.receive
          have hend' : Arrival.finish ∈ c.receive.1.stream.arrivals ++ arrivals rest :=
            List.mem_append.mpr ((List.mem_append.mp hend).imp hended.mpr id)
          rw [List.cons_append, answers_call, List.length_append]
          rcases htaken with ⟨-, hafter⟩ | ⟨-, -, hafter⟩
          · have hlater := ih hafter hend'
            omega
          · have hlater := ih hafter hend'
            omega

/-- A connection that has read all before them, at which the bytes of valid messages arrive in pieces
that are not empty, and then the end of the stream. -/
theorem expects_chunks (hopen : c.isOpen = true) (hbuffer : c.buffer = [])
    (hunread : c.stream.arrivals = []) (hvalid : ∀ m ∈ messages, m.Valid) (hrest : NoVerdict tail)
    {chunks : List (List UInt8)} (hchunks : ∀ chunk ∈ chunks, chunk ≠ [])
    (hbytes : chunks.flatten = messages.flatMap Message.bytes ++ tail) :
    Expects c (chunks.map .chunk ++ [.finish]) messages tail := by
  refine ⟨⟨hopen, by rw [hunread]; trivial⟩, ?_, hvalid, ?_, hrest⟩
  · rw [hunread]
    exact plain_chunks hchunks trivial
  · rw [← hbytes, backlog]
    simp [feed, hbuffer, hunread, Stream.unread, unread_chunks, Stream.unread.go]

/-- Whoever gets these bytes, in pieces that are not empty, and then the end of the stream, receives
these messages in order and past the last of them that the stream has ended. However the receives fall
between the arrivals, none has another answer, and none of those made after the end has arrived waits.
-/
def ReadAs (bytes : List UInt8) (messages : List Message) : Prop :=
  ∀ {reader : Connection} {turns : List Turn} {chunks : List (List UInt8)},
    reader.isOpen = true → reader.buffer = [] → reader.stream.arrivals = [] →
    (∀ chunk ∈ chunks, chunk ≠ []) → arrivals turns = chunks.map .chunk ++ [.finish] →
    chunks.flatten = bytes →
    ∀ n, let answers := reader.answers (turns ++ List.replicate n .call)
      n ≤ answers.length ∧ ∀ i, i < answers.length → answers[i]? = some (inTurn messages[i]?)

/-- The lines of valid messages are read as these messages, whatever first part of a line is left at
the end. -/
theorem readAs_lines (hvalid : ∀ m ∈ messages, m.Valid) (hrest : NoVerdict tail) :
    ReadAs (messages.flatMap Message.bytes ++ tail) messages := by
  intro reader turns chunks hopen hbuffer hunread hchunks harrivals hbytes n
  have hexpects : Expects reader (arrivals turns) messages tail := by
    rw [harrivals]
    exact expects_chunks hopen hbuffer hunread hvalid hrest hchunks hbytes
  have hend : Arrival.finish ∈ reader.stream.arrivals ++ arrivals turns := by
    rw [harrivals]
    simp
  refine ⟨hexpects.length_answers hend n, fun i hi ↦ ?_⟩
  have hcalls : Expects reader (arrivals (turns ++ List.replicate n .call)) messages tail := by
    rw [arrivals_append_calls]
    exact hexpects
  exact hcalls.answers i hi

/-- What is sent message by message is received message by message. On a stream whose writes accept
any number of bytes but none, all sends of valid messages succeed and leave exactly their lines
behind. When these bytes, in pieces that are not empty, and then the end of the stream arrive at a
connection that has read all before them, the answers to its receives are the messages in order, and
past the last of them that the stream has ended. However the receives fall between the arrivals, none
has another answer, and none of those made after the end has arrived waits. -/
theorem receives_what_was_sent {writer : Connection} {messages : List Message}
    (hvalid : ∀ m ∈ messages, m.validate = .ok ()) (hwriter : writer.isOpen = true)
    (hhealthy : Healthy writer.stream)
    {reader : Connection} (hreader : reader.isOpen = true) (hbuffer : reader.buffer = [])
    (hunread : reader.stream.arrivals = [])
    {turns : List Turn} {chunks : List (List UInt8)} (hchunks : ∀ chunk ∈ chunks, chunk ≠ [])
    (harrivals : arrivals turns = chunks.map .chunk ++ [.finish])
    (hbytes : (writer.sendEach messages).1.stream.written =
      writer.stream.written ++ chunks.flatten) :
    (writer.sendEach messages).2 = some (.ok ()) ∧
      (writer.sendEach messages).1.stream.written =
        writer.stream.written ++ messages.flatMap (fun m ↦ Text.utf8 m.encode) ∧
      ∀ n, let answers := reader.answers (turns ++ List.replicate n .call)
        n ≤ answers.length ∧ ∀ i, i < answers.length →
          answers[i]? = some (inTurn messages[i]?) := by
  obtain ⟨hok, hsent⟩ := hhealthy.sendEach hwriter messages
  have hlines : chunks.flatten = messages.flatMap Message.bytes ++ [] := by
    rw [List.append_nil]
    rw [hsent.written] at hbytes
    exact (List.append_cancel_left hbytes).symm
  have hread : ReadAs (messages.flatMap Message.bytes ++ []) messages :=
    readAs_lines (fun m hm ↦ Message.validate_eq_ok_iff.mp (hvalid m hm)) ⟨List.not_mem_nil, by decide⟩
  exact ⟨hok, hsent.written, hread hreader hbuffer hunread hchunks harrivals hlines⟩

/-- The longest symbol with the longest payload, made of characters of three bytes, an empty payload and
one of colons, written five bytes at a time and read in two pieces around a receive that waits. -/
theorem receives_what_was_sent_at_the_limit :
    let writer : Connection := { stream := { pace := fun _ ↦ some 5 } }
    let messages : List Message :=
      [⟨.delivery, String.ofList (List.replicate 85 '€')⟩, .ok, ⟨.sendall, "::"⟩]
    let bytes := messages.flatMap Message.bytes
    let turns : List Turn :=
      [.arrive (.chunk (bytes.take 100)), .call, .arrive (.chunk (bytes.drop 100)), .arrive .finish]
    let reader : Connection := { stream := {} }
    (writer.sendEach messages).1.stream.written = bytes ∧
    ∀ n, let answers := reader.answers (turns ++ List.replicate n .call)
      n ≤ answers.length ∧ ∀ i, i < answers.length →
        answers[i]? = some (inTurn messages[i]?) := by
  intro writer messages bytes turns reader
  have hsize : size (String.ofList (List.replicate 85 '€')) = 255 := by
    have hone : (String.utf8EncodeChar '€').length = 3 := by decide
    rw [← length_utf8, utf8_eq_flatMap, String.toList_ofList, List.length_flatMap, List.map_replicate,
      hone, List.sum_replicate_nat]
  have hplain : hasTerminator (String.ofList (List.replicate 85 '€')) = false := by
    rw [hasTerminator, String.toList_ofList, List.any_replicate]
    decide
  have hfits : ∀ m ∈ messages, m.Valid :=
    List.forall_mem_cons.mpr ⟨⟨hplain, Nat.le_of_eq hsize⟩, by decide⟩
  have hlength : 100 < bytes.length := by
    have hfirst := Message.length_bytes ⟨.delivery, String.ofList (List.replicate 85 '€')⟩
    simp only [hsize] at hfirst
    simp only [bytes, messages, List.flatMap_cons, List.length_append]
    omega
  have hvalid : ∀ m ∈ messages, m.validate = .ok () :=
    fun m hm ↦ Message.validate_eq_ok_iff.mpr (hfits m hm)
  have hhealthy : Healthy writer.stream := ⟨rfl, rfl, fun n ↦ by simp [writer]⟩
  have hlines : (writer.sendEach messages).1.stream.written = bytes := by
    rw [(hhealthy.sendEach rfl messages).2.written, List.nil_append]
  have hwritten : (writer.sendEach messages).1.stream.written =
      writer.stream.written ++ [bytes.take 100, bytes.drop 100].flatten := by
    rw [hlines, List.nil_append, List.flatten_cons, List.flatten_singleton, List.take_append_drop]
  have hchunks : ∀ chunk ∈ [bytes.take 100, bytes.drop 100], chunk ≠ [] := by
    simp only [List.mem_cons, List.not_mem_nil, or_false, forall_eq_or_imp, forall_eq, ne_eq,
      ← List.length_eq_zero_iff, List.length_take, List.length_drop]
    omega
  have hall := @receives_what_was_sent writer messages hvalid rfl hhealthy reader rfl rfl rfl turns
    [bytes.take 100, bytes.drop 100] hchunks rfl hwritten
  exact ⟨hlines, hall.2.2⟩

end ChatRelay.Connection
