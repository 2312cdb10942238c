import ChatRelay.Proofs.Reading

/-!
# What a new connection makes of one message's line

`script` is what a new connection yields when these bytes come in. `Came` says how far the line of one
message has come: not yet, as a whole, or in a shape that the reader refuses. Where it came as a whole
and the stream has not ended, nothing of it stays behind, so that the script of what follows is that of
a new connection again.
-/

namespace ChatRelay.Connection

open Text Transport Wire

/-- The messages that a new connection yields when these come in, and the failure that ends them. -/
def script (arrivals : List Arrival) : List Message × Option Failure :=
  transcript { stream := { arrivals } }

/-- A connection that has read all that came in is as good as new. -/
theorem transcript_feed_eq_script {c : Connection} (hopen : c.isOpen = true) (hbuffer : c.buffer = [])
    (harrivals : c.stream.arrivals = []) (arrivals : List Arrival) :
    (c.feed arrivals).transcript = script arrivals :=
  Alike.transcript ⟨hbuffer, hopen, by rw [arrivals_feed, harrivals, List.nil_append]⟩

/-- A receive that has an answer has the same one when more comes in behind. -/
theorem receive_feed {c : Connection} {result : Except Failure Message}
    (h : c.receive.2 = some result) (more : List Arrival) :
    (c.feed more).receive = (c.receive.1.feed more, some result) := by
  fun_induction Connection.receive c with
  | case1 c next went hstep =>
      cases h
      exact receive_of_done (receiveStep_feed hstep (by simp) more)
  | case2 => cases h
  | case3 c next hstep ih =>
      rw [receive_of_more (receiveStep_feed hstep (by simp) more)]
      exact ih h

theorem script_nil : script [] = ([], none) :=
  transcript_of_none (receive_of_waiting rfl)

/-- A stream that brings neither bytes nor its end brings nothing. -/
theorem Plain.eq_nil {arrivals : List Arrival} (h : Plain arrivals)
    (hend : Arrival.finish ∉ arrivals) (hbytes : Stream.unread.go arrivals = []) :
    arrivals = [] := by
  cases arrivals with
  | nil => rfl
  | cons arrival rest =>
      cases arrival with
      | chunk bytes => exact absurd (List.append_eq_nil_iff.mp hbytes).1 h.1
      | fault cause => exact h.elim
      | finish => exact absurd List.mem_cons_self hend

/-- Where all has been read and the stream has not ended, a connection is as good as new. -/
theorem Readable.transcript_feed {c : Connection} (h : Readable c) (hend : ¬c.HasEnded)
    (hread : c.backlog = []) (arrivals : List Arrival) :
    (c.feed arrivals).transcript = script arrivals := by
  obtain ⟨hbuffer, hunread⟩ := List.append_eq_nil_iff.mp hread
  exact transcript_feed_eq_script h.isOpen hbuffer (h.plain.eq_nil hend hunread) arrivals

theorem readable_new {arrivals : List Arrival} (h : Plain arrivals) :
    Readable { stream := { arrivals } } :=
  ⟨rfl, h⟩

/-- How far the line of a message has come in a list of arrivals, if these bytes of it are still to
come. -/
inductive Came (m : Message) (arrivals : List Arrival) (rest : List UInt8) : Prop where
  /-- The end of the line is missing, and nothing is wrong with what is there. -/
  | partly (hrest : rest ≠ []) (hscript : script arrivals = ([], none))
  /-- The line is there, and is the message. -/
  | whole (hrest : rest = []) (hvalid : m.Valid)
      (hscript : ∀ more, ∃ later ending, script (arrivals ++ more) = (m :: later, ending) ∧
        (Arrival.finish ∉ arrivals → (later, ending) = script more))
  /-- The line is refused, whatever comes behind it. -/
  | refused (violation : Violation) (hlong : maxPayload < size m.payload)
      (hscript : ∀ more, script (arrivals ++ more) = ([], some (.protocol violation)))

/-- A message received is the first of the script, and what comes in behind follows it. -/
theorem script_append_of_ok {arrivals : List Arrival} {m : Message}
    (h : (receive { stream := { arrivals } }).2 = some (.ok m)) (more : List Arrival) :
    let after := (receive { stream := { arrivals } }).1.feed more
    script (arrivals ++ more) = (m :: after.transcript.1, after.transcript.2) := by
  show transcript (feed { stream := { arrivals } } more) = _
  exact transcript_of_ok (receive_feed h more)

/-- A failed receive ends the script, whatever comes in behind. -/
theorem script_append_of_error {arrivals : List Arrival} {failure : Failure}
    (h : (receive { stream := { arrivals } }).2 = some (.error failure)) (more : List Arrival) :
    script (arrivals ++ more) = ([], some failure) := by
  show transcript (feed { stream := { arrivals } } more) = _
  exact transcript_of_error (receive_feed h more)

/-- A line with its end is the message, or is refused. -/
theorem came_whole {m : Message} {arrivals : List Arrival} (hplain : Plain arrivals)
    (hfree : hasTerminator m.payload = false) (hbytes : Stream.unread.go arrivals = m.bytes) :
    Came m arrivals [] := by
  have hreadable := readable_new hplain
  have hbacklog : backlog { stream := { arrivals } } = m.bytes ++ [] := by
    rw [List.append_nil]
    exact hbytes
  by_cases hlong : maxPayload < size m.payload
  · -- too long by its payload, or already by its bytes
    by_cases hsize : m.bytes.length ≤ maxLine
    · have hjudge : judge m.bytes =
          .error (.protocol (.payloadTooLong (size m.payload) maxPayload)) := by
        rw [judge, Message.read_bytes hfree, if_neg (Nat.not_le_of_lt hlong)]
        rfl
      obtain ⟨hanswer, -⟩ := hreadable.receive_whole (Message.isLine_bytes hfree) hsize hbacklog
      exact .refused _ hlong (script_append_of_error (hanswer.trans (congrArg some hjudge)))
    · obtain ⟨body, hbody, hnone⟩ := Message.isLine_bytes hfree
      have hover : Overlong (backlog { stream := { arrivals } }) := by
        rw [hbacklog, List.append_nil, hbody]
        refine overlong_append hnone ?_ _
        rw [hbody, List.length_append, List.length_singleton] at hsize
        omega
      exact .refused _ hlong (script_append_of_error (hreadable.receive_overlong hover))
  · have hvalid : m.Valid := ⟨hfree, Nat.le_of_not_lt hlong⟩
    obtain ⟨hanswer, hleft⟩ := hreadable.receive_message hvalid hbacklog
    obtain ⟨hkept, hend, -⟩ := hreadable.receive
    refine .whole rfl hvalid fun more ↦ ⟨_, _, script_append_of_ok hanswer more, fun hopen ↦ ?_⟩
    exact hkept.transcript_feed (mt hend.mp hopen) hleft more

/-- The line of a message has come in one of these ways. -/
theorem came {m : Message} {arrivals : List Arrival} {rest : List UInt8} (hplain : Plain arrivals)
    (hfree : hasTerminator m.payload = false)
    (hbytes : Stream.unread.go arrivals ++ rest = m.bytes)
    (hend : Arrival.finish ∈ arrivals → rest = []) : Came m arrivals rest := by
  by_cases hrest : rest = []
  · subst hrest
    rw [List.append_nil] at hbytes
    exact came_whole hplain hfree hbytes
  · -- the LF is among the bytes to come
    have hreadable := readable_new hplain
    have hfree' := Message.lineFeed_not_mem_of_append hfree hbytes hrest
    by_cases hsize : (Stream.unread.go arrivals).length < maxLine
    · refine .partly hrest ?_
      have hnothing : NoVerdict (feed { stream := { arrivals } } []).backlog := by
        rw [feed_nil]
        exact ⟨hfree', hsize⟩
      rcases (hreadable.receive_rest hnothing).1 with ⟨-, hended⟩ | ⟨hwaits, -⟩
      · exact absurd (hend hended) hrest
      · exact transcript_of_none (Prod.ext rfl hwaits)
    · have hover : Overlong (backlog { stream := { arrivals } }) := by
        have hlong := overlong_append hfree' (Nat.le_of_not_lt hsize) []
        rwa [List.append_nil] at hlong
      have hlong : maxPayload < size m.payload := by
        refine Nat.lt_of_not_le fun hshort ↦ ?_
        have hle := Message.length_bytes_le ⟨hfree, hshort⟩
        have hlength := congrArg List.length hbytes
        have hpos := List.length_pos_iff.mpr hrest
        rw [List.length_append] at hlength
        omega
      exact .refused _ hlong (script_append_of_error (hreadable.receive_overlong hover))

end ChatRelay.Connection
