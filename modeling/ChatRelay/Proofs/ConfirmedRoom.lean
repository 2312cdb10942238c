import ChatRelay.Proofs.Calls

/-!
# What a publisher's calls change

A call can end before anything is sent, at a write, at the reply, or not at all, and replies of calls
that were given up may still come in. `Publisher.Course` lists the ways in which a call can go and
`Publisher.course` says that there is no other; `Publisher.calls_accounted` follows a publisher
through any calls over a stream with which anything may happen between them: its room is what the
last confirmed join or leave made it, and every call takes its outcome from one receive at most.
-/

namespace ChatRelay

open Text Transport Wire

namespace Connection

/-! ## What a receive takes -/

/-- There is one line at most: an LF stands at the end, if anywhere. -/
def AtMostOneLine (bytes : List UInt8) : Prop :=
  lineFeed ∉ bytes.dropLast

/-- The peer has sent nothing that this answer could be about: there is none yet, or the stream
failed or ended. -/
def IsSilence : Option (Except Failure Message) → Prop
  | none => True
  | some (.error failure) => IsLoss failure
  | some (.ok _) => False

theorem atMostOneLine_of_not_mem {bytes : List UInt8} (h : lineFeed ∉ bytes) :
    AtMostOneLine bytes :=
  fun hmem ↦ h ((List.dropLast_sublist _).subset hmem)

theorem IsLine.atMostOneLine {line : List UInt8} (h : IsLine line) : AtMostOneLine line := by
  obtain ⟨body, rfl, hfree⟩ := h
  show lineFeed ∉ (body ++ [lineFeed]).dropLast
  rw [List.dropLast_concat]
  exact hfree

/-- A verdict on a line is about something that the peer sent. -/
theorem not_isSilence_judge (line : List UInt8) : ¬IsSilence (some (judge line)) := by
  unfold judge
  cases Line.read line with
  | error violation => exact id
  | ok m => exact id

/-- What a step of a receive takes of the backlog is one line at most, and nothing unless the step
ends the receive with an answer about it. -/
theorem exists_taken_receiveStep (c : Connection) :
    ∃ taken, c.backlog = taken ++ c.receiveStep.1.backlog ∧ AtMostOneLine taken ∧
      (taken = [] ∨ ∃ result, c.receiveStep.2 = .done result ∧ ¬IsSilence (some result)) := by
  have hnothing : AtMostOneLine [] := atMostOneLine_of_not_mem List.not_mem_nil
  cases hcut : Line.cut? c.buffer with
  | some split =>
      obtain ⟨line, rest⟩ := split
      have hline : IsLine line := Line.cut?_line hcut
      refine ⟨line, ?_, hline.atMostOneLine, .inr ?_⟩
      · rw [receiveStep_of_line hcut]
        simp [backlog, record, Line.cut?_append hcut]
      · rw [receiveStep_of_line hcut]
        refine ⟨_, rfl, ?_⟩
        by_cases hlong : line.length > maxLine
        · simp only [hlong, if_true]
          exact id
        · simp only [hlong, if_false]
          exact not_isSilence_judge line
  | none =>
      have hfree := Line.cut?_eq_none_iff.mp hcut
      by_cases hlong : c.buffer.length ≥ maxLine
      · -- the whole buffer is thrown away, and there is no LF in it
        refine ⟨c.buffer, ?_, atMostOneLine_of_not_mem hfree, .inr ⟨tooLong, ?_, id⟩⟩
        · simp [receiveStep, hcut, hlong, record, backlog]
        · simp [receiveStep, hcut, hlong, tooLong]
      · refine ⟨[], ?_, hnothing, .inl rfl⟩
        have hkept := c.stream.read_unread
        simp only [receiveStep, hcut, hlong, if_false, List.nil_append]
        split
        · rfl
        · rcases hread : c.stream.read with ⟨s, _ | ⟨_ | ⟨byte, bytes⟩⟩ | cause⟩ <;>
            rw [hread] at hkept <;> simp_all [backlog, record]

/-- What a receive takes of the backlog is one line at most, and nothing if it answers nothing about
the peer's bytes. -/
theorem exists_taken_receive (c : Connection) :
    ∃ taken, c.backlog = taken ++ c.receive.1.backlog ∧ AtMostOneLine taken ∧
      (IsSilence c.receive.2 → taken = []) := by
  fun_induction Connection.receive c with
  | case1 c next result hstep =>
      obtain ⟨taken, hsplit, hone, hsilent⟩ := c.exists_taken_receiveStep
      rw [hstep] at hsplit hsilent
      refine ⟨taken, hsplit, hone, fun hsilence ↦ hsilent.resolve_right ?_⟩
      rintro ⟨other, hsame, hsaid⟩
      cases hsame
      exact hsaid hsilence
  | case2 c next hstep =>
      obtain ⟨taken, hsplit, hone, hsilent⟩ := c.exists_taken_receiveStep
      rw [hstep] at hsplit hsilent
      refine ⟨taken, hsplit, hone, fun _ ↦ hsilent.resolve_right ?_⟩
      rintro ⟨other, hsame, -⟩
      cases hsame
  | case3 c next hstep ih =>
      rw [← backlog_of_more hstep]
      exact ih

/-- A send leaves alone what is to be received. -/
theorem backlog_sendBytes (c : Connection) (bytes : List UInt8) :
    (c.sendBytes bytes).1.buffer = c.buffer ∧
      (c.sendBytes bytes).1.stream.arrivals = c.stream.arrivals := by
  obtain ⟨-, hbuffer, written, writes, barrier, hstream⟩ := c.sendBytes_frame bytes
  rw [hstream]
  exact ⟨hbuffer, rfl⟩

end Connection

namespace Client

open Connection

namespace Publisher

/-! ## One call -/

/-- The calls that a publisher answers without giving itself up. -/
inductive Call where
  | join (room : String)
  | leave
  | sendAll (text : String)
  | execute (command : Command)
  deriving DecidableEq, Repr

/-- What the call asks for. -/
def Call.command : Call → Command
  | .join room => .join room
  | .leave => .leave
  | .sendAll text => .sendAll text
  | .execute command => command

/-- Forget whether a command has ended the session. -/
def forget : Answer Bool → Answer Unit
  | none => none
  | some (.error failure) => some (.error failure)
  | some (.ok _) => some (.ok ())

/-- The publisher after this call, and the answer. -/
def make (p : Publisher) : Call → Publisher × Answer Unit
  | .join room => p.join room
  | .leave => p.leave
  | .sendAll text => p.sendAll text
  | .execute command => ((p.execute command).1, forget (p.execute command).2)

theorem forget_goesOn (answer : Publisher × Answer Unit) :
    ((execute.goesOn answer).1, forget (execute.goesOn answer).2) = answer := by
  rcases answer with ⟨p, _ | failure | ⟨⟩⟩ <;> rfl

/-- A call is the command that it asks for. -/
theorem make_eq (p : Publisher) (call : Call) :
    p.make call = ((p.execute call.command).1, forget (p.execute call.command).2) := by
  cases call with
  | join room => exact (forget_goesOn (p.join room)).symm
  | leave => exact (forget_goesOn p.leave).symm
  | sendAll text => exact (forget_goesOn (p.sendAll text)).symm
  | execute command => rfl

/-- The ways in which a call can go, with what each leaves and answers. -/
inductive Course (p : Publisher) (call : Call) : Publisher × Answer Unit → Prop where
  /-- The request is refused before anything is sent. -/
  | refused (violation : Violation) (h : call.command.refusal? = some violation) :
      Course p call (p, some (.error (.protocol violation)))
  /-- The request is not written, or the peer has not taken it when the call is given up. -/
  | unsent (c : Connection) (answer : Answer Unit) (h : call.command.refusal? = none)
      (hsend : p.connection.send call.command.message = (c, answer))
      (hunsent : answer ≠ some (.ok ())) :
      Course p call ({ p with connection := c }, answer)
  /-- The request is written, and what one receive brings, if anything, is no confirmation. -/
  | unconfirmed (sent c : Connection) (reply : Option (Except Failure Message))
      (h : call.command.refusal? = none)
      (hsend : p.connection.send call.command.message = (sent, some (.ok ())))
      (hreceive : sent.receive = (c, reply)) (hanswer : answerOf reply ≠ some (.ok ())) :
      Course p call ({ p with connection := c }, answerOf reply)
  /-- The request is written, and one receive brings its confirmation. -/
  | confirmed (sent c : Connection) (reply : Message) (h : call.command.refusal? = none)
      (hsend : p.connection.send call.command.message = (sent, some (.ok ())))
      (hreceive : sent.receive = (c, some (.ok reply))) (hok : verdict reply = .ok ()) :
      Course p call
        ({ p with
          connection := if call.command = .quit then c.close else c
          room := call.command.roomAfter p.room }, some (.ok ()))

/-- There is no other way. -/
theorem course (p : Publisher) (call : Call) : Course p call (p.make call) := by
  rw [make_eq]
  cases hrefusal : call.command.refusal? with
  | some violation =>
      rw [p.execute_of_refusal hrefusal]
      exact .refused violation hrefusal
  | none =>
      rw [p.execute_eq hrefusal]
      unfold request
      rcases hsend : p.connection.send call.command.message with ⟨sent, _ | failure | ⟨⟩⟩
      · exact .unsent sent none hrefusal hsend nofun
      · exact .unsent sent (some (.error failure)) hrefusal hsend nofun
      · dsimp only
        rcases hreceive : sent.receive with ⟨c, _ | failure | reply⟩
        · exact .unconfirmed sent c none hrefusal hsend hreceive nofun
        · exact .unconfirmed sent c (some (.error failure)) hrefusal hsend hreceive nofun
        · dsimp only
          rcases hverdict : verdict reply with failure | ⟨⟩
          · have hanswer : answerOf (some (.ok reply)) = some (.error failure) := by
              rw [answerOf, hverdict]
            have hcourse := Course.unconfirmed sent c _ hrefusal hsend hreceive
            rw [hanswer] at hcourse
            exact hcourse nofun
          · exact .confirmed sent c reply hrefusal hsend hreceive hverdict

variable {p : Publisher} {call : Call} {made : Publisher × Answer Unit}

/-- A call that fails, or that is given up before its reply, leaves the room as it was. -/
theorem Course.room_kept (h : Course p call made) (hanswer : made.2 ≠ some (.ok ())) :
    made.1.room = p.room := by
  cases h with
  | refused | unsent | unconfirmed => rfl
  | confirmed => exact absurd rfl hanswer

/-- A confirmed call makes of the room what it asked for. -/
theorem Course.room_of_ok (h : Course p call made) (hanswer : made.2 = some (.ok ())) :
    made.1.room = call.command.roomAfter p.room := by
  cases h with
  | refused => cases hanswer
  | unsent c answer _ _ hother => exact absurd hanswer hother
  | unconfirmed sent c reply _ _ _ hother => exact absurd hanswer hother
  | confirmed => rfl

/-- A request that is refused locally changes nothing at all. -/
theorem Course.eq_of_refusal (h : Course p call made) {violation : Violation}
    (hrefusal : call.command.refusal? = some violation) :
    made = (p, some (.error (.protocol violation))) := by
  cases h with
  | refused other hother =>
      cases hrefusal.symm.trans hother
      rfl
  | unsent _ _ hnone | unconfirmed _ _ _ hnone | confirmed _ _ _ hnone =>
      cases hrefusal.symm.trans hnone

/-- A request that is not written fails or waits with the stream, and nothing that came in is
consumed. -/
theorem Course.of_unsent (h : Course p call made) (hnone : call.command.refusal? = none)
    (hunsent : (p.connection.send call.command.message).2 ≠ some (.ok ())) :
    made.2 = (p.connection.send call.command.message).2 ∧
      made.1.connection.buffer = p.connection.buffer ∧
      made.1.connection.stream.arrivals = p.connection.stream.arrivals := by
  have hkept := p.connection.backlog_sendBytes call.command.message.bytes
  cases h with
  | refused violation hrefusal => cases hnone.symm.trans hrefusal
  | unsent c answer _ hsend =>
      rw [← Connection.send, hsend] at hkept
      rw [hsend]
      exact ⟨rfl, hkept⟩
  | unconfirmed _ _ _ _ hsend | confirmed _ _ _ _ hsend =>
      rw [hsend] at hunsent
      exact absurd rfl hunsent

/-- The answer to a request that was written is that of one receive. Its connection is what the call
leaves, closed after a quit that succeeded. -/
theorem Course.of_sent (h : Course p call made) (hnone : call.command.refusal? = none)
    (hsent : (p.connection.send call.command.message).2 = some (.ok ())) :
    let received := (p.connection.send call.command.message).1.receive
    made.2 = answerOf received.2 ∧
      (made.1.connection = received.1 ∨
        call.command = .quit ∧ made.2 = some (.ok ()) ∧
          made.1.connection = received.1.close) := by
  cases h with
  | refused violation hrefusal => cases hnone.symm.trans hrefusal
  | unsent c answer _ hsend hother =>
      rw [hsend] at hsent
      exact absurd hsent hother
  | unconfirmed sent c reply _ hsend hreceive =>
      rw [hsend]
      dsimp only
      rw [hreceive]
      exact ⟨rfl, .inl rfl⟩
  | confirmed sent c reply _ hsend hreceive hok =>
      rw [hsend]
      dsimp only
      rw [hreceive]
      refine ⟨(congrArg some hok).symm, ?_⟩
      by_cases hquit : call.command = .quit
      · exact .inr ⟨hquit, rfl, if_pos hquit⟩
      · exact .inl (if_neg hquit)

/-! ## Calls in a row -/

/-- What a call changes and what it takes from the peer, at each of its ends. -/
structure Accounted (p : Publisher) (call : Call) : Prop where
  /-- Without a confirmation the room is kept. -/
  room_kept : (p.make call).2 ≠ some (.ok ()) → (p.make call).1.room = p.room
  /-- A request that is refused locally changes nothing at all. -/
  refused : ∀ violation, call.command.refusal? = some violation →
    p.make call = (p, some (.error (.protocol violation)))
  /-- A request that cannot be written, or that the peer has not taken, consumes nothing that came
  in. -/
  unsent : call.command.refusal? = none →
    (p.connection.send call.command.message).2 ≠ some (.ok ()) →
      (p.make call).2 = (p.connection.send call.command.message).2 ∧
        (p.make call).1.connection.buffer = p.connection.buffer ∧
        (p.make call).1.connection.stream.arrivals = p.connection.stream.arrivals
  /-- The answer to every other request is that of one receive, which takes one line at most, and
  nothing where the reply is missing. -/
  sent : call.command.refusal? = none → (p.connection.send call.command.message).2 = some (.ok ()) →
    let received := (p.connection.send call.command.message).1.receive
    (p.make call).2 = answerOf received.2 ∧
      ((p.make call).1.connection = received.1 ∨
        call.command = .quit ∧ (p.make call).2 = some (.ok ()) ∧
          (p.make call).1.connection = received.1.close) ∧
      ∃ taken, p.connection.backlog = taken ++ received.1.backlog ∧ AtMostOneLine taken ∧
        (IsSilence received.2 → taken = [])

theorem accounted (p : Publisher) (call : Call) : Accounted p call where
  room_kept := (p.course call).room_kept
  refused _ := (p.course call).eq_of_refusal
  unsent := (p.course call).of_unsent
  sent hnone hsent := by
    obtain ⟨hanswer, hconnection⟩ := (p.course call).of_sent hnone hsent
    obtain ⟨hbuffer, harrivals⟩ := p.connection.backlog_sendBytes call.command.message.bytes
    obtain ⟨taken, hsplit, hone, hsilent⟩ :=
      (p.connection.send call.command.message).1.exists_taken_receive
    refine ⟨hanswer, hconnection, taken, ?_, hone, hsilent⟩
    rw [← hsplit]
    show _ = (p.connection.sendBytes call.command.message.bytes).1.backlog
    rw [backlog, backlog, hbuffer, Stream.unread, Stream.unread, harrivals]

/-- Something happens to the stream, whatever it is, and then a call is made. -/
structure Turn where
  change : Stream → Stream
  call : Call

/-- The publisher once this has happened to its stream. -/
def meet (p : Publisher) (change : Stream → Stream) : Publisher :=
  { p with connection := { p.connection with stream := change p.connection.stream } }

/-- The publisher after these turns, and the calls with their answers. -/
def play (p : Publisher) : List Turn → Publisher × List (Call × Answer Unit)
  | [] => (p, [])
  | turn :: rest =>
      let (next, answer) := (p.meet turn.change).make turn.call
      let (last, history) := next.play rest
      (last, (turn.call, answer) :: history)

/-- What a call with this answer makes of the room. -/
def says? : Call × Answer Unit → Option (Option String)
  | (call, some (.ok ())) =>
      match call.command with
      | .join room => some (some room)
      | .leave => some none
      | .sendAll _ | .quit => none
  | _ => none

/-- The room of the last confirmed join, and none if a leave was confirmed since. -/
def confirmedRoom (history : List (Call × Answer Unit)) : Option String :=
  (history.filterMap says?).getLast?.join

/-- A call makes of the room what its answer says, and otherwise leaves it. -/
theorem Course.room_eq (h : Course p call made) :
    made.1.room = (says? (call, made.2)).getD p.room := by
  rcases hanswer : made.2 with _ | failure | ⟨⟩
  · exact h.room_kept (by simp [hanswer])
  · exact h.room_kept (by simp [hanswer])
  · rw [h.room_of_ok hanswer, says?]
    cases call.command <;> rfl

/-- The room is what was said of it last. -/
theorem room_play (p : Publisher) (turns : List Turn) :
    (p.play turns).1.room = ((p.play turns).2.filterMap says?).getLast?.getD p.room := by
  induction turns generalizing p with
  | nil => rfl
  | cons turn rest ih =>
      have hroom := ((p.meet turn.change).course turn.call).room_eq
      simp only [play]
      rw [ih, hroom]
      cases hsays : says? (turn.call, ((p.meet turn.change).make turn.call).2) with
      | none =>
          rw [List.filterMap_cons_none hsays]
          rfl
      | some room =>
          rw [List.filterMap_cons_some hsays, List.getLast?_cons]
          rfl

/-- Whatever a publisher calls, and whatever the peer and the stream do between the calls: its room
is that of the last confirmed join, or none once a leave was confirmed; and a further call keeps the
room unless it is confirmed, changes nothing if it is refused locally, consumes nothing if it cannot
be written, and otherwise takes its answer from one receive, and so from one line at most. -/
theorem calls_accounted (c : Connection) (username : String) (turns : List Turn) :
    let start : Publisher := { connection := c, username }
    (start.play turns).1.room = confirmedRoom (start.play turns).2 ∧
      ∀ change call, Accounted ((start.play turns).1.meet change) call := by
  intro start
  refine ⟨?_, fun change call ↦ accounted _ call⟩
  rw [room_play, confirmedRoom]
  cases ((start.play turns).2.filterMap says?).getLast? <;> rfl

/-- A leave that is given up before its reply, and a join that gets this reply, a rejection, leave the
room as it was. -/
example :
    let replies (messages : List Message) (s : Stream) : Stream :=
      { s with arrivals := s.arrivals ++ [.chunk (messages.flatMap Message.bytes)] }
    let start : Publisher := { connection := { stream := {} }, username := "ann" }
    (start.play [⟨replies [.ok], .join "den"⟩, ⟨id, .leave⟩,
      ⟨replies [.err "no"], .execute (.join "nook")⟩]).1.room = some "den" := by
  decide +kernel

end Publisher

end Client

end ChatRelay
