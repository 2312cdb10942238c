import ChatRelay.Client.Publisher
import ChatRelay.Proofs.Phases
import ChatRelay.Proofs.Reading

/-!
# A publisher's calls

What a call writes does not depend on what comes in, and what it answers is settled by the bytes that
have come in: `request_of_reply`, `request_of_end` and `request_of_nothing` say how, and
`Publisher.execute_eq` that a command which is not refused is one request and what its success
changes. `Command.parse_sendable` says which requests an input line can lead to.
-/

namespace ChatRelay

open Connection Text Transport Wire

namespace Connection

/-- A receive leaves the writing side of the stream alone. -/
theorem stream_receive (c : Connection) :
    ∃ arrivals, c.receive.1.stream = { c.stream with arrivals } := by
  fun_induction Connection.receive c with
  | case1 c next result hstep => simpa [hstep] using stream_receiveStep c
  | case2 c next hstep => simpa [hstep] using stream_receiveStep c
  | case3 c next hstep ih =>
      obtain ⟨arrivals, hfirst⟩ : ∃ arrivals, next.stream = { c.stream with arrivals } := by
        simpa [hstep] using stream_receiveStep c
      obtain ⟨left, hrest⟩ := ih
      exact ⟨left, by rw [hrest, hfirst]⟩

/-- A send changes nothing but the writing side of the stream, and how the call ended. -/
theorem sendBytes_frame (c : Connection) (bytes : List UInt8) :
    (c.sendBytes bytes).1.isOpen = c.isOpen ∧ (c.sendBytes bytes).1.buffer = c.buffer ∧
      ∃ written writes barrier,
        (c.sendBytes bytes).1.stream = { c.stream with written, writes, barrier } := by
  fun_induction Connection.sendBytes c bytes with
  | case1 c bytes after result hstep =>
      have hframe := c.sendStep_frame bytes
      have hstream := c.stream_sendStep bytes
      rw [hstep] at hframe hstream
      exact ⟨hframe.1, hframe.2, hstream⟩
  | case2 c bytes after hstep =>
      have hframe := c.sendStep_frame bytes
      have hstream := c.stream_sendStep bytes
      rw [hstep] at hframe hstream
      exact ⟨hframe.1, hframe.2, hstream⟩
  | case3 c bytes after left hstep ih =>
      have hframe := c.sendStep_frame bytes
      obtain ⟨written, writes, barrier, hfirst⟩ := c.stream_sendStep bytes
      rw [hstep] at hframe hfirst
      obtain ⟨hopen, hbuffer, written', writes', barrier', hrest⟩ := ih
      dsimp only at hframe hfirst
      refine ⟨hopen.trans hframe.1, hbuffer.trans hframe.2, written', writes', barrier', ?_⟩
      rw [hrest, hfirst]

/-- A send does not shut the stream down. -/
theorem shutdowns_sendBytes (c : Connection) (bytes : List UInt8) :
    (c.sendBytes bytes).1.stream.shutdowns = c.stream.shutdowns := by
  obtain ⟨-, -, written, writes, barrier, hstream⟩ := c.sendBytes_frame bytes
  rw [hstream]

theorem sendBytes_of_done {c after : Connection} {bytes : List UInt8} {result : Except Failure Unit}
    (h : c.sendStep bytes = (after, .done result)) : c.sendBytes bytes = (after, some result) := by
  rw [sendBytes]
  split
  all_goals
    rename_i hstep
    rw [h] at hstep
    cases hstep
  rfl

theorem sendBytes_of_waiting {c after : Connection} {bytes : List UInt8}
    (h : c.sendStep bytes = (after, .waiting)) : c.sendBytes bytes = (after, none) := by
  rw [sendBytes]
  split
  all_goals
    rename_i hstep
    rw [h] at hstep
    cases hstep
  rfl

theorem sendBytes_of_more {c after : Connection} {bytes left : List UInt8}
    (h : c.sendStep bytes = (after, .more left)) : c.sendBytes bytes = after.sendBytes left := by
  rw [sendBytes]
  split
  all_goals
    rename_i hstep
    rw [h] at hstep
    cases hstep
  rfl

/-- A closed connection sends nothing. -/
theorem send_of_closed {c : Connection} (h : c.isOpen = false) (m : Message) :
    c.send m = (c.record (.error .closed : Except Failure Unit), some (.error .closed)) :=
  sendBytes_of_done (by simp [sendStep, h])

/-- Nothing has gone wrong on a connection: writes on its stream succeed, reads bring bytes and
perhaps the end. -/
structure Sound (c : Connection) : Prop where
  healthy : Healthy c.stream
  plain : Plain c.stream.arrivals

/-- What comes in makes no difference to writes. -/
theorem Healthy.feed {c : Connection} (h : Healthy c.stream) (more : List Arrival) :
    Healthy (c.feed more).stream :=
  ⟨h.barrier, h.flushHalt, h.pace⟩

theorem Sound.feed {c : Connection} (h : c.Sound) {more : List Arrival} (hmore : Plain more) :
    (c.feed more).Sound :=
  ⟨h.healthy.feed more, plain_append_iff.mpr ⟨h.plain, .inr hmore⟩⟩

theorem Sound.close {c : Connection} (h : c.Sound) : c.close.Sound := by
  refine ⟨h.healthy.close, ?_⟩
  unfold Connection.close
  split <;> exact h.plain

theorem isOpen_close (c : Connection) : c.close.isOpen = false := by
  unfold close
  split
  · rfl
  · exact Bool.eq_false_iff.mpr ‹_›

/-- Closing a connection on which nothing is left to be read leaves nothing either. -/
theorem backlog_close {c : Connection} (h : c.backlog = []) : c.close.backlog = [] := by
  obtain ⟨-, hunread⟩ := List.append_eq_nil_iff.mp h
  unfold Connection.close
  split <;> exact hunread

/-- Closing a connection does not end the stream of what comes in. -/
theorem hasEnded_close (c : Connection) : c.close.HasEnded ↔ c.HasEnded := by
  unfold Connection.close
  split <;> exact Iff.rfl

end Connection

namespace Client

/-! ## Requests -/

/-- What a request answers to what it receives. -/
def answerOf : Option (Except Failure Message) → Answer Unit
  | none => none
  | some (.error failure) => some (.error failure)
  | some (.ok reply) => some (verdict reply)

variable {c : Connection} {m : Message}

/-- Where writes succeed, a request is a receive behind the line that it sends. -/
theorem request_eq (h : Healthy c.stream) (hopen : c.isOpen = true) (m : Message) :
    request c m = ((c.send m).1.receive.1, answerOf (c.send m).1.receive.2) := by
  obtain ⟨hok, -⟩ := h.send hopen m
  rcases hsend : c.send m with ⟨after, result⟩
  rw [hsend] at hok
  dsimp only at hok
  subst hok
  unfold request
  simp only [hsend]
  rcases after.receive with ⟨last, _ | failure | reply⟩ <;> rfl

/-- Whatever comes in, a request writes its line and does not shut the stream down. -/
theorem written_request (h : Healthy c.stream) (hopen : c.isOpen = true) (m : Message) :
    (request c m).1.stream.written = c.stream.written ++ m.bytes ∧
      (request c m).1.stream.shutdowns = c.stream.shutdowns := by
  obtain ⟨-, hsent⟩ := h.send hopen m
  obtain ⟨arrivals, hstream⟩ := (c.send m).1.stream_receive
  rw [request_eq h hopen, hstream]
  exact ⟨hsent.written, shutdowns_sendBytes c m.bytes⟩

/-- A request leaves writes succeeding and the connection open. -/
theorem healthy_request (h : Healthy c.stream) (hopen : c.isOpen = true) (m : Message) :
    Healthy (request c m).1.stream ∧ (request c m).1.isOpen = true := by
  obtain ⟨-, hsent⟩ := h.send hopen m
  obtain ⟨arrivals, hstream⟩ := (c.send m).1.stream_receive
  rw [request_eq h hopen, isOpen_receive, hstream]
  exact ⟨⟨hsent.healthy.barrier, hsent.healthy.flushHalt, hsent.healthy.pace⟩,
    hsent.isOpen.trans hopen⟩

/-- The line is sent and changes nothing for the receive. -/
theorem sent_alike (h : c.Sound) (hopen : c.isOpen = true) (m : Message) :
    Readable (c.send m).1 ∧ (c.send m).1.backlog = c.backlog ∧
      ((c.send m).1.HasEnded ↔ c.HasEnded) := by
  obtain ⟨-, hsent⟩ := h.healthy.send hopen m
  refine ⟨⟨hsent.isOpen.trans hopen, hsent.arrivals ▸ h.plain⟩, ?_, ?_⟩
  · rw [backlog, backlog, hsent.buffer, Stream.unread, Stream.unread, hsent.arrivals]
  · rw [HasEnded, HasEnded, hsent.arrivals]

/-- A request leaves a sound connection sound. -/
theorem requested (h : c.Sound) (hopen : c.isOpen = true) (m : Message) :
    (request c m).1.Sound ∧ (request c m).1.isOpen = true ∧
      ((request c m).1.HasEnded ↔ c.HasEnded) := by
  obtain ⟨hreadable, -, hended⟩ := sent_alike h hopen m
  obtain ⟨hkept, hended', -⟩ := hreadable.receive
  obtain ⟨hhealthy, hopen'⟩ := healthy_request h.healthy hopen m
  refine ⟨⟨hhealthy, ?_⟩, hopen', ?_⟩
  · rw [request_eq h.healthy hopen]
    exact hkept.plain
  · rw [request_eq h.healthy hopen]
    exact hended'.trans hended

/-- The reply is there, and nothing behind it. -/
theorem request_of_reply (h : c.Sound) (hopen : c.isOpen = true) {reply : Message}
    (hvalid : reply.Valid) (hbytes : c.backlog = reply.bytes) :
    (request c m).2 = some (verdict reply) ∧ (request c m).1.backlog = [] := by
  obtain ⟨hreadable, hbacklog, -⟩ := sent_alike h hopen m
  have hline : (c.send m).1.backlog = reply.bytes ++ [] := by
    rw [hbacklog, hbytes, List.append_nil]
  obtain ⟨hanswer, hleft⟩ := hreadable.receive_message hvalid hline
  rw [request_eq h.healthy hopen, hanswer]
  exact ⟨rfl, hleft⟩

/-- Where the stream ends in place of a reply, the answer is that it did. -/
theorem request_of_end (h : c.Sound) (hopen : c.isOpen = true) (hended : c.HasEnded)
    (hnone : NoVerdict c.backlog) :
    (request c m).2 = some (.error .closed) ∧ (request c m).1.backlog = c.backlog := by
  obtain ⟨hreadable, hbacklog, hend⟩ := sent_alike h hopen m
  rw [← hbacklog, ← Connection.feed_nil (c.send m).1] at hnone
  obtain ⟨hanswer, hleft⟩ := hreadable.receive_rest hnone
  rw [Connection.feed_nil, Connection.feed_nil, hbacklog] at hleft
  rw [request_eq h.healthy hopen]
  refine ⟨?_, hleft⟩
  rcases hanswer with ⟨hclosed, -⟩ | ⟨-, hopen'⟩
  · rw [hclosed]
    rfl
  · exact absurd (hend.mpr hended) hopen'

/-- Where neither a line nor the end has come, a request waits. -/
theorem request_of_nothing (h : c.Sound) (hopen : c.isOpen = true) (hended : ¬c.HasEnded)
    (hnone : NoVerdict c.backlog) :
    (request c m).2 = none ∧ (request c m).1.backlog = c.backlog := by
  obtain ⟨hreadable, hbacklog, hend⟩ := sent_alike h hopen m
  rw [← hbacklog, ← Connection.feed_nil (c.send m).1] at hnone
  obtain ⟨hanswer, hleft⟩ := hreadable.receive_rest hnone
  rw [Connection.feed_nil, Connection.feed_nil, hbacklog] at hleft
  rw [request_eq h.healthy hopen]
  refine ⟨?_, hleft⟩
  rcases hanswer with ⟨-, hended'⟩ | ⟨hwaits, -⟩
  · exact absurd (hend.mp hended') hended
  · rw [hwaits]
    rfl

/-- A first part of a line that lacks its end is no verdict. -/
theorem noVerdict_of_append {bytes rest : List UInt8} {reply : Message} (hvalid : reply.Valid)
    (hbytes : bytes ++ rest = reply.bytes) (hrest : rest ≠ []) : NoVerdict bytes := by
  have hlength := congrArg List.length hbytes
  have hle := Message.length_bytes_le hvalid
  have hpos := List.length_pos_iff.mpr hrest
  rw [List.length_append] at hlength
  exact ⟨Message.lineFeed_not_mem_of_append hvalid.1 hbytes hrest, by omega⟩

/-- A closed connection answers at once, and sends nothing. -/
theorem request_of_closed (h : c.isOpen = false) (m : Message) :
    request c m = (c.record (.error .closed : Except Failure Unit), some (.error .closed)) := by
  unfold request
  rw [send_of_closed h]

/-! ## Logins and commands -/

/-- What a login is: a request, whose connection a publisher gets if it succeeds. -/
theorem Publisher.login_eq (c : Connection) (username : String) :
    Publisher.login c username =
      ((request c ⟨.slogin, username⟩).1,
        (request c ⟨.slogin, username⟩).2.map (Except.map fun _ ↦
          { connection := (request c ⟨.slogin, username⟩).1, username })) := by
  unfold Publisher.login
  rcases request c ⟨.slogin, username⟩ with ⟨c', _ | failure | value⟩ <;> rfl

namespace Command

/-- The command is refused before anything is sent. -/
def isHeldBack : Command → Bool
  | .sendAll text => hasTerminator text
  | _ => false

/-- Why the command is refused before anything is sent, if it is. Only a text is looked at. -/
def refusal? (command : Command) : Option Violation :=
  match command with
  | .sendAll _ =>
      match command.message.validate with
      | .error violation => some violation
      | .ok () => none
  | _ => none

/-- The command ends the session: it asks for that, or the worker cannot accept its line. -/
def Ends (command : Command) : Prop :=
  command = .quit ∨ maxPayload < size command.message.payload

instance (command : Command) : Decidable command.Ends :=
  inferInstanceAs (Decidable (_ ∨ _))

/-- What every command keeps that an input line stands for: the name of a room holds no terminator, a
text is short enough for a line. -/
def Sendable : Command → Prop
  | .join room => hasTerminator room = false
  | .sendAll text => size text ≤ maxPayload
  | .leave | .quit => True

theorem tag_message_eq_quit {command : Command} (h : command.message.tag = .quit) :
    command = .quit := by
  cases command with
  | quit => rfl
  | _ => cases h

/-- The room of a publisher whose command succeeded. -/
def roomAfter : Command → Option String → Option String
  | .join room, _ => some room
  | .leave, _ => none
  | .sendAll _, room | .quit, room => room

theorem sendable_of_ofText {text : String} {command : Command} (h : ofText text = .ok command) :
    command.Sendable := by
  unfold ofText at h
  split at h
  · cases h
  · cases h
    exact Nat.le_of_not_lt ‹_›

/-- A terminator is a blank, so no word holds one. -/
theorem isBlank_of_isTerminator {ch : Char} (h : isTerminator ch = true) : isBlank ch = true := by
  simp only [isTerminator, Bool.or_eq_true, beq_iff_eq] at h
  rcases h with rfl | rfl <;> decide

theorem sendable_of_ofWord {word : String} {rest : List Char} {command : Command}
    (h : ofWord word rest = .ok command) : command.Sendable := by
  unfold ofWord at h
  split at h
  · split at h
    · cases h
    · rename_i room left hword
      cases h
      show hasTerminator (String.ofList room) = false
      rw [hasTerminator, String.toList_ofList, List.any_eq_false]
      intro ch hmem hterminator
      have hplain := firstWord?_not_blank hword ch hmem
      rw [isBlank_of_isTerminator hterminator] at hplain
      cases hplain
  · split at h
    · cases h
      trivial
    · split at h
      · cases h
        trivial
      · cases h

/-- Whatever the input line is, the command that it stands for is sendable. -/
theorem parse_sendable {line : String} {command : Command} (h : parse line = .ok command) :
    command.Sendable := by
  unfold parse at h
  dsimp only at h
  split at h
  · cases h
  · split at h
    · exact sendable_of_ofText h
    · split at h
      · exact sendable_of_ofWord h
      · exact sendable_of_ofText h

/-- The request of a command that is not held back holds no terminator. -/
theorem Sendable.unterminated {command : Command} (h : command.Sendable)
    (hsends : command.isHeldBack = false) : hasTerminator command.message.payload = false := by
  cases command with
  | join room => exact h
  | sendAll text => exact hsends
  | leave | quit => decide

/-- A sendable command that is not held back is not refused for its length either. -/
theorem Sendable.refusal?_eq_none {command : Command} (h : command.Sendable)
    (hsends : command.isHeldBack = false) : command.refusal? = none := by
  cases command with
  | sendAll text =>
      have hvalid : (⟨.sendall, text⟩ : Message).validate = .ok () :=
        Message.validate_eq_ok_iff.mpr ⟨hsends, h⟩
      simp [refusal?, Command.message, hvalid]
  | _ => rfl

/-- A command that is held back ends nothing. -/
theorem Sendable.not_ends {command : Command} (h : command.Sendable)
    (hheld : command.isHeldBack = true) : ¬command.Ends := by
  cases command with
  | sendAll text => exact not_or.mpr ⟨nofun, Nat.not_lt_of_le h⟩
  | _ => cases hheld

end Command

namespace Publisher

variable {p : Publisher} {command : Command}

/-- A command that is refused before anything is sent changes nothing. -/
theorem execute_of_refusal (p : Publisher) {violation : Violation}
    (h : command.refusal? = some violation) :
    p.execute command = (p, some (.error (.protocol violation))) := by
  cases command with
  | sendAll text =>
      simp only [Command.refusal?, Command.message] at h
      cases hvalid : (⟨.sendall, text⟩ : Message).validate with
      | error other =>
          rw [hvalid] at h
          cases h
          simp [execute, sendAll, hvalid, execute.goesOn]
      | ok value =>
          rw [hvalid] at h
          cases h
  | _ => cases h

/-- A command that is held back changes nothing. -/
theorem execute_of_heldBack (p : Publisher) (h : command.isHeldBack = true) :
    p.execute command = (p, some (.error (.protocol .embeddedTerminator))) := by
  cases command with
  | sendAll text =>
      have hterminator : hasTerminator text = true := h
      exact p.execute_of_refusal (by simp [Command.refusal?, Command.message, Message.validate,
        hterminator])
  | _ => cases h

/-- A command that is not refused is a request. What its success changes is the room, and that the
connection is closed after a quit. -/
theorem execute_eq (p : Publisher) (h : command.refusal? = none) :
    p.execute command =
      match request p.connection command.message with
      | (c, none) => ({ p with connection := c }, none)
      | (c, some (.error failure)) => ({ p with connection := c }, some (.error failure))
      | (c, some (.ok ())) =>
          ({ p with
            connection := if command = .quit then c.close else c
            room := command.roomAfter p.room },
            some (.ok (decide (command = .quit)))) := by
  cases command with
  | join room =>
      simp only [execute, join, ask, Command.message]
      rcases request p.connection ⟨.join, room⟩ with ⟨c, _ | failure | value⟩ <;> rfl
  | leave =>
      simp only [execute, leave, ask, Command.message]
      rcases request p.connection ⟨.leave, ""⟩ with ⟨c, _ | failure | value⟩ <;> rfl
  | sendAll text =>
      simp only [Command.refusal?, Command.message] at h
      cases hvalid : (⟨.sendall, text⟩ : Message).validate with
      | error violation =>
          rw [hvalid] at h
          cases h
      | ok value =>
          simp only [execute, sendAll, hvalid, ask, Command.message]
          rcases request p.connection ⟨.sendall, text⟩ with ⟨c, _ | failure | value⟩ <;> rfl
  | quit =>
      simp only [execute, ask]
      rcases request p.connection Command.quit.message with ⟨c, _ | failure | value⟩ <;> rfl

/-- The publisher once this has come in. -/
def feed (p : Publisher) (arrivals : List Arrival) : Publisher :=
  { p with connection := p.connection.feed arrivals }

/-- A command whose request has no answer yet has none either. -/
theorem execute_of_none {p : Publisher} {command : Command} (hsendable : command.Sendable)
    (hsends : command.isHeldBack = false)
    (hnone : (request p.connection command.message).2 = none) :
    p.execute command =
      ({ p with connection := (request p.connection command.message).1 }, none) := by
  rw [execute_eq p (hsendable.refusal?_eq_none hsends)]
  rcases hwent : request p.connection command.message with ⟨c, answer⟩
  rw [hwent] at hnone
  obtain rfl : answer = none := hnone
  rfl

/-- A command whose request fails changes nothing but the connection. -/
theorem execute_of_error {p : Publisher} {command : Command} (hsendable : command.Sendable)
    (hsends : command.isHeldBack = false) {failure : Failure}
    (herror : (request p.connection command.message).2 = some (.error failure)) :
    p.execute command =
      ({ p with connection := (request p.connection command.message).1 },
        some (.error failure)) := by
  rw [execute_eq p (hsendable.refusal?_eq_none hsends)]
  rcases hwent : request p.connection command.message with ⟨c, answer⟩
  rw [hwent] at herror
  obtain rfl : answer = some (.error failure) := herror
  rfl

/-- A command whose request succeeds takes effect. -/
theorem execute_of_ok {p : Publisher} {command : Command} (hsendable : command.Sendable)
    (hsends : command.isHeldBack = false)
    (hok : (request p.connection command.message).2 = some (.ok ())) :
    p.execute command =
      ({ p with
        connection :=
          if command = .quit then (request p.connection command.message).1.close
          else (request p.connection command.message).1
        room := command.roomAfter p.room },
        some (.ok (decide (command = .quit)))) := by
  rw [execute_eq p (hsendable.refusal?_eq_none hsends)]
  rcases hwent : request p.connection command.message with ⟨c, answer⟩
  rw [hwent] at hok
  obtain rfl : answer = some (.ok ()) := hok
  rfl

/-- A closed publisher leaves its stream alone. -/
theorem stream_execute_of_closed {p : Publisher} {command : Command}
    (hsendable : command.Sendable) (h : p.connection.isOpen = false) :
    (p.execute command).1.connection.stream = p.connection.stream := by
  cases hheld : command.isHeldBack with
  | true => rw [execute_of_heldBack _ hheld]
  | false =>
      have hwent := request_of_closed h command.message
      rw [execute_of_error hsendable hheld (congrArg Prod.snd hwent), hwent]
      rfl

/-- Whatever comes in, a command that is not held back writes its request's line, and only a quit
shuts the stream down. -/
theorem written_execute {p : Publisher} {command : Command} (hsendable : command.Sendable)
    (hsends : command.isHeldBack = false) (hhealthy : Healthy p.connection.stream)
    (hopen : p.connection.isOpen = true) :
    (p.execute command).1.connection.stream.written =
        p.connection.stream.written ++ command.message.bytes ∧
      (command ≠ .quit →
        (p.execute command).1.connection.stream.shutdowns = p.connection.stream.shutdowns) := by
  have hwent := written_request hhealthy hopen command.message
  cases hanswer : (request p.connection command.message).2 with
  | none =>
      rw [execute_of_none hsendable hsends hanswer]
      exact ⟨hwent.1, fun _ ↦ hwent.2⟩
  | some result =>
      cases result with
      | error failure =>
          rw [execute_of_error hsendable hsends hanswer]
          exact ⟨hwent.1, fun _ ↦ hwent.2⟩
      | ok value =>
          rw [execute_of_ok hsendable hsends hanswer]
          by_cases hquit : command = .quit
          · simp only [hquit, if_true, Server.Worker.written_close]
            rw [← hquit]
            exact ⟨hwent.1, fun hne ↦ absurd rfl hne⟩
          · simp only [hquit, if_false]
            exact ⟨hwent.1, fun _ ↦ hwent.2⟩

/-- Whatever comes in, a command writes the same. -/
theorem exists_written_execute (p : Publisher) {command : Command} (hsendable : command.Sendable)
    (hhealthy : Healthy p.connection.stream) :
    ∃ more, ∀ arrived, ((p.feed arrived).execute command).1.connection.stream.written =
      p.connection.stream.written ++ more := by
  cases hheld : command.isHeldBack with
  | true =>
      refine ⟨[], fun arrived ↦ ?_⟩
      rw [execute_of_heldBack _ hheld, List.append_nil]
      rfl
  | false =>
      cases hopen : p.connection.isOpen with
      | false =>
          refine ⟨[], fun arrived ↦ ?_⟩
          have hclosed : (p.feed arrived).connection.isOpen = false := hopen
          rw [stream_execute_of_closed hsendable hclosed, List.append_nil]
          rfl
      | true =>
          exact ⟨command.message.bytes, fun arrived ↦ (written_execute (p := p.feed arrived)
            hsendable hheld (hhealthy.feed arrived) hopen).1⟩

/-- What a command answers where nothing is there to be read. -/
theorem execute_of_read {p : Publisher} {command : Command} (hsendable : command.Sendable)
    (hsound : p.connection.Sound) (hread : p.connection.backlog = []) :
    let q := (p.execute command).1
    let answer := (p.execute command).2
    q.connection.Sound ∧ q.connection.backlog = [] ∧
      (q.connection.HasEnded ↔ p.connection.HasEnded) ∧ q.room = p.room ∧
      (command.isHeldBack = false →
        (answer = none ∨ answer = some (.error .closed)) ∧
        (p.connection.HasEnded → answer = some (.error .closed))) := by
  dsimp only
  cases hheld : command.isHeldBack with
  | true =>
      rw [execute_of_heldBack p hheld]
      exact ⟨hsound, hread, Iff.rfl, rfl, nofun⟩
  | false =>
      cases hopen : p.connection.isOpen with
      | false =>
          have hwent := request_of_closed hopen command.message
          have hanswer := congrArg Prod.snd hwent
          rw [execute_of_error hsendable hheld hanswer, hwent]
          exact ⟨⟨hsound.healthy, hsound.plain⟩, hread, Iff.rfl, rfl,
            fun _ ↦ ⟨.inr rfl, fun _ ↦ rfl⟩⟩
      | true =>
          obtain ⟨hsound', hopen', hended'⟩ := requested hsound hopen command.message
          have hnothing : NoVerdict p.connection.backlog := by
            rw [hread]
            exact ⟨nofun, by decide⟩
          by_cases hended : p.connection.HasEnded
          · obtain ⟨hanswer, hleft⟩ :=
              request_of_end (m := command.message) hsound hopen hended hnothing
            rw [execute_of_error hsendable hheld hanswer]
            exact ⟨hsound', hleft.trans hread, hended', rfl, fun _ ↦ ⟨.inr rfl, fun _ ↦ rfl⟩⟩
          · obtain ⟨hanswer, hleft⟩ :=
              request_of_nothing (m := command.message) hsound hopen hended hnothing
            rw [execute_of_none hsendable hheld hanswer]
            exact ⟨hsound', hleft.trans hread, hended', rfl,
              fun _ ↦ ⟨.inl rfl, fun h ↦ absurd h hended⟩⟩

end Publisher

end Client

end ChatRelay
