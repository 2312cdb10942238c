import ChatRelay.Client.Subscriber
import ChatRelay.Proofs.Calls
import ChatRelay.Proofs.Parsing

/-!
# What the requests of a client put on the wire

A request is written as it is, with one LF for each newline of its payload and one more at its end, so
it is one line exactly if its payload has no newline. `requests_on_wire` says what every operation
that takes a text writes. A text to broadcast is looked at first, and its request is one line or is
not issued. The names of a login and of a join are not looked at: `written_join_forged` is how a name
puts any other message on the wire behind its request, and `received_forged` how the peer reads it.
-/

namespace ChatRelay

open Text Transport Wire

namespace Wire

/-! ## Lines of a payload -/

/-- A text is written with one LF for each of its newlines. -/
theorem count_utf8 (text : String) :
    (utf8 text).count lineFeed = text.toList.count '\n' := by
  have hchar (c : Char) :
      (String.utf8EncodeChar c).count lineFeed = if c = '\n' then 1 else 0 := by
    by_cases hc : c = '\n'
    · subst hc
      decide
    · rw [if_neg hc]
      exact List.count_eq_zero.mpr (mt lineFeed_mem_utf8EncodeChar_iff.mp hc)
  rw [utf8_eq_flatMap]
  induction text.toList with
  | nil => rfl
  | cons c rest ih =>
      rw [List.flatMap_cons, List.count_append, hchar, ih, List.count_cons]
      by_cases hc : c = '\n'
      · simp [hc, Nat.add_comm]
      · simp [hc]

/-- A line that carries a message with this tag, and nothing behind it. -/
def IsRequest (tag : Tag) (bytes : List UInt8) : Prop :=
  Connection.IsLine bytes ∧
    ∃ text payload, utf8 text = bytes ∧ Message.decode text = .ok ⟨tag, payload⟩

namespace Message

/-- Every newline of the payload ends a line, and so does the end of the message. -/
theorem count_bytes (m : Message) :
    m.bytes.count lineFeed = m.payload.toList.count '\n' + 1 := by
  have hsymbol : m.tag.symbol.toList.count '\n' = 0 := by
    refine List.count_eq_zero.mpr fun hmem ↦ ?_
    have hplain := (m.tag.symbol_plain hmem).2
    exact absurd hplain (by decide)
  have hcolon : (delimiter :: m.payload.toList).count '\n' = m.payload.toList.count '\n' :=
    List.count_cons_of_ne (by decide)
  rw [bytes_eq, List.count_append, count_utf8, toList_body, List.count_append, hsymbol, hcolon,
    Nat.zero_add]
  rfl

/-- A message is written as one request of its tag exactly if its payload has no newline. Whatever
else the payload holds, the tag is read back. -/
theorem isRequest_bytes_iff (m : Message) : IsRequest m.tag m.bytes ↔ '\n' ∉ m.payload.toList := by
  have hcount := m.count_bytes
  rw [bytes_eq, List.count_append, List.count_singleton_self] at hcount
  constructor
  · rintro ⟨⟨body, hbody, hfree⟩, -⟩
    have hsame : utf8 m.body = body := by
      rw [bytes_eq] at hbody
      exact List.append_cancel_right hbody
    have hnone := List.count_eq_zero.mpr hfree
    rw [hsame] at hcount
    exact List.count_eq_zero.mp (by omega)
  · intro hfree
    have hnone := List.count_eq_zero.mpr hfree
    refine ⟨⟨utf8 m.body, m.bytes_eq, List.count_eq_zero.mp (by omega)⟩, m.encode, _, rfl,
      m.decode_encode_trimmed⟩

/-- Behind a newline of its payload a message is read as another one. -/
theorem bytes_forged (tag : Tag) (front : String) (m : Message) :
    (⟨tag, front ++ "\n" ++ m.body⟩ : Message).bytes = (⟨tag, front⟩ : Message).bytes ++ m.bytes := by
  have hfeed : utf8 "\n" = [lineFeed] := by decide
  simp only [bytes_eq, body, utf8_append, hfeed, List.append_assoc]

end Message

end Wire

namespace Client

open Connection

/-! ## Operations -/

/-- The operations of a client that take a text, with what else the client knows of itself. -/
inductive Operation where
  /-- A publisher logs in. -/
  | login (username : String)
  /-- A publisher with this name and room joins another room. -/
  | join (username : String) (current : Option String) (room : String)
  /-- A publisher with this name and room broadcasts a text. -/
  | sendAll (username : String) (current : Option String) (text : String)
  /-- A subscriber logs in and joins. -/
  | subscribe (username room : String)

/-- The connection after the operation. -/
def Operation.perform (c : Connection) : Operation → Connection
  | .login username => (Publisher.login c username).1
  | .join username current room => (Publisher.join ⟨c, username, current⟩ room).1.connection
  | .sendAll username current text => (Publisher.sendAll ⟨c, username, current⟩ text).1.connection
  | .subscribe username room => (Subscriber.join c username room).1

/-- The requests that the operation issues. A subscriber joins once its login is confirmed. -/
def Operation.requests (c : Connection) : Operation → List Message
  | .login username => [⟨.slogin, username⟩]
  | .join _ _ room => [⟨.join, room⟩]
  | .sendAll _ _ text =>
      match (⟨.sendall, text⟩ : Message).validate with
      | .error _ => []
      | .ok () => [⟨.sendall, text⟩]
  | .subscribe username room =>
      match (request c ⟨.rlogin, username⟩).2 with
      | some (.ok ()) => [⟨.rlogin, username⟩, ⟨.join, room⟩]
      | _ => [⟨.rlogin, username⟩]

variable {c : Connection}

theorem connection_join (p : Publisher) (room : String) :
    (p.join room).1.connection = (request p.connection ⟨.join, room⟩).1 := by
  unfold Publisher.join Publisher.ask
  rcases request p.connection ⟨.join, room⟩ with ⟨after, _ | failure | ⟨⟩⟩ <;> rfl

theorem connection_subscribe (c : Connection) (username room : String) :
    (Subscriber.join c username room).1 =
      match (request c ⟨.rlogin, username⟩).2 with
      | some (.ok ()) => (request (request c ⟨.rlogin, username⟩).1 ⟨.join, room⟩).1
      | _ => (request c ⟨.rlogin, username⟩).1 := by
  unfold Subscriber.join
  rcases request c ⟨.rlogin, username⟩ with ⟨after, _ | failure | ⟨⟩⟩
  · rfl
  · rfl
  · dsimp only
    rcases request after ⟨.join, room⟩ with ⟨last, _ | failure | ⟨⟩⟩ <;> rfl

/-- An operation writes the lines of its requests and nothing else. -/
theorem written_perform (h : Healthy c.stream) (hopen : c.isOpen = true) (op : Operation) :
    (op.perform c).stream.written =
      c.stream.written ++ (op.requests c).flatMap Message.bytes := by
  cases op with
  | login username =>
      rw [Operation.perform, Publisher.login_eq, (written_request h hopen _).1]
      simp [Operation.requests]
  | join username current room =>
      rw [Operation.perform, connection_join, (written_request h hopen _).1]
      simp [Operation.requests]
  | sendAll username current text =>
      rw [Operation.perform, Operation.requests, Publisher.sendAll]
      rcases (⟨.sendall, text⟩ : Message).validate with violation | ⟨⟩
      · exact (List.append_nil _).symm
      · show (request c ⟨.sendall, text⟩).1.stream.written = _
        rw [(written_request h hopen _).1]
        simp
  | subscribe username room =>
      obtain ⟨hhealthy, hopen'⟩ := healthy_request h hopen ⟨.rlogin, username⟩
      have hfirst := (written_request h hopen ⟨.rlogin, username⟩).1
      rw [Operation.perform, Operation.requests, connection_subscribe]
      split
      · -- the login is confirmed, and the join follows on the same stream
        rw [(written_request hhealthy hopen' _).1, hfirst]
        simp
      · rw [hfirst]
        simp

/-- A text to broadcast is sent as one line or not at all. -/
theorem isRequest_of_sendall {op : Operation} {m : Message} (hm : m ∈ op.requests c)
    (htag : m.tag = .sendall) : IsRequest m.tag m.bytes := by
  refine m.isRequest_bytes_iff.mpr ?_
  cases op with
  | login | join =>
      obtain rfl := List.mem_singleton.mp hm
      cases htag
  | sendAll username current text =>
      simp only [Operation.requests] at hm
      split at hm
      · cases hm
      · rename_i hvalid
        obtain rfl := List.mem_singleton.mp hm
        exact not_mem_of_hasTerminator (Message.validate_eq_ok_iff.mp hvalid).1
  | subscribe username room =>
      simp only [Operation.requests] at hm
      split at hm <;> simp only [List.mem_cons, List.not_mem_nil, or_false] at hm
      · rcases hm with rfl | rfl <;> cases htag
      · subst hm
        cases htag

/-- On an open connection whose stream accepts all writes, an operation writes its requests as they
are. Each is one line that is read with its own tag exactly if its payload has no newline, and in any
case as many lines as the payload has newlines and one more. A text to broadcast is always sent as one
line, if it is sent. -/
theorem requests_on_wire (h : Healthy c.stream) (hopen : c.isOpen = true) (op : Operation) :
    (op.perform c).stream.written =
        c.stream.written ++ (op.requests c).flatMap Message.bytes ∧
      (∀ m ∈ op.requests c,
        (IsRequest m.tag m.bytes ↔ '\n' ∉ m.payload.toList) ∧
          m.bytes.count lineFeed = m.payload.toList.count '\n' + 1) ∧
      ∀ m ∈ op.requests c, m.tag = .sendall → IsRequest m.tag m.bytes :=
  ⟨written_perform h hopen op, fun m _ ↦ ⟨m.isRequest_bytes_iff, m.count_bytes⟩,
    fun _ hm htag ↦ isRequest_of_sendall hm htag⟩

/-- The login of a subscriber is confirmed, and its two requests are two lines. -/
theorem requests_on_wire_subscribe :
    let c : Connection := { stream := { arrivals := [.chunk Message.ok.bytes] } }
    (Operation.perform c (.subscribe "bob" "den")).stream.written =
      Message.bytes ⟨.rlogin, "bob"⟩ ++ Message.bytes ⟨.join, "den"⟩ ∧
      IsRequest .rlogin (Message.bytes ⟨.rlogin, "bob"⟩) := by
  intro c
  have hhealthy : Healthy c.stream := ⟨rfl, rfl, nofun⟩
  have hrequests : Operation.requests c (.subscribe "bob" "den") =
      [⟨.rlogin, "bob"⟩, ⟨.join, "den"⟩] := by
    decide +kernel
  obtain ⟨hwritten, hlines, -⟩ := requests_on_wire hhealthy rfl (.subscribe "bob" "den")
  rw [hrequests] at hwritten hlines
  exact ⟨hwritten, (hlines ⟨.rlogin, "bob"⟩ (by simp)).1.mpr (by decide)⟩

/-! ## Forged requests -/

/-- By the name of its room a publisher has the peer read any other message behind its join. -/
theorem written_join_forged {p : Publisher} (h : Healthy p.connection.stream)
    (hopen : p.connection.isOpen = true) (room : String) (m : Message) :
    (p.join (room ++ "\n" ++ m.body)).1.connection.stream.written =
      p.connection.stream.written ++ Message.bytes ⟨.join, room⟩ ++ m.bytes := by
  rw [connection_join, (written_request h hopen _).1, Message.bytes_forged, List.append_assoc]

/-- The peer receives both, the one after the other. -/
theorem received_forged (h : Readable c) {room : String} {m : Message} {rest : List UInt8}
    (hroom : (⟨.join, room⟩ : Message).Valid) (hm : m.Valid)
    (hbytes : c.backlog = Message.bytes ⟨.join, room ++ "\n" ++ m.body⟩ ++ rest) :
    c.receive.2 = some (.ok ⟨.join, room⟩) ∧ c.receive.1.receive.2 = some (.ok m) ∧
      c.receive.1.receive.1.backlog = rest := by
  rw [Message.bytes_forged, List.append_assoc] at hbytes
  obtain ⟨hfirst, hleft⟩ := h.receive_message hroom hbytes
  obtain ⟨hkept, -⟩ := h.receive
  obtain ⟨hsecond, hrest⟩ := hkept.receive_message hm hleft
  exact ⟨hfirst, hsecond, hrest⟩

/-- One join is written as a join and a leave. -/
theorem forged_leave :
    let c : Connection := { stream := {} }
    let op := Operation.join "alice" none "den\nleave:"
    op.requests c = [⟨.join, "den\nleave:"⟩] ∧
      (op.perform c).stream.written =
        Message.bytes ⟨.join, "den"⟩ ++ Message.bytes ⟨.leave, ""⟩ ∧
      ¬IsRequest .join (op.perform c).stream.written := by
  intro c op
  have hhealthy : Healthy c.stream := ⟨rfl, rfl, nofun⟩
  have hwritten : (op.perform c).stream.written = Message.bytes ⟨.join, "den\nleave:"⟩ := by
    rw [written_perform hhealthy rfl op]
    simp [op, c, Operation.requests]
  refine ⟨rfl, ?_, ?_⟩
  · rw [hwritten]
    exact Message.bytes_forged .join "den" ⟨.leave, ""⟩
  · rw [hwritten, Message.isRequest_bytes_iff ⟨.join, "den\nleave:"⟩]
    decide

end Client

end ChatRelay
