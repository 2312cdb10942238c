import ChatRelay.Client.Subscriber
import ChatRelay.Proofs.Framing
import ChatRelay.Proofs.Reading

/-!
# What is sent is what is read

One side sends deliveries, and other messages between them; the other side asks for the next delivery
again and again, while the bytes arrive in pieces of any size. `Awaits.call` says what one call takes
from the bytes, and the main statement is `Subscriber.reads_what_was_sent`: the answers are the
deliveries in order, and then that there is none.
-/

namespace ChatRelay

open Text Transport Wire

/-! ## The side that sends -/

namespace Connection

/-- Send the messages one after the other, up to the first send that fails or waits. -/
def sendEach (c : Connection) : List Message → Connection × Option (Except Failure Unit)
  | [] => (c, some (.ok ()))
  | m :: rest =>
      match c.send m with
      | (after, none) => (after, none)
      | (after, some (.error failure)) => (after, some (.error failure))
      | (after, some (.ok ())) => after.sendEach rest

/-- On a healthy stream all messages are sent, and their lines are left behind in order. -/
theorem Healthy.sendEach {c : Connection} (h : Healthy c.stream) (hopen : c.isOpen = true)
    (messages : List Message) :
    (c.sendEach messages).2 = some (.ok ()) ∧
      Sent c (c.sendEach messages).1 (messages.flatMap Message.bytes) := by
  induction messages generalizing c with
  | nil => exact ⟨rfl, by simp [Connection.sendEach], rfl, rfl, rfl, h⟩
  | cons m rest ih =>
      obtain ⟨hok, hsent⟩ := h.send hopen m
      rcases hsend : c.send m with ⟨after, result⟩
      rw [hsend] at hok hsent
      dsimp only at hok hsent
      subst hok
      obtain ⟨hrest, hall⟩ := ih hsent.healthy (hsent.isOpen.trans hopen)
      simp only [Connection.sendEach, hsend]
      refine ⟨hrest, ?_, hall.isOpen.trans hsent.isOpen, hall.buffer.trans hsent.buffer,
        hall.arrivals.trans hsent.arrivals, hall.healthy⟩
      rw [hall.written, hsent.written, List.flatMap_cons, List.append_assoc]

end Connection

/-! ## What is sent -/

/-- The room and the sender are names, nothing ends a line early, and the payload keeps within the
limit. The text may be empty, and may hold delimiters. -/
structure Wire.Delivery.Sendable (d : Delivery) : Prop where
  room_ne : d.room ≠ ""
  room_undelimited : delimiter ∉ d.room.toList
  sender_ne : d.sender ≠ ""
  sender_undelimited : delimiter ∉ d.sender.toList
  unterminated : hasTerminator d.room = false ∧ hasTerminator d.sender = false ∧
    hasTerminator d.text = false
  size_le : size d.room + size d.sender + size d.text + 2 ≤ maxPayload

/-- A delivery that the checks let through makes a valid message. -/
theorem Wire.Delivery.Sendable.valid {d : Delivery} (h : d.Sendable) : d.message.Valid := by
  obtain ⟨hroom, hsender, htext⟩ := h.unterminated
  constructor
  · have hdelimiter : isTerminator delimiter = false := by decide
    unfold hasTerminator at hroom hsender htext ⊢
    simp [Delivery.message, Delivery.payload, hroom, hsender, htext, hdelimiter]
  · show size d.payload ≤ maxPayload
    rw [Delivery.size_payload]
    exact h.size_le

/-- What a subscriber may find on its stream. -/
inductive Item where
  /-- A delivery. -/
  | broadcast (d : Delivery)
  /-- A message of another kind. -/
  | other (m : Message)

namespace Item

/-- The message on the wire. -/
def message : Item → Message
  | broadcast d => d.message
  | other m => m

/-- What the subscriber should see of it. -/
def delivery? : Item → Option Delivery
  | broadcast d => some d
  | other _ => none

/-- The delivery can be sent; the other message is valid, and neither a delivery nor a refusal. -/
def Sendable : Item → Prop
  | broadcast d => d.Sendable
  | other m => m.Valid ∧ m.tag ≠ .delivery ∧ m.tag ≠ .err

theorem Sendable.valid {item : Item} (h : item.Sendable) : item.message.Valid := by
  cases item with
  | broadcast d => exact Delivery.Sendable.valid h
  | other m => exact h.1

/-- The subscriber sees the deliveries, and passes over the rest. -/
theorem Sendable.meaning {item : Item} (h : item.Sendable) :
    Client.Subscriber.meaning? item.message = item.delivery?.map .ok := by
  cases item with
  | broadcast d =>
      have hread := d.ofPayload_payload h.room_undelimited h.sender_undelimited
      simp [Client.Subscriber.meaning?, message, Delivery.message, hread, delivery?]
  | other m =>
      obtain ⟨-, hdelivery, herr⟩ := h
      obtain ⟨tag, payload⟩ := m
      cases tag <;> first | rfl | contradiction

end Item

/-! ## The side that reads -/

namespace Client

open Connection

namespace Subscriber

theorem nextFrom_of_none {c after : Connection} (h : c.receive = (after, none)) :
    nextFrom c = (after, none) := by
  rw [nextFrom]
  split
  all_goals
    rename_i hreceive
    rw [h] at hreceive
    cases hreceive
  rfl

theorem nextFrom_of_closed {c after : Connection}
    (h : c.receive = (after, some (.error .closed))) : nextFrom c = (after, some (.ok none)) := by
  rw [nextFrom]
  split
  · rename_i hreceive
    rw [h] at hreceive
    cases hreceive
  · rename_i hreceive
    rw [h] at hreceive
    cases hreceive
    rfl
  · rename_i hne hreceive
    rw [h] at hreceive
    cases hreceive
    exact (hne rfl).elim
  · rename_i hreceive
    rw [h] at hreceive
    cases hreceive

theorem nextFrom_of_ok {c after : Connection} {m : Message}
    (h : c.receive = (after, some (.ok m))) :
    nextFrom c =
      match meaning? m with
      | some (.ok delivery) => (after, some (.ok (some delivery)))
      | some (.error failure) => (after, some (.error failure))
      | none => nextFrom after := by
  rw [nextFrom]
  split
  · rename_i hreceive
    rw [h] at hreceive
    cases hreceive
  · rename_i hreceive
    rw [h] at hreceive
    cases hreceive
  · rename_i hreceive
    rw [h] at hreceive
    cases hreceive
  · rename_i hreceive
    rw [h] at hreceive
    cases hreceive
    rfl

/-- The connection is to read the lines of these items and nothing else, once the rest has arrived. -/
structure Awaits (c : Connection) (more : List Arrival) (items : List Item) : Prop where
  isOpen : c.isOpen = true
  plain : Plain (c.stream.arrivals ++ more)
  sendable : ∀ item ∈ items, item.Sendable
  bytes : (c.feed more).backlog = items.flatMap fun item ↦ item.message.bytes

theorem Awaits.readable {c : Connection} {more : List Arrival} {items : List Item}
    (h : Awaits c more items) : Readable c :=
  ⟨h.isOpen, (plain_append_iff.mp h.plain).1⟩

theorem Awaits.arrive {c : Connection} {arrival : Arrival} {more : List Arrival}
    {items : List Item} (h : Awaits c (arrival :: more) items) :
    Awaits (c.feed [arrival]) more items := by
  refine ⟨h.isOpen, ?_, h.sendable, ?_⟩
  · rw [arrivals_feed, List.append_assoc]
    exact h.plain
  · rw [feed_feed]
    exact h.bytes

/-- A receive leaves the items that it has not taken. -/
theorem Awaits.receive {c : Connection} {more : List Arrival} {items left : List Item}
    (h : Awaits c more items) (hleft : ∀ item ∈ left, item.Sendable)
    (hbytes : (c.receive.1.feed more).backlog = left.flatMap fun item ↦ item.message.bytes) :
    Awaits c.receive.1 more left := by
  obtain ⟨hreadable, hend, -⟩ := h.readable.receive
  have hmore := (plain_append_iff.mp h.plain).2
  exact ⟨hreadable.isOpen, plain_append_iff.mpr ⟨hreadable.plain, hmore.imp hend.mpr id⟩, hleft, hbytes⟩

/-- What came of a call: the first delivery, or that there is none; or it waits, and the stream has
not ended. -/
inductive Called (ended : Prop) (items left : List Item) : Answer (Option Delivery) → Prop where
  | answered (hleft : left.filterMap Item.delivery? = (items.filterMap Item.delivery?).tail) :
      Called ended items left (some (.ok (items.filterMap Item.delivery?).head?))
  | waits (hleft : left.filterMap Item.delivery? = items.filterMap Item.delivery?)
      (hopen : ¬ended) : Called ended items left none

/-- A call takes the items up to the first delivery. -/
theorem Awaits.call {c : Connection} {more : List Arrival} {items : List Item}
    (h : Awaits c more items) :
    ∃ left, Awaits (nextFrom c).1 more left ∧ ((nextFrom c).1.HasEnded ↔ c.HasEnded) ∧
      Called c.HasEnded items left (nextFrom c).2 := by
  -- by induction on the items: each receive takes one of them
  induction items generalizing c with
  | nil =>
      have hempty : (c.feed more).backlog = [] := h.bytes
      have hnone : NoVerdict (c.feed more).backlog := by
        rw [hempty]
        exact ⟨List.not_mem_nil, by decide⟩
      obtain ⟨hanswer, hkept⟩ := h.readable.receive_rest hnone
      obtain ⟨-, hend, -⟩ := h.readable.receive
      have hafter : Awaits c.receive.1 more [] := h.receive h.sendable (hkept.trans hempty)
      rcases hanswer with ⟨hclosed, -⟩ | ⟨hwaits, hnot⟩
      · rw [nextFrom_of_closed (Prod.ext rfl hclosed)]
        exact ⟨[], hafter, hend, .answered rfl⟩
      · rw [nextFrom_of_none (Prod.ext rfl hwaits)]
        exact ⟨[], hafter, hend, .waits rfl hnot⟩
  | cons item rest ih =>
      obtain ⟨hitem, hrest⟩ := List.forall_mem_cons.mp h.sendable
      have hvalid := hitem.valid
      have hbytes : (c.feed more).backlog =
          item.message.bytes ++ rest.flatMap fun item ↦ item.message.bytes := h.bytes
      have hline := Message.isLine_bytes hvalid.1
      have hsize := Message.length_bytes_le hvalid
      obtain ⟨-, hend, -⟩ := h.readable.receive
      rcases h.readable.receive_line hline hsize hbytes with ⟨htaken, hleft⟩ | ⟨hwaits, hnot, hleft⟩
      · rw [Message.judge_bytes hvalid] at htaken
        have hafter := h.receive hrest hleft
        rw [nextFrom_of_ok (Prod.ext rfl htaken), hitem.meaning]
        cases hdelivery : item.delivery? with
        | some d =>
            refine ⟨rest, hafter, hend, ?_⟩
            have hhead : some d = ((item :: rest).filterMap Item.delivery?).head? := by
              rw [List.filterMap_cons_some hdelivery, List.head?_cons]
            show Called c.HasEnded (item :: rest) rest (some (.ok (some d)))
            rw [hhead]
            refine .answered ?_
            rw [List.filterMap_cons_some hdelivery, List.tail_cons]
        | none =>
            obtain ⟨left, hlast, hended, hcalled⟩ := ih hafter
            refine ⟨left, hlast, hended.trans hend, ?_⟩
            show Called c.HasEnded (item :: rest) left (nextFrom c.receive.1).2
            have hsame : (item :: rest).filterMap Item.delivery? =
                rest.filterMap Item.delivery? := List.filterMap_cons_none hdelivery
            generalize (nextFrom c.receive.1).2 = answer at hcalled
            cases hcalled with
            | answered hafterwards =>
                rw [← hsame]
                exact .answered (hafterwards.trans (congrArg List.tail hsame.symm))
            | waits hafterwards hopen =>
                exact .waits (hafterwards.trans hsame.symm) (mt hend.mpr hopen)
      · rw [nextFrom_of_none (Prod.ext rfl hwaits)]
        exact ⟨item :: rest, h.receive h.sendable hleft, hend, .waits rfl hnot⟩

/-- The subscriber after these turns, and what came of its calls. -/
def play (s : Subscriber) : List Turn → Subscriber × List (Answer (Option Delivery))
  | [] => (s, [])
  | .arrive arrival :: rest => { s with connection := s.connection.feed [arrival] }.play rest
  | .call :: rest =>
      let (last, answers) := s.next.1.play rest
      (last, s.next.2 :: answers)

/-- The answers to the calls of these turns, without the calls that were abandoned. -/
def answers (s : Subscriber) (turns : List Turn) : List (Except Failure (Option Delivery)) :=
  (s.play turns).2.filterMap id

theorem answers_call (s : Subscriber) (rest : List Turn) :
    s.answers (.call :: rest) = s.next.2.toList ++ s.next.1.answers rest := by
  cases hanswer : s.next.2 <;> simp [answers, play, hanswer]

/-- Whatever the turns, the answers so far are the deliveries in order, and past the last of them that
there is none. -/
theorem Awaits.answers {s : Subscriber} {turns : List Turn} {items : List Item}
    (h : Awaits s.connection (arrivals turns) items) (i : Nat)
    (hi : i < (s.answers turns).length) :
    (s.answers turns)[i]? = some (.ok (items.filterMap Item.delivery?)[i]?) := by
  induction turns generalizing s items i with
  | nil => simp [Subscriber.answers, play] at hi
  | cons turn rest ih =>
      cases turn with
      | arrive arrival => exact ih (s := { s with connection := _ }) h.arrive i hi
      | call =>
          obtain ⟨left, hafter, -, hcalled⟩ := h.call
          have hnext : s.next = ({ s with connection := (nextFrom s.connection).1 },
              (nextFrom s.connection).2) := rfl
          rw [answers_call, hnext] at hi ⊢
          generalize (nextFrom s.connection).2 = answer at hcalled hi ⊢
          cases hcalled with
          | waits hleft hopen =>
              rw [← hleft]
              exact ih hafter i hi
          | answered hleft =>
              cases i with
              | zero => simp [List.head?_eq_getElem?]
              | succ i =>
                  have hrest := ih (s := { s with connection := _ }) hafter i (by simpa using hi)
                  rw [hleft] at hrest
                  simpa using hrest

/-- Once the end of the stream has arrived, no call waits. -/
theorem Awaits.length_answers {s : Subscriber} {turns : List Turn} {items : List Item}
    (h : Awaits s.connection (arrivals turns) items)
    (hend : Arrival.finish ∈ s.connection.stream.arrivals ++ arrivals turns) (n : Nat) :
    n ≤ (s.answers (turns ++ List.replicate n .call)).length := by
  -- by induction on the turns, and then on the calls behind them
  induction turns generalizing s items with
  | nil =>
      rw [arrivals, List.append_nil] at hend
      induction n generalizing s items with
      | zero => exact Nat.zero_le _
      | succ n ih =>
          obtain ⟨left, hafter, hended, hcalled⟩ := h.call
          have hrest := ih (s := s.next.1) hafter (hended.mpr hend)
          rw [List.nil_append] at hrest ⊢
          rw [List.replicate_succ, answers_call, List.length_append]
          have hanswer : s.next.2 = (nextFrom s.connection).2 := rfl
          rw [hanswer]
          generalize (nextFrom s.connection).2 = answer at hcalled
          cases hcalled with
          | waits hleft hopen => exact absurd hend hopen
          | answered hleft =>
              rw [Option.toList_some, List.length_singleton]
              omega
  | cons turn rest ih =>
      cases turn with
      | arrive arrival =>
          refine ih (s := { s with connection := _ }) h.arrive ?_
          rw [arrivals_feed, List.append_assoc]
          exact hend
      | call =>
          obtain ⟨left, hafter, hended, -⟩ := h.call
          have hrest := ih (s := s.next.1) hafter
            (List.mem_append.mpr ((List.mem_append.mp hend).imp hended.mpr id))
          rw [List.cons_append, answers_call, List.length_append]
          omega

/-- What is sent is what is read. On a healthy stream all the items are sent. When their bytes, in
pieces that are not empty, and then the end of the stream arrive at a subscriber that has read all
before them, the answers to its calls are the deliveries in order, and past the last of them that
there is none. However the calls fall between the arrivals, none fails, and none of those made after
the end has arrived waits. -/
theorem reads_what_was_sent {writer : Connection} {items : List Item}
    (hsendable : ∀ item ∈ items, item.Sendable) (hwriter : writer.isOpen = true)
    (hhealthy : Healthy writer.stream)
    {reader : Subscriber} (hreader : reader.connection.isOpen = true)
    (hbuffer : reader.connection.buffer = []) (hunread : reader.connection.stream.arrivals = [])
    {turns : List Turn} {chunks : List (List UInt8)} (hchunks : ∀ chunk ∈ chunks, chunk ≠ [])
    (harrivals : arrivals turns = chunks.map .chunk ++ [.finish])
    (hbytes : (writer.sendEach (items.map Item.message)).1.stream.written =
      writer.stream.written ++ chunks.flatten) :
    (writer.sendEach (items.map Item.message)).2 = some (.ok ()) ∧
      ∀ n, let answers := reader.answers (turns ++ List.replicate n .call)
        n ≤ answers.length ∧ ∀ i, i < answers.length →
          answers[i]? = some (.ok (items.filterMap Item.delivery?)[i]?) := by
  obtain ⟨hok, hsent⟩ := hhealthy.sendEach hwriter (items.map Item.message)
  have hwritten : chunks.flatten = items.flatMap fun item ↦ item.message.bytes := by
    rw [hsent.written, List.flatMap_map] at hbytes
    exact (List.append_cancel_left hbytes).symm
  have hawaits : Awaits reader.connection (arrivals turns) items := by
    refine ⟨hreader, ?_, hsendable, ?_⟩
    · rw [hunread, harrivals]
      exact plain_chunks hchunks trivial
    · rw [← hwritten, backlog, harrivals]
      simp [feed, hbuffer, hunread, Stream.unread, unread_chunks, Stream.unread.go]
  have hend : Arrival.finish ∈ reader.connection.stream.arrivals ++ arrivals turns := by
    rw [harrivals]
    simp
  refine ⟨hok, fun n ↦ ⟨hawaits.length_answers hend n, fun i hi ↦ ?_⟩⟩
  have hcalls : Awaits reader.connection (arrivals (turns ++ List.replicate n .call)) items := by
    rw [arrivals_append_calls]
    exact hawaits
  exact hcalls.answers i hi

/-- Two deliveries, one with an empty text and one whose text holds delimiters, with a reply between
them, written two bytes at a time and read in two pieces around a call that waits. -/
theorem reads_what_was_sent_in_pieces :
    let writer : Connection := { stream := { pace := fun _ ↦ some 2 } }
    let items : List Item :=
      [.broadcast ⟨"café", "ann", ""⟩, .other .ok, .broadcast ⟨"café", "bob", "a:b:"⟩]
    let bytes := items.flatMap fun item ↦ item.message.bytes
    let turns : List Turn :=
      [.arrive (.chunk (bytes.take 7)), .call, .arrive (.chunk (bytes.drop 7)), .arrive .finish]
    let reader : Subscriber := { connection := { stream := {} }, username := "eve", room := "café" }
    (writer.sendEach (items.map Item.message)).2 = some (.ok ()) ∧
      ∀ n, let answers := reader.answers (turns ++ List.replicate n .call)
        n ≤ answers.length ∧ ∀ i, i < answers.length →
          answers[i]? = some (.ok [⟨"café", "ann", ""⟩, ⟨"café", "bob", "a:b:"⟩][i]?) := by
  intro writer items bytes turns reader
  have hhealthy : Healthy writer.stream := ⟨rfl, rfl, fun n ↦ by simp [writer]⟩
  have hsendable : ∀ item ∈ items, item.Sendable := by
    intro item hitem
    simp only [items, List.mem_cons, List.not_mem_nil, or_false] at hitem
    rcases hitem with rfl | rfl | rfl
    · exact ⟨by decide, by decide, by decide, by decide, by decide, by decide⟩
    · exact ⟨by decide, by decide, by decide⟩
    · exact ⟨by decide, by decide, by decide, by decide, by decide, by decide⟩
  have hwritten : (writer.sendEach (items.map Item.message)).1.stream.written =
      writer.stream.written ++ [bytes.take 7, bytes.drop 7].flatten := by
    rw [(hhealthy.sendEach rfl _).2.written, List.flatMap_map]
    simp [bytes]
  have hchunks : ∀ chunk ∈ [bytes.take 7, bytes.drop 7], chunk ≠ [] := by decide
  exact @reads_what_was_sent writer items hsendable rfl hhealthy reader rfl rfl rfl turns
    [bytes.take 7, bytes.drop 7] hchunks rfl hwritten

end Subscriber

end Client

end ChatRelay
