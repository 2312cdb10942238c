import ChatRelay.Proofs.Rounds

/-!
# A publisher in talk with its worker

A talk is a publisher, the system that its link leads to, and how far the link has come. `Live` and
`Dead` say how the two sides stand to each other between calls, while the session goes on and once it
is over; either way they are in step. `Live.round` and `Dead.round` say what a call does from there,
and that the two sides stand to each other in one of these ways again.
-/

namespace ChatRelay.Server

open Client Connection Text Transport Wire

/-- This is the reply to a command in this room, behind deeds that write nothing. An `ok` makes the
room what the command says, a reason leaves it; a quit is not refused. -/
structure Gives (username : String) (room : Option String) (command : Command) (acts : List Deed)
    (reply : Message) : Prop where
  response_eq : (response username room command.message).1 = acts ++ sends reply
  silent : acts.filterMap Deed.byte? = []
  valid : reply.Valid
  room_eq : reply = .ok ∧ (response username room command.message).2 = command.roomAfter room ∨
    (∃ text, reply = .err text) ∧ (response username room command.message).2 = room ∧
      command ≠ .quit

/-- The reply is all that a response writes. -/
theorem Gives.bytes {username : String} {room : Option String} {command : Command}
    {acts : List Deed} {reply : Message} (h : Gives username room command acts reply) :
    (response username room command.message).1.filterMap Deed.byte? = reply.bytes := by
  rw [h.response_eq, List.filterMap_append, h.silent, filterMap_byte?_sends, List.nil_append]

/-- Every command has a reply. -/
theorem exists_reply (username : String) (room : Option String) (command : Command) :
    ∃ acts reply, Gives username room command acts reply := by
  have hrefused (text : String) (hvalid : (Message.err text).Valid)
      (heq : response username room command.message = (sends (.err text), room))
      (hne : command ≠ .quit) : ∃ acts reply, Gives username room command acts reply :=
    ⟨[], .err text, by rw [heq]; rfl, rfl, hvalid, .inr ⟨⟨text, rfl⟩, by rw [heq], hne⟩⟩
  have hconfirmed (acts : List Deed) (hacts : acts.filterMap Deed.byte? = [])
      (heq : response username room command.message =
        (acts ++ sends .ok, command.roomAfter room)) :
      ∃ acts reply, Gives username room command acts reply :=
    ⟨acts, .ok, by rw [heq], hacts, by decide, .inl ⟨rfl, by rw [heq]⟩⟩
  cases command with
  | join name =>
      by_cases hempty : name = ""
      · exact hrefused _ (by decide) (if_pos hempty) nofun
      · by_cases hcolon : ':' ∈ name.toList
        · exact hrefused _ (by decide) ((if_neg hempty).trans (if_pos hcolon)) nofun
        · exact hconfirmed [.opened name] rfl ((if_neg hempty).trans (if_neg hcolon))
  | sendAll text =>
      cases room with
      | none => exact hrefused _ (by decide) rfl nofun
      | some name =>
          by_cases hlong : size name + size username + size text + 2 > 255
          · exact hrefused _ (by decide) (if_pos hlong) nofun
          · exact hconfirmed [.broadcast _] rfl (if_neg hlong)
  | leave | quit => exact hconfirmed [] rfl rfl

/-- A publisher and the system at the other end of its link, with how far the link has come. -/
structure Talk where
  worker : Nat
  forth : Lane := {}
  back : Lane := {}
  publisher : Publisher
  system : System

namespace Talk

/-- The talk as an exchange that begins now. -/
def begin (t : Talk) : Exchange :=
  { worker := t.worker, system := t.system, forth := t.forth, back := t.back }

/-- The talk once an exchange is over. -/
def ofExchange (y : Exchange) (publisher : Publisher) : Talk :=
  { worker := y.worker, forth := y.forth, back := y.back, publisher, system := y.system }

/-- The publisher's stream in a call, after what has arrived. -/
def out {β : Type} (t : Talk) (f : Publisher → Publisher × β) (arrived : List Arrival) : Stream :=
  (f (t.publisher.feed arrived)).1.connection.stream

/-- Let these events happen in a call of the publisher. -/
def call {β : Type} (t : Talk) (f : Publisher → Publisher × β) (events : List Event) : Talk × β :=
  let y := t.begin.run (t.out f) events
  (ofExchange y (f (t.publisher.feed y.arrived)).1, (f (t.publisher.feed y.arrived)).2)

/-- Carry out a command while these events happen; the answer is none if they do not bring one. -/
def execute (t : Talk) (command : Command) (events : List Event) : Talk × Answer Bool :=
  t.call (·.execute command) events

/-- Let these events happen between two calls. -/
def idle (t : Talk) (events : List Event) : Talk :=
  (t.call (fun p ↦ (p, ())) events).1

/-- The session goes on: everything that was written went through and was read, both connections
are in order, and the worker is ready in the publisher's room. -/
structure Live (username : String) (t : Talk) (w : Worker) : Prop where
  here : t.system.workers[t.worker]? = some w
  tended : w.Tended {}
  healthy : Healthy w.connection.stream
  sound : t.publisher.connection.Sound
  isOpen : t.publisher.connection.isOpen = true
  read : t.publisher.connection.backlog = []
  unended : ¬t.publisher.connection.HasEnded
  unshut : t.publisher.connection.stream.shutdowns = 0
  forth_eq : t.forth.passed = t.publisher.connection.stream.written.length
  forth_open : t.forth.ended = false
  back_eq : t.back.passed = w.written.length
  back_open : t.back.ended = false
  ready : w.Ready t.system.hub.directory username t.publisher.room
  named : usernameRefusal? username = none

/-- The session is over: what the worker wrote was read, and it is done with everything, in the
publisher's room. The publisher may not have closed its connection yet. -/
structure Dead (username : String) (t : Talk) (w : Worker) : Prop where
  here : t.system.workers[t.worker]? = some w
  tended : w.Tended {}
  healthy : Healthy w.connection.stream
  sound : t.publisher.connection.Sound
  read : t.publisher.connection.backlog = []
  forth_le : t.forth.passed ≤ t.publisher.connection.stream.written.length
  back_eq : t.back.passed = w.written.length
  heard : t.back.ended = true → t.publisher.connection.HasEnded
  isOver : w.Over t.system.hub.directory username t.publisher.room
  named : usernameRefusal? username = none

/-- Between calls, the publisher's room is the session's, and all that the worker wrote has been
read. -/
structure InStep (t : Talk) (w : Worker) : Prop where
  room_eq : t.publisher.room = w.session.room
  brought : t.back.passed = w.written.length
  read : t.publisher.connection.backlog = []

/-- How the two sides stand to each other between calls, whether the session has ended or not. -/
inductive Standing (username : String) (ended : Prop) (t : Talk) (w : Worker) : Prop where
  | live (hgoing : ¬ended) (h : Live username t w)
  | dead (hended : ended) (h : Dead username t w)

/-- What came of a command that asks the worker: it wrote one reply and the answer is what that says,
or it wrote nothing and the answer is that the session has ended. -/
inductive Round (username : String) (room : Option String) (command : Command) (ended : Prop)
    (w w' : Worker) : Except Failure Bool → Prop where
  | confirmed (hgoing : ¬ended) (hwritten : w'.written = w.written ++ Message.ok.bytes)
      (hresponse : (response username room command.message).1.filterMap Deed.byte? =
        Message.ok.bytes) :
      Round username room command ended w w' (.ok (decide (command = .quit)))
  | rejected (text : String) (hgoing : ¬ended)
      (hwritten : w'.written = w.written ++ (Message.err text).bytes)
      (hresponse : (response username room command.message).1.filterMap Deed.byte? =
        (Message.err text).bytes) :
      Round username room command ended w w' (.error (.rejected text))
  | closed (hended : ended) (hwritten : w'.written = w.written) :
      Round username room command ended w w' (.error .closed)

variable {username : String} {t : Talk} {w v : Worker} {command : Command} {x y : Exchange}
  {actions : List Action} {brought : List Arrival} {out : List Arrival → Stream}
  {bytes : List UInt8}

/-! ## While the session goes on -/

/-- The end does not come in from a worker that is ready. -/
theorem not_finished_of_ready (hsince : Exchange.Since out bytes x y v actions brought)
    {d : Directory} {room : Option String} (hready : v.Ready d username room) :
    Arrival.finish ∉ brought := by
  intro hend
  obtain ⟨result, hresult⟩ := hsince.exists_result hend
  rw [hready.serves.owes.result?_eq_none] at hresult
  cases hresult

/-- What becomes of an exchange when the worker is ready. -/
theorem live_of_ready (hname : usernameRefusal? username = none)
    (hw : x.system.workers[x.worker]? = some w) (hhealthy : Healthy w.connection.stream)
    (hforthOpen : x.forth.ended = false)
    (hbackOpen : x.back.ended = false)
    (hsince : Exchange.Since out bytes x y v actions brought) {p : Publisher}
    (hsound : p.connection.Sound) (hopen : p.connection.isOpen = true)
    (hread : p.connection.backlog = []) (hended : p.connection.HasEnded → Arrival.finish ∈ brought)
    (hshut : ∀ arrived, (out arrived).shutdowns = 0) (hunshut : p.connection.stream.shutdowns = 0)
    (hwritten : p.connection.stream.written = bytes) (hforth : bytes.drop y.forth.passed = [])
    (hback : y.back.passed = v.written.length)
    (hready : v.Ready y.system.hub.directory username p.room) :
    Live username (ofExchange y p) v := by
  have hunended := not_finished_of_ready hsince hready
  refine ⟨?_, hsince.tended, hsince.healthy hw hhealthy, hsound, hopen, hread,
    mt hended hunended, hunshut, ?_, ?_, hback, ?_, hready, hname⟩
  · show y.system.workers[y.worker]? = some v
    rw [hsince.worker]
    exact hsince.here
  · show y.forth.passed = p.connection.stream.written.length
    rw [hwritten]
    exact Nat.le_antisymm hsince.forth.now_le (List.drop_eq_nil_iff.mp hforth)
  · refine Bool.eq_false_iff.mpr fun hend ↦ ?_
    rcases hsince.forth.ended_iff.mp hend with hstart | hfinish
    · exact absurd hstart (Bool.eq_false_iff.mp hforthOpen)
    · exact hsince.unfinished hshut hfinish
  · refine Bool.eq_false_iff.mpr fun hend ↦ ?_
    rcases hsince.back.ended_iff.mp hend with hstart | hfinish
    · exact absurd hstart (Bool.eq_false_iff.mp hbackOpen)
    · exact hunended hfinish

/-- What becomes of an exchange when the worker is done. -/
theorem dead_of_over (hname : usernameRefusal? username = none)
    (hw : x.system.workers[x.worker]? = some w) (hhealthy : Healthy w.connection.stream)
    (hsince : Exchange.Since out bytes x y v actions brought) {p : Publisher}
    (hsound : p.connection.Sound) (hread : p.connection.backlog = [])
    (hended : x.back.ended = true ∨ Arrival.finish ∈ brought → p.connection.HasEnded)
    (hwritten : p.connection.stream.written = bytes) (hback : y.back.passed = v.written.length)
    (hover : v.Over y.system.hub.directory username p.room) :
    Dead username (ofExchange y p) v := by
  refine ⟨?_, hsince.tended, hsince.healthy hw hhealthy, hsound, hread, ?_, hback, ?_, hover,
    hname⟩
  · show y.system.workers[y.worker]? = some v
    rw [hsince.worker]
    exact hsince.here
  · show y.forth.passed ≤ p.connection.stream.written.length
    rw [hwritten]
    exact hsince.forth.now_le
  · exact fun hend ↦ hended (hsince.back.ended_iff.mp hend)

/-- Between calls, a live talk stays live, and neither side writes. -/
theorem Live.idle (h : Live username t w) (events : List Event) :
    ∃ w', Live username (t.idle events) w' ∧ w'.written = w.written := by
  let out := t.out fun p ↦ (p, ())
  let y := t.begin.run out events
  have hout : ∀ arrived, (out arrived).written = t.publisher.connection.stream.written :=
    fun _ ↦ rfl
  obtain ⟨v, actions, brought, hsince⟩ :
      ∃ v actions brought, Exchange.Since out _ t.begin y v actions brought :=
    Exchange.exists_since h.here h.tended (Nat.le_of_eq h.forth_eq) (Nat.le_of_eq h.back_eq) hout
      events
  -- the worker gets nothing
  have hforth := hsince.forth.drop_eq
  rw [show t.begin.forth.passed = _ from h.forth_eq, List.drop_length] at hforth
  obtain ⟨hnone, hrest⟩ := List.append_eq_nil_iff.mp hforth.symm
  have hnothing := hsince.forth.plain.eq_nil (hsince.unfinished fun _ ↦ h.unshut) hnone
  obtain ⟨hwritten, hready⟩ := hsince.of_run
    (System.ready_run h.here (hsince.writesSucceed h.here h.healthy) h.named h.ready hnothing)
  rw [← hsince.system] at hready
  -- so it writes nothing, and the publisher gets nothing either
  obtain ⟨hbrought, hback⟩ :=
    hsince.nothing_back (h.back_eq.trans (congrArg List.length hwritten.symm))
  have hsame : t.publisher.feed y.arrived = t.publisher := by
    rw [hsince.arrived, hsince.back.plain.eq_nil (not_finished_of_ready hsince hready) hbrought]
    exact congrArg (fun c ↦ { t.publisher with connection := c }) (Connection.feed_nil _)
  have hidle : t.idle events = ofExchange y t.publisher := by
    show ofExchange y (t.publisher.feed y.arrived) = _
    rw [hsame]
  rw [hidle]
  exact ⟨v, live_of_ready h.named h.here h.healthy h.forth_open h.back_open hsince h.sound h.isOpen
    h.read (fun hend ↦ absurd hend h.unended) (fun _ ↦ h.unshut) h.unshut rfl hrest hback hready,
    hwritten⟩

/-- A command that is not held back asks the worker. -/
theorem Live.asks (h : Live username t w) (hsendable : command.Sendable)
    (hsends : command.isHeldBack = false) :
    Asks (t.out (·.execute command)) t.begin t.publisher.connection command.message w where
  here := h.here
  tended := h.tended
  healthy := h.healthy
  sound := h.sound
  isOpen := h.isOpen
  read := h.read
  unended := h.unended
  written arrived :=
    (Publisher.written_execute (p := t.publisher.feed arrived) hsendable hsends
      (h.sound.healthy.feed arrived) h.isOpen).1
  arrived := rfl
  forth_eq := h.forth_eq
  forth_open := h.forth_open
  back_eq := h.back_eq
  back_open := h.back_open

/-- The stream of a live talk is shut down by no command but a quit. -/
theorem Live.shutdowns_out (h : Live username t w) (hsendable : command.Sendable)
    (hsends : command.isHeldBack = false) (hquit : command ≠ .quit) (arrived : List Arrival) :
    (t.out (·.execute command) arrived).shutdowns = 0 :=
  ((Publisher.written_execute (p := t.publisher.feed arrived) hsendable hsends
    (h.sound.healthy.feed arrived) h.isOpen).2 hquit).trans h.unshut

/-- The worker of a live talk takes its turn with the command. -/
theorem Live.turn (h : Live username t w) (hsendable : command.Sendable)
    (hsends : command.isHeldBack = false) {acts : List Deed} {reply : Message}
    (hgives : Gives username t.publisher.room command acts reply)
    (hsince : Exchange.Since (t.out (·.execute command))
      (t.publisher.connection.stream.written ++ command.message.bytes) t.begin y v actions brought) :
    let rest := (t.publisher.connection.stream.written ++ command.message.bytes).drop y.forth.passed
    v.Turn y.system.hub reply w.written rest
        (rest = [] ∧ command.message.Valid ∧
          System.Sequel y.system.hub.directory username t.publisher.room command.message v)
        (maxPayload < size command.message.payload ∧
          v.Over y.system.hub.directory username t.publisher.room) ∧
      ∃ owed, v.Owes y.system.hub.directory username [] owed := by
  have hasks := h.asks hsendable hsends
  have hcame := came hsince.forth.plain (hsendable.unterminated hsends)
    (hasks.forth_bytes hsince) hsince.forth.last
  have hend (hfinish : Arrival.finish ∈ actions.flatMap (·.arrivals t.worker)) :
      command.message.tag = .quit := by
    by_cases hquit : command = .quit
    · rw [hquit]
      rfl
    · exact absurd hfinish (hsince.unfinished (h.shutdowns_out hsendable hsends hquit))
  rw [hsince.system]
  exact hsince.of_run (System.command_turn h.here (hsince.writesSucceed h.here h.healthy) h.named
    h.ready hcame hend hgives.response_eq hgives.silent)

/-- What an answered command did in a live talk, and how the two sides stand to each other then. -/
theorem Live.round (h : Live username t w) (hsendable : command.Sendable)
    (hsends : command.isHeldBack = false) {events : List Event}
    {result : Except Failure Bool} (hresult : (t.execute command events).2 = some result) :
    ∃ w', Round username t.publisher.room command (maxPayload < size command.message.payload)
        w w' result ∧
      Standing username command.Ends (t.execute command events).1 w' := by
  obtain ⟨acts, reply, hgives⟩ := exists_reply username t.publisher.room command
  have hasks := h.asks hsendable hsends
  let y := t.begin.run (t.out (·.execute command)) events
  let p := t.publisher.feed y.arrived
  obtain ⟨v, actions, brought, hsince⟩ := hasks.since events
  obtain ⟨hturn, -⟩ := h.turn hsendable hsends hgives hsince
  obtain ⟨hsound, hopen, -, hended⟩ := hasks.fed hsince
  obtain ⟨hsound', hopen', hended'⟩ := requested hsound hopen command.message
  obtain ⟨hwritten', hshut'⟩ := written_request hsound.healthy hopen command.message
  have hheard (hend : t.back.ended = true ∨ Arrival.finish ∈ brought) :
      (request p.connection command.message).1.HasEnded :=
    hended'.mpr (hended.mpr (hend.resolve_left (by simp [h.back_open])))
  have hanswer : (p.execute command).2 = some result := hresult
  show ∃ w', _ ∧ Standing username command.Ends (ofExchange y (p.execute command).1) w'
  have hhealthy := hsince.healthy h.here h.healthy
  cases hasks.answered hsince hgives.valid hturn fun hgone ↦ hgone.2.exists_result hhealthy with
  | waits hnone =>
      rw [Publisher.execute_of_none hsendable hsends hnone] at hanswer
      cases hanswer
  | closed hclosed hread hwritten hback hgone =>
      rw [Publisher.execute_of_error hsendable hsends hclosed] at hanswer ⊢
      cases hanswer
      exact ⟨v, .closed hgone.1 hwritten, .dead (.inr hgone.1)
        (dead_of_over h.named h.here h.healthy hsince hsound' hread hheard hwritten' hback hgone.2)⟩
  | replied hverdict hread hwritten hback hnext =>
      obtain ⟨hrest, hvalid, hsequel⟩ := hnext
      have hshort : ¬maxPayload < size command.message.payload := Nat.not_lt_of_le hvalid.2
      -- unless it was a quit, the worker is ready again
      have hlive (hne : command ≠ .quit) {room : Option String}
          (hroom : (response username t.publisher.room command.message).2 = room) :
          Live username (ofExchange y
            { p with connection := (request p.connection command.message).1, room }) v := by
        have hready := hsequel
        rw [System.Sequel, if_neg (mt Command.tag_message_eq_quit hne), hroom] at hready
        exact live_of_ready h.named h.here h.healthy h.forth_open h.back_open hsince hsound' hopen' hread
          (fun hend ↦ hended.mp (hended'.mp hend)) (h.shutdowns_out hsendable hsends hne)
          (hshut'.trans h.unshut) hwritten' hrest hback hready
      rcases hgives.room_eq with ⟨rfl, hroom⟩ | ⟨⟨text, rfl⟩, hroom, hne⟩
      · rw [Publisher.execute_of_ok hsendable hsends hverdict] at hanswer ⊢
        cases hanswer
        refine ⟨v, .confirmed hshort hwritten hgives.bytes, ?_⟩
        by_cases hquit : command = .quit
        · subst hquit
          exact .dead (.inl rfl) (dead_of_over h.named h.here h.healthy hsince hsound'.close
            (backlog_close hread) (fun hend ↦ (hasEnded_close _).mpr (hheard hend))
            ((Worker.written_close _).trans hwritten') hback hsequel)
        · simp only [hquit, if_false]
          exact .live (not_or.mpr ⟨hquit, hshort⟩) (hlive hquit hroom)
      · rw [Publisher.execute_of_error hsendable hsends hverdict] at hanswer ⊢
        cases hanswer
        exact ⟨v, .rejected text hshort hwritten hgives.bytes,
          .live (not_or.mpr ⟨hne, hshort⟩) (hlive hne hroom)⟩

/-- Whatever has happened in a call of a live talk, it can go on to an answer. -/
theorem Live.exists_answer (h : Live username t w) (hsendable : command.Sendable)
    (hsends : command.isHeldBack = false) (events : List Event) :
    ∃ more result, (t.execute command (events ++ more)).2 = some result := by
  obtain ⟨acts, reply, hgives⟩ := exists_reply username t.publisher.room command
  have hasks := h.asks hsendable hsends
  have hanswers := hasks.exists_answer fun y v actions brought hsince ↦ by
    obtain ⟨hturn, owed, howes⟩ := h.turn hsendable hsends hgives hsince
    have hhealthy := hsince.healthy h.here h.healthy
    exact ⟨reply, _, _, hgives.valid, hturn, fun hgone ↦ hgone.2.exists_result hhealthy,
      fun _ ↦ System.exists_rest hsince.here hhealthy h.named howes⟩
  obtain ⟨more, result, hanswer⟩ := hanswers events
  refine ⟨more, ?_⟩
  let y := t.begin.run (t.out (·.execute command)) (events ++ more)
  show ∃ result, ((t.publisher.feed y.arrived).execute command).2 = some result
  rcases result with failure | value
  · rw [Publisher.execute_of_error hsendable hsends hanswer]
    exact ⟨_, rfl⟩
  · rw [Publisher.execute_of_ok hsendable hsends hanswer]
    exact ⟨_, rfl⟩

/-! ## Once the session is over -/

/-- In whatever call, a worker that is done does nothing more, and all there was to read has been
read. -/
theorem Dead.since (h : Dead username t w)
    (hsince : Exchange.Since out bytes t.begin y v actions brought) :
    v.written = w.written ∧ v.Over y.system.hub.directory username t.publisher.room ∧
      y.back.passed = v.written.length ∧ (t.publisher.feed y.arrived).connection.Sound ∧
      (t.publisher.feed y.arrived).connection.backlog = [] ∧
      (t.back.ended = true ∨ Arrival.finish ∈ brought →
        (t.publisher.feed y.arrived).connection.HasEnded) := by
  obtain ⟨hwritten, hover⟩ := hsince.of_run
    (System.over_run h.here (hsince.writesSucceed h.here h.healthy) h.named h.isOver)
  rw [← hsince.system] at hover
  obtain ⟨hbrought, hback⟩ :=
    hsince.nothing_back (h.back_eq.trans (congrArg List.length hwritten.symm))
  have harrived : y.arrived = brought := hsince.arrived
  refine ⟨hwritten, hover, hback, ?_, ?_, ?_⟩
  · rw [harrived]
    exact h.sound.feed hsince.back.plain
  · rw [harrived]
    exact backlog_feed_of_read h.read hbrought
  · rw [harrived]
    rintro (hend | hend)
    · exact List.mem_append_left _ (h.heard hend)
    · exact List.mem_append_right _ hend

/-- Between calls, a talk that is over stays over, and neither side writes. -/
theorem Dead.idle (h : Dead username t w) (events : List Event) :
    ∃ w', Dead username (t.idle events) w' ∧ w'.written = w.written := by
  have hout : ∀ arrived, (t.out (fun p ↦ (p, ())) arrived).written =
      t.publisher.connection.stream.written :=
    fun _ ↦ rfl
  obtain ⟨v, actions, brought, hsince⟩ := Exchange.exists_since (x := t.begin)
    h.here h.tended h.forth_le (Nat.le_of_eq h.back_eq) hout events
  obtain ⟨hwritten, hover, hback, hsound, hread, hheard⟩ := h.since hsince
  exact ⟨v, dead_of_over h.named h.here h.healthy hsince hsound hread hheard rfl hback hover, hwritten⟩

/-- Every call of a talk that is over has its account. -/
theorem Dead.exists_since (h : Dead username t w) (hsendable : command.Sendable) :
    ∃ bytes, (∀ arrived, (t.out (·.execute command) arrived).written = bytes) ∧
      ∀ events, ∃ v actions brought,
        Exchange.Since (t.out (·.execute command)) bytes t.begin
          (t.begin.run (t.out (·.execute command)) events) v actions brought := by
  obtain ⟨more, hout⟩ := t.publisher.exists_written_execute hsendable h.sound.healthy
  refine ⟨_, hout, Exchange.exists_since h.here h.tended ?_ (Nat.le_of_eq h.back_eq) hout⟩
  rw [List.length_append]
  exact Nat.le_trans h.forth_le (Nat.le_add_right _ _)

/-- A command that is answered in a talk that is over finds it over. -/
theorem Dead.round (h : Dead username t w) (hsendable : command.Sendable)
    (hsends : command.isHeldBack = false) {events : List Event}
    {result : Except Failure Bool} (hresult : (t.execute command events).2 = some result) :
    ∃ w', result = .error .closed ∧ w'.written = w.written ∧
      Dead username (t.execute command events).1 w' := by
  obtain ⟨bytes, hout, haccount⟩ := h.exists_since hsendable
  obtain ⟨v, actions, brought, hsince⟩ := haccount events
  obtain ⟨hwritten, hover, hback, hsound, hread, hheard⟩ := h.since hsince
  obtain ⟨hsound', hread', hended', hroom, hanswer⟩ :=
    Publisher.execute_of_read hsendable hsound hread
  refine ⟨v, ?_, hwritten, dead_of_over h.named h.here h.healthy hsince hsound' hread'
    (fun hend ↦ hended'.mpr (hheard hend)) (hout _) hback (hroom ▸ hover)⟩
  rcases (hanswer hsends).1 with hnone | hclosed
  · cases hresult.symm.trans hnone
  · exact Option.some.inj (hresult.symm.trans hclosed)

/-- Whatever has happened in a call of a talk that is over, it can go on to an answer. -/
theorem Dead.exists_answer (h : Dead username t w) (hsendable : command.Sendable)
    (hsends : command.isHeldBack = false) (events : List Event) :
    ∃ more result, (t.execute command (events ++ more)).2 = some result := by
  let out := t.out (·.execute command)
  obtain ⟨bytes, -, haccount⟩ := h.exists_since hsendable
  obtain ⟨v, actions, brought, hsince⟩ := haccount events
  obtain ⟨-, ⟨result, hserves⟩, -⟩ := h.since hsince
  have hsettles : (t.begin.run out events).system.Settles t.worker :=
    System.exists_rest hsince.here (hsince.healthy h.here h.healthy) h.named
      (hserves []).owes
  -- the worker ends, and then the end of its stream comes in
  have hworker : (t.begin.run out events).worker = t.worker := hsince.worker
  obtain ⟨more, -, u, hu, hdrained⟩ := Exchange.exists_drained out
    (by rw [hworker]; exact hsince.here) (hworker ▸ hsettles)
  rw [← Exchange.run_append] at hu hdrained
  obtain ⟨u', actions', brought', hsince'⟩ := haccount (events ++ more)
  obtain rfl : u' = u := by
    rw [hworker] at hu
    exact Option.some.inj (hsince'.here.symm.trans hu)
  obtain ⟨-, hover, -, hsound, hread, hheard⟩ := h.since hsince'
  obtain ⟨given, hgiven⟩ := hover.exists_result (hsince'.healthy h.here h.healthy) hdrained.stuck
  have hended := hheard (hsince'.back.ended_iff.mp (hsince'.ended hdrained.brought hgiven))
  obtain ⟨-, -, -, -, hanswer⟩ := Publisher.execute_of_read hsendable hsound hread
  exact ⟨more, _, (hanswer hsends).2 hended⟩

/-! ## Either way -/

/-- A command that is held back answers at once, and otherwise it is as if there had been no call. -/
theorem execute_of_heldBack (t : Talk) (hheld : command.isHeldBack = true) (events : List Event) :
    t.execute command events =
      (t.idle events, some (.error (.protocol .embeddedTerminator))) := by
  have hout : t.out (·.execute command) = t.out fun p ↦ (p, ()) := by
    funext arrived
    rw [Talk.out, Publisher.execute_of_heldBack _ hheld]
    rfl
  rw [execute, idle, call, call, hout, Publisher.execute_of_heldBack _ hheld]

variable {ended : Prop}

theorem Standing.here (h : Standing username ended t w) :
    t.system.workers[t.worker]? = some w := by
  cases h with
  | live _ h => exact h.here
  | dead _ h => exact h.here

/-- However the two sides stand, they are in step. -/
theorem Standing.inStep (h : Standing username ended t w) : InStep t w := by
  cases h with
  | live _ h => exact ⟨h.ready.room_eq.symm, h.back_eq, h.read⟩
  | dead _ h => exact ⟨h.isOver.room_eq.symm, h.back_eq, h.read⟩

/-- Nothing changes between calls. -/
theorem Standing.idle (h : Standing username ended t w) (events : List Event) :
    ∃ w', Standing username ended (t.idle events) w' ∧ w'.written = w.written := by
  cases h with
  | live hgoing h =>
      obtain ⟨w', hlive, hwritten⟩ := h.idle events
      exact ⟨w', .live hgoing hlive, hwritten⟩
  | dead hended h =>
      obtain ⟨w', hdead, hwritten⟩ := h.idle events
      exact ⟨w', .dead hended hdead, hwritten⟩

/-- What an answered command did, and how the two sides stand to each other then. -/
theorem Standing.round (h : Standing username ended t w) (hsendable : command.Sendable)
    (hsends : command.isHeldBack = false) {events : List Event} {result : Except Failure Bool}
    (hresult : (t.execute command events).2 = some result) :
    ∃ w', Round username t.publisher.room command
        (ended ∨ maxPayload < size command.message.payload) w w' result ∧
      Standing username (ended ∨ command.Ends) (t.execute command events).1 w' := by
  cases h with
  | live hgoing h =>
      obtain ⟨w', hround, hstanding⟩ := h.round hsendable hsends hresult
      refine ⟨w', ?_, ?_⟩
      · rwa [or_iff_right hgoing]
      · rwa [or_iff_right hgoing]
  | dead hended h =>
      obtain ⟨w', rfl, hwritten, hdead⟩ := h.round hsendable hsends hresult
      exact ⟨w', .closed (.inl hended) hwritten, .dead (.inl hended) hdead⟩

/-- Whatever has happened in a call, it can go on to an answer. -/
theorem Standing.exists_answer (h : Standing username ended t w) (hsendable : command.Sendable)
    (hsends : command.isHeldBack = false) (events : List Event) :
    ∃ more result, (t.execute command (events ++ more)).2 = some result := by
  cases h with
  | live _ h => exact h.exists_answer hsendable hsends events
  | dead _ h => exact h.exists_answer hsendable hsends events

end Talk

end ChatRelay.Server
