import ChatRelay.Proofs.Talks

/-!
# A publisher and its worker agree

A publisher logs in over a link to a new worker and then takes input lines one after the other, each
once the one before is answered. `Opening.login_cases` says how the login ends on both sides, and
`Conversation.standing` that the two sides stand to each other as they should after whatever lines.
`Opening.sides_agree` is what follows: every answer is what the worker wrote in that very call, and
between calls the publisher's room is the session's, and no reply is left unread.
-/

namespace ChatRelay.Server

open Client Connection Text Transport Wire

/-! ## Logging in -/

/-- A connection that was just opened and the worker at the other end of it. Nothing has been
written on either side, and writes succeed on both. -/
structure Opening (c : Connection) (s : System) (k : Nat) (w : Worker) : Prop where
  here : s.workers[k]? = some w
  fresh : w.Fresh
  silent : w.connection.stream.arrivals = []
  healthy : Healthy w.connection.stream
  isOpen : c.isOpen = true
  buffer : c.buffer = []
  arrivals : c.stream.arrivals = []
  written : c.stream.written = []
  shutdowns : c.stream.shutdowns = 0
  sound : Healthy c.stream

/-- The client's stream in a login, after what has arrived. -/
def loginOut (c : Connection) (username : String) (arrived : List Arrival) : Stream :=
  (Publisher.login (c.feed arrived) username).1.stream

/-- Log in over a link to this worker while these events happen; the answer is none if they do not
bring one. -/
def login (c : Connection) (s : System) (k : Nat) (username : String) (events : List Event) :
    Exchange × Connection × Answer Publisher :=
  let y := Exchange.run (loginOut c username) { worker := k, system := s } events
  (y, Publisher.login (c.feed y.arrived) username)

variable {c : Connection} {s : System} {k : Nat} {w v : Worker} {username : String}

/-- Whatever comes in, a login writes its request's line and does not shut the stream down. -/
theorem Opening.written_loginOut (h : Opening c s k w) (username : String)
    (arrived : List Arrival) :
    (loginOut c username arrived).written =
        c.stream.written ++ Message.bytes ⟨.slogin, username⟩ ∧
      (loginOut c username arrived).shutdowns = 0 := by
  obtain ⟨hwritten, hshut⟩ :=
    written_request (h.sound.feed arrived) h.isOpen ⟨.slogin, username⟩
  rw [loginOut, Publisher.login_eq]
  exact ⟨hwritten, hshut.trans h.shutdowns⟩

/-- A login asks the worker. -/
theorem Opening.asks (h : Opening c s k w) (username : String) :
    Asks (loginOut c username) { worker := k, system := s } c ⟨.slogin, username⟩ w where
  here := h.here
  tended := h.fresh.tended
  healthy := h.healthy
  sound := ⟨h.sound, by rw [h.arrivals]; trivial⟩
  isOpen := h.isOpen
  read := by rw [backlog, h.buffer, Stream.unread, h.arrivals]; rfl
  unended := not_hasEnded_of_nil h.arrivals
  written arrived := (h.written_loginOut username arrived).1
  arrived := rfl
  forth_eq := by rw [h.written]; rfl
  forth_open := rfl
  back_eq := (congrArg List.length h.fresh.written).symm
  back_open := rfl

/-- What a login has come to once its reply is out: the worker confirms a name that is not refused
and is ready, or it gives a reason and the session stays without a name. -/
def Admitted (d : Directory) (username : String) (reply : Message) (rest : List UInt8)
    (v : Worker) : Prop :=
  (reply = .ok ∧ usernameRefusal? username = none ∧ rest = [] ∧ v.Ready d username none) ∨
    (∃ text, reply = .err text) ∧ v.session.username = none

/-- A worker's turn is a turn for whatever follows from what holds after the reply. -/
theorem Worker.Turn.imp {hub : Hub} {reply : Message} {start rest : List UInt8}
    {next next' gone gone' : Prop} (h : v.Turn hub reply start rest next gone)
    (hnext : next → next') (hgone : gone → gone') : v.Turn hub reply start rest next' gone' := by
  cases h with
  | waiting hrest hwritten hresult => exact .waiting hrest hwritten hresult
  | replying left hwritten hended hstuck hafter =>
      exact .replying left hwritten hended hstuck fun hleft ↦ hnext (hafter hleft)
  | refusing hwritten hover => exact .refusing hwritten (hgone hover)

/-- The worker takes its turn with a login, and comes to rest once the whole line is there. -/
theorem Opening.turn (h : Opening c s k w) (hfree : hasTerminator username = false) {y : Exchange}
    {actions : List Action} {brought : List Arrival}
    (hsince : Exchange.Since (loginOut c username)
      (c.stream.written ++ Message.bytes ⟨.slogin, username⟩) { worker := k, system := s } y v
      actions brought) :
    let rest := (c.stream.written ++ Message.bytes ⟨.slogin, username⟩).drop y.forth.passed
    ∃ reply, Message.Valid reply ∧
      v.Turn y.system.hub reply w.written rest
        (Admitted y.system.hub.directory username reply rest v) False ∧
      (rest = [] → y.system.Settles k) := by
  intro rest
  have hasks := h.asks username
  have hunfinished := hsince.unfinished fun arrived ↦ (h.written_loginOut username arrived).2
  have hbytes := hasks.forth_bytes hsince
  have hsucceed := hsince.writesSucceed h.here h.healthy
  by_cases haccepted : size username ≤ maxPayload ∧ usernameRefusal? username = none
  · obtain ⟨hshort, hname⟩ := haccepted
    have hcame : Came ⟨.slogin, username⟩ (actions.flatMap (·.arrivals k)) rest :=
      came hsince.forth.plain hfree hbytes fun hend ↦ absurd hend hunfinished
    obtain ⟨hturn, howes⟩ := hsince.of_run
      (System.accepted_turn h.here hsucceed hname h.fresh h.silent hshort hcame hunfinished)
    rw [← hsince.system] at hturn howes
    refine ⟨.ok, by decide, hturn.imp (fun hnext ↦ .inl ⟨rfl, hname, hnext⟩) id, fun hrest ↦ ?_⟩
    obtain ⟨owed, howed⟩ := howes hrest
    exact System.exists_rest hsince.here (hsince.healthy h.here h.healthy) hname howed
  · obtain ⟨refusal, hrefused⟩ :=
      System.refused_turn h.here hsucceed h.fresh h.silent hsince.forth.plain hfree hbytes
        hunfinished fun hshort hname ↦ haccepted ⟨hshort, hname⟩
    obtain ⟨hturn, hsettles⟩ := hsince.of_run hrefused
    rw [← hsince.system] at hturn hsettles
    exact ⟨refusal.reply, refusal.reply_valid,
      hturn.imp (fun hname ↦ .inr ⟨⟨_, rfl⟩, hname⟩) id, hsettles⟩

/-- How a login ends on both sides. -/
theorem Opening.login_cases (h : Opening c s k w) (hfree : hasTerminator username = false)
    {events : List Event} {result : Except Failure Publisher}
    (hresult : (login c s k username events).2.2 = some result) :
    let y := (login c s k username events).1
    ∃ v, y.system.workers[k]? = some v ∧ y.back.passed = v.written.length ∧
      (login c s k username events).2.1.backlog = [] ∧
      ((∃ p, result = .ok p ∧ v.written = Message.ok.bytes ∧
          Talk.Live username (.ofExchange y p) v) ∨
        ∃ text, result = .error (.rejected text) ∧ v.written = (Message.err text).bytes ∧
          v.session.username = none) := by
  intro y
  have hasks := h.asks username
  obtain ⟨v, actions, brought, hsince⟩ :
      ∃ v actions brought, Exchange.Since _ _ _ y v actions brought := hasks.since events
  obtain ⟨reply, hvalid, hturn, -⟩ := h.turn hfree hsince
  obtain ⟨hsound, hopen, -, hended⟩ := hasks.fed hsince
  obtain ⟨hsound', hopen', hended'⟩ := requested hsound hopen ⟨.slogin, username⟩
  obtain ⟨hwritten', hshut'⟩ := written_request hsound.healthy hopen ⟨.slogin, username⟩
  have hanswer : (Publisher.login (c.feed y.arrived) username).2 = some result := hresult
  rw [Publisher.login_eq] at hanswer
  dsimp only at hanswer
  cases hasks.answered hsince hvalid hturn False.elim with
  | waits hnone =>
      rw [hnone] at hanswer
      cases hanswer
  | closed _ _ _ _ hgone => exact hgone.elim
  | replied hverdict hread hwritten hback hnext =>
      have hstart : w.written = [] := h.fresh.written
      rw [hstart, List.nil_append] at hwritten
      rw [hverdict] at hanswer
      refine ⟨v, hsince.here, hback, ?_, ?_⟩
      · show (Publisher.login (c.feed y.arrived) username).1.backlog = []
        rw [Publisher.login_eq]
        exact hread
      rcases hnext with ⟨rfl, hname, hrest, hready⟩ | ⟨⟨text, rfl⟩, hname⟩
      · cases hanswer
        exact .inl ⟨_, rfl, hwritten, Talk.live_of_ready hname h.here h.healthy rfl rfl hsince
          hsound' hopen' hread (fun hend ↦ hended.mp (hended'.mp hend))
          (fun arrived ↦ (h.written_loginOut username arrived).2) (hshut'.trans h.shutdowns)
          hwritten' hrest hback hready⟩
      · cases hanswer
        exact .inr ⟨text, rfl, hwritten, hname⟩

/-- Whatever has happened in a login, it can go on to an answer. -/
theorem Opening.exists_answer (h : Opening c s k w) (hfree : hasTerminator username = false)
    (events : List Event) :
    ∃ more result, (login c s k username (events ++ more)).2.2 = some result := by
  have hanswers := (h.asks username).exists_answer fun y v actions brought hsince ↦ by
    obtain ⟨reply, hvalid, hturn, hsettles⟩ := h.turn hfree hsince
    exact ⟨reply, _, False, hvalid, hturn, False.elim, hsettles⟩
  obtain ⟨more, result, hanswer⟩ := hanswers events
  let y := Exchange.run (loginOut c username) { worker := k, system := s } (events ++ more)
  refine ⟨more, ?_⟩
  show ∃ result, (Publisher.login (c.feed y.arrived) username).2 = some result
  rw [Publisher.login_eq]
  exact ⟨_, congrArg (Option.map _) hanswer⟩

/-! ## Line after line -/

/-- The commands that these input lines stand for. -/
def commands (lines : List String) : List Command :=
  lines.filterMap fun line ↦ (Command.parse line).toOption

/-- A publisher logged in and took these input lines. Time may pass between the calls, a line that
stands for no command is passed over, and each call is answered before the next. -/
inductive Conversation (c : Connection) (s : System) (k : Nat) (username : String) :
    List String → Talk → Prop where
  | loggedIn (events : List Event) (p : Publisher)
      (hanswer : (login c s k username events).2.2 = some (.ok p)) :
      Conversation c s k username [] (.ofExchange (login c s k username events).1 p)
  | waited {lines : List String} {t : Talk} (h : Conversation c s k username lines t)
      (events : List Event) : Conversation c s k username lines (t.idle events)
  | misread {lines : List String} {t : Talk} (h : Conversation c s k username lines t)
      (line : String) (error : CommandError) (hparse : Command.parse line = .error error) :
      Conversation c s k username (lines ++ [line]) t
  | answered {lines : List String} {t : Talk} (h : Conversation c s k username lines t)
      (line : String) (command : Command) (hparse : Command.parse line = .ok command)
      (events : List Event) (result : Except Failure Bool)
      (hanswer : (t.execute command events).2 = some result) :
      Conversation c s k username (lines ++ [line]) (t.execute command events).1

/-- One of these lines ended the session. -/
def Closing (lines : List String) : Prop :=
  ∃ command ∈ commands lines, command.Ends

variable {lines : List String} {t : Talk}

theorem not_closing_nil : ¬Closing [] := by
  simp [Closing, commands]

theorem closing_append_of_error {line : String} {error : CommandError}
    (h : Command.parse line = .error error) : Closing (lines ++ [line]) ↔ Closing lines := by
  simp [Closing, commands, h, Except.toOption]

theorem closing_append_of_ok {line : String} {command : Command}
    (h : Command.parse line = .ok command) :
    Closing (lines ++ [line]) ↔ Closing lines ∨ command.Ends := by
  simp [Closing, commands, h, Except.toOption, or_and_right, exists_or]

/-- The link of a conversation stays with its worker. -/
theorem Conversation.worker_eq (h : Conversation c s k username lines t) : t.worker = k := by
  induction h with
  | loggedIn events p => exact Exchange.worker_run _ _ events
  | waited h events ih => exact (Exchange.worker_run _ _ events).trans ih
  | misread h line error hparse ih => exact ih
  | answered h line command hparse events result hanswer ih =>
      exact (Exchange.worker_run _ _ events).trans ih

/-- After whatever lines, the two sides stand to each other as they should. -/
theorem Conversation.standing (hopening : Opening c s k w)
    (hfree : hasTerminator username = false) (h : Conversation c s k username lines t) :
    ∃ v, t.Standing username (Closing lines) v := by
  induction h with
  | loggedIn events p hanswer =>
      obtain ⟨v, -, -, -, ⟨_, hok, -, hlive⟩ | ⟨text, herror, -⟩⟩ :=
        hopening.login_cases hfree hanswer
      · cases hok
        exact ⟨v, .live not_closing_nil hlive⟩
      · cases herror
  | waited h events ih =>
      obtain ⟨v, hstanding⟩ := ih
      obtain ⟨v', hstanding', -⟩ := hstanding.idle events
      exact ⟨v', hstanding'⟩
  | misread h line error hparse ih =>
      rw [closing_append_of_error hparse]
      exact ih
  | answered h line command hparse events result hanswer ih =>
      obtain ⟨v, hstanding⟩ := ih
      have hsendable := Command.parse_sendable hparse
      rw [closing_append_of_ok hparse]
      cases hheld : command.isHeldBack with
      | true =>
          obtain ⟨v', hstanding', -⟩ := hstanding.idle events
          rw [Talk.execute_of_heldBack _ hheld, or_iff_left (hsendable.not_ends hheld)]
          exact ⟨v', hstanding'⟩
      | false =>
          obtain ⟨v', -, hstanding'⟩ := hstanding.round hsendable hheld hanswer
          exact ⟨v', hstanding'⟩

/-! ## Agreement -/

/-- A result says what the worker wrote in the call: it is a success exactly if that is the
confirmation, a rejection exactly if it gives the same reason, and a disconnect exactly if it is
nothing. -/
structure Tells {α : Type} (result : Except Failure α) (wrote : List UInt8) : Prop where
  ok_iff : (∃ value, result = .ok value) ↔ wrote = Message.ok.bytes
  rejected_iff : ∀ text, result = .error (.rejected text) ↔ wrote = (Message.err text).bytes
  disconnect_iff : (∃ failure, result = .error failure ∧ failure.isDisconnect = true) ↔ wrote = []

theorem ok_bytes_ne (text : String) : Message.ok.bytes ≠ (Message.err text).bytes := by
  intro h
  cases Message.bytes_injective h

theorem tells_ok {α : Type} (value : α) : Tells (.ok value) Message.ok.bytes where
  ok_iff := ⟨fun _ ↦ rfl, fun _ ↦ ⟨value, rfl⟩⟩
  rejected_iff text := ⟨nofun, fun h ↦ absurd h (ok_bytes_ne text)⟩
  disconnect_iff := ⟨nofun, fun h ↦ absurd h (Message.bytes_ne_nil _)⟩

theorem tells_rejected {α : Type} (text : String) :
    Tells (.error (.rejected text) : Except Failure α) (Message.err text).bytes where
  ok_iff := ⟨nofun, fun h ↦ absurd h.symm (ok_bytes_ne text)⟩
  rejected_iff other := by
    refine ⟨fun h ↦ ?_, fun h ↦ ?_⟩
    · cases h
      rfl
    · cases Message.bytes_injective h
      rfl
  disconnect_iff := by
    refine ⟨?_, fun h ↦ absurd h (Message.bytes_ne_nil _)⟩
    rintro ⟨failure, herror, hdisconnect⟩
    cases herror
    cases hdisconnect

theorem tells_closed {α : Type} : Tells (.error .closed : Except Failure α) [] where
  ok_iff := ⟨nofun, fun h ↦ absurd h.symm (Message.bytes_ne_nil _)⟩
  rejected_iff _ := ⟨nofun, fun h ↦ absurd h.symm (Message.bytes_ne_nil _)⟩
  disconnect_iff := ⟨fun _ ↦ rfl, fun _ ↦ ⟨.closed, rfl, rfl⟩⟩

/-- What the worker wrote in a call is what the protocol says of the command, unless the session has
ended. -/
theorem Talk.Round.tells {room : Option String} {command : Command} {ended : Prop}
    {w w' : Worker} {result : Except Failure Bool}
    (h : Talk.Round username room command ended w w' result) :
    ∃ wrote, w'.written = w.written ++ wrote ∧ Tells result wrote ∧ (wrote = [] ↔ ended) ∧
      (¬ended → wrote = (response username room command.message).1.filterMap Deed.byte?) := by
  cases h with
  | confirmed hgoing hwritten hresponse =>
      exact ⟨_, hwritten, tells_ok _,
        iff_of_false (Message.bytes_ne_nil _) hgoing, fun _ ↦ hresponse.symm⟩
  | rejected text hgoing hwritten hresponse =>
      exact ⟨_, hwritten, tells_rejected text,
        iff_of_false (Message.bytes_ne_nil _) hgoing, fun _ ↦ hresponse.symm⟩
  | closed hended hwritten =>
      exact ⟨[], by rw [hwritten, List.append_nil], tells_closed, iff_of_true rfl hended,
        fun hgoing ↦ absurd hended hgoing⟩

theorem eq_ok_of_toOption {ε α : Type} {result : Except ε α} {value : α}
    (h : result.toOption = some value) : result = .ok value := by
  cases result with
  | error => cases h
  | ok => exact congrArg Except.ok (Option.some.inj h)

/-- The two sides stay in agreement. A client logs in over a new connection with a username that
holds no terminator, and takes input lines one after the other; the link carries all bytes, in
whatever pieces and whenever, and the end behind them. Whatever else happens to the system:

* the login succeeds exactly if the worker accepts it, and is rejected with the reason that the
  worker wrote otherwise;
* whenever no call is under way, the publisher's room is the session's, and it has read all that
  the worker wrote;
* a command that is held back is refused at once. It is as if there had been no call: nothing is
  sent, and both rooms stay;
* what any other command is answered tells what the worker wrote in that very call. That is the
  protocol's response to the command, or nothing exactly if an earlier command ended the session or
  the worker cannot accept the line of this one;
* every call can go on to its answer. -/
theorem Opening.sides_agree (h : Opening c s k w) (hfree : hasTerminator username = false) :
    (∀ events,
      (∀ result, (login c s k username events).2.2 = some result →
        let y := (login c s k username events).1
        ∃ v, y.system.workers[k]? = some v ∧ y.back.passed = v.written.length ∧
          (login c s k username events).2.1.backlog = [] ∧ Tells result v.written ∧
          v.written ≠ [] ∧
          ((∃ p, result = .ok p) ↔ v.session.username = some username)) ∧
      ∃ more result, (login c s k username (events ++ more)).2.2 = some result) ∧
    ∀ lines t, Conversation c s k username lines t →
      ∃ v, t.system.workers[k]? = some v ∧ t.InStep v ∧
        ∀ line command, Command.parse line = .ok command → ∀ events,
          (command.isHeldBack = true →
            t.execute command events =
                (t.idle events, some (.error (.protocol .embeddedTerminator))) ∧
              (t.idle events).publisher.connection.stream.written =
                t.publisher.connection.stream.written ∧
              (t.idle events).publisher.room = t.publisher.room ∧
              ∃ v', (t.idle events).system.workers[k]? = some v' ∧ v'.written = v.written ∧
                v'.session.room = v.session.room) ∧
          (command.isHeldBack = false →
            (∀ result, (t.execute command events).2 = some result →
              ∃ v' wrote, (t.execute command events).1.system.workers[k]? = some v' ∧
                (t.execute command events).1.InStep v' ∧ v'.written = v.written ++ wrote ∧
                Tells result wrote ∧
                (wrote = [] ↔
                  Closing lines ∨ maxPayload < size command.message.payload) ∧
                (wrote ≠ [] → wrote =
                  (response username v.session.room command.message).1.filterMap Deed.byte?)) ∧
            ∃ more result, (t.execute command (events ++ more)).2 = some result) := by
  refine ⟨fun events ↦ ⟨fun result hresult ↦ ?_, h.exists_answer hfree events⟩, ?_⟩
  · obtain ⟨v, hv, hback, hread, hcases⟩ := h.login_cases hfree hresult
    refine ⟨v, hv, hback, hread, ?_⟩
    rcases hcases with ⟨p, rfl, hwritten, hlive⟩ | ⟨text, rfl, hwritten, hname⟩
    · rw [hwritten]
      exact ⟨tells_ok p, Message.bytes_ne_nil _,
        iff_of_true ⟨p, rfl⟩ hlive.ready.serves.owes.username_eq⟩
    · rw [hwritten, hname]
      refine ⟨tells_rejected text, Message.bytes_ne_nil _, iff_of_false ?_ ?_⟩
      · rintro ⟨p, hok⟩
        cases hok
      · exact Option.some_ne_none username ∘ Eq.symm
  · intro lines t hconversation
    have hworker := hconversation.worker_eq
    obtain ⟨v, hstanding⟩ := hconversation.standing h hfree
    refine ⟨v, hworker ▸ hstanding.here, hstanding.inStep, fun line command hparse events ↦ ?_⟩
    have hsendable := Command.parse_sendable hparse
    refine ⟨fun hheld ↦ ?_, fun hsends ↦ ⟨fun result hresult ↦ ?_, ?_⟩⟩
    · obtain ⟨v', hstanding', hwritten⟩ := hstanding.idle events
      have hv' := hstanding'.here
      rw [(hconversation.waited events).worker_eq] at hv'
      refine ⟨t.execute_of_heldBack hheld events, rfl, rfl, v', hv', hwritten, ?_⟩
      rw [← hstanding'.inStep.room_eq, ← hstanding.inStep.room_eq]
      rfl
    · obtain ⟨v', hround, hstanding'⟩ := hstanding.round hsendable hsends hresult
      have hv' := hstanding'.here
      rw [(hconversation.answered line command hparse events result hresult).worker_eq] at hv'
      obtain ⟨wrote, hwritten, htells, hended, hresponse⟩ := hround.tells
      rw [hstanding.inStep.room_eq] at hresponse
      exact ⟨v', wrote, hv', hstanding'.inStep, hwritten, htells, hended,
        fun hsome ↦ hresponse (mt hended.mpr hsome)⟩
    · exact hstanding.exists_answer hsendable hsends events

/-- What the link carries and the worker does in a call, if nothing else happens. -/
def promptly : List Event :=
  .forth 99 :: List.replicate 12 (.other (.work 0)) ++ [.back 99]

/-- A publisher is in its room after a login and a join. There a text over two lines is refused at
once, and a quit succeeds in the end. -/
theorem Opening.sides_agree_in_den :
    let c : Connection := { stream := {} }
    let s := System.connect {} (fun _ ↦ none) true
    ∃ t v, Conversation c s 0 "alice" ["/join den"] t ∧ t.system.workers[0]? = some v ∧
      v.session.room = some "den" ∧
      (∀ events, (t.execute (.sendAll "a\nb") events).2 =
        some (.error (.protocol .embeddedTerminator))) ∧
      ∃ events value, (t.execute .quit events).2 = some (.ok value) := by
  intro c s
  let w : Worker :=
    { place := 0, session := { id := 1 }, connection := { stream := {} }, counted := true }
  have hhealthy : Healthy ({} : Stream) := ⟨rfl, rfl, fun _ hzero ↦ nomatch hzero⟩
  have hopening : Opening c s 0 w :=
    ⟨rfl, ⟨rfl, rfl, rfl, rfl, rfl, rfl⟩, rfl, hhealthy, rfl, rfl, rfl, rfl, rfl, hhealthy⟩
  obtain ⟨-, hlines⟩ := hopening.sides_agree (by decide : hasTerminator "alice" = false)
  let y := (login c s 0 "alice" promptly).1
  let p : Publisher :=
    { connection := (request (c.feed y.arrived) ⟨.slogin, "alice"⟩).1, username := "alice" }
  have hlogin : (login c s 0 "alice" promptly).2.2 = some (.ok p) := by
    have hasked : (request (c.feed y.arrived) ⟨.slogin, "alice"⟩).2.map Except.toOption =
        some (some ()) := by
      decide +kernel
    obtain ⟨result, hresult, hok⟩ := Option.map_eq_some_iff.mp hasked
    show (Publisher.login (c.feed y.arrived) "alice").2 = _
    rw [Publisher.login_eq, hresult, eq_ok_of_toOption hok]
    rfl
  have hjoined : ((Talk.ofExchange y p).execute (.join "den") promptly).2.map Except.toOption =
      some (some false) := by
    decide +kernel
  obtain ⟨result, hresult, -⟩ := Option.map_eq_some_iff.mp hjoined
  have hjoin : Command.parse "/join den" = .ok (.join "den") := eq_ok_of_toOption (by decide)
  have hquit : Command.parse "/quit" = .ok .quit := eq_ok_of_toOption (by decide)
  let t := ((Talk.ofExchange y p).execute (.join "den") promptly).1
  have hconversation : Conversation c s 0 "alice" ["/join den"] t :=
    .answered (.loggedIn promptly p hlogin) "/join den" (.join "den") hjoin promptly result hresult
  have hroom : t.publisher.room = some "den" := by
    decide +kernel
  obtain ⟨v, hv, hinStep, hcalls⟩ := hlines _ t hconversation
  refine ⟨t, v, hconversation, hv, hinStep.room_eq.symm.trans hroom, fun events ↦ ?_, ?_⟩
  · obtain ⟨hheld, -⟩ := hcalls "a\nb" (.sendAll "a\nb") (eq_ok_of_toOption (by decide)) events
    rw [(hheld rfl).1]
  · -- the call goes on to an answer, and the session has not ended
    obtain ⟨-, hsends⟩ := hcalls "/quit" .quit hquit []
    obtain ⟨-, events, result, hresult⟩ := hsends rfl
    obtain ⟨-, hsends⟩ := hcalls "/quit" .quit hquit ([] ++ events)
    obtain ⟨-, wrote, -, -, -, htells, hended, hresponse⟩ := (hsends rfl).1 result hresult
    have hgoing : ¬(Closing ([] ++ ["/join den"]) ∨
        maxPayload < size Command.quit.message.payload) := by
      rw [closing_append_of_ok hjoin, not_or, not_or]
      exact ⟨⟨not_closing_nil, by decide⟩, by decide⟩
    obtain ⟨value, rfl⟩ := htells.ok_iff.mpr (hresponse (mt hended.mp hgoing))
    exact ⟨_, value, hresult⟩

end ChatRelay.Server
