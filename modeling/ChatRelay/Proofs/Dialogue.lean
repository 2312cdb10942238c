import ChatRelay.Proofs.Phases
import ChatRelay.Proofs.Transcript

/-!
# What a publisher's session does

`dialogue` is the session as the protocol has it: a fold over the messages with the current room as
its state, which gives what is done and how the session ends. `Worker.Owes` says what a worker still
has to do of it from each control point, and `Step.owes` that a step does the next of that and
nothing else.
-/

namespace ChatRelay.Server

open Transport Wire Text

/-- What a publisher's session does, as it shows from outside. -/
inductive Deed where
  /-- The room with this name was found or made. -/
  | opened (room : String)
  /-- A text was broadcast. -/
  | broadcast (delivery : Delivery)
  /-- A byte was written. -/
  | wrote (byte : UInt8)
  deriving DecidableEq

/-- A message written whole. -/
def sends (m : Message) : List Deed :=
  m.bytes.map .wrote

/-- What is done on a command, by the publisher with this name in this room, and the room
afterwards. -/
def response (username : String) (room : Option String) (m : Message) : List Deed × Option String :=
  match m.tag with
  | .join =>
      if m.payload = "" then (sends (.err "Missing room name"), room)
      else if ':' ∈ m.payload.toList then (sends (.err "Room name may not contain ':'"), room)
      else (.opened m.payload :: sends .ok, some m.payload)
  | .sendall =>
      match room with
      | none => (sends (.err "Not in a room"), none)
      | some name =>
          if size name + size username + size m.payload + 2 > 255 then
            (sends (.err "Message too long"), some name)
          else (.broadcast ⟨name, username, m.payload⟩ :: sends .ok, some name)
  | .leave => (sends .ok, none)
  | .quit => (sends .ok, room)
  | .slogin | .rlogin | .ok | .err | .delivery => (sends (.err "Invalid command"), room)

/-- These deeds, and then the rest. -/
def andThen (deeds : List Deed) (rest : List Deed × Option Result) : List Deed × Option Result :=
  (deeds ++ rest.1, rest.2)

@[simp] theorem andThen_nil (rest : List Deed × Option Result) : andThen [] rest = rest :=
  rfl

theorem andThen_append (first second : List Deed) (rest : List Deed × Option Result) :
    andThen (first ++ second) rest = andThen first (andThen second rest) := by
  simp [andThen]

/-- What is done on these messages in this room, and how the session ends: by a quit, or by the
failure that comes after them; none if nothing comes after them. -/
def dialogue (username : String) :
    Option String → List Message → Option Failure → List Deed × Option Result
  | _, [], none => ([], none)
  | _, [], some failure => ([], some (if failure.isDisconnect then .ok () else .error failure))
  | room, m :: later, ending =>
      if m.tag = .quit then ((response username room m).1, some (.ok ()))
      else
        andThen (response username room m).1
          (dialogue username (response username room m).2 later ending)

theorem dialogue_of_ne_quit {m : Message} (hne : m.tag ≠ .quit) (username : String)
    (room : Option String) (later : List Message) (ending : Option Failure) :
    dialogue username room (m :: later) ending =
      andThen (response username room m).1
        (dialogue username (response username room m).2 later ending) := by
  rw [dialogue, if_neg hne]

/-- Why a room name is refused: it is empty or holds a colon. -/
theorem roomRefusal?_eq (name : String) :
    roomRefusal? name =
      if name = "" then some .missingRoom
      else if ':' ∈ name.toList then some .invalidRoom else none := by
  simp [roomRefusal?, nameRefusal?, delimiter, String.isEmpty_iff]

theorem usernameRefusal?_eq (name : String) :
    usernameRefusal? name =
      if name = "" then some .missingUsername
      else if ':' ∈ name.toList then some .invalidUsername else none := by
  simp [usernameRefusal?, nameRefusal?, delimiter, String.isEmpty_iff]

section
variable {hub : Hub} {w : Worker} {room : Option Nat} {username : String}

/-- A text is too long when its delivery is. -/
theorem tooLong_iff {target : Nat} {text : String} :
    w.tooLong hub target text = true ↔
      size (hub.directory.name target) + size w.session.name + size text + 2 > 255 :=
  decide_eq_true_iff

/-- A command that is refused gets the reason as its reply, and the room stays as it is. -/
theorem response_of_refusal {m : Message} {refusal : Refusal} (hname : w.session.name = username)
    (h : commandRefusal? hub w room m = some refusal) :
    response username (room.map hub.directory.name) m =
      (sends refusal.reply, room.map hub.directory.name) ∧ m.tag ≠ .quit := by
  obtain ⟨tag, payload⟩ := m
  subst hname
  cases tag with
  | join =>
      refine ⟨?_, by simp⟩
      simp only [commandRefusal?, roomRefusal?_eq] at h
      simp only [response]
      by_cases hempty : payload = ""
      · rw [if_pos hempty] at h ⊢
        cases h
        rfl
      · rw [if_neg hempty] at h ⊢
        by_cases hcolon : ':' ∈ payload.toList
        · rw [if_pos hcolon] at h ⊢
          cases h
          rfl
        · rw [if_neg hcolon] at h
          cases h
  | sendall =>
      refine ⟨?_, by simp⟩
      cases room with
      | none =>
          cases h
          rfl
      | some target =>
          simp only [commandRefusal?] at h
          by_cases hlong : w.tooLong hub target payload = true
          · rw [if_pos hlong] at h
            cases h
            simp only [response, Option.map_some]
            exact if_pos (tooLong_iff.mp hlong)
          · rw [if_neg hlong] at h
            cases h
  | leave | quit => cases h
  | slogin | rlogin | ok | err | delivery =>
      cases h
      exact ⟨rfl, by simp⟩

/-- A join that is accepted opens the room. -/
theorem response_join {name : String} (h : roomRefusal? name = none) (current : Option String) :
    response username current ⟨.join, name⟩ = (.opened name :: sends .ok, some name) := by
  rw [roomRefusal?_eq] at h
  simp only [response]
  by_cases hempty : name = ""
  · rw [if_pos hempty] at h
    cases h
  · rw [if_neg hempty] at h ⊢
    by_cases hcolon : ':' ∈ name.toList
    · rw [if_pos hcolon] at h
      cases h
    · rw [if_neg hcolon]

/-- A text that is accepted is broadcast. -/
theorem response_sendall {target : Nat} {text : String} (hname : w.session.name = username)
    (h : w.tooLong hub target text = false) :
    response username (some (hub.directory.name target)) ⟨.sendall, text⟩ =
      (.broadcast ⟨hub.directory.name target, username, text⟩ :: sends .ok,
        some (hub.directory.name target)) := by
  subst hname
  simp only [response]
  exact if_neg fun hlong ↦ Bool.eq_false_iff.mp h (tooLong_iff.mpr hlong)

end

namespace Worker

/-- The worker is a publisher with this name whose connection is open. -/
structure AtWork (w : Worker) (username : String) : Prop where
  phase : w.session.phase = .publisherLoop
  username : w.session.username = some username
  isOpen : w.connection.isOpen = true

/-- The current room is the one that its name finds. -/
def Known (d : Directory) (room : Option Nat) : Prop :=
  ∀ number, room = some number → d.find? (d.name number) = some number

/-- What a worker still has to do from its control point, in the session of a publisher with this
name whose stream brings these arrivals yet. -/
def Owes (d : Directory) (username : String) (more : List Arrival) (w : Worker)
    (owed : List Deed × Option Result) : Prop :=
  let input := (w.connection.feed more).transcript
  match w.control with
  | .receive .login =>
      w.session.phase = .awaitLogin ∧ w.connection.isOpen = true ∧
        ∃ later ending, input = (⟨.slogin, username⟩ :: later, ending) ∧
          owed = andThen (sends .ok) (dialogue username none later ending)
  | .receive (.command room) =>
      w.AtWork username ∧ Known d room ∧ owed = dialogue username (room.map d.name) input.1 input.2
  | .openRoom name =>
      w.AtWork username ∧
        owed = andThen (.opened name :: sends .ok) (dialogue username (some name) input.1 input.2)
  | .broadcast room text =>
      w.AtWork username ∧ Known d (some room) ∧
        owed = andThen (.broadcast ⟨d.name room, username, text⟩ :: sends .ok)
          (dialogue username (some (d.name room)) input.1 input.2)
  | .send rest after =>
      w.AtWork username ∧ ∃ left, owed = andThen (rest.map .wrote) left ∧
        match after with
        | .loggedIn .publisher => left = dialogue username none input.1 input.2
        | .replied room => Known d room ∧ left = dialogue username (room.map d.name) input.1 input.2
        | .quit => left = ([], some (.ok ()))
        | _ => False
  | .close result | .ended result => owed = ([], some result)
  | _ => False

/-- What a worker does to the rooms at its control point. -/
def acts (d : Directory) (w : Worker) : List Deed :=
  match w.control with
  | .openRoom name => [.opened name]
  | .broadcast room text => [.broadcast ⟨d.name room, w.session.name, text⟩]
  | _ => []

/-- What a worker does in a step that leads to `w'`. -/
def deeds (d : Directory) (w w' : Worker) : List Deed :=
  w.acts d ++ (w'.written.drop w.written.length).map .wrote

theorem deeds_of_written (d : Directory) {w w' : Worker} (h : w'.written = w.written) :
    w.deeds d w' = w.acts d := by
  simp [deeds, h]

/-- A reply that is made ready is not written yet. -/
theorem deeds_say (d : Directory) (w : Worker) (session : Session) (m : Message) (after : After) :
    w.deeds d ({ w with session }.say m after) = w.acts d :=
  deeds_of_written d rfl

theorem AtWork.name {w : Worker} {username : String} (h : w.AtWork username) :
    w.session.name = username := by
  simp [Session.name, h.username]

theorem known_none (d : Directory) : Known d none :=
  nofun

theorem known_some {d : Directory} {number : Nat} (h : d.find? (d.name number) = some number) :
    Known d (some number) := by
  intro other hother
  cases hother
  exact h

theorem Known.mono {d d' : Directory} (hgrows : d.Grows d') {room : Option Nat} (h : Known d room) :
    Known d' room ∧ room.map d'.name = room.map d.name := by
  cases room with
  | none => exact ⟨known_none d', rfl⟩
  | some number =>
      have hfind := h number rfl
      have hname := hgrows.name number (Directory.find?_eq_some hfind).1
      refine ⟨known_some ?_, congrArg some hname⟩
      rw [hname]
      exact hgrows.find? hfind

/-- What others do to the rooms makes no difference to what a worker owes. -/
theorem Owes.mono {d d' : Directory} (hgrows : d.Grows d') {username : String}
    {more : List Arrival} {w : Worker} {owed : List Deed × Option Result}
    (h : w.Owes d username more owed) : w.Owes d' username more owed := by
  revert h
  unfold Owes
  cases w.control with
  | receive await =>
      cases await with
      | command room =>
          intro ⟨hwork, hknown, howed⟩
          obtain ⟨hknown', hname⟩ := hknown.mono hgrows
          exact ⟨hwork, hknown', hname ▸ howed⟩
      | _ => exact id
  | broadcast room text =>
      intro ⟨hwork, hknown, howed⟩
      obtain ⟨hknown', hname⟩ := hknown.mono hgrows
      rw [← Option.some.inj hname] at howed
      exact ⟨hwork, hknown', howed⟩
  | send rest after =>
      intro ⟨hwork, left, howed, hleft⟩
      refine ⟨hwork, left, howed, ?_⟩
      cases after with
      | replied room =>
          obtain ⟨hknown, hleft⟩ := hleft
          obtain ⟨hknown', hname⟩ := hknown.mono hgrows
          exact ⟨hknown', hname ▸ hleft⟩
      | loggedIn role => cases role <;> exact hleft
      | _ => exact hleft
  | _ => exact id

/-- What a cue brings in was among what was to come. -/
theorem Owes.cue {d : Directory} {username : String} {cue : Cue} {more : List Arrival} {w : Worker}
    {owed : List Deed × Option Result}
    (h : w.Owes d username (Connection.brought cue ++ more) owed) :
    (w.cue cue).Owes d username more owed := by
  have hinput : ((w.cue cue).connection.feed more).transcript =
      (w.connection.feed (Connection.brought cue ++ more)).transcript :=
    (w.connection.alike_cue cue more).transcript
  have hwork (hw : w.AtWork username) : (w.cue cue).AtWork username := { hw with }
  revert h
  unfold Owes
  rw [hinput, control_cue]
  cases w.control with
  | receive await =>
      cases await with
      | login => exact id
      | join => exact id
      | command => exact fun h ↦ ⟨hwork h.1, h.2⟩
  | openRoom | broadcast | send => exact fun h ↦ ⟨hwork h.1, h.2⟩
  | _ => exact id

variable {hub hub' : Hub} {w w' : Worker} {username : String} {more : List Arrival}
  {owed : List Deed × Option Result}

/-- A receive does nothing that shows. -/
theorem deeds_of_received (d : Directory) {await : Await} {went : Receiving}
    (hcontrol : w.control = .receive await)
    (hstep : w.connection.receiveStep = (w'.connection, went)) : w.deeds d w' = [] := by
  rw [deeds_of_written d (written_of_receiveStep hstep)]
  simp [acts, hcontrol]

/-- A receive leaves what is owed as it is. -/
theorem Owes.of_received {d d' : Directory} {await : Await} {went : Receiving}
    (h : w'.Owes d' username more owed) (hcontrol : w.control = .receive await)
    (hstep : w.connection.receiveStep = (w'.connection, went)) :
    ∃ owed', owed = andThen (w.deeds d w') owed' ∧ w'.Owes d' username more owed' :=
  ⟨owed, by rw [deeds_of_received d hcontrol hstep, andThen_nil], h⟩

/-- A publisher that has received something is still at work. -/
theorem AtWork.received {connection : Connection} {went : Receiving} (h : w.AtWork username)
    (hstep : w.connection.receiveStep = (connection, went)) :
    AtWork { w with connection, session := w.session.countReceived } username := by
  have hopen := w.connection.isOpen_receiveStep
  rw [hstep] at hopen
  exact ⟨h.phase, h.username, hopen.trans h.isOpen⟩

/-- What is owed once the first message has been received, which is the login. -/
theorem Owes.loggedIn {d : Directory} {connection : Connection} {m : Message}
    (h : w.Owes d username more owed) (hcontrol : w.control = .receive .login)
    (hstep : w.connection.receiveStep = (connection, .done (.ok m))) :
    m = ⟨.slogin, username⟩ ∧ w.session.phase = .awaitLogin ∧ connection.isOpen = true ∧
      owed = andThen (sends .ok) (dialogue username none (connection.feed more).transcript.1
        (connection.feed more).transcript.2) := by
  simp only [Owes, hcontrol, Connection.transcript_feed_of_ok hstep more] at h
  obtain ⟨hphase, hopen, _, _, hlogin, howed⟩ := h
  have hkept := w.connection.isOpen_receiveStep
  rw [hstep] at hkept
  cases hlogin
  exact ⟨rfl, hphase, hkept.trans hopen, howed⟩

/-- What a publisher owes once it has received a command. -/
theorem Owes.received {d : Directory} {room : Option Nat} {connection : Connection} {m : Message}
    (h : w.Owes d username more owed) (hcontrol : w.control = .receive (.command room))
    (hstep : w.connection.receiveStep = (connection, .done (.ok m))) :
    AtWork { w with connection, session := w.session.countReceived } username ∧ Known d room ∧
      owed = dialogue username (room.map d.name) (m :: (connection.feed more).transcript.1)
        (connection.feed more).transcript.2 := by
  simp only [Owes, hcontrol, Connection.transcript_feed_of_ok hstep more] at h
  exact ⟨h.1.received hstep, h.2⟩

/-- What a publisher owes once a reply is out. -/
theorem Owes.sent {d : Directory} {rest : List UInt8} {after : After} {connection : Connection}
    (h : w.Owes d username more owed) (hcontrol : w.control = .send rest after)
    (hstep : w.connection.sendStep rest = (connection, .done (.ok ()))) :
    (onSent hub { w with connection, session := w.session.countSent } after).2.Owes d username more
      owed := by
  obtain ⟨rfl, -⟩ := Connection.written_of_ok hstep
  have hopen := (w.connection.sendStep_frame []).1
  have hinput := (w.connection.alike_sendStep [] more).transcript
  rw [hstep] at hopen hinput
  simp only [Owes, hcontrol, ← hinput] at h
  obtain ⟨hwork, left, rfl, hafter⟩ := h
  have hwork' : AtWork { w with connection, session := w.session.countSent } username :=
    ⟨hwork.phase, hwork.username, hopen.trans hwork.isOpen⟩
  cases after with
  | loggedIn role =>
      cases role with
      | publisher => exact ⟨{ hwork' with }, known_none _, hafter⟩
      | subscriber => exact hafter.elim
  | replied room => exact ⟨{ hwork' with }, hafter⟩
  | quit => exact hafter
  | _ => exact hafter.elim

/-- A step does the next of what is owed. -/
theorem Step.owes (h : Step hub w hub' w') (hhealthy : Connection.Healthy w.connection.stream)
    (husername : usernameRefusal? username = none)
    (howes : w.Owes hub.directory username more owed) :
    ∃ owed', owed = andThen (w.deeds hub.directory w') owed' ∧
      w'.Owes hub'.directory username more owed' := by
  have hgrows := h.grows
  cases h with
  | input await connection hcontrol hstep =>
      refine Owes.of_received ?_ hcontrol hstep
      have hinput := Connection.transcript_feed_of_more hstep more
      have hopen : connection.isOpen = w.connection.isOpen := by
        simpa [hstep] using w.connection.isOpen_receiveStep
      simp only [Owes, hcontrol, hinput] at howes ⊢
      cases await with
      | login => exact ⟨howes.1, hopen.trans howes.2.1, howes.2.2⟩
      | join => exact howes
      | command => exact ⟨{ howes.1 with isOpen := hopen.trans howes.1.isOpen }, howes.2⟩
  | loginFailed connection failure hcontrol hstep =>
      -- the stream brings a login first
      simp only [Owes, hcontrol, Connection.transcript_feed_of_error hstep more] at howes
      obtain ⟨-, -, _, _, hlogin, -⟩ := howes
      cases hlogin
  | loginRefused connection m refusal hcontrol hstep hrefusal =>
      obtain ⟨rfl, -⟩ := howes.loggedIn hcontrol hstep
      simp [loginRefusal?, roleOf?, husername] at hrefusal
  | loginAccepted connection m role hcontrol hstep hrole =>
      obtain ⟨rfl, hphase, hopen, howed⟩ := howes.loggedIn hcontrol hstep
      cases hrole
      have hphase' : w.session.countReceived.phase = .awaitLogin := hphase
      refine Owes.of_received ⟨⟨?_, ?_, hopen⟩, _, howed, rfl⟩ hcontrol hstep
      · rw [session_say, Session.login_eq hphase']
        rfl
      · rw [session_say, Session.login_eq hphase']
  | commandFailed room connection failure hcontrol hstep =>
      simp only [Owes, hcontrol, Connection.transcript_feed_of_error hstep more] at howes
      exact Owes.of_received howes.2.2 hcontrol hstep
  | commandRefused room connection m refusal hcontrol hstep hrefusal =>
      obtain ⟨hwork, hknown, howed⟩ := howes.received hcontrol hstep
      obtain ⟨hresponse, hquit⟩ := response_of_refusal hwork.name hrefusal
      rw [dialogue_of_ne_quit hquit, hresponse] at howed
      exact Owes.of_received ⟨{ hwork with }, _, howed, hknown, rfl⟩ hcontrol hstep
  | joinCommand room connection name hcontrol hstep hnone =>
      obtain ⟨hwork, -, howed⟩ := howes.received hcontrol hstep
      rw [dialogue_of_ne_quit (by simp), response_join hnone] at howed
      exact Owes.of_received ⟨{ hwork with }, howed⟩ hcontrol hstep
  | sendCommand target connection text hcontrol hstep hshort =>
      obtain ⟨hwork, hknown, howed⟩ := howes.received hcontrol hstep
      rw [dialogue_of_ne_quit (by simp), Option.map_some,
        response_sendall hwork.name hshort] at howed
      exact Owes.of_received ⟨{ hwork with }, hknown, howed⟩ hcontrol hstep
  | leaveCommand room connection payload hcontrol hstep =>
      obtain ⟨hwork, -, howed⟩ := howes.received hcontrol hstep
      rw [dialogue_of_ne_quit (by simp)] at howed
      refine Owes.of_received ⟨?_, _, howed, known_none _, rfl⟩ hcontrol hstep
      rw [Session.leave_eq hwork.phase]
      exact { hwork with }
  | quitCommand room connection payload hcontrol hstep =>
      -- what comes in after the quit is owed no reply
      obtain ⟨hwork, -, howed⟩ := howes.received hcontrol hstep
      refine Owes.of_received ⟨{ hwork with }, ([], some (.ok ())), ?_, rfl⟩ hcontrol hstep
      rw [howed, dialogue, if_pos rfl, andThen, List.append_nil]
      rfl
  | openRoom name directory room hcontrol hfind =>
      simp only [Owes, hcontrol] at howes
      obtain ⟨hwork, rfl⟩ := howes
      have hname := hub.directory.name_findOrCreate name
      have hknown := hub.directory.find?_findOrCreate name
      rw [hfind] at hname hknown
      let left := dialogue username (some name) (w.connection.feed more).transcript.1
        (w.connection.feed more).transcript.2
      refine ⟨andThen (sends .ok) left, ?_, ?_, left, rfl, known_some ?_, ?_⟩
      · rw [deeds_say, acts, hcontrol, ← andThen_append]
        rfl
      · rw [Session.join_eq_of_publisher hwork.phase]
        exact { hwork with }
      · rw [hname]
        exact hknown
      · rw [Option.map_some, hname]
        rfl
  | broadcast room text directory hcontrol hd =>
      simp only [Owes, hcontrol] at howes
      obtain ⟨hwork, hknown, rfl⟩ := howes
      obtain ⟨hknown', hname⟩ := hknown.mono hgrows
      let left := dialogue username (some (hub.directory.name room))
        (w.connection.feed more).transcript.1 (w.connection.feed more).transcript.2
      refine ⟨andThen (sends .ok) left, ?_, { hwork with }, left, rfl, hknown', ?_⟩
      · rw [deeds_say hub.directory w w.session, acts, hcontrol, hwork.name, ← andThen_append]
        rfl
      · rw [hname]
        rfl
  | output rest after connection left hcontrol hstep =>
      obtain ⟨taken, -, rfl, hwritten⟩ := Connection.written_of_more hstep
      have hopen := (w.connection.sendStep_frame (taken ++ left)).1
      have hinput := (w.connection.alike_sendStep (taken ++ left) more).transcript
      rw [hstep] at hopen hinput
      simp only [Owes, hcontrol, ← hinput] at howes
      obtain ⟨hwork, owed', rfl, hafter⟩ := howes
      refine ⟨andThen (left.map .wrote) owed', ?_,
        { hwork with isOpen := hopen.trans hwork.isOpen }, owed', rfl, hafter⟩
      have hnew : connection.stream.written.drop w.written.length = taken := by
        rw [hwritten]
        exact List.drop_left
      rw [deeds, acts, hcontrol, List.nil_append, ← andThen_append, List.map_append]
      show _ = andThen ((connection.stream.written.drop w.written.length).map .wrote ++ _) owed'
      rw [hnew]
  | sent rest after connection hcontrol hstep =>
      have hwritten : connection.stream.written = w.written := by
        rw [(Connection.written_of_ok hstep).2]
        rfl
      refine ⟨owed, ?_, (howes.sent hcontrol hstep).mono hgrows⟩
      rw [deeds_of_written, acts, hcontrol]
      · rfl
      · rw [written, connection_onSent]
        exact hwritten
  | unsent rest after connection failure hcontrol hstep =>
      -- a healthy stream fails no send
      simp only [Owes, hcontrol] at howes
      exact absurd (by rw [hstep]) (hhealthy.sendStep_ne_error howes.1.isOpen rest failure)
  | close result hcontrol =>
      simp only [Owes, hcontrol] at howes
      refine ⟨owed, ?_, howes⟩
      rw [deeds_of_written, acts, hcontrol]
      · rfl
      · exact written_close _
  -- the other steps are those of subscribers
  | _ => simp [Owes, *] at howes

end Worker

end ChatRelay.Server
