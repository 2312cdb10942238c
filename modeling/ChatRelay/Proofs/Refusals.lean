import ChatRelay.Proofs.PublisherRuns

/-!
# Sessions that are turned away

`turnedAway?` says, of the messages that a stream brings, whether the protocol refuses the session at
its login or at a subscriber's join, which lines it then writes, and how it ends.
`Worker.Dismissed` follows such a session through the control points of its worker, and
`Step.dismissed` says that no step leaves that way or touches the rooms. `dismissed_run` carries this
to every run, whatever happens to the stream, and `exists_ended` says that the worker comes to its end.
-/

namespace ChatRelay.Server

open Transport Wire Text

/-- Why a name is refused, with the words for a missing name and for one that holds a colon. -/
def nameObjection? (missing invalid name : String) : Option String :=
  if name = "" then some missing
  else if ':' ∈ name.toList then some invalid
  else none

/-- Why a first message is no login. -/
def loginObjection? (m : Message) : Option String :=
  if m.tag = .slogin ∨ m.tag = .rlogin then
    nameObjection? "Missing username" "Username may not contain ':'" m.payload
  else some "Expected slogin or rlogin"

/-- Why a subscriber's second message is no join. -/
def joinObjection? (m : Message) : Option String :=
  if m.tag = .join then
    nameObjection? "Missing room name" "Room name may not contain ':'" m.payload
  else some "Expected join"

/-- The reason that is given to a session refused at its next message, and its result. Where a
failure comes in place of the message, the reason is `lost` and the failure is the result. -/
def dismissal? (objection? : Message → Option String) (lost : String) :
    List Message × Option Failure → Option (String × Result)
  | ([], none) => none
  | ([], some failure) => some (lost, .error failure)
  | (m :: _, _) => (objection? m).map (·, .ok ())

/-- The lines of a session that is refused at its login or at a subscriber's join, and its result;
none if nothing is refused, or not yet. -/
def turnedAway? (input : List Message × Option Failure) : Option (List Message × Result) :=
  match dismissal? loginObjection? "Invalid login" input with
  | some (reason, result) => some ([.err reason], result)
  | none =>
      match input with
      | (⟨.rlogin, _⟩ :: later, ending) =>
          (dismissal? joinObjection? "Expected join" (later, ending)).map fun (reason, result) ↦
            ([.ok, .err reason], result)
      | _ => none

theorem loginObjection?_eq (m : Message) :
    loginObjection? m = (loginRefusal? m).map Refusal.text := by
  obtain ⟨tag, payload⟩ := m
  have hname : nameObjection? "Missing username" "Username may not contain ':'" payload =
      (usernameRefusal? payload).map Refusal.text := by
    rw [usernameRefusal?_eq, nameObjection?]
    split
    · rfl
    · split <;> rfl
  cases tag with
  | slogin | rlogin => simpa [loginObjection?, loginRefusal?, Worker.roleOf?] using hname
  | _ => rfl

theorem joinObjection?_eq (m : Message) :
    joinObjection? m = (joinRefusal? m).map Refusal.text := by
  obtain ⟨tag, payload⟩ := m
  have hname : nameObjection? "Missing room name" "Room name may not contain ':'" payload =
      (roomRefusal? payload).map Refusal.text := by
    rw [roomRefusal?_eq, nameObjection?]
    split
    · rfl
    · split <;> rfl
  cases tag with
  | join => simpa [joinObjection?, joinRefusal?] using hname
  | _ => rfl

section
variable {later : List Message} {ending : Option Failure} {replies : List Message} {result : Result}

/-- A session without a first message is given up with the failure that came in its place. -/
theorem turnedAway?_of_failure (failure : Failure) :
    turnedAway? ([], some failure) =
      some ([Refusal.reply .invalidLogin], .error failure) :=
  rfl

/-- A session whose login is refused gets the reason, and ends in good order. -/
theorem turnedAway?_of_refusal {m : Message} {refusal : Refusal}
    (h : loginRefusal? m = some refusal) :
    turnedAway? (m :: later, ending) = some ([refusal.reply], .ok ()) := by
  simp [turnedAway?, dismissal?, loginObjection?_eq, h, Refusal.reply]

/-- Past its login, only a subscriber can still be turned away. -/
theorem turnedAway?_of_accepted {m : Message} (h : loginRefusal? m = none)
    (hinput : turnedAway? (m :: later, ending) = some (replies, result)) :
    m.tag = .rlogin ∧ ∃ reason, replies = [.ok, .err reason] ∧
      dismissal? joinObjection? "Expected join" (later, ending) = some (reason, result) := by
  obtain ⟨tag, payload⟩ := m
  simp only [turnedAway?, dismissal?, loginObjection?_eq, h, Option.map_none] at hinput
  cases tag with
  | rlogin =>
      obtain ⟨⟨reason, _⟩, hdismissal, heq⟩ := Option.map_eq_some_iff.mp hinput
      cases heq
      exact ⟨rfl, reason, rfl, hdismissal⟩
  | _ => cases hinput

end

/-- What the hub keeps when a session with these lines is turned away: the rooms with their members,
the publishers and the broadcasts that were counted and, if not even the login was confirmed,
the subscribers as well. -/
structure Spares (replies : List Message) (hub hub' : Hub) : Prop where
  rooms : hub'.directory.rooms = hub.directory.rooms
  publisherLogins : hub'.counters.publisherLogins = hub.counters.publisherLogins
  broadcasts : hub'.counters.broadcasts = hub.counters.broadcasts
  directory : replies.length = 1 → hub'.directory = hub.directory
  subscriberLogins : replies.length = 1 →
    hub'.counters.subscriberLogins = hub.counters.subscriberLogins

theorem Spares.refl (replies : List Message) (hub : Hub) : Spares replies hub hub :=
  ⟨rfl, rfl, rfl, fun _ ↦ rfl, fun _ ↦ rfl⟩

namespace Worker

/-- The confirmation of a login, the first of two lines, could not be sent, and the session ended
with the failure of the stream. -/
structure Unconfirmed (w : Worker) (replies : List Message) (result : Result) : Prop where
  replies : ∃ reason, replies = [.ok, .err reason]
  sent : w.session.sent = 0
  written : w.written <+: confirmation
  result : ∃ failure, result = .error failure ∧ failure.isDisconnect = true

/-- A session that is turned away with these lines and this result is over, and this is the result
given. Where it is `sure` that sends succeed, all the lines went out. -/
structure Parted (sure : Prop) (replies : List Message) (result : Result) (w : Worker)
    (given : Result) : Prop where
  written : w.written <+: replies.flatMap Message.bytes
  ending : given = result ∨ w.Unconfirmed replies given
  all : sure → given = result ∧ w.written = replies.flatMap Message.bytes

/-- A session that is turned away with these lines and this result stands here, if the stream brings
these arrivals yet. -/
def Dismissed (sure : Prop) (more : List Arrival) (replies : List Message) (result : Result)
    (w : Worker) : Prop :=
  let input := (w.connection.feed more).transcript
  match w.control with
  | .receive .login =>
      w.Unknown ∧ w.connection.isOpen = true ∧ turnedAway? input = some (replies, result)
  | .send rest (.loggedIn .subscriber) =>
      w.connection.isOpen = true ∧ w.session.sent = 0 ∧ w.written ++ rest = confirmation ∧
        ∃ reason, replies = [.ok, .err reason] ∧
          dismissal? joinObjection? "Expected join" input = some (reason, result)
  | .receive .join =>
      w.connection.isOpen = true ∧ w.written = confirmation ∧
        ∃ reason, replies = [.ok, .err reason] ∧
          dismissal? joinObjection? "Expected join" input = some (reason, result)
  | .send rest (.part given) =>
      w.connection.isOpen = true ∧ given = result ∧
        w.written ++ rest = replies.flatMap Message.bytes
  | .close given | .ended given => w.Parted sure replies result given
  | _ => False

variable {hub hub' : Hub} {w w' : Worker} {sure : Prop} {more : List Arrival}
  {replies : List Message} {result : Result}

theorem isOpen_of_receiveStep {c after : Connection} {went : Receiving}
    (h : c.receiveStep = (after, went)) : after.isOpen = c.isOpen := by
  simpa [h] using c.isOpen_receiveStep

theorem flatMap_bytes_two (reason : String) :
    [Message.ok, Message.err reason].flatMap Message.bytes =
      confirmation ++ (Message.err reason).bytes := by
  simp [confirmation]

/-- Only what is written and how many messages were sent count. -/
theorem Parted.of_written {given : Result} (h : w.Parted sure replies result given)
    (hwritten : w'.written = w.written) (hsent : w'.session.sent = w.session.sent) :
    w'.Parted sure replies result given where
  written := hwritten ▸ h.written
  ending := h.ending.imp_right fun hunconfirmed ↦
    { hunconfirmed with
      sent := hsent.trans hunconfirmed.sent
      written := hwritten ▸ hunconfirmed.written }
  all hs := ⟨(h.all hs).1, hwritten.trans (h.all hs).2⟩

/-- What happens to the stream keeps a session on its way out. -/
theorem Dismissed.cue {cue : Cue}
    (h : w.Dismissed sure (Connection.brought cue ++ more) replies result) :
    (w.cue cue).Dismissed sure more replies result := by
  have hinput : ((w.cue cue).connection.feed more).transcript =
      (w.connection.feed (Connection.brought cue ++ more)).transcript :=
    (w.connection.alike_cue cue more).transcript
  have hwritten : (w.cue cue).written = w.written := by
    cases cue <;> rfl
  revert h
  unfold Dismissed
  rw [hinput, hwritten, control_cue]
  cases w.control with
  | receive await =>
      cases await with
      | login => exact fun h ↦ ⟨{ h.1 with written := hwritten.trans h.1.written }, h.2⟩
      | _ => exact id
  | send rest after =>
      cases after with
      | loggedIn role => cases role <;> exact id
      | _ => exact id
  | close | ended => exact fun h ↦ h.of_written hwritten rfl
  | _ => exact id

/-- The last line is made ready. -/
theorem dismissed_say {connection : Connection} {went : Receiving} {reply : Message}
    (hstep : w.connection.receiveStep = (connection, went)) (hopen : w.connection.isOpen = true)
    (hlines : w.written ++ reply.bytes = replies.flatMap Message.bytes) (session : Session) :
    ({ w with connection, session }.say reply (.part result)).Dismissed sure more replies result := by
  refine ⟨(isOpen_of_receiveStep hstep).trans hopen, rfl, ?_⟩
  show connection.stream.written ++ reply.bytes = _
  rw [written_of_receiveStep hstep]
  exact hlines

/-- A session on its way out goes on so once a line is out. -/
theorem Dismissed.sent {rest : List UInt8} {after : After} {connection : Connection}
    (h : w.Dismissed sure more replies result) (hcontrol : w.control = .send rest after)
    (hstep : w.connection.sendStep rest = (connection, .done (.ok ()))) :
    let sent := onSent hub { w with connection, session := w.session.countSent } after
    sent.2.Dismissed sure more replies result ∧ Spares replies hub sent.1 := by
  obtain ⟨rfl, hstream⟩ := Connection.written_of_ok hstep
  have hwritten : connection.stream.written = w.written := by rw [hstream]; rfl
  have hopen := (w.connection.sendStep_frame []).1
  have hinput := (w.connection.alike_sendStep [] more).transcript
  rw [hstep] at hopen hinput
  simp only [Dismissed, hcontrol, ← hinput] at h
  cases after with
  | part given =>
      obtain ⟨-, rfl, hlines⟩ := h
      have hall : connection.stream.written = replies.flatMap Message.bytes := by
        rw [hwritten, ← hlines, List.append_nil]
      exact ⟨⟨hall ▸ List.prefix_rfl, .inl rfl, fun _ ↦ ⟨rfl, hall⟩⟩, .refl _ _⟩
  | loggedIn role =>
      cases role with
      | publisher => exact h.elim
      | subscriber =>
          obtain ⟨hisOpen, -, hline, reason, rfl, hdismissal⟩ := h
          have hone : connection.stream.written = confirmation := by
            rw [hwritten, ← hline, List.append_nil]
          exact ⟨⟨hopen.trans hisOpen, hone, reason, rfl, hdismissal⟩, rfl, rfl, rfl, nofun, nofun⟩
  | _ => exact h.elim

/-- A session on its way out goes on so if a line cannot be sent. -/
theorem Dismissed.unsent {rest : List UInt8} {after : After} {connection : Connection}
    {failure : Failure} (h : w.Dismissed sure more replies result)
    (hsure : sure → Connection.Healthy w.connection.stream)
    (hcontrol : w.control = .send rest after)
    (hstep : w.connection.sendStep rest = (connection, .done (.error failure))) :
    (onUnsent { w with connection } failure after).Dismissed sure more replies result := by
  obtain ⟨hwritten, hdisconnect⟩ := Connection.written_of_error hstep
  have hnever (hisOpen : w.connection.isOpen = true) : ¬sure := fun hs ↦
    (hsure hs).sendStep_ne_error hisOpen rest failure (by rw [hstep])
  simp only [Dismissed, hcontrol] at h
  cases after with
  | part given =>
      obtain ⟨hisOpen, rfl, hlines⟩ := h
      refine ⟨?_, .inl rfl, fun hs ↦ absurd hs (hnever hisOpen)⟩
      exact ⟨rest, (congrArg (· ++ rest) hwritten).trans hlines⟩
  | loggedIn role =>
      cases role with
      | publisher => exact h.elim
      | subscriber =>
          obtain ⟨hisOpen, hsent, hline, reason, rfl, -⟩ := h
          have hprefix : connection.stream.written <+: confirmation :=
            ⟨rest, (congrArg (· ++ rest) hwritten).trans hline⟩
          refine ⟨?_, .inr ⟨⟨reason, rfl⟩, hsent, hprefix, failure, rfl, hdisconnect⟩,
            fun hs ↦ absurd hs (hnever hisOpen)⟩
          rw [flatMap_bytes_two]
          exact hprefix.trans (List.prefix_append _ _)
  | _ => exact h.elim

/-- No step of a session that is turned away leads anywhere else, or touches the rooms. -/
theorem Step.dismissed (h : Step hub w hub' w')
    (hsure : sure → Connection.Healthy w.connection.stream)
    (hw : w.Dismissed sure more replies result) :
    w'.Dismissed sure more replies result ∧ Spares replies hub hub' := by
  cases h with
  | input await connection hcontrol hstep =>
      have hinput := Connection.transcript_feed_of_more hstep more
      have hwritten : connection.stream.written = w.written := written_of_receiveStep hstep
      have hopen := isOpen_of_receiveStep hstep
      refine ⟨?_, .refl _ _⟩
      simp only [Dismissed, hcontrol, hinput] at hw ⊢
      cases await with
      | login =>
          exact ⟨{ hw.1 with written := hwritten.trans hw.1.written }, hopen.trans hw.2.1, hw.2.2⟩
      | join => exact ⟨hopen.trans hw.1, hwritten.trans hw.2.1, hw.2.2⟩
      | command => exact hw
  | loginFailed connection failure hcontrol hstep =>
      simp only [Dismissed, hcontrol, Connection.transcript_feed_of_error hstep more,
        turnedAway?_of_failure, Option.some.injEq, Prod.mk.injEq] at hw
      obtain ⟨hunknown, hopen, rfl, rfl⟩ := hw
      refine ⟨dismissed_say hstep hopen ?_ _, .refl _ _⟩
      rw [hunknown.written, List.flatMap_singleton, List.nil_append]
  | loginRefused connection m refusal hcontrol hstep hrefusal =>
      simp only [Dismissed, hcontrol, Connection.transcript_feed_of_ok hstep more,
        turnedAway?_of_refusal hrefusal, Option.some.injEq, Prod.mk.injEq] at hw
      obtain ⟨hunknown, hopen, rfl, rfl⟩ := hw
      refine ⟨dismissed_say hstep hopen ?_ _, .refl _ _⟩
      rw [hunknown.written, List.flatMap_singleton, List.nil_append]
  | loginAccepted connection m role hcontrol hstep hrole hname =>
      have hwritten : connection.stream.written = w.written := written_of_receiveStep hstep
      simp only [Dismissed, hcontrol, Connection.transcript_feed_of_ok hstep more] at hw
      obtain ⟨hunknown, hopen, hinput⟩ := hw
      have hnone : loginRefusal? m = none := by simp [loginRefusal?, hrole, hname]
      obtain ⟨htag, reason, rfl, hdismissal⟩ := turnedAway?_of_accepted hnone hinput
      obtain rfl : role = .subscriber := by
        rw [htag] at hrole
        exact (Option.some.inj hrole).symm
      have hphase : w.session.countReceived.phase = .awaitLogin := hunknown.phase
      refine ⟨?_, rfl, rfl, rfl, fun hone ↦ by simp at hone, fun hone ↦ by simp at hone⟩
      rw [Session.login_eq hphase]
      refine ⟨(isOpen_of_receiveStep hstep).trans hopen, hunknown.sent, ?_, reason, rfl,
        hdismissal⟩
      show connection.stream.written ++ confirmation = confirmation
      rw [hwritten, hunknown.written, List.nil_append]
  | joinFailed connection failure hcontrol hstep =>
      simp only [Dismissed, hcontrol, Connection.transcript_feed_of_error hstep more, dismissal?,
        Option.some.injEq, Prod.mk.injEq] at hw
      obtain ⟨hopen, hline, _, rfl, rfl, rfl⟩ := hw
      refine ⟨dismissed_say hstep hopen ?_ _, .refl _ _⟩
      rw [flatMap_bytes_two, hline]
      rfl
  | joinRefused connection m refusal hcontrol hstep hrefusal =>
      simp only [Dismissed, hcontrol, Connection.transcript_feed_of_ok hstep more, dismissal?,
        joinObjection?_eq, hrefusal, Option.map_some, Option.some.injEq, Prod.mk.injEq] at hw
      obtain ⟨hopen, hline, _, rfl, rfl, rfl⟩ := hw
      refine ⟨dismissed_say hstep hopen ?_ _, .refl _ _⟩
      rw [flatMap_bytes_two, hline]
      rfl
  | joinAccepted connection m hcontrol hstep hnone =>
      simp only [Dismissed, hcontrol, Connection.transcript_feed_of_ok hstep more, dismissal?,
        joinObjection?_eq, hnone, Option.map_none] at hw
      obtain ⟨-, -, _, -, hdismissal⟩ := hw
      cases hdismissal
  | output rest after connection left hcontrol hstep =>
      obtain ⟨taken, -, rfl, hwritten⟩ := Connection.written_of_more hstep
      have hopen := (w.connection.sendStep_frame (taken ++ left)).1
      have hinput := (w.connection.alike_sendStep (taken ++ left) more).transcript
      rw [hstep] at hopen hinput
      have hlines (lines : List UInt8) (h : w.written ++ (taken ++ left) = lines) :
          connection.stream.written ++ left = lines := by
        rw [hwritten, List.append_assoc]
        exact h
      refine ⟨?_, .refl _ _⟩
      simp only [Dismissed, hcontrol, ← hinput] at hw ⊢
      cases after with
      | part given => exact ⟨hopen.trans hw.1, hw.2.1, hlines _ hw.2.2⟩
      | loggedIn role =>
          cases role with
          | publisher => exact hw
          | subscriber => exact ⟨hopen.trans hw.1, hw.2.1, hlines _ hw.2.2.1, hw.2.2.2⟩
      | _ => exact hw
  | sent rest after connection hcontrol hstep => exact hw.sent hcontrol hstep
  | unsent rest after connection failure hcontrol hstep =>
      exact ⟨hw.unsent hsure hcontrol hstep, .refl _ _⟩
  | close given hcontrol =>
      simp only [Dismissed, hcontrol] at hw
      refine ⟨hw.of_written (written_close _) rfl, ?_⟩
      split
      · exact ⟨rfl, rfl, rfl, fun _ ↦ rfl, fun _ ↦ rfl⟩
      · exact .refl _ _
  -- no command is received, and nobody is let into a room
  | _ => simp [Dismissed, *] at hw

/-- How far a session is from its end, and how many bytes it still has to read or to write before it
gets on. -/
def stage (w : Worker) : Nat × Nat :=
  match w.control with
  | .receive .login => (5, w.connection.stream.unread.length)
  | .send rest (.loggedIn _) => (4, rest.length)
  | .receive _ => (3, w.connection.stream.unread.length)
  | .send rest _ => (2, rest.length)
  | .close _ => (1, 0)
  | _ => (0, 0)

/-- Every step of a session that is turned away brings it nearer to its end. -/
theorem Step.stage_lt (h : Step hub w hub' w') (hw : w.Dismissed sure more replies result) :
    Prod.Lex (· < ·) (· < ·) w'.stage w.stage := by
  cases h with
  | input await connection hcontrol hstep =>
      have hless := Connection.unread_lt_of_more hstep
      simp only [stage, hcontrol]
      cases await <;> exact .right _ hless
  | loginFailed _ _ hcontrol | loginRefused _ _ _ hcontrol | loginAccepted _ _ _ hcontrol
  | joinFailed _ _ hcontrol | joinRefused _ _ _ hcontrol | joinAccepted _ _ hcontrol =>
      simp only [stage, hcontrol, control_say, control_goTo]
      exact .left _ _ (by decide)
  | output rest after connection left hcontrol hstep =>
      have hless := Connection.rest_lt_of_more hstep
      simp only [stage, hcontrol]
      cases after <;> exact .right _ hless
  | sent rest after connection hcontrol =>
      simp only [Dismissed, hcontrol] at hw
      cases after with
      | part =>
          simp only [stage, hcontrol, onSent, control_goTo]
          exact .left _ _ (by decide)
      | loggedIn role =>
          cases role with
          | publisher => exact hw.elim
          | subscriber =>
              simp only [stage, hcontrol, onSent, control_goTo]
              exact .left _ _ (by decide)
      | _ => exact hw.elim
  | unsent rest after connection failure hcontrol =>
      simp only [Dismissed, hcontrol] at hw
      cases after with
      | part | loggedIn =>
          simp only [stage, hcontrol, onUnsent, control_goTo]
          exact .left _ _ (by decide)
      | _ => exact hw.elim
  | close given hcontrol =>
      simp only [stage, hcontrol]
      exact .left _ _ (by decide)
  | _ => simp [Dismissed, *] at hw

/-- A session that is turned away and waits for nothing more is over, unless its peer does not take
what it sends. -/
theorem Dismissed.result_of_step_eq_none (h : w.Dismissed sure [] replies result)
    (hstep : w.step hub = none) (hflows : w.isStalled = false) :
    ∃ given, w.result? = some given := by
  rcases control_of_step_eq_none hstep hflows with ⟨await, hcontrol⟩ | ⟨room, hcontrol⟩ | hresult
  · -- a session that still waits would have nothing to be refused for
    have hinput := transcript_of_step_eq_none hcontrol hstep
    simp only [Dismissed, hcontrol, Connection.feed_nil, hinput] at h
    cases await with
    | login => exact absurd h.2.2 (by simp [turnedAway?, dismissal?])
    | join =>
        obtain ⟨-, -, _, -, hdismissal⟩ := h
        cases hdismissal
    | command => exact h.elim
  · simp only [Dismissed, hcontrol] at h
  · exact hresult

/-- A connection whose stream brings what is refused. -/
theorem Fresh.dismissed (h : w.Fresh)
    (hinput : turnedAway? (w.connection.feed more).transcript = some (replies, result)) :
    w.Dismissed sure more replies result := by
  have hlawful : w.Lawful {} := h.lawful
  simp only [Lawful, h.control] at hlawful
  simp only [Dismissed, h.control]
  exact ⟨hlawful, h.isOpen, hinput⟩

/-- What a session that is turned away has written so far, and how it ended if it has. -/
theorem Dismissed.outcome (h : w.Dismissed sure more replies result) :
    w.written <+: replies.flatMap Message.bytes ∧
      ∀ given, w.result? = some given → w.Parted sure replies result given := by
  cases hcontrol : w.control with
  | receive await =>
      refine ⟨?_, fun given hgiven ↦ by simp [result?, hcontrol] at hgiven⟩
      simp only [Dismissed, hcontrol] at h
      cases await with
      | login =>
          rw [h.1.written]
          exact List.nil_prefix
      | join =>
          obtain ⟨-, hline, reason, rfl, -⟩ := h
          rw [hline, flatMap_bytes_two]
          exact List.prefix_append _ _
      | command => exact h.elim
  | send rest after =>
      refine ⟨?_, fun given hgiven ↦ by simp [result?, hcontrol] at hgiven⟩
      simp only [Dismissed, hcontrol] at h
      cases after with
      | part => exact ⟨rest, h.2.2⟩
      | loggedIn role =>
          cases role with
          | publisher => exact h.elim
          | subscriber =>
              obtain ⟨-, -, hline, reason, rfl, -⟩ := h
              rw [flatMap_bytes_two, ← hline, List.append_assoc]
              exact List.prefix_append _ _
      | _ => exact h.elim
  | close given =>
      simp only [Dismissed, hcontrol] at h
      exact ⟨h.written, fun _ hgiven ↦ by simp [result?, hcontrol] at hgiven⟩
  | ended given =>
      simp only [Dismissed, hcontrol] at h
      refine ⟨h.written, fun other hother ↦ ?_⟩
      simp only [result?, hcontrol, Option.some.injEq] at hother
      exact hother ▸ h
  | _ => simp only [Dismissed, hcontrol] at h

end Worker

namespace System

variable {s : System} {k : Nat} {w : Worker} {replies : List Message} {result : Result}

/-- Whatever an action is, a session that is turned away stays on its way out. -/
theorem dismissed_act {sure : Prop} (hw : s.workers[k]? = some w) (action : Action)
    (hsure : sure → Connection.Healthy w.connection.stream) {more : List Arrival}
    (h : w.Dismissed sure (action.arrivals k ++ more) replies result) :
    ∃ v, (s.act action).workers[k]? = some v ∧ v.Dismissed sure more replies result := by
  cases fate hw action with
  | kept _ hcue hsame =>
      rw [arrivals_of_ne hcue, List.nil_append] at h
      exact ⟨w, hsame, h⟩
  | cued cue haction hcue =>
      subst haction
      have harrivals : (Action.cue k cue).arrivals k = Connection.brought cue := if_pos rfl
      rw [harrivals] at h
      exact ⟨w.cue cue, hcue, h.cue⟩
  | stuck haction _ hsame =>
      subst haction
      exact ⟨w, by rw [hsame]; exact hw, h⟩
  | stepped hub v haction hstep hafter =>
      subst haction
      rw [hafter]
      exact ⟨v, getElem?_set_self hw v, ((Worker.step_sound hstep).dismissed hsure h).1⟩

/-- Whatever happens in a run, a session that is turned away stays on its way out. -/
theorem dismissed_run {sure : Prop} (hw : s.workers[k]? = some w) (actions : List Action)
    (hsure : sure → WritesSucceed k s actions) {more : List Arrival}
    (h : w.Dismissed sure (actions.flatMap (·.arrivals k) ++ more) replies result) :
    ∃ v, (s.run actions).workers[k]? = some v ∧ v.Dismissed sure more replies result := by
  induction actions generalizing s w with
  | nil => exact ⟨w, hw, h⟩
  | cons action rest ih =>
      rw [List.flatMap_cons, List.append_assoc] at h
      obtain ⟨v, hv, hdismissed⟩ := dismissed_act hw action (fun hs ↦ (hsure hs).head hw) h
      exact ih hv (fun hs ↦ (hsure hs).tail) hdismissed

/-- A step of a session that is turned away touches no room, and is no broadcast. -/
theorem spares_act {sure : Prop} (hw : s.workers[k]? = some w)
    (hsure : sure → Connection.Healthy w.connection.stream) {more : List Arrival}
    (h : w.Dismissed sure more replies result) :
    Spares replies s.hub (s.act (.work k)).hub ∧ s.broadcastOf? (.work k) = none := by
  constructor
  · cases hstep : w.step s.hub with
    | none =>
        rw [act_of_stuck hw hstep]
        exact .refl _ _
    | some next =>
        rw [act_of_step hw hstep]
        exact ((Worker.step_sound hstep).dismissed hsure h).2
  · simp only [broadcastOf?, hw]
    cases hcontrol : w.control with
    | broadcast => simp [Worker.Dismissed, hcontrol] at h
    | _ => rfl

/-- The worker of a session that is turned away comes to its end by its own steps, unless it stalls. -/
theorem exists_ended {s : System} {w : Worker} (hw : s.workers[k]? = some w)
    (h : w.Dismissed False [] replies result) :
    ∃ n v, (s.run (List.replicate n (.work k))).workers[k]? = some v ∧
      (v.isStalled = true ∨ ∃ given, v.result? = some given) := by
  cases hstep : w.step s.hub with
  | none =>
      refine ⟨0, w, hw, ?_⟩
      cases hstalled : w.isStalled with
      | true => exact .inl rfl
      | false => exact .inr (h.result_of_step_eq_none hstep hstalled)
  | some next =>
      obtain ⟨hub, w'⟩ := next
      have hsound := Worker.step_sound hstep
      have hact := act_of_step hw hstep
      have hw' : (s.act (.work k)).workers[k]? = some w' := by
        rw [hact]
        exact getElem?_set_self hw w'
      have hless := hsound.stage_lt h
      obtain ⟨n, v, hv⟩ := exists_ended hw' (hsound.dismissed False.elim h).1
      exact ⟨n + 1, v, hv⟩
termination_by w.stage
decreasing_by exact hless

end System

end ChatRelay.Server
