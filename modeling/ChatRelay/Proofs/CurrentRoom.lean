import ChatRelay.Proofs.Codec
import ChatRelay.Proofs.PublisherRuns

/-!
# The room of a publisher's session

`finalRoom` is the room in which the protocol leaves a publisher after a list of messages.
`Worker.HeadsFor` says from each control point that a worker comes to this room with what its stream
brings, and that its session shows the room in between. `serves_run` carries it through a run, together
with what the worker owes: `Serves.room_eq` says that a worker which owes no deed any more is in that
room.
-/

namespace ChatRelay.Server

open Transport Wire

/-- The room of a publisher with this name after these messages, from this room on. -/
def finalRoom (username : String) : Option String → List Message → Option String
  | room, [] => room
  | room, m :: later =>
      if m.tag = .quit then room else finalRoom username (response username room m).2 later

theorem finalRoom_of_ne_quit {m : Message} (hne : m.tag ≠ .quit) (username : String)
    (room : Option String) (later : List Message) :
    finalRoom username room (m :: later) = finalRoom username (response username room m).2 later := by
  rw [finalRoom, if_neg hne]

/-- Every command is answered. -/
theorem response_ne_nil (username : String) (room : Option String) (m : Message) :
    (response username room m).1 ≠ [] := by
  have hsends (reply : Message) : sends reply ≠ [] := by
    simp [sends, Message.bytes_ne_nil]
  obtain ⟨tag, payload⟩ := m
  unfold response
  cases tag with
  | join =>
      dsimp only
      split
      · exact hsends _
      · split
        · exact hsends _
        · exact List.cons_ne_nil _ _
  | sendall =>
      cases room with
      | none => exact hsends _
      | some name =>
          dsimp only
          split
          · exact hsends _
          · exact List.cons_ne_nil _ _
  | _ => exact hsends _

/-- Where nothing is done, there is no message. -/
theorem eq_nil_of_dialogue {username : String} {room : Option String} {messages : List Message}
    {ending : Option Failure} (h : (dialogue username room messages ending).1 = []) :
    messages = [] := by
  cases messages with
  | nil => rfl
  | cons m later =>
      have hsome := response_ne_nil username room m
      by_cases hquit : m.tag = .quit
      · rw [dialogue, if_pos hquit] at h
        exact absurd h hsome
      · rw [dialogue_of_ne_quit hquit] at h
        exact absurd (List.append_eq_nil_iff.mp h).1 hsome

namespace Worker

/-- The worker of a publisher with this name comes to this room when it has dealt with what its stream
brings, these arrivals included. Up to there its session shows the room that it has come to, except
that a room which is to be opened is shown once it is open. -/
def HeadsFor (d : Directory) (username : String) (more : List Arrival) (w : Worker)
    (room : Option String) : Prop :=
  let messages := (w.connection.feed more).transcript.1
  match w.control with
  | .receive .login =>
      w.session.room = none ∧
        ∃ later, messages = ⟨.slogin, username⟩ :: later ∧ room = finalRoom username none later
  | .send _ (.loggedIn .publisher) =>
      w.session.room = none ∧ room = finalRoom username none messages
  | .receive (.command current) | .send _ (.replied current) =>
      w.session.room = current.map d.name ∧ room = finalRoom username w.session.room messages
  | .openRoom name => room = finalRoom username (some name) messages
  | .broadcast current _ =>
      w.session.room = some (d.name current) ∧ room = finalRoom username w.session.room messages
  | .send _ .quit | .close _ | .ended _ => room = w.session.room
  | _ => False

/-- What a worker still has to do from its control point, and the room that it comes to by that. -/
structure Serves (d : Directory) (username : String) (more : List Arrival) (w : Worker)
    (owed : List Deed × Option Result) (room : Option String) : Prop where
  owes : w.Owes d username more owed
  heads : w.HeadsFor d username more room

variable {d d' : Directory} {hub hub' : Hub} {w w' : Worker} {username : String}
  {more : List Arrival} {owed : List Deed × Option Result} {room : Option String}

/-- What others do to the rooms makes no difference to the room that a worker comes to. -/
theorem Serves.mono (hgrows : d.Grows d') (h : w.Serves d username more owed room) :
    w.Serves d' username more owed room := by
  refine ⟨h.owes.mono hgrows, ?_⟩
  obtain ⟨howes, hheads⟩ := h
  revert howes hheads
  unfold Owes HeadsFor
  cases w.control with
  | receive await =>
      cases await with
      | command current =>
          rintro ⟨-, hknown, -⟩ ⟨hshown, hroom⟩
          exact ⟨by rw [hshown, (hknown.mono hgrows).2], hroom⟩
      | _ => exact fun _ ↦ id
  | broadcast current text =>
      rintro ⟨-, hknown, -⟩ ⟨hshown, hroom⟩
      exact ⟨hshown.trans (hknown.mono hgrows).2.symm, hroom⟩
  | send rest after =>
      cases after with
      | replied current =>
          rintro ⟨-, _, -, hknown, -⟩ ⟨hshown, hroom⟩
          exact ⟨by rw [hshown, (hknown.mono hgrows).2], hroom⟩
      | loggedIn role => cases role <;> exact fun _ ↦ id
      | _ => exact fun _ ↦ id
  | _ => exact fun _ ↦ id

/-- What a cue brings in was among what was to come. -/
theorem Serves.cue {cue : Cue} (h : w.Serves d username (Connection.brought cue ++ more) owed room) :
    (w.cue cue).Serves d username more owed room := by
  have hinput : ((w.cue cue).connection.feed more).transcript =
      (w.connection.feed (Connection.brought cue ++ more)).transcript :=
    (w.connection.alike_cue cue more).transcript
  refine ⟨h.owes.cue, ?_⟩
  have hheads := h.heads
  unfold HeadsFor at hheads ⊢
  rw [hinput, control_cue]
  exact hheads

/-- A worker that owes no deed any more is in the room that it heads for. -/
theorem Serves.room_eq {ending : Option Result} (h : w.Serves d username more ([], ending) room) :
    w.session.room = room := by
  obtain ⟨howes, hheads⟩ := h
  revert howes hheads
  -- a worker that only has its ending left has dealt with all messages
  have hlast {current : Option String}
      (howed : ([], ending) = dialogue username current (w.connection.feed more).transcript.1
        (w.connection.feed more).transcript.2) :
      finalRoom username current (w.connection.feed more).transcript.1 = current := by
    rw [eq_nil_of_dialogue (congrArg Prod.fst howed).symm, finalRoom]
  have hbytes {rest : List UInt8} {left : List Deed × Option Result}
      (howed : ([], ending) = andThen (rest.map .wrote) left) : left = ([], ending) := by
    obtain ⟨hdeeds, hending⟩ := Prod.mk.inj howed
    exact Prod.ext (List.append_eq_nil_iff.mp hdeeds.symm).2 hending.symm
  unfold Owes HeadsFor
  cases w.control with
  | receive await =>
      cases await with
      | login =>
          rintro ⟨-, -, _, _, -, howed⟩
          have hsends := congrArg Prod.fst howed
          simp [andThen, sends, Message.bytes_ne_nil] at hsends
      | join => exact fun howes ↦ howes.elim
      | command current =>
          rintro ⟨-, -, howed⟩ ⟨hshown, hroom⟩
          rw [hroom, hshown, hlast howed]
  | openRoom name =>
      rintro ⟨-, howed⟩
      have hdeeds := congrArg Prod.fst howed
      cases hdeeds
  | broadcast current text =>
      rintro ⟨-, -, howed⟩
      have hdeeds := congrArg Prod.fst howed
      cases hdeeds
  | send rest after =>
      rintro ⟨-, left, howed, hafter⟩
      obtain rfl := hbytes howed
      cases after with
      | replied current =>
          rintro ⟨hshown, hroom⟩
          rw [hroom, hshown, hlast hafter.2]
      | loggedIn role =>
          cases role with
          | publisher =>
              rintro ⟨hshown, hroom⟩
              rw [hroom, hshown, hlast hafter]
          | subscriber => exact hafter.elim
      | quit => exact fun hroom ↦ hroom.symm
      | _ => exact hafter.elim
  | close | ended => exact fun _ hroom ↦ hroom.symm
  | _ => exact fun howes ↦ howes.elim

/-- The room that a publisher heads for once it has received a command. -/
theorem Serves.received {current : Option Nat} {connection : Connection} {m : Message}
    (h : w.Serves d username more owed room) (hcontrol : w.control = .receive (.command current))
    (hstep : w.connection.receiveStep = (connection, .done (.ok m))) :
    w.session.room = current.map d.name ∧
      room = finalRoom username w.session.room (m :: (connection.feed more).transcript.1) := by
  have hheads := h.heads
  simp only [HeadsFor, hcontrol, Connection.transcript_feed_of_ok hstep more] at hheads
  exact hheads

/-- The room that a publisher heads for once a reply is out. -/
theorem Serves.sent {rest : List UInt8} {after : After} {connection : Connection}
    (h : w.Serves d username more owed room) (hcontrol : w.control = .send rest after)
    (hstep : w.connection.sendStep rest = (connection, .done (.ok ()))) :
    (onSent hub { w with connection, session := w.session.countSent } after).2.HeadsFor d username
      more room := by
  have hinput := (w.connection.alike_sendStep rest more).transcript
  rw [hstep] at hinput
  obtain ⟨howes, hheads⟩ := h
  simp only [Owes, hcontrol] at howes
  obtain ⟨-, _, -, hafter⟩ := howes
  simp only [HeadsFor, hcontrol, ← hinput] at hheads
  cases after with
  | loggedIn role =>
      cases role with
      | publisher => exact ⟨hheads.1, hheads.1 ▸ hheads.2⟩
      | subscriber => exact hafter.elim
  | replied current => exact hheads
  | quit => exact hheads
  | _ => exact hafter.elim

/-- A step leads on to the room that a worker heads for. -/
theorem Step.headsFor (h : Step hub w hub' w') (hhealthy : Connection.Healthy w.connection.stream)
    (husername : usernameRefusal? username = none)
    (hserves : w.Serves hub.directory username more owed room) :
    w'.HeadsFor hub'.directory username more room := by
  have hgrows := h.grows
  obtain ⟨howes, hheads⟩ := hserves
  cases h with
  | input await connection hcontrol hstep =>
      have hinput := Connection.transcript_feed_of_more hstep more
      simp only [HeadsFor, hcontrol, hinput] at hheads ⊢
      exact hheads
  | loginFailed connection failure hcontrol hstep =>
      simp only [HeadsFor, hcontrol, Connection.transcript_feed_of_error hstep more] at hheads
      obtain ⟨-, _, hlogin, -⟩ := hheads
      cases hlogin
  | loginRefused connection m refusal hcontrol hstep hrefusal =>
      obtain ⟨rfl, -⟩ := howes.loggedIn hcontrol hstep
      simp [loginRefusal?, roleOf?, husername] at hrefusal
  | loginAccepted connection m role hcontrol hstep hrole =>
      obtain ⟨rfl, hphase, -⟩ := howes.loggedIn hcontrol hstep
      cases hrole
      simp only [HeadsFor, hcontrol, Connection.transcript_feed_of_ok hstep more] at hheads
      obtain ⟨hnone, _, hlater, hroom⟩ := hheads
      cases hlater
      have hphase' : w.session.countReceived.phase = .awaitLogin := hphase
      refine ⟨?_, hroom⟩
      rw [session_say, Session.login_eq hphase']
      exact hnone
  | commandFailed current connection failure hcontrol hstep =>
      simp only [HeadsFor, hcontrol, Connection.transcript_feed_of_error hstep more] at hheads
      exact hheads.2
  | commandRefused current connection m refusal hcontrol hstep hrefusal =>
      obtain ⟨hwork, -⟩ := howes.received hcontrol hstep
      obtain ⟨hresponse, hquit⟩ := response_of_refusal hwork.name hrefusal
      obtain ⟨hshown, hroom⟩ := Serves.received ⟨howes, hheads⟩ hcontrol hstep
      rw [finalRoom_of_ne_quit hquit, hshown, hresponse] at hroom
      exact ⟨hshown, hshown ▸ hroom⟩
  | joinCommand current connection name hcontrol hstep hnone =>
      obtain ⟨-, hroom⟩ := Serves.received ⟨howes, hheads⟩ hcontrol hstep
      rw [finalRoom_of_ne_quit (by simp), response_join hnone] at hroom
      exact hroom
  | sendCommand target connection text hcontrol hstep hshort =>
      obtain ⟨hwork, -⟩ := howes.received hcontrol hstep
      obtain ⟨hshown, hroom⟩ := Serves.received ⟨howes, hheads⟩ hcontrol hstep
      rw [Option.map_some] at hshown
      rw [finalRoom_of_ne_quit (by simp), hshown, response_sendall hwork.name hshort] at hroom
      exact ⟨hshown, hshown ▸ hroom⟩
  | leaveCommand current connection payload hcontrol hstep =>
      obtain ⟨hwork, -⟩ := howes.received hcontrol hstep
      obtain ⟨-, hroom⟩ := Serves.received ⟨howes, hheads⟩ hcontrol hstep
      rw [finalRoom_of_ne_quit (by simp)] at hroom
      have hleft : w.session.countReceived.leave.room = none := by
        rw [Session.leave_eq hwork.phase]
      refine ⟨hleft, ?_⟩
      rw [session_say, hleft]
      exact hroom
  | quitCommand current connection payload hcontrol hstep =>
      obtain ⟨-, hroom⟩ := Serves.received ⟨howes, hheads⟩ hcontrol hstep
      rw [finalRoom, if_pos rfl] at hroom
      exact hroom
  | openRoom name directory number hcontrol hfind =>
      simp only [Owes, hcontrol] at howes
      simp only [HeadsFor, hcontrol] at hheads
      have hname := hub.directory.name_findOrCreate name
      rw [hfind] at hname
      have hshown : (w.session.join (directory.name number)).room = some (directory.name number) := by
        rw [Session.join_eq_of_publisher howes.1.phase]
      refine ⟨hshown, ?_⟩
      rw [session_say, hshown, hname]
      exact hheads
  | broadcast current text directory hcontrol hd =>
      simp only [Owes, hcontrol] at howes
      simp only [HeadsFor, hcontrol] at hheads
      obtain ⟨hshown, hroom⟩ := hheads
      exact ⟨hshown.trans (howes.2.1.mono hgrows).2.symm, hroom⟩
  | output rest after connection left hcontrol hstep =>
      have hinput := (w.connection.alike_sendStep rest more).transcript
      rw [hstep] at hinput
      simp only [HeadsFor, hcontrol, ← hinput] at hheads ⊢
      cases after with
      | loggedIn role => cases role <;> exact hheads
      | _ => exact hheads
  | sent rest after connection hcontrol hstep =>
      have hdirectory : (onSent hub { w with connection, session := w.session.countSent }
          after).1.directory = hub.directory := by
        simp only [Owes, hcontrol] at howes
        obtain ⟨-, _, -, hafter⟩ := howes
        cases after with
        | loggedIn role =>
            cases role with
            | publisher => rfl
            | subscriber => exact hafter.elim
        | replied | quit => rfl
        | _ => exact hafter.elim
      rw [hdirectory]
      exact Serves.sent ⟨howes, hheads⟩ hcontrol hstep
  | unsent rest after connection failure hcontrol hstep =>
      -- a healthy stream fails no send
      simp only [Owes, hcontrol] at howes
      exact absurd (by rw [hstep]) (hhealthy.sendStep_ne_error howes.1.isOpen rest failure)
  | close result hcontrol =>
      simp only [HeadsFor, hcontrol] at hheads
      exact hheads
  | _ => simp [Owes, *] at howes

end Worker

namespace System

variable {s : System} {k : Nat} {w : Worker} {username : String} {owed : List Deed × Option Result}
  {room : Option String}

/-- Whatever an action is, the worker does the next of what it owes by it, and comes to the same
room. -/
theorem serves_act (hw : s.workers[k]? = some w) (action : Action)
    (hhealthy : Connection.Healthy w.connection.stream)
    (husername : usernameRefusal? username = none) {more : List Arrival}
    (h : w.Serves s.hub.directory username (action.arrivals k ++ more) owed room) :
    ∃ v owed', (s.act action).workers[k]? = some v ∧ owed = andThen (s.deed k action) owed' ∧
      v.Serves (s.act action).hub.directory username more owed' room := by
  have hgrows := s.grows_act action
  cases fate hw action with
  | kept hwork hcue hsame =>
      rw [arrivals_of_ne hcue, List.nil_append] at h
      exact ⟨w, owed, hsame, by rw [deed_of_ne hwork, andThen_nil], h.mono hgrows⟩
  | cued cue haction hcue =>
      subst haction
      have harrivals : (Action.cue k cue).arrivals k = Connection.brought cue := if_pos rfl
      rw [harrivals] at h
      exact ⟨w.cue cue, owed, hcue, rfl, h.cue.mono hgrows⟩
  | stuck haction hstep hsame =>
      subst haction
      exact ⟨w, owed, by rw [hsame]; exact hw, by rw [deed_of_stuck hw hstep, andThen_nil],
        h.mono hgrows⟩
  | stepped hub w' haction hstep hafter =>
      subst haction
      have hsound := Worker.step_sound hstep
      obtain ⟨owed', howed, howes'⟩ := hsound.owes hhealthy husername h.owes
      have hheads' := hsound.headsFor hhealthy husername h
      rw [hafter]
      exact ⟨w', owed', getElem?_set_self hw w', by rw [deed_of_step hw hstep]; exact howed,
        howes', hheads'⟩

/-- Whatever happens in a run, the worker does the next of what it owes, and comes to the same
room. -/
theorem serves_run (hw : s.workers[k]? = some w) (actions : List Action)
    (hhealthy : WritesSucceed k s actions) (husername : usernameRefusal? username = none)
    {more : List Arrival}
    (h : w.Serves s.hub.directory username (actions.flatMap (·.arrivals k) ++ more) owed room) :
    ∃ v owed', (s.run actions).workers[k]? = some v ∧ owed = andThen (deeds k s actions) owed' ∧
      v.Serves (s.run actions).hub.directory username more owed' room := by
  induction actions generalizing s w owed with
  | nil => exact ⟨w, owed, hw, rfl, h⟩
  | cons action rest ih =>
      rw [List.flatMap_cons, List.append_assoc] at h
      obtain ⟨v, owed', hv, rfl, h'⟩ := serves_act hw action (hhealthy.head hw) husername h
      obtain ⟨u, left, hu, rfl, hleft⟩ := ih hv hhealthy.tail h'
      exact ⟨u, left, hu, by rw [deeds, andThen_append], hleft⟩

end System

end ChatRelay.Server
