import ChatRelay.Proofs.Runs

/-!
# What is known of a worker at each control point

`Worker.Lawful` lists, control point by control point, what the session of a worker says, which
lines it has written and what the directory knows of it. `Step.lawful` says that every step keeps
this, and `Lawful.mono` that the steps of others do, which take nothing from it (`Worker.Keeps`).
`System.Lasting.run` puts the two together for whatever is known of each worker on its own.
-/

namespace ChatRelay.Server

open Transport Wire

/-- The line that confirms a login or a join. -/
def confirmation : List UInt8 :=
  Message.ok.bytes

/-- What a subscriber has got once its join is confirmed. -/
def confirmations : List UInt8 :=
  confirmation ++ confirmation

namespace Worker

/-- What the worker has written. -/
def written (w : Worker) : List UInt8 :=
  w.connection.stream.written

/-- Nobody has logged in yet, and nothing is written. -/
structure Unknown (w : Worker) : Prop where
  phase : w.session.phase = .awaitLogin
  role : w.session.role = none
  room : w.session.room = none
  sent : w.session.sent = 0
  written : w.written = []

/-- The login was accepted, and these bytes of its confirmation are not written yet. -/
structure Confirming (w : Worker) (rest : List UInt8) (role : Role) : Prop where
  phase : w.session.phase = Session.firstPhase role
  role : w.session.role = some role
  room : w.session.room = none
  sent : w.session.sent = 0
  written : w.written ++ rest = confirmation

/-- A publisher is at work. -/
structure Publishing (w : Worker) : Prop where
  phase : w.session.phase = .publisherLoop
  role : w.session.role = some .publisher

/-- A subscriber's login is confirmed, and it has not joined yet. -/
structure Joining (d : Directory) (w : Worker) : Prop where
  phase : w.session.phase = .awaitJoin
  role : w.session.role = some .subscriber
  room : w.session.room = none
  sent : w.session.sent = 1
  written : w.written = confirmation
  enrolled : d.Enrolled w.place w.session.id

/-- A subscriber's join of this room was accepted. -/
structure Seated (d : Directory) (w : Worker) (room : Nat) : Prop where
  role : w.session.role = some .subscriber
  name : w.session.room = some (d.name room)
  lt : room < d.rooms.length
  enrolled : d.Enrolled w.place w.session.id

/-- The replies to login and join went out. -/
structure Confirmed (w : Worker) : Prop where
  sent : 2 ≤ w.session.sent
  written : confirmations <+: w.written

/-- The session is over with this result. A subscriber whose join was confirmed ends in good order.
-/
def Finished (w : Worker) (result : Result) : Prop :=
  w.session.role = some .subscriber → w.session.room ≠ none → 2 ≤ w.session.sent →
    result = .ok () ∧ w.Confirmed

/-- What is known of a worker at its control point. -/
def Lawful (d : Directory) (w : Worker) : Prop :=
  match w.control with
  | .receive .login => w.Unknown
  | .receive .join | .enterRoom _ => w.Joining d
  | .addMember room => w.Joining d ∧ room < d.rooms.length
  | .receive (.command _) | .openRoom _ | .broadcast _ _ => w.Publishing
  | .send _ (.part _) => w.session.room = none
  | .send rest (.loggedIn role) => w.Confirming rest role
  | .send _ (.replied _) | .send _ .quit => w.Publishing
  | .send rest (.joined room) =>
      w.Seated d room ∧ w.session.sent = 1 ∧ w.written ++ rest = confirmations
  | .send _ (.delivered room) | .testFlag room | .dequeue room | .collect room =>
      w.Seated d room ∧ w.Confirmed
  | .removeMember room result =>
      w.Seated d room ∧ (2 ≤ w.session.sent → result = .ok () ∧ w.Confirmed)
  | .close result | .ended result => w.Finished result

variable {d d' : Directory} {w w' : Worker} {hub hub' : Hub}

/-- What became of the directory takes nothing from the worker: no room loses its name, and its
subscriber stays enrolled. -/
structure Keeps (d d' : Directory) (w : Worker) : Prop where
  grows : d.Grows d'
  enrolled : d.Enrolled w.place w.session.id → d'.Enrolled w.place w.session.id

theorem Joining.mono (hkeeps : Keeps d d' w) (h : w.Joining d) : w.Joining d' :=
  { h with enrolled := hkeeps.enrolled h.enrolled }

theorem Seated.mono {room : Nat} (hkeeps : Keeps d d' w) (h : w.Seated d room) :
    w.Seated d' room where
  role := h.role
  name := by rw [hkeeps.grows.name room h.lt, h.name]
  lt := Nat.lt_of_lt_of_le h.lt hkeeps.grows.length_le
  enrolled := hkeeps.enrolled h.enrolled

/-- What is known of a worker stays true while nothing is taken from it. -/
theorem Lawful.mono (hkeeps : Keeps d d' w) (h : w.Lawful d) : w.Lawful d' := by
  revert h
  unfold Lawful
  cases w.control with
  | receive await =>
      cases await with
      | login | command => exact id
      | join => exact fun h ↦ h.mono hkeeps
  | enterRoom => exact fun h ↦ h.mono hkeeps
  | addMember =>
      exact fun h ↦ ⟨h.1.mono hkeeps, Nat.lt_of_lt_of_le h.2 hkeeps.grows.length_le⟩
  | send rest after =>
      cases after with
      | part | loggedIn | replied | quit => exact id
      | joined | delivered => exact fun h ↦ ⟨h.1.mono hkeeps, h.2⟩
  | testFlag | dequeue | collect | removeMember => exact fun h ↦ ⟨h.1.mono hkeeps, h.2⟩
  | openRoom | broadcast | close | ended => exact id

/-- A step of a worker only makes the directory grow. -/
theorem Step.grows (h : Step hub w hub' w') : hub.directory.Grows hub'.directory := by
  cases h with
  | openRoom name directory room _ hfind | enterRoom name directory room _ hfind =>
      have hgrows := hub.directory.grows_findOrCreate name
      rwa [hfind] at hgrows
  | addMember room directory _ hd =>
      subst hd
      exact Directory.grows_addMember _ _ _
  | broadcast room text directory _ hd =>
      subst hd
      exact Directory.grows_broadcast _ _ _ _
  | sent rest after =>
      cases after with
      | loggedIn role =>
          cases role with
          | publisher => exact .refl _
          | subscriber => exact Directory.grows_subscribe _ _ _ _
      | _ => exact .refl _
  | dequeue room directory _ hd | collected room directory m _ _ _ hd
  | missed room directory _ _ _ hd | lapsed room directory _ _ _ hd =>
      subst hd
      dsimp only
      exact Directory.grows_updateMailbox _ _ _
  | removeMember room result directory _ hd =>
      subst hd
      exact Directory.grows_removeMember _ _ _
  | close =>
      rw [Hub.directory_closed]
      exact .refl _
  | _ => exact .refl _

/-- A step of a worker enrolls nobody but under its own place and id, and drops nobody else. -/
theorem Step.enrolled (h : Step hub w hub' w') {number id : Nat}
    (hown : number = w.place → id = w.session.id) (hid : hub.directory.Enrolled number id) :
    hub'.directory.Enrolled number id := by
  have hsame (d : Directory) (hsubscribers : d.subscribers = hub.directory.subscribers) :
      d.Enrolled number id := by
    rw [Directory.Enrolled, Directory.id?, hsubscribers]
    exact hid
  cases h with
  | openRoom name directory room _ hfind | enterRoom name directory room _ hfind =>
      have hsubscribers := hub.directory.subscribers_findOrCreate name
      rw [hfind] at hsubscribers
      exact hsame directory hsubscribers
  | addMember room directory _ hd =>
      exact hsame directory (by rw [hd]; exact Directory.subscribers_addMember _ _ _)
  | removeMember room result directory _ hd =>
      exact hsame directory (by rw [hd]; exact Directory.subscribers_removeMember _ _ _)
  | broadcast room text directory _ hd =>
      subst hd
      exact (Directory.id?_deliver _ _ _ _).trans hid
  | sent rest after =>
      cases after with
      | loggedIn role =>
          cases role with
          | publisher => exact hid
          | subscriber =>
              refine (Directory.id?_subscribe _ _ _ _ _).trans ?_
              split
              · exact congrArg some (hown ‹_›).symm
              · exact hid
      | _ => exact hid
  | dequeue room directory _ hd | collected room directory m _ _ _ hd
  | missed room directory _ _ _ hd | lapsed room directory _ _ _ hd =>
      subst hd
      exact (Directory.id?_updateMailbox _ _ _ _).trans hid
  | close =>
      rw [Hub.directory_closed]
      exact hid
  | _ => exact hid

/-- A step takes nothing from the worker that makes it, nor from one in another place. -/
theorem Step.keeps (h : Step hub w hub' w') {v : Worker}
    (hown : v.place = w.place → v.session.id = w.session.id) :
    Keeps hub.directory hub'.directory v :=
  ⟨h.grows, h.enrolled hown⟩

theorem written_of_receiveStep {c after : Connection} {went : Receiving}
    (h : c.receiveStep = (after, went)) : after.stream.written = c.stream.written := by
  obtain ⟨arrivals, hstream⟩ := c.stream_receiveStep
  rw [h] at hstream
  rw [hstream]

theorem written_close (c : Connection) : c.close.stream.written = c.stream.written := by
  unfold Connection.close
  split <;> rfl

/-- What follows a send is lawful once the send is over. -/
theorem lawful_onSent {rest : List UInt8} {after : After} {connection : Connection}
    (hcontrol : w.control = .send rest after)
    (hstep : w.connection.sendStep rest = (connection, .done (.ok ())))
    (hw : w.Lawful hub.directory) :
    (onSent hub { w with connection, session := w.session.countSent } after).2.Lawful
      (onSent hub { w with connection, session := w.session.countSent } after).1.directory := by
  obtain ⟨rfl, hstream⟩ := Connection.written_of_ok hstep
  have hwritten : connection.stream.written = w.written := by rw [hstream]; rfl
  simp only [Lawful, hcontrol] at hw
  cases after with
  | part result => exact fun _ hroom ↦ absurd hw hroom
  | loggedIn role =>
      have hline : connection.stream.written = confirmation := by
        rw [hwritten, ← hw.written, List.append_nil]
      cases role with
      | publisher => exact ⟨hw.phase, hw.role⟩
      | subscriber =>
          exact ⟨hw.phase, hw.role, hw.room, congrArg (· + 1) hw.sent, hline,
            (Directory.id?_subscribe _ _ _ _ _).trans (if_pos rfl)⟩
  | replied room => exact ⟨hw.phase, hw.role⟩
  | quit =>
      intro hrole
      cases hw.role.symm.trans hrole
  | joined room =>
      obtain ⟨hseated, hsent, hlines⟩ := hw
      refine ⟨{ hseated with }, ?_, ?_⟩
      · exact Nat.le_of_eq (congrArg (· + 1) hsent).symm
      · have hall : connection.stream.written = confirmations := by
          rw [hwritten, ← hlines, List.append_nil]
        exact hall ▸ List.prefix_rfl
  | delivered room =>
      obtain ⟨hseated, hconfirmed⟩ := hw
      refine ⟨{ hseated with }, Nat.le_succ_of_le hconfirmed.sent, ?_⟩
      show confirmations <+: connection.stream.written
      exact hwritten ▸ hconfirmed.written

/-- What follows a send that failed is lawful. -/
theorem lawful_onUnsent {rest : List UInt8} {after : After} {connection : Connection}
    {failure : Failure} (hcontrol : w.control = .send rest after)
    (hstep : w.connection.sendStep rest = (connection, .done (.error failure)))
    (hw : w.Lawful d) : (onUnsent { w with connection } failure after).Lawful d := by
  obtain ⟨hwritten, hdisconnect⟩ := Connection.written_of_error hstep
  simp only [Lawful, hcontrol] at hw
  cases after with
  | part result => exact fun _ hroom ↦ absurd hw hroom
  | loggedIn role => exact fun _ hroom ↦ absurd hw.room hroom
  | replied room =>
      intro hrole
      cases hw.role.symm.trans hrole
  | quit =>
      intro hrole
      cases hw.role.symm.trans hrole
  | joined room =>
      -- one message has gone out, so nothing is claimed about the result
      obtain ⟨hseated, hsent, -⟩ := hw
      refine ⟨{ hseated with }, fun htwo ↦ ?_⟩
      have hone : w.session.sent = 1 := hsent
      have htwo' : 2 ≤ w.session.sent := htwo
      omega
  | delivered room =>
      obtain ⟨hseated, hconfirmed⟩ := hw
      refine ⟨{ hseated with }, fun _ ↦ ⟨by simp [hdisconnect], hconfirmed.sent, ?_⟩⟩
      show confirmations <+: connection.stream.written
      exact hwritten ▸ hconfirmed.written

/-- A step keeps what is known of the worker that makes it. -/
theorem Step.lawful (h : Step hub w hub' w') (hw : w.Lawful hub.directory) :
    w'.Lawful hub'.directory := by
  have hkeeps : Keeps hub.directory hub'.directory w := h.keeps fun _ ↦ rfl
  have hgrows := hkeeps.grows
  cases h with
  | input await connection hcontrol hstep =>
      have hwritten : connection.stream.written = w.written := written_of_receiveStep hstep
      simp only [Lawful, hcontrol] at hw ⊢
      cases await with
      | login => exact { hw with written := hwritten.trans hw.written }
      | join => exact { hw with written := hwritten.trans hw.written }
      | command => exact { hw with }
  | loginFailed _ _ hcontrol | loginRefused _ _ _ hcontrol =>
      simp only [Lawful, hcontrol] at hw
      exact hw.room
  | loginAccepted connection m role hcontrol hstep =>
      have hwritten : connection.stream.written = w.written := written_of_receiveStep hstep
      simp only [Lawful, hcontrol] at hw
      have hphase : w.session.countReceived.phase = .awaitLogin := hw.phase
      rw [Session.login_eq hphase]
      refine ⟨rfl, rfl, hw.room, hw.sent, ?_⟩
      show connection.stream.written ++ confirmation = confirmation
      rw [hwritten, hw.written, List.nil_append]
  | joinFailed _ _ hcontrol | joinRefused _ _ _ hcontrol =>
      simp only [Lawful, hcontrol] at hw
      exact hw.room
  | joinAccepted connection m hcontrol hstep =>
      have hwritten : connection.stream.written = w.written := written_of_receiveStep hstep
      simp only [Lawful, hcontrol] at hw
      exact { hw with written := hwritten.trans hw.written }
  | commandFailed _ _ _ hcontrol =>
      simp only [Lawful, hcontrol] at hw
      intro hrole
      cases hw.role.symm.trans hrole
  | commandRefused _ _ _ _ hcontrol | joinCommand _ _ _ hcontrol | sendCommand _ _ _ hcontrol
  | quitCommand _ _ _ hcontrol =>
      simp only [Lawful, hcontrol] at hw
      exact { hw with }
  | leaveCommand room connection payload hcontrol =>
      simp only [Lawful, hcontrol] at hw
      have hphase : w.session.countReceived.phase = .publisherLoop := hw.phase
      rw [Session.leave_eq hphase]
      exact ⟨hw.phase, hw.role⟩
  | openRoom name directory room hcontrol =>
      simp only [Lawful, hcontrol] at hw
      rw [Session.join_eq_of_publisher hw.phase]
      exact ⟨hw.phase, hw.role⟩
  | enterRoom name directory room hcontrol hfind =>
      simp only [Lawful, hcontrol] at hw
      refine ⟨{ hw.mono hkeeps with }, ?_⟩
      have hlt := hub.directory.findOrCreate_lt name
      rwa [hfind] at hlt
  | addMember room directory hcontrol hd =>
      simp only [Lawful, hcontrol] at hw
      obtain ⟨hjoining, hlt⟩ := hw
      rw [Session.join_eq_of_subscriber hjoining.phase]
      refine ⟨⟨hjoining.role, rfl, ?_, hkeeps.enrolled hjoining.enrolled⟩, hjoining.sent, ?_⟩
      · exact Nat.lt_of_lt_of_le hlt hgrows.length_le
      · exact congrArg (· ++ confirmation) hjoining.written
  | broadcast room text directory hcontrol =>
      simp only [Lawful, hcontrol] at hw
      exact { hw with }
  | output rest after connection left hcontrol hstep =>
      -- what is written and what is left make up the same lines as before
      obtain ⟨taken, -, rfl, hwritten⟩ := Connection.written_of_more hstep
      simp only [Lawful, hcontrol] at hw ⊢
      have hlines (lines : List UInt8) (h : w.written ++ (taken ++ left) = lines) :
          connection.stream.written ++ left = lines := by
        rw [hwritten, List.append_assoc]
        exact h
      cases after with
      | part => exact hw
      | loggedIn role => exact { hw with written := hlines _ hw.written }
      | replied => exact { hw with }
      | quit => exact { hw with }
      | joined room => exact ⟨{ hw.1 with }, hw.2.1, hlines _ hw.2.2⟩
      | delivered room =>
          refine ⟨{ hw.1 with }, hw.2.sent, ?_⟩
          show confirmations <+: connection.stream.written
          rw [hwritten]
          exact hw.2.written.trans (List.prefix_append _ _)
  | sent rest after connection hcontrol hstep => exact lawful_onSent hcontrol hstep hw
  | unsent rest after connection failure hcontrol hstep =>
      exact lawful_onUnsent hcontrol hstep hw
  | parting room hcontrol =>
      simp only [Lawful, hcontrol] at hw
      exact ⟨{ hw.1 with }, fun _ ↦ ⟨rfl, { hw.2 with }⟩⟩
  | staying room hcontrol =>
      simp only [Lawful, hcontrol] at hw
      exact ⟨{ hw.1 with }, { hw.2 with }⟩
  | dequeue _ _ hcontrol | collected _ _ _ hcontrol | missed _ _ hcontrol | lapsed _ _ hcontrol =>
      simp only [Lawful, hcontrol] at hw
      exact ⟨{ hw.1.mono hkeeps with }, { hw.2 with }⟩
  | removeMember room result directory hcontrol =>
      simp only [Lawful, hcontrol] at hw
      intro _ _ hsent
      obtain ⟨hresult, hconfirmed⟩ := hw.2 hsent
      exact ⟨hresult, { hconfirmed with }⟩
  | close result hcontrol =>
      simp only [Lawful, hcontrol] at hw
      intro hrole hroom hsent
      obtain ⟨hresult, hconfirmed⟩ := hw hrole hroom hsent
      refine ⟨hresult, hconfirmed.sent, ?_⟩
      show confirmations <+: w.connection.close.stream.written
      rw [written_close]
      exact hconfirmed.written

/-- What happens to a worker's stream makes no difference to this. -/
theorem Lawful.cue (h : w.Lawful d) (cue : Cue) : (w.cue cue).Lawful d := by
  have hwritten : (w.connection.stream.cue cue).written = w.written := by
    cases cue <;> rfl
  have hprefix (h : w.Confirmed) : confirmations <+: (w.connection.stream.cue cue).written := by
    rw [hwritten]
    exact h.written
  revert h
  unfold Lawful
  rw [control_cue]
  cases w.control with
  | receive await =>
      cases await with
      | login => exact fun h ↦ { h with written := hwritten.trans h.written }
      | join => exact fun h ↦ { h with written := hwritten.trans h.written }
      | command => exact fun h ↦ { h with }
  | enterRoom => exact fun h ↦ { h with written := hwritten.trans h.written }
  | addMember => exact fun h ↦ ⟨{ h.1 with written := hwritten.trans h.1.written }, h.2⟩
  | openRoom | broadcast => exact fun h ↦ { h with }
  | send rest after =>
      cases after with
      | part => exact id
      | loggedIn role =>
          exact fun h ↦ { h with written := (congrArg (· ++ rest) hwritten).trans h.written }
      | replied | quit => exact fun h ↦ { h with }
      | joined room =>
          exact fun h ↦
            ⟨{ h.1 with }, h.2.1, (congrArg (· ++ rest) hwritten).trans h.2.2⟩
      | delivered room => exact fun h ↦ ⟨{ h.1 with }, h.2.sent, hprefix h.2⟩
  | testFlag | dequeue | collect =>
      exact fun h ↦ ⟨{ h.1 with }, h.2.sent, hprefix h.2⟩
  | removeMember room result =>
      refine fun h ↦ ⟨{ h.1 with }, fun hsent ↦ ?_⟩
      obtain ⟨hresult, hconfirmed⟩ := h.2 hsent
      exact ⟨hresult, hconfirmed.sent, hprefix hconfirmed⟩
  | close | ended =>
      intro h hrole hroom hsent
      obtain ⟨hresult, hconfirmed⟩ := h hrole hroom hsent
      exact ⟨hresult, hconfirmed.sent, hprefix hconfirmed⟩

/-- Nothing has happened yet. -/
theorem Fresh.lawful (h : w.Fresh) : w.Lawful d := by
  simp only [Lawful, h.control]
  refine ⟨?_, ?_, ?_, ?_, h.written⟩ <;> rw [h.session]

end Worker

namespace System

variable {s : System} {k : Nat}

/-- Whatever happens, the directory only grows. -/
theorem grows_act (s : System) (action : Action) :
    s.hub.directory.Grows (s.act action).hub.directory := by
  cases action with
  | connect pace counted =>
      simp only [act, connect]
      split <;> exact .refl _
  | work k =>
      simp only [act]
      cases hwork : s.work? k with
      | none => exact .refl _
      | some t =>
          obtain ⟨w, hub, w', -, hstep, rfl⟩ := work?_eq_some hwork
          exact (Worker.step_sound hstep).grows
  | broadcast room sender text =>
      simp only [act, broadcast]
      split
      · exact .refl _
      · exact Directory.grows_broadcast _ _ _ _
  | cue | setClosing | pass => exact .refl _

theorem grows_run (s : System) (actions : List Action) :
    s.hub.directory.Grows (s.run actions).hub.directory := by
  induction actions generalizing s with
  | nil => exact .refl _
  | cons action rest ih => exact (s.grows_act action).trans (ih _)

/-- Whatever happens, nothing is taken from a worker. -/
theorem Placed.keeps_act (h : s.Placed) {w : Worker} (hw : s.workers[k]? = some w)
    (action : Action) : Worker.Keeps s.hub.directory (s.act action).hub.directory w := by
  refine ⟨s.grows_act action, fun hid ↦ ?_⟩
  cases action with
  | connect pace counted =>
      simp only [System.act, connect]
      split <;> exact hid
  | work j =>
      simp only [System.act]
      cases hwork : s.work? j with
      | none => exact hid
      | some t =>
          obtain ⟨v, hub, v', hv, hstep, rfl⟩ := work?_eq_some hwork
          refine (Worker.step_sound hstep).enrolled (fun heq ↦ ?_) hid
          rw [h k w hw, h j v hv] at heq
          subst heq
          rw [Option.some.inj (hw.symm.trans hv)]
  | broadcast room sender text =>
      simp only [System.act, System.broadcast]
      split
      · exact hid
      · exact (Directory.id?_deliver _ _ _ _).trans hid
  | cue | setClosing | pass => exact hid

/-- This is known of every worker. -/
def Everywhere (s : System) (P : Directory → Worker → Prop) : Prop :=
  ∀ (k : Nat) (w : Worker), s.workers[k]? = some w → P s.hub.directory w

/-- Known of a fresh worker, kept by its steps and by what happens to its stream, and not lost while
nothing is taken from it. -/
structure Lasting (P : Directory → Worker → Prop) : Prop where
  fresh : ∀ {d w}, Worker.Fresh w → P d w
  step : ∀ {hub w hub' w'}, Worker.Step hub w hub' w' → P hub.directory w → P hub'.directory w'
  cue : ∀ {d w} (cue : Cue), P d w → P d (w.cue cue)
  keeps : ∀ {d d' w}, Worker.Keeps d d' w → P d w → P d' w

/-- What lasts is kept of all workers by every action. -/
theorem Lasting.act {P : Directory → Worker → Prop} (hlasting : Lasting P) (hplaced : s.Placed)
    (h : s.Everywhere P) (action : Action) : (s.act action).Everywhere P := by
  intro k w' hw'
  rcases exists_worker_before hw' with ⟨w, hw⟩ | ⟨hnew, -⟩
  · have hkeeps := hplaced.keeps_act hw action
    cases fate hw action with
    | kept _ _ hsame =>
        obtain rfl := Option.some.inj (hw'.symm.trans hsame)
        exact hlasting.keeps hkeeps (h k w' hw)
    | cued cue _ hcue =>
        obtain rfl := Option.some.inj (hw'.symm.trans hcue)
        exact hlasting.cue cue (hlasting.keeps hkeeps (h k w hw))
    | stuck _ _ hsame =>
        rw [hsame] at hw' ⊢
        exact h k w' hw'
    | stepped hub v _ hstep hafter =>
        rw [hafter] at hw' ⊢
        obtain rfl := Option.some.inj (hw'.symm.trans (getElem?_set_self hw v))
        exact hlasting.step (Worker.step_sound hstep) (h k w hw)
  · exact hlasting.fresh hnew

/-- What lasts is known of all workers in every run. -/
theorem Lasting.run {P : Directory → Worker → Prop} (hlasting : Lasting P) (h : s.Initial)
    (actions : List Action) : (s.run actions).Everywhere P := by
  have hstart : s.Everywhere P := fun k w hw ↦ hlasting.fresh (h.fresh k w hw)
  exact (run_induction (P := fun t ↦ t.Placed ∧ t.Everywhere P) ⟨h.placed, hstart⟩
    (fun _ action ht ↦ ⟨ht.1.act action, hlasting.act ht.1 ht.2 action⟩) actions).2

/-- That each worker is lawful lasts. -/
theorem lasting_lawful : Lasting Worker.Lawful where
  fresh hfresh := hfresh.lawful
  step hstep hw := hstep.lawful hw
  cue cue hw := hw.cue cue
  keeps hkeeps hw := hw.mono hkeeps

end System

end ChatRelay.Server
