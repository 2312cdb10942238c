import ChatRelay.Proofs.Phases
import ChatRelay.Proofs.Receiving

/-!
# Who is a member of a room

`Control.seat?` is the room that a control point counts its worker among the members of.
`System.Seated` says that the rooms have no other members, by every order of steps, and
`System.Undisplaced` that they have all of these if no two workers have one session id. From the two
follows `members_iff_joined`: once every worker waits or has ended, and none of them still for its peer
to take the confirmation of a join, the members of a room are the subscribers that joined it and are
still there. Whoever has ended is a member of no room and has shut its stream down once.
-/

namespace ChatRelay.Server

open Transport Wire

/-- The room whose members the worker is among at this control point. -/
def Control.seat? : Control → Option Nat
  | .send _ (.joined room) | .send _ (.delivered room) => some room
  | .testFlag room | .dequeue room | .collect room | .removeMember room _ => some room
  | _ => none

/-- The worker of a subscriber whose join is confirmed delivers, or is on the way to its end. -/
def Control.IsHearing : Control → Prop
  | .send _ (.delivered _) | .testFlag _ | .dequeue _ | .collect _ => True
  | .removeMember _ _ | .close _ | .ended _ => True
  | _ => False

namespace Worker

variable {d : Directory} {hub hub' : Hub} {w w' : Worker}

/-- A worker that sits in a room is a subscriber that was let in there. -/
theorem Lawful.seated (h : w.Lawful d) {room : Nat} (hseat : w.control.seat? = some room) :
    w.Seated d room := by
  revert h hseat
  unfold Lawful
  cases w.control with
  | send rest after =>
      cases after with
      | joined | delivered =>
          intro h hseat
          cases hseat
          exact h.1
      | _ => nofun
  | testFlag | dequeue | collect | removeMember =>
      intro h hseat
      cases hseat
      exact h.1
  | _ => nofun

/-- What a step of a worker does to the members of rooms: it takes a seat, leaves it, or changes
nothing. -/
inductive Moves (d : Directory) (w : Worker) (d' : Directory) (w' : Worker) : Prop where
  | stays : (∀ room, d'.members room = d.members room) → w'.control.seat? = w.control.seat? →
      Moves d w d' w'
  | sits (room) : room < d.rooms.length → w.control = .addMember room →
      d' = d.updateMembers room (·.insert w.session.id w.place) →
      w'.control.seat? = some room → Moves d w d' w'
  | rises (room) : room < d.rooms.length → w.control.seat? = some room →
      d' = d.updateMembers room (·.erase w.session.id) → w'.control.seat? = none → Moves d w d' w'

/-- Every step moves the worker in one of these ways. -/
theorem Step.moves (h : Step hub w hub' w') (hw : w.Lawful hub.directory) :
    Moves hub.directory w hub'.directory w' := by
  cases h with
  | input _ _ hcontrol | loginFailed _ _ hcontrol | loginRefused _ _ _ hcontrol
  | loginAccepted _ _ _ hcontrol | joinFailed _ _ hcontrol | joinRefused _ _ _ hcontrol
  | joinAccepted _ _ hcontrol | commandFailed _ _ _ hcontrol | commandRefused _ _ _ _ hcontrol
  | joinCommand _ _ _ hcontrol | sendCommand _ _ _ hcontrol | leaveCommand _ _ _ hcontrol
  | quitCommand _ _ _ hcontrol =>
      exact .stays (fun _ ↦ rfl) (by simp [hcontrol, Control.seat?])
  | openRoom name directory room hcontrol hfind | enterRoom name directory room hcontrol hfind =>
      have hmembers := hub.directory.members_findOrCreate name
      rw [hfind] at hmembers
      exact .stays hmembers (by simp [hcontrol, Control.seat?])
  | addMember room directory hcontrol hd =>
      -- only those enrolled are let in, and a subscriber is enrolled with its login
      simp only [Lawful, hcontrol] at hw
      rw [Directory.addMember_eq hw.1.enrolled] at hd
      exact .sits room hw.2 hcontrol hd rfl
  | broadcast room text directory hcontrol hd =>
      subst hd
      exact .stays (Directory.members_broadcast _ _ _ _) (by simp [hcontrol, Control.seat?])
  | output rest after connection left hcontrol =>
      refine .stays (fun _ ↦ rfl) ?_
      cases after <;> simp [hcontrol, Control.seat?]
  | sent rest after connection hcontrol =>
      cases after with
      | loggedIn role =>
          cases role with
          | publisher => exact .stays (fun _ ↦ rfl) (by simp [hcontrol, onSent, Control.seat?])
          | subscriber => exact .stays (fun _ ↦ rfl) (by simp [hcontrol, onSent, Control.seat?])
      | _ => exact .stays (fun _ ↦ rfl) (by simp [hcontrol, onSent, Control.seat?])
  | unsent rest after connection failure hcontrol =>
      refine .stays (fun _ ↦ rfl) ?_
      cases after <;> simp [hcontrol, onUnsent, Control.seat?]
  | parting _ hcontrol | staying _ hcontrol =>
      exact .stays (fun _ ↦ rfl) (by simp [hcontrol, Control.seat?])
  | dequeue _ _ hcontrol hd | collected _ _ _ hcontrol _ _ hd | missed _ _ hcontrol _ _ hd
  | lapsed _ _ hcontrol _ _ hd =>
      subst hd
      exact .stays (fun _ ↦ rfl) (by simp [hcontrol, Control.seat?])
  | removeMember room result directory hcontrol hd =>
      simp only [Lawful, hcontrol] at hw
      rw [Directory.removeMember_eq hw.1.enrolled] at hd
      exact .rises room hw.1.lt (by rw [hcontrol]; rfl) hd rfl
  | close result hcontrol =>
      refine .stays (fun _ ↦ ?_) (by simp [hcontrol, Control.seat?])
      rw [Hub.directory_closed]

end Worker

namespace System

variable {s : System}

/-- The worker in this place sits in the room, under this id. -/
def Sits (s : System) (room id place : Nat) : Prop :=
  ∃ w, s.workers[place]? = some w ∧ w.session.id = id ∧ w.control.seat? = some room

/-- Each member of a room sits there, in the place and under the id that the room has of it. -/
structure Seated (s : System) : Prop where
  distinct : s.hub.directory.DistinctNames
  placed : s.Placed
  lawful : s.Everywhere Worker.Lawful
  members : ∀ room id place, (s.hub.directory.members room).get? id = some place →
    s.Sits room id place

/-- Nobody moves but by a step of its own. -/
theorem sits_act (action : Action) (hwork : ∀ k, action ≠ .work k) (room id place : Nat) :
    (s.act action).Sits room id place ↔ s.Sits room id place := by
  constructor
  · intro hsits
    obtain ⟨w', hw', hid, hseat⟩ := hsits
    rcases exists_worker_before hw' with ⟨w, hw⟩ | ⟨hnew, -⟩
    · cases fate hw action with
      | kept _ _ hsame =>
          obtain rfl := Option.some.inj (hw'.symm.trans hsame)
          exact ⟨w', hw, hid, hseat⟩
      | cued cue _ hcue =>
          obtain rfl := Option.some.inj (hw'.symm.trans hcue)
          exact ⟨w, hw, hid, hseat⟩
      | stuck haction | stepped _ _ haction => exact absurd haction (hwork place)
    -- whoever has just connected sits nowhere
    · rw [hnew.control] at hseat
      cases hseat
  · intro hsits
    obtain ⟨w, hw, hid, hseat⟩ := hsits
    cases fate hw action with
    | kept _ _ hsame => exact ⟨w, hsame, hid, hseat⟩
    | cued cue _ hcue => exact ⟨w.cue cue, hcue, hid, hseat⟩
    | stuck haction | stepped _ _ haction => exact absurd haction (hwork place)

/-- A worker's step moves nobody else. -/
theorem sits_work {k : Nat} {w' : Worker} (hub : Hub) (room id : Nat) {place : Nat}
    (hne : place ≠ k) :
    Sits { hub, workers := s.workers.set k w' } room id place ↔ s.Sits room id place := by
  simp only [Sits, List.getElem?_set_ne hne.symm]

/-- After its step a worker sits where the step says. -/
theorem sits_work_self {k : Nat} {w w' : Worker} (hw : s.workers[k]? = some w) (hub : Hub)
    (room id : Nat) :
    Sits { hub, workers := s.workers.set k w' } room id k ↔
      w'.session.id = id ∧ w'.control.seat? = some room := by
  simp only [Sits, getElem?_set_self hw, Option.some.injEq, exists_eq_left']

theorem sits_iff {k : Nat} {w : Worker} (hw : s.workers[k]? = some w) (room id : Nat) :
    s.Sits room id k ↔ w.session.id = id ∧ w.control.seat? = some room := by
  simp only [Sits, hw, Option.some.injEq, exists_eq_left']

/-- Nothing but a worker's step changes who the members of a room are. -/
theorem members_act {action : Action} (hwork : ∀ k, action ≠ .work k) (room : Nat) :
    (s.act action).hub.directory.members room = s.hub.directory.members room := by
  cases action with
  | work k => exact absurd rfl (hwork k)
  | connect pace counted =>
      simp only [System.act, connect]
      split <;> rfl
  | broadcast name sender text =>
      simp only [System.act, System.broadcast]
      split
      · rfl
      · exact Directory.members_broadcast _ _ _ _ _
  | cue | setClosing | pass => rfl

/-- Behind a worker's step the members of rooms still sit there. -/
theorem Seated.work (h : s.Seated) {k : Nat} {w w' : Worker} {hub : Hub}
    (hw : s.workers[k]? = some w) (hstep : Worker.Step s.hub w hub w') {room id place : Nat}
    (hmember : (hub.directory.members room).get? id = some place) :
    Sits { hub, workers := s.workers.set k w' } room id place := by
  have hself : Sits { hub, workers := s.workers.set k w' } room id k ↔
      w'.session.id = id ∧ w'.control.seat? = some room :=
    sits_work_self hw hub room id
  -- a member that was one before still sits there, if the step does not unseat it
  have hkeep (hold : (s.hub.directory.members room).get? id = some place)
      (hseat : w.session.id = id → w.control.seat? = some room → w'.control.seat? = some room) :
      Sits { hub, workers := s.workers.set k w' } room id place := by
    have hsits := h.members room id place hold
    by_cases hplace : place = k
    · subst hplace
      obtain ⟨hid, hbefore⟩ := (sits_iff hw room id).mp hsits
      exact hself.mpr ⟨hstep.id_eq.trans hid, hseat hid hbefore⟩
    · exact (sits_work hub room id hplace).mpr hsits
  cases hstep.moves (h.lawful k w hw) with
  | stays hmembers hseat =>
      rw [hmembers] at hmember
      exact hkeep hmember fun _ hbefore ↦ hseat.trans hbefore
  | sits entered hentered hadds hd hseat =>
      rw [hd, Directory.members_updateMembers _ _ _ _ hentered] at hmember
      have hold (hold : (s.hub.directory.members room).get? id = some place) :=
        hkeep hold fun _ hbefore ↦ by
          rw [hadds] at hbefore
          cases hbefore
      by_cases hroom : room = entered
      · subst hroom
        rw [if_pos rfl, Table.get?_insert] at hmember
        by_cases hid : id = w.session.id
        · rw [if_pos hid] at hmember
          obtain rfl := Option.some.inj hmember
          rw [h.placed k w hw]
          exact hself.mpr ⟨hstep.id_eq.trans hid.symm, hseat⟩
        · rw [if_neg hid] at hmember
          exact hold hmember
      · rw [if_neg hroom] at hmember
        exact hold hmember
  | rises left hleft hsome hd hseat =>
      rw [hd, Directory.members_updateMembers _ _ _ _ hleft] at hmember
      by_cases hroom : room = left
      · subst hroom
        rw [if_pos rfl, Table.get?_erase] at hmember
        by_cases hid : id = w.session.id
        · simp [hid] at hmember
        · rw [if_neg hid] at hmember
          exact hkeep hmember fun hown ↦ absurd hown.symm hid
      · rw [if_neg hroom] at hmember
        refine hkeep hmember fun _ hbefore ↦ ?_
        exact absurd (Option.some.inj (hbefore.symm.trans hsome)) hroom

/-- Whatever happens, the members of rooms still sit there. -/
theorem Seated.act (h : s.Seated) (action : Action) : (s.act action).Seated := by
  refine ⟨(s.grows_act action).distinct h.distinct, h.placed.act action,
    lasting_lawful.act h.placed h.lawful action, fun room id place hmember ↦ ?_⟩
  by_cases hwork : ∃ k, action = .work k
  · obtain ⟨k, rfl⟩ := hwork
    simp only [System.act] at hmember ⊢
    cases hmade : s.work? k with
    | none =>
        rw [hmade] at hmember
        exact h.members room id place hmember
    | some t =>
        rw [hmade] at hmember
        obtain ⟨w, hub, w', hw, hstep, rfl⟩ := work?_eq_some hmade
        exact h.work hw (Worker.step_sound hstep) hmember
  · have hothers : ∀ k, action ≠ .work k := fun k hk ↦ hwork ⟨k, hk⟩
    rw [members_act hothers] at hmember
    exact (sits_act action hothers room id place).mpr (h.members room id place hmember)

/-- In every run the members of rooms sit there. -/
theorem Seated.run (h : s.Seated) (actions : List Action) : (s.run actions).Seated :=
  run_induction h (fun _ action ht ↦ ht.act action) actions

/-- Nobody sits anywhere at the start. -/
theorem Initial.seated (h : s.Initial) : s.Seated where
  distinct := h.distinct
  placed := h.placed
  lawful k w hw := (h.fresh k w hw).lawful
  members room id place hmember := by
    rw [h.empty] at hmember
    simp at hmember

/-- Members stand at their own ids. -/
theorem Seated.keyed (h : s.Seated) : s.hub.directory.Keyed := by
  intro room id place hmember
  obtain ⟨w, hw, rfl, hseat⟩ := h.members room id place hmember
  have henrolled := ((h.lawful place w hw).seated hseat).enrolled
  rw [h.placed place w hw] at henrolled
  exact henrolled

/-- Whoever sits in a room is a member of it. A worker with the same id could have taken its entry. -/
def Undisplaced (s : System) : Prop :=
  ∀ room id place, s.Sits room id place →
    (s.hub.directory.members room).get? id = some place

/-- Where no two workers have one session id, a worker's step displaces nobody. -/
theorem Undisplaced.work (h : s.Undisplaced) (hs : s.Seated) {k : Nat} {w w' : Worker} {hub : Hub}
    (hw : s.workers[k]? = some w) (hstep : Worker.Step s.hub w hub w') (hids : s.DistinctIds)
    {room id place : Nat} (hsits : Sits { hub, workers := s.workers.set k w' } room id place) :
    (hub.directory.members room).get? id = some place := by
  by_cases hplace : place = k
  · subst hplace
    obtain ⟨hid, hafter⟩ := (sits_work_self hw hub room id).mp hsits
    obtain rfl : w.session.id = id := hstep.id_eq.symm.trans hid
    have hbefore (hseat : w.control.seat? = some room) :=
      h room w.session.id place ((sits_iff hw room _).mpr ⟨rfl, hseat⟩)
    cases hstep.moves (hs.lawful place w hw) with
    | stays hmembers hseat =>
        rw [hmembers]
        exact hbefore (hseat.symm.trans hafter)
    | sits entered hentered _ hd hseat =>
        obtain rfl := Option.some.inj (hafter.symm.trans hseat)
        simp [hd, Directory.members_updateMembers _ _ _ _ hentered, hs.placed place w hw]
    | rises _ _ _ _ hseat => cases hafter.symm.trans hseat
  · have hold := (sits_work hub room id hplace).mp hsits
    have hmember := h room id place hold
    obtain ⟨v, hv, rfl, -⟩ := hold
    have hne : v.session.id ≠ w.session.id := fun heq ↦ hplace (hids place k v w hv hw heq)
    cases hstep.moves (hs.lawful k w hw) with
    | stays hmembers _ => rwa [hmembers]
    | sits changed hlt _ hd _ | rises changed hlt _ hd _ =>
        rw [hd, Directory.members_updateMembers _ _ _ _ hlt]
        by_cases hroom : room = changed
        · subst hroom
          simpa [hne] using hmember
        · rwa [if_neg hroom]

end System

/-! ## How workers end -/

namespace Worker

variable {d : Directory} {hub hub' : Hub} {w w' : Worker}

/-- The subscriber logged in, its join of the room with this name was accepted, and both replies
went out. -/
structure Joined (w : Worker) (name : String) : Prop where
  role : w.session.role = some .subscriber
  room : w.session.room = some name
  sent : 2 ≤ w.session.sent

instance (w : Worker) (name : String) : Decidable (w.Joined name) :=
  decidable_of_iff
    (w.session.role = some .subscriber ∧ w.session.room = some name ∧ 2 ≤ w.session.sent)
    ⟨fun ⟨hrole, hroom, hsent⟩ ↦ ⟨hrole, hroom, hsent⟩, fun h ↦ ⟨h.role, h.room, h.sent⟩⟩

/-- The connection is open until the worker ends, and its stream is then shut down once. -/
def Tended (_ : Directory) (w : Worker) : Prop :=
  match w.result? with
  | none => w.connection.isOpen = true ∧ w.connection.stream.shutdowns = 0
  | some _ => w.connection.stream.shutdowns = 1

/-- What a step of a worker does to its connection: a step of a receive or of a send, or it closes
it and ends. -/
theorem Step.connection_cases (h : Step hub w hub' w') :
    (w'.result? = none ∧ (w'.connection = w.connection ∨
      w'.connection = w.connection.receiveStep.1 ∨
      ∃ rest, w'.connection = (w.connection.sendStep rest).1)) ∨
    ∃ result, w.control = .close result ∧ w'.result? = some result ∧
      w'.connection = w.connection.close := by
  cases h with
  | input await connection hcontrol hstep =>
      exact .inl ⟨by simp [result?, hcontrol], .inr (.inl (by rw [hstep]))⟩
  | loginFailed _ _ _ hstep | loginRefused _ _ _ _ hstep | loginAccepted _ _ _ _ hstep
  | joinFailed _ _ _ hstep | joinRefused _ _ _ _ hstep | joinAccepted _ _ _ hstep
  | commandFailed _ _ _ _ hstep | commandRefused _ _ _ _ _ hstep | joinCommand _ _ _ _ hstep
  | sendCommand _ _ _ _ hstep | leaveCommand _ _ _ _ hstep | quitCommand _ _ _ _ hstep =>
      exact .inl ⟨rfl, .inr (.inl (by rw [hstep]; rfl))⟩
  | output rest after connection left _ hstep =>
      exact .inl ⟨rfl, .inr (.inr ⟨rest, by rw [hstep]⟩)⟩
  | sent rest after connection _ hstep =>
      refine .inl ⟨?_, .inr (.inr ⟨rest, ?_⟩)⟩
      · cases after with
        | loggedIn role => cases role <;> rfl
        | _ => rfl
      · rw [connection_onSent, hstep]
  | unsent rest after connection failure _ hstep =>
      refine .inl ⟨?_, .inr (.inr ⟨rest, ?_⟩)⟩
      · cases after <;> rfl
      · rw [connection_onUnsent, hstep]
  | close result hcontrol => exact .inr ⟨result, hcontrol, rfl, rfl⟩
  | _ => exact .inl ⟨rfl, .inl rfl⟩

/-- A worker that makes a step has not ended. -/
theorem Step.result?_eq_none (h : Step hub w hub' w') : w.result? = none := by
  cases h <;> simp [result?, *]

theorem Step.tended (h : Step hub w hub' w') (hw : w.Tended hub.directory) :
    w'.Tended hub'.directory := by
  simp only [Tended, h.result?_eq_none] at hw
  obtain ⟨hopen, hshutdowns⟩ := hw
  rcases h.connection_cases with ⟨hnone, hconnection⟩ | ⟨result, -, hsome, hconnection⟩
  · simp only [Tended, hnone]
    rcases hconnection with heq | heq | ⟨rest, heq⟩ <;> rw [heq]
    · exact ⟨hopen, hshutdowns⟩
    · obtain ⟨arrivals, hstream⟩ := w.connection.stream_receiveStep
      rw [w.connection.isOpen_receiveStep, hstream]
      exact ⟨hopen, hshutdowns⟩
    · obtain ⟨written, writes, barrier, hstream⟩ := w.connection.stream_sendStep rest
      rw [(w.connection.sendStep_frame rest).1, hstream]
      exact ⟨hopen, hshutdowns⟩
  · simp only [Tended, hsome, hconnection, Connection.close, hopen, if_true, Stream.shutdown,
      hshutdowns]

theorem Fresh.tended (h : w.Fresh) : w.Tended d := by
  simp only [Tended, result?, h.control]
  exact ⟨h.isOpen, h.shutdowns⟩

theorem Tended.cue (h : w.Tended d) (cue : Cue) : (w.cue cue).Tended d := by
  have hresult : (w.cue cue).result? = w.result? := rfl
  have hopen : (w.cue cue).connection.isOpen = w.connection.isOpen := rfl
  have hshutdowns : (w.cue cue).connection.stream.shutdowns = w.connection.stream.shutdowns := by
    cases cue <;> rfl
  simpa only [Tended, hresult, hopen, hshutdowns] using h

/-- A stalled worker can make no step. -/
theorem step_eq_none_of_isStalled (h : w.isStalled = true) : w.step hub = none := by
  unfold isStalled at h
  split at h
  · rename_i hcontrol
    split at h
    · rename_i hwaits
      simp only [step, hcontrol]
      split
      · rfl
      all_goals
        rename_i hstep
        rw [hstep] at hwaits
        cases hwaits
    · cases h
  · cases h

/-- A worker that sends and can make no step is stalled. -/
theorem isStalled_of_step_eq_none (h : w.step hub = none) {rest : List UInt8} {after : After}
    (hcontrol : w.control = .send rest after) : w.isStalled = true := by
  simp only [step, hcontrol] at h
  split at h
  · rename_i hstep
    simp [isStalled, hcontrol, hstep]
  all_goals cases h

/-- On a responsive stream no worker is stalled. -/
theorem isStalled_eq_false (h : Connection.Responsive w.connection.stream) : w.isStalled = false := by
  unfold isStalled
  split
  · rename_i rest after hcontrol
    have hgoes := h.sendStep_ne_waiting rest
    split
    · exact absurd ‹_› hgoes
    · rfl
  · rfl

/-- A step of a worker leaves a responsive stream responsive. -/
theorem Step.responsive (h : Step hub w hub' w') (hw : Connection.Responsive w.connection.stream) :
    Connection.Responsive w'.connection.stream := by
  rcases h.connection_cases with ⟨-, heq | heq | ⟨rest, heq⟩⟩ | ⟨-, -, -, heq⟩ <;> rw [heq]
  · exact hw
  · exact hw.receiveStep
  · exact hw.sendStep rest
  · exact hw.close

/-- A worker that can make no step and is not stalled waits for its stream or for a delivery, or has
ended. -/
theorem control_of_step_eq_none (h : w.step hub = none) (hflows : w.isStalled = false) :
    (∃ await, w.control = .receive await) ∨ (∃ room, w.control = .collect room) ∨
      ∃ result, w.result? = some result := by
  cases hcontrol : w.control with
  | receive await => exact .inl ⟨await, rfl⟩
  | collect room => exact .inr (.inl ⟨room, rfl⟩)
  | ended result => exact .inr (.inr ⟨result, by simp [result?, hcontrol]⟩)
  | send rest after => cases (isStalled_of_step_eq_none h hcontrol).symm.trans hflows
  | testFlag =>
      simp only [step, hcontrol] at h
      split at h <;> cases h
  | _ => simp [step, hcontrol] at h

/-- A subscriber whose join was confirmed delivers, or is on the way to its end. -/
theorem Joined.isHearing {name : String} (h : w.Joined name) (hw : w.Lawful d) :
    w.control.IsHearing := by
  obtain ⟨hrole, hroom, hsent⟩ := h
  revert hw
  unfold Lawful
  cases w.control with
  | receive await =>
      cases await with
      | login => exact fun hw ↦ nomatch hw.role.symm.trans hrole
      | join => exact fun hw ↦ nomatch hw.room.symm.trans hroom
      | command => exact fun hw ↦ nomatch hw.role.symm.trans hrole
  | openRoom | broadcast => exact fun hw ↦ nomatch hw.role.symm.trans hrole
  | enterRoom => exact fun hw ↦ nomatch hw.room.symm.trans hroom
  | addMember => exact fun hw ↦ nomatch hw.1.room.symm.trans hroom
  | send rest after =>
      cases after with
      | part => exact fun hw ↦ nomatch hw.symm.trans hroom
      | loggedIn => exact fun hw ↦ nomatch hw.room.symm.trans hroom
      | replied | quit => exact fun hw ↦ nomatch hw.role.symm.trans hrole
      | joined =>
          intro hw
          have hone := hw.2.1
          omega
      | delivered => exact fun _ ↦ trivial
  | testFlag | dequeue | collect | removeMember | close | ended => exact fun _ ↦ trivial

/-- Whoever sits in a room and can make no step has joined it and has not ended, unless it waits for its
peer to take the confirmation. -/
theorem Lawful.joined (hw : w.Lawful d) (hstep : w.step hub = none)
    (hconfirmed : ∀ rest room, w.control ≠ .send rest (.joined room)) {room : Nat}
    (hseat : w.control.seat? = some room) : w.Joined (d.name room) ∧ w.result? = none := by
  have hseated := hw.seated hseat
  cases hcontrol : w.control with
  | collect =>
      simp only [Lawful, hcontrol] at hw
      exact ⟨⟨hseated.role, hseated.name, hw.2.sent⟩, by simp [result?, hcontrol]⟩
  | send rest after =>
      simp only [Lawful, hcontrol] at hw
      cases after with
      | joined other => exact absurd hcontrol (hconfirmed rest other)
      | delivered => exact ⟨⟨hseated.role, hseated.name, hw.2.sent⟩, by simp [result?, hcontrol]⟩
      | _ => simp [Control.seat?, hcontrol] at hseat
  | testFlag =>
      simp only [step, hcontrol] at hstep
      split at hstep <;> cases hstep
  | dequeue | removeMember => simp [step, hcontrol] at hstep
  | _ => simp [Control.seat?, hcontrol] at hseat

/-- Both replies to a subscriber that has joined are what its written bytes begin with. -/
theorem Lawful.confirmed (hw : w.Lawful d) {name : String} (h : w.Joined name) :
    confirmations <+: w.written := by
  have hhearing := h.isHearing hw
  obtain ⟨hrole, hroom, hsent⟩ := h
  revert hw
  unfold Lawful
  cases hcontrol : w.control with
  | send rest after =>
      cases after with
      | delivered => exact fun hw ↦ hw.2.written
      | _ => simp [Control.IsHearing, hcontrol] at hhearing
  | testFlag | dequeue | collect => exact fun hw ↦ hw.2.written
  | removeMember => exact fun hw ↦ (hw.2 hsent).2.written
  | close | ended => exact fun hw ↦ (hw hrole (by simp [hroom]) hsent).2.written
  | _ => simp [Control.IsHearing, hcontrol] at hhearing

/-- A worker that has ended sits nowhere. -/
theorem seat?_of_result? {result : Result} (h : w.result? = some result) :
    w.control.seat? = none := by
  cases hcontrol : w.control with
  | ended => rfl
  | _ => simp [result?, hcontrol] at h

/-- A subscriber whose join was confirmed ends in good order. -/
theorem Lawful.result_eq_ok (hw : w.Lawful d) {result : Result} (h : w.result? = some result)
    {name : String} (hjoined : w.Joined name) : result = .ok () := by
  cases hcontrol : w.control with
  | ended =>
      simp only [result?, hcontrol, Option.some.injEq] at h
      subst h
      simp only [Lawful, hcontrol] at hw
      exact (hw hjoined.role (by simp [hjoined.room]) hjoined.sent).1
  | _ => simp [result?, hcontrol] at h

end Worker

namespace System

variable {s : System}

/-- That the connection of each worker is tended lasts. -/
theorem lasting_tended : Lasting Worker.Tended where
  fresh hfresh := hfresh.tended
  step hstep hw := hstep.tended hw
  cue cue hw := hw.cue cue
  keeps _ hw := hw

/-- A subscriber connects, logs in, joins a room and waits there. -/
def listening : List Action :=
  [.connect (fun _ ↦ none) true,
    .cue 0 (.arrive (.chunk (Message.bytes ⟨.rlogin, "bob"⟩ ++ Message.bytes ⟨.join, "den"⟩)))] ++
    List.replicate 12 (.work 0)

end System

end ChatRelay.Server
