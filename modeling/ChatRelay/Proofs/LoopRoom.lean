import ChatRelay.Proofs.Dialogue
import ChatRelay.Proofs.Lifecycle

/-!
# The two copies of a publisher's room

The worker of a publisher knows its current room twice: as the loop's own room, with which it finds the
room again, and as the room that its session shows. `Worker.current` reads the loop's copy off the
control point, and `System.currentRoom` follows it along a run. `Step.tracks` says that every step
changes both copies together or neither, and `sessions_in_step` that they agree at every control point
of the loop in every run, on top of the life that every session has.
-/

namespace ChatRelay.Server

open Transport Wire

namespace Worker

/-- The worker is in its publisher loop: it waits for a command, carries one out or answers one. -/
def InLoop (w : Worker) : Prop :=
  match w.control with
  | .receive (.command _) | .openRoom _ | .broadcast _ _ | .send _ (.replied _) | .send _ .quit => True
  | _ => False

/-- The loop's own current room. Where the control point does not carry it, because the command in
hand does not need it, it is still the one before. -/
def current (before : Option Nat) (w : Worker) : Option Nat :=
  match w.control with
  | .receive (.command room) | .send _ (.replied room) => room
  | .broadcast room _ => some room
  | _ => before

/-- The session of a publisher shows this room, and the directory finds the room by its name. -/
structure Agrees (d : Directory) (w : Worker) (room : Option Nat) : Prop where
  phase : w.session.phase = .publisherLoop
  shown : w.session.room = room.map d.name
  known : Known d room

/-- The loop's current room is this one, and there is none before the loop. -/
def Tracks (d : Directory) (w : Worker) (room : Option Nat) : Prop :=
  match w.control with
  | .receive .login | .send _ (.loggedIn _) => room = none
  | .receive (.command current) | .send _ (.replied current) => current = room ∧ w.Agrees d room
  | .broadcast current _ => some current = room ∧ w.Agrees d room
  | .openRoom _ | .send _ .quit => w.Agrees d room
  | _ => True

variable {d d' : Directory} {hub hub' : Hub} {w w' : Worker} {room : Option Nat}

theorem Agrees.mono (hgrows : d.Grows d') (h : w.Agrees d room) : w.Agrees d' room := by
  obtain ⟨hknown, hname⟩ := h.known.mono hgrows
  exact ⟨h.phase, h.shown.trans hname.symm, hknown⟩

/-- What others do to the rooms makes no difference to either copy. -/
theorem Tracks.mono (hgrows : d.Grows d') (h : w.Tracks d room) : w.Tracks d' room := by
  revert h
  unfold Tracks
  cases w.control with
  | receive await =>
      cases await with
      | login | join => exact id
      | command => exact fun h ↦ ⟨h.1, h.2.mono hgrows⟩
  | openRoom => exact fun h ↦ h.mono hgrows
  | broadcast => exact fun h ↦ ⟨h.1, h.2.mono hgrows⟩
  | send rest after =>
      cases after with
      | replied => exact fun h ↦ ⟨h.1, h.2.mono hgrows⟩
      | quit => exact fun h ↦ h.mono hgrows
      | _ => exact id
  | _ => exact id

theorem Tracks.cue (h : w.Tracks d room) (cue : Cue) : (w.cue cue).Tracks d room := by
  revert h
  unfold Tracks
  rw [control_cue]
  cases w.control with
  | receive await =>
      cases await with
      | login | join => exact id
      | command => exact fun h ↦ ⟨h.1, { h.2 with }⟩
  | openRoom => exact fun h ↦ { h with }
  | broadcast => exact fun h ↦ ⟨h.1, { h.2 with }⟩
  | send rest after =>
      cases after with
      | replied => exact fun h ↦ ⟨h.1, { h.2 with }⟩
      | quit => exact fun h ↦ { h with }
      | _ => exact id
  | _ => exact id

/-- At the control points that carry the current room, it is the one that is tracked. -/
theorem Tracks.current_eq (h : w.Tracks d room) : w.current room = room := by
  revert h
  unfold Tracks current
  cases w.control with
  | receive await =>
      cases await with
      | login | join => exact fun _ ↦ rfl
      | command => exact fun h ↦ h.1
  | broadcast => exact fun h ↦ h.1
  | send rest after =>
      cases after with
      | replied => exact fun h ↦ h.1
      | _ => exact fun _ ↦ rfl
  | _ => exact fun _ ↦ rfl

/-- In the loop the two copies agree. -/
theorem Tracks.agrees (h : w.Tracks d room) (hloop : w.InLoop) : w.Agrees d room := by
  revert h hloop
  unfold Tracks InLoop
  cases w.control with
  | receive await =>
      cases await with
      | login | join => exact fun _ hloop ↦ hloop.elim
      | command => exact fun h _ ↦ h.2
  | openRoom => exact fun h _ ↦ h
  | broadcast => exact fun h _ ↦ h.2
  | send rest after =>
      cases after with
      | replied => exact fun h _ ↦ h.2
      | quit => exact fun h _ ↦ h
      | _ => exact fun _ hloop ↦ hloop.elim
  | _ => exact fun _ hloop ↦ hloop.elim

/-- A step changes both copies together, or neither. -/
theorem Step.tracks (h : Step hub w hub' w') (hlawful : w.Lawful hub.directory)
    (htracks : w.Tracks hub.directory room) :
    w'.Tracks hub'.directory (w'.current room) := by
  have hgrows := h.grows
  cases h with
  | input await connection hcontrol hstep =>
      have hsame : current room { w with connection } = room := by
        have hcurrent := htracks.current_eq
        simpa [current] using hcurrent
      rw [hsame]
      simp only [Tracks, hcontrol] at htracks ⊢
      cases await with
      | login | join => exact htracks
      | command => exact ⟨htracks.1, { htracks.2 with }⟩
  | loginAccepted connection m role hcontrol hstep hrole hname =>
      simp only [Tracks, hcontrol] at htracks
      exact htracks
  | commandRefused current connection m refusal hcontrol =>
      simp only [Tracks, hcontrol] at htracks
      obtain ⟨rfl, hagrees⟩ := htracks
      exact ⟨rfl, { hagrees with }⟩
  | joinCommand current connection name hcontrol =>
      simp only [Tracks, hcontrol] at htracks
      exact { htracks.2 with }
  | sendCommand target connection text hcontrol =>
      simp only [Tracks, hcontrol] at htracks
      obtain ⟨rfl, hagrees⟩ := htracks
      exact ⟨rfl, { hagrees with }⟩
  | leaveCommand current connection payload hcontrol =>
      simp only [Tracks, hcontrol] at htracks
      have hphase : w.session.countReceived.phase = .publisherLoop := htracks.2.phase
      rw [Session.leave_eq hphase]
      exact ⟨rfl, hphase, rfl, known_none _⟩
  | quitCommand current connection payload hcontrol =>
      simp only [Tracks, hcontrol] at htracks
      exact { htracks.2 with }
  | openRoom name directory number hcontrol hfind =>
      simp only [Tracks, hcontrol] at htracks
      have hname := hub.directory.name_findOrCreate name
      have hfound := hub.directory.find?_findOrCreate name
      rw [hfind] at hname hfound
      rw [Session.join_eq_of_publisher htracks.phase]
      refine ⟨rfl, htracks.phase, rfl, known_some ?_⟩
      show directory.find? (directory.name number) = some number
      rw [hname]
      exact hfound
  | broadcast number text directory hcontrol hd =>
      simp only [Tracks, hcontrol] at htracks
      obtain ⟨rfl, hagrees⟩ := htracks
      exact ⟨rfl, { hagrees.mono hgrows with }⟩
  | output rest after connection left hcontrol hstep =>
      simp only [Tracks, hcontrol] at htracks
      cases after with
      | loggedIn => exact htracks
      | replied number =>
          obtain ⟨rfl, hagrees⟩ := htracks
          exact ⟨rfl, { hagrees with }⟩
      | quit => exact { htracks with }
      | _ => exact trivial
  | sent rest after connection hcontrol hstep =>
      simp only [Tracks, hcontrol] at htracks
      cases after with
      | loggedIn role =>
          cases role with
          | publisher =>
              -- the loop begins with no room
              simp only [Lawful, hcontrol] at hlawful
              exact ⟨rfl, hlawful.phase, hlawful.room, known_none _⟩
          | subscriber => exact trivial
      | replied number =>
          obtain ⟨rfl, hagrees⟩ := htracks
          exact ⟨rfl, { hagrees with }⟩
      | _ => exact trivial
  | unsent rest after connection failure hcontrol hstep =>
      cases after <;> exact trivial
  | _ => exact trivial

end Worker

namespace System

/-- The current room of the loop of the worker in this place after these actions, from this one on. -/
def currentRoom (k : Nat) : System → Option Nat → List Action → Option Nat
  | _, before, [] => before
  | s, before, action :: rest =>
      let t := s.act action
      currentRoom k t ((t.workers[k]?).elim before (·.current before)) rest

/-- What is known of the worker in this place and its current room; there is none before the worker
is there. -/
def Tracking (s : System) (k : Nat) (room : Option Nat) : Prop :=
  (s.workers[k]? = none → room = none) ∧
    ∀ w, s.workers[k]? = some w → w.Lawful s.hub.directory ∧ w.Tracks s.hub.directory room

variable {s : System} {k : Nat} {room : Option Nat}

theorem Initial.tracking (h : s.Initial) (k : Nat) : s.Tracking k none := by
  refine ⟨fun _ ↦ rfl, fun w hw ↦ ⟨(h.fresh k w hw).lawful, ?_⟩⟩
  simp [Worker.Tracks, (h.fresh k w hw).control]

/-- Every action keeps track of the current room. -/
theorem Tracking.act (h : s.Tracking k room) (hplaced : s.Placed) (action : Action) :
    (s.act action).Tracking k (((s.act action).workers[k]?).elim room (·.current room)) := by
  have hgrows := s.grows_act action
  obtain ⟨hnone, hsome⟩ := h
  cases hafter : (s.act action).workers[k]? with
  | none =>
      refine ⟨fun _ ↦ hnone ?_, fun w hw ↦ by cases hafter.symm.trans hw⟩
      cases hw : s.workers[k]? with
      | none => rfl
      | some w =>
          obtain ⟨w', hw', -⟩ := exists_worker_act hw action
          cases hafter.symm.trans hw'
  | some w' =>
      refine ⟨fun hgone ↦ ?_, fun v hv ↦ ?_⟩
      · cases hafter.symm.trans hgone
      obtain rfl := Option.some.inj (hafter.symm.trans hv)
      simp only [Option.elim_some]
      cases hw : s.workers[k]? with
      | none =>
          rcases exists_worker_before hafter with ⟨w, hw'⟩ | ⟨hfresh, -⟩
          · cases hw.symm.trans hw'
          · refine ⟨hfresh.lawful, ?_⟩
            simp [Worker.Tracks, Worker.current, hfresh.control, hnone hw]
      | some w =>
          obtain ⟨hlawful, htracks⟩ := hsome w hw
          have hkeeps := hplaced.keeps_act hw action
          cases fate hw action with
          | kept _ _ hsame =>
              obtain rfl := Option.some.inj (hafter.symm.trans hsame)
              rw [htracks.current_eq]
              exact ⟨hlawful.mono hkeeps, htracks.mono hgrows⟩
          | cued cue _ hcue =>
              obtain rfl := Option.some.inj (hafter.symm.trans hcue)
              have hcued := htracks.cue cue
              rw [hcued.current_eq]
              exact ⟨(hlawful.mono hkeeps).cue cue, hcued.mono hgrows⟩
          | stuck _ _ hsame =>
              rw [hsame] at hafter ⊢
              obtain rfl := Option.some.inj (hw.symm.trans hafter)
              rw [htracks.current_eq]
              exact ⟨hlawful, htracks⟩
          | stepped hub u _ hstep hmade =>
              rw [hmade] at hafter ⊢
              obtain rfl := Option.some.inj (hafter.symm.trans (getElem?_set_self hw u))
              have hsound := Worker.step_sound hstep
              exact ⟨hsound.lawful hlawful, hsound.tracks hlawful htracks⟩

theorem Tracking.run (h : s.Tracking k room) (hplaced : s.Placed) (actions : List Action) :
    (s.run actions).Tracking k (currentRoom k s room actions) := by
  induction actions generalizing s room with
  | nil => exact h
  | cons action rest ih => exact ih (h.act hplaced action) (hplaced.act action)

/-- Every session lives as it should, whatever comes to it: its phase only goes forward, its login and
a subscriber's room are settled once, and after a close nothing changes. In every run from a fresh
start, at every control point of a publisher's loop, the session of the worker shows the name of the
loop's current room, and none exactly if the loop has none, and that room is the one that the
directory finds by this name. -/
theorem sessions_in_step (h : s.Initial) (actions : List Action) :
    (∀ id before later, Session.Life id before later) ∧
      ∀ (k : Nat) (w : Worker), (s.run actions).workers[k]? = some w → w.InLoop →
        w.Agrees (s.run actions).hub.directory (currentRoom k s none actions) := by
  refine ⟨Session.life, fun k w hw hloop ↦ ?_⟩
  obtain ⟨-, hsome⟩ := (h.tracking k).run h.placed actions
  exact (hsome w hw).2.agrees hloop

/-- A publisher joins a room, is refused another one and is about to leave. -/
def moving : List Action :=
  [.connect (fun _ ↦ none) true,
    .cue 0 (.arrive (.chunk (Message.bytes ⟨.slogin, "ann"⟩ ++ Message.bytes ⟨.join, "den"⟩ ++
      Message.bytes ⟨.join, "a:b"⟩)))] ++
    List.replicate 14 (.work 0)

/-- The refused room changes neither copy: both are still the room that was joined. -/
theorem sessions_in_step_moving :
    ({} : System).Initial ∧
      ∃ w, (run {} moving).workers[0]? = some w ∧ w.InLoop ∧ w.session.received = 3 ∧
        w.session.room = some "den" ∧ (run {} moving).hub.directory.find? "den" = some 0 := by
  have hread : (run {} moving).workers[0]?.bind (fun w ↦
      match w.control with
      | .receive (.command room) => some (room, w.session.received)
      | _ => none) = some (some 0, 3) := by
    decide +kernel
  obtain ⟨w, hw, hpoint⟩ := Option.bind_eq_some_iff.mp hread
  obtain ⟨hcontrol, hreceived⟩ :
      w.control = .receive (.command (some 0)) ∧ w.session.received = 3 := by
    split at hpoint
    case h_1 room hcontrol =>
      simp only [Option.some.injEq, Prod.mk.injEq] at hpoint
      exact ⟨hpoint.1 ▸ hcontrol, hpoint.2⟩
    case h_2 => cases hpoint
  have hcurrent : currentRoom 0 {} none moving = some 0 := by decide +kernel
  have hname : (run {} moving).hub.directory.name 0 = "den" := by decide +kernel
  have hloop : w.InLoop := by simp [Worker.InLoop, hcontrol]
  obtain ⟨-, hagree⟩ := sessions_in_step initial_empty moving
  obtain ⟨-, hshown, hknown⟩ := hagree 0 w hw hloop
  rw [hcurrent] at hshown hknown
  refine ⟨initial_empty, w, hw, hloop, hreceived, ?_, ?_⟩
  · show w.session.room = some "den"
    rw [hshown, Option.map_some, hname]
  · rw [← hname]
    exact hknown 0 rfl

end System

end ChatRelay.Server
