import ChatRelay.Proofs.Membership

/-!
# Broadcasts and who hears them

`System.broadcastOf?` is the broadcast that an action makes, if it makes one, and `System.log` lists
those that a run makes on one room. `System.messages_act` says what they do to the mailbox of a
subscriber: what others do adds to it the broadcasts on the room of which the subscriber is a member,
and nothing else.
-/

namespace ChatRelay.Server

open Transport Wire

namespace Worker

variable {hub hub' : Hub} {w w' : Worker}

/-- The room in which the worker sits, if it is a member there. -/
def membership? (d : Directory) (w : Worker) : Option Nat :=
  w.control.seat?.filter fun room ↦ (d.members room).get? w.session.id == some w.place

/-- A step of a worker leaves the mailbox of everybody else as it is, unless it is a broadcast on a
room of which they are members. -/
theorem Step.mailbox (h : Step hub w hub' w') (hkeyed : hub.directory.Keyed) {number id : Nat}
    (hid : hub.directory.Enrolled number id) (hne : number ≠ w.place) :
    hub'.directory.mailbox number =
      match w.control with
      | .broadcast room text =>
          if (hub.directory.members room).get? id = some number then
            (hub.directory.mailbox number).enqueue
              (Delivery.message ⟨hub.directory.name room, w.session.name, text⟩)
          else hub.directory.mailbox number
      | _ => hub.directory.mailbox number := by
  have hsubscribers (d : Directory) (heq : d.subscribers = hub.directory.subscribers) :
      d.mailbox number = hub.directory.mailbox number := by
    simp only [Directory.mailbox, heq]
  cases h with
  | openRoom name directory room hcontrol hfind | enterRoom name directory room hcontrol hfind =>
      rw [hcontrol]
      refine hsubscribers directory ?_
      have hsame := hub.directory.subscribers_findOrCreate name
      rwa [hfind] at hsame
  | addMember room directory hcontrol hd =>
      rw [hcontrol]
      exact hsubscribers directory (by rw [hd]; exact Directory.subscribers_addMember _ _ _)
  | removeMember room result directory hcontrol hd =>
      rw [hcontrol]
      exact hsubscribers directory (by rw [hd]; exact Directory.subscribers_removeMember _ _ _)
  | broadcast room text directory hcontrol hd =>
      rw [hcontrol, Hub.directory_count]
      simp only [hd, hkeyed.mailbox_broadcast, hkeyed.mem_values_iff hid]
  | sent rest after connection hcontrol =>
      rw [hcontrol]
      cases after with
      | loggedIn role =>
          cases role with
          | publisher => rfl
          | subscriber => exact (Directory.mailbox_subscribe _ _ _ _ _).trans (if_neg hne)
      | _ => rfl
  | dequeue _ _ hcontrol hd | collected _ _ _ hcontrol _ _ hd | missed _ _ hcontrol _ _ hd
  | lapsed _ _ hcontrol _ _ hd =>
      rw [hcontrol]
      simp only [hd]
      exact Directory.mailbox_updateMailbox_of_ne _ hne _
  | close result hcontrol =>
      rw [hcontrol, Hub.directory_closed]
  | _ => simp only [*, Hub.directory_count]

end Worker

namespace System

variable {s : System}

/-- The broadcast that an action makes, with the number of its room: by a worker whose `sendall` was
accepted, or directly. -/
def broadcastOf? (s : System) : Action → Option (Nat × Delivery)
  | .work k =>
      match s.workers[k]? with
      | none => none
      | some w =>
          match w.control with
          | .broadcast room text => some (room, ⟨s.hub.directory.name room, w.session.name, text⟩)
          | _ => none
  | .broadcast name sender text =>
      (s.hub.directory.find? name).map fun room ↦
        (room, ⟨s.hub.directory.name room, sender, text⟩)
  | _ => none

/-- A broadcast names the room on which it is made. -/
theorem room_of_broadcastOf? {action : Action} {room : Nat} {delivery : Delivery}
    (h : s.broadcastOf? action = some (room, delivery)) :
    delivery.room = s.hub.directory.name room := by
  cases action with
  | work k =>
      simp only [broadcastOf?] at h
      split at h
      · cases h
      · split at h
        · cases h
          rfl
        · cases h
  | broadcast name sender text =>
      obtain ⟨number, -, heq⟩ := Option.map_eq_some_iff.mp h
      cases heq
      rfl
  | _ => cases h

/-- What an action broadcasts on this room. -/
def entry (s : System) (room : Nat) (action : Action) : List Delivery :=
  match s.broadcastOf? action with
  | none => []
  | some (target, delivery) => if target = room then [delivery] else []

/-- What a run broadcasts on this room, in order. -/
def log (room : Nat) : System → List Action → List Delivery
  | _, [] => []
  | s, action :: rest => s.entry room action ++ log room (s.act action) rest

theorem mem_entry_iff {room : Nat} {action : Action} {delivery : Delivery} :
    delivery ∈ s.entry room action ↔ s.broadcastOf? action = some (room, delivery) := by
  unfold entry
  cases s.broadcastOf? action with
  | none => simp
  | some heard =>
      obtain ⟨target, other⟩ := heard
      by_cases htarget : target = room
      · simp [htarget, eq_comm]
      · simp [htarget]

/-- The broadcasts in the log of a room all name it. -/
theorem room_of_mem_log {room : Nat} (hroom : room < s.hub.directory.rooms.length)
    {actions : List Action} {delivery : Delivery} (h : delivery ∈ log room s actions) :
    delivery.room = s.hub.directory.name room := by
  induction actions generalizing s with
  | nil => cases h
  | cons action rest ih =>
      have hgrows := s.grows_act action
      rcases List.mem_append.mp h with hentry | hrest
      · exact room_of_broadcastOf? (mem_entry_iff.mp hentry)
      · rw [ih (Nat.lt_of_lt_of_le hroom hgrows.length_le) hrest, hgrows.name room hroom]

/-- A worker is a member of the room that its entry there says. -/
theorem Seated.membership?_eq_some_iff (h : s.Seated) {k : Nat} {w : Worker}
    (hw : s.workers[k]? = some w) (room : Nat) :
    w.membership? s.hub.directory = some room ↔
      (s.hub.directory.members room).get? w.session.id = some w.place := by
  rw [Worker.membership?, Option.filter_eq_some_iff, beq_iff_eq]
  refine and_iff_right_of_imp fun hmember ↦ ?_
  obtain ⟨v, hv, -, hseat⟩ := h.members _ _ _ hmember
  rw [h.placed k w hw] at hv
  rwa [Option.some.inj (hw.symm.trans hv)]

/-- What others do leaves a subscriber's mailbox as it is, unless it is a broadcast on the room of
which the subscriber is a member. -/
theorem mailbox_act (h : s.Seated) {action : Action} {k : Nat} {w : Worker}
    (hw : s.workers[k]? = some w) (hid : s.hub.directory.Enrolled w.place w.session.id)
    (hother : action ≠ .work k) :
    (s.act action).hub.directory.mailbox w.place =
      match s.broadcastOf? action with
      | none => s.hub.directory.mailbox w.place
      | some (target, delivery) =>
          if w.membership? s.hub.directory = some target then
            (s.hub.directory.mailbox w.place).enqueue delivery.message
          else s.hub.directory.mailbox w.place := by
  simp only [h.membership?_eq_some_iff hw]
  cases action with
  | work j =>
      have hjk : j ≠ k := by simpa using hother
      cases hv : s.workers[j]? with
      | none => simp only [broadcastOf?, act, work?, hv, bind, Option.bind_none, Option.getD_none]
      | some v =>
          cases hstep : v.step s.hub with
          | none =>
              rw [act_of_stuck hv hstep]
              cases hcontrol : v.control with
              | broadcast => simp [Worker.step, hcontrol] at hstep
              | _ => simp only [broadcastOf?, hv, hcontrol]
          | some next =>
              obtain ⟨hub, v'⟩ := next
              have hne : w.place ≠ v.place := by
                rw [h.placed k w hw, h.placed j v hv]
                exact hjk.symm
              rw [act_of_step hv hstep, (Worker.step_sound hstep).mailbox h.keyed hid hne]
              cases hcontrol : v.control <;> simp only [broadcastOf?, hv, hcontrol]
  | broadcast name sender text =>
      cases hfind : s.hub.directory.find? name with
      | none => simp only [act, broadcast, broadcastOf?, hfind, Option.map_none]
      | some target =>
          simp only [act, broadcast, broadcastOf?, hfind, Option.map_some,
            h.keyed.mailbox_broadcast, h.keyed.mem_values_iff hid]
  | connect pace counted =>
      simp only [act, connect, broadcastOf?]
      split <;> rfl
  | cue | setClosing | pass => rfl

/-- What others do adds to a subscriber's mailbox the broadcasts on the room of which it is a member,
and nothing else. -/
theorem messages_act (h : s.Seated) {action : Action} {k : Nat} {w : Worker}
    (hw : s.workers[k]? = some w) (hid : s.hub.directory.Enrolled w.place w.session.id)
    (hother : action ≠ .work k) :
    ((s.act action).hub.directory.mailbox w.place).messages =
      (s.hub.directory.mailbox w.place).messages ++
        match w.membership? s.hub.directory with
        | none => []
        | some room => (s.entry room action).map Delivery.message := by
  rw [mailbox_act h hw hid hother]
  cases hbroadcast : s.broadcastOf? action with
  | none => cases w.membership? s.hub.directory <;> simp [entry, hbroadcast]
  | some heard =>
      cases w.membership? s.hub.directory with
      | none => simp
      | some room =>
          by_cases hroom : heard.1 = room
          · simp [entry, hbroadcast, hroom]
          · simp [entry, hbroadcast, hroom, Ne.symm hroom]

/-- Nobody is made a member of a room but by a step of its own. -/
theorem Seated.membership?_of_act (h : s.Seated) {action : Action} {k : Nat} {w w' : Worker}
    (hw : s.workers[k]? = some w) (hw' : (s.act action).workers[k]? = some w')
    (hother : action ≠ .work k) {room : Nat}
    (hmember : w'.membership? (s.act action).hub.directory = some room) :
    w.membership? s.hub.directory = some room := by
  have hid : w'.session.id = w.session.id := by
    obtain ⟨v, hv, hid⟩ := exists_worker_act hw action
    rw [Option.some.inj (hw'.symm.trans hv), hid]
  rw [(h.act action).membership?_eq_some_iff hw', (h.placed.act action) k w' hw', hid] at hmember
  rw [h.membership?_eq_some_iff hw, h.placed k w hw]
  by_cases hwork : ∃ j, action = .work j
  · obtain ⟨j, rfl⟩ := hwork
    have hjk : j ≠ k := by simpa using hother
    cases hv : s.workers[j]? with
    | none =>
        have hidle : s.work? j = none := by simp [work?, hv]
        rwa [System.act, hidle, Option.getD_none] at hmember
    | some v =>
        cases hstep : v.step s.hub with
        | none => rwa [act_of_stuck hv hstep] at hmember
        | some next =>
            obtain ⟨hub, v'⟩ := next
            rw [act_of_step hv hstep] at hmember
            cases (Worker.step_sound hstep).moves (h.lawful j v hv) with
            | stays hmembers _ => rwa [hmembers] at hmember
            | sits entered hentered _ hd _ =>
                -- the entry that the other one makes leads to its own mailbox
                rw [hd, Directory.members_updateMembers _ _ _ _ hentered] at hmember
                split at hmember
                · subst room
                  rw [Table.get?_insert, h.placed j v hv] at hmember
                  split at hmember
                  · exact absurd (Option.some.inj hmember) hjk
                  · exact hmember
                · exact hmember
            | rises left hleft _ hd _ =>
                rw [hd, Directory.members_updateMembers _ _ _ _ hleft] at hmember
                split at hmember
                · subst room
                  rw [Table.get?_erase] at hmember
                  split at hmember
                  · cases hmember
                  · exact hmember
                · exact hmember
  · rwa [members_act fun j hj ↦ hwork ⟨j, hj⟩] at hmember

end System

end ChatRelay.Server
