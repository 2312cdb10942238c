import ChatRelay.Proofs.Rooms
import ChatRelay.Proofs.Sending
import ChatRelay.Proofs.WorkerSteps
import ChatRelay.Server.Schedule

/-!
# Runs from a fresh start

`Initial` says where the runs considered begin: the workers have just been connected, with any ids
and any streams, and the rooms there are have no members yet. `run_induction` proves what one action
keeps of every run, and `distinct_run_induction` what it keeps where no two workers have one session id.
-/

namespace ChatRelay

open Transport Wire

namespace Session

@[simp] theorem id_login (s : Session) (role : Role) (username : String) :
    (s.login role username).id = s.id := by
  unfold login
  split <;> rfl

@[simp] theorem id_join (s : Session) (room : String) : (s.join room).id = s.id := by
  unfold join
  split <;> rfl

@[simp] theorem id_leave (s : Session) : s.leave.id = s.id := by
  unfold leave
  split <;> rfl

@[simp] theorem id_close (s : Session) : s.close.id = s.id :=
  rfl

@[simp] theorem id_countReceived (s : Session) : s.countReceived.id = s.id :=
  rfl

@[simp] theorem id_countSent (s : Session) : s.countSent.id = s.id :=
  rfl

theorem login_eq {s : Session} (h : s.phase = .awaitLogin) (role : Role) (username : String) :
    s.login role username =
      { s with role := some role, username := some username, phase := firstPhase role } := by
  simp [login, h]

theorem join_eq_of_publisher {s : Session} (h : s.phase = .publisherLoop) (room : String) :
    s.join room = { s with room := some room } := by
  simp [join, h]

theorem join_eq_of_subscriber {s : Session} (h : s.phase = .awaitJoin) (room : String) :
    s.join room = { s with room := some room, phase := .subscriberLoop } := by
  simp [join, h]

theorem leave_eq {s : Session} (h : s.phase = .publisherLoop) :
    s.leave = { s with room := none } := by
  simp [leave, h]

end Session

namespace Server

@[simp] theorem Hub.directory_count (hub : Hub) (event : CountedEvent) :
    (hub.count event).directory = hub.directory :=
  rfl

@[simp] theorem Hub.directory_closed (hub : Hub) (counted : Bool) :
    (if counted then hub.count .closed else hub).directory = hub.directory := by
  split <;> rfl

namespace Worker

@[simp] theorem control_goTo (w : Worker) (control : Control) :
    (w.goTo control).control = control :=
  rfl

@[simp] theorem session_goTo (w : Worker) (control : Control) :
    (w.goTo control).session = w.session :=
  rfl

@[simp] theorem connection_goTo (w : Worker) (control : Control) :
    (w.goTo control).connection = w.connection :=
  rfl

@[simp] theorem control_say (w : Worker) (m : Message) (after : After) :
    (w.say m after).control = .send m.bytes after :=
  rfl

@[simp] theorem session_say (w : Worker) (m : Message) (after : After) :
    (w.say m after).session = w.session :=
  rfl

@[simp] theorem connection_say (w : Worker) (m : Message) (after : After) :
    (w.say m after).connection = w.connection :=
  rfl

@[simp] theorem place_goTo (w : Worker) (control : Control) : (w.goTo control).place = w.place :=
  rfl

@[simp] theorem place_say (w : Worker) (m : Message) (after : After) :
    (w.say m after).place = w.place :=
  rfl

@[simp] theorem place_onSent (hub : Hub) (w : Worker) (after : After) :
    (onSent hub w after).2.place = w.place := by
  cases after with
  | loggedIn role => cases role <;> rfl
  | _ => rfl

@[simp] theorem place_onUnsent (w : Worker) (failure : Failure) (after : After) :
    (onUnsent w failure after).place = w.place := by
  cases after <;> rfl

/-- After a send the session is the same whatever follows. -/
@[simp] theorem session_onSent (hub : Hub) (w : Worker) (after : After) :
    (onSent hub w after).2.session = w.session := by
  cases after with
  | loggedIn role => cases role <;> rfl
  | _ => rfl

@[simp] theorem connection_onSent (hub : Hub) (w : Worker) (after : After) :
    (onSent hub w after).2.connection = w.connection := by
  cases after with
  | loggedIn role => cases role <;> rfl
  | _ => rfl

@[simp] theorem session_onUnsent (w : Worker) (failure : Failure) (after : After) :
    (onUnsent w failure after).session = w.session := by
  cases after <;> rfl

@[simp] theorem connection_onUnsent (w : Worker) (failure : Failure) (after : After) :
    (onUnsent w failure after).connection = w.connection := by
  cases after <;> rfl

/-- A worker keeps its session id. -/
theorem Step.id_eq {hub hub' : Hub} {w w' : Worker} (h : Step hub w hub' w') :
    w'.session.id = w.session.id := by
  cases h <;> simp

/-- A worker keeps its place. -/
theorem Step.place_eq {hub hub' : Hub} {w w' : Worker} (h : Step hub w hub' w') :
    w'.place = w.place := by
  cases h <;> simp

/-- The worker after something happened to its stream. -/
def cue (w : Worker) (cue : Cue) : Worker :=
  { w with connection := { w.connection with stream := w.connection.stream.cue cue } }

@[simp] theorem control_cue (w : Worker) (cue : Cue) : (w.cue cue).control = w.control :=
  rfl

/-- The connection has just been made: nothing is read, written or counted yet. What its stream will
bring and accept is open. -/
structure Fresh (w : Worker) : Prop where
  session : w.session = { id := w.session.id }
  isOpen : w.connection.isOpen = true
  buffer : w.connection.buffer = []
  written : w.connection.stream.written = []
  shutdowns : w.connection.stream.shutdowns = 0
  control : w.control = .receive .login

end Worker

namespace System

/-- Each worker knows its place. -/
def Placed (s : System) : Prop :=
  ∀ (k : Nat) (w : Worker), s.workers[k]? = some w → w.place = k

/-- The workers have just been connected, and no room has a member. Rooms with distinct names may be
there, and the flag, the clock and the counters may stand anywhere. -/
structure Initial (s : System) : Prop where
  placed : s.Placed
  distinct : s.hub.directory.DistinctNames
  empty : ∀ room id, (s.hub.directory.members room).get? id = none
  fresh : ∀ (k : Nat) (w : Worker), s.workers[k]? = some w → w.Fresh

/-- No two workers have one session id. -/
def DistinctIds (s : System) : Prop :=
  ∀ (j k : Nat) (v w : Worker), s.workers[j]? = some v → s.workers[k]? = some w →
    v.session.id = w.session.id → j = k

/-- A worker's step, and what becomes of the system by it. -/
theorem work?_eq_some {s t : System} {k : Nat} (h : s.work? k = some t) :
    ∃ w hub w', s.workers[k]? = some w ∧ w.step s.hub = some (hub, w') ∧
      t = { hub, workers := s.workers.set k w' } := by
  simp only [work?, bind, Option.bind_eq_some_iff, pure, Option.some.injEq] at h
  obtain ⟨w, hw, ⟨hub, w'⟩, hstep, rfl⟩ := h
  exact ⟨w, hub, w', hw, hstep, rfl⟩

/-- A worker's turn comes to nothing exactly when the worker can make no step. -/
theorem work?_eq_none_iff {s : System} {k : Nat} {w : Worker} (hw : s.workers[k]? = some w) :
    s.work? k = none ↔ w.step s.hub = none := by
  simp only [work?, bind, hw, Option.bind_some]
  cases w.step s.hub <;> simp

/-- The system after a worker's turn in which it made a step. -/
theorem act_of_step {s : System} {k : Nat} {w w' : Worker} {hub : Hub}
    (hw : s.workers[k]? = some w) (hstep : w.step s.hub = some (hub, w')) :
    s.act (.work k) = { hub, workers := s.workers.set k w' } := by
  simp [act, work?, hw, hstep]

/-- The system after a worker's turn in which it could make no step. -/
theorem act_of_stuck {s : System} {k : Nat} {w : Worker} (hw : s.workers[k]? = some w)
    (hstep : w.step s.hub = none) : s.act (.work k) = s := by
  rw [act, (work?_eq_none_iff hw).mpr hstep]
  rfl

/-- A server nobody has connected to yet. -/
theorem initial_empty : Initial {} :=
  ⟨fun _ _ hw ↦ (nomatch hw), List.nodup_nil, fun _ _ ↦ rfl, fun _ _ hw ↦ nomatch hw⟩

/-- In an idle system no worker can make a step. -/
theorem Idle.step_eq_none {s : System} (h : s.Idle) {k : Nat} {w : Worker}
    (hw : s.workers[k]? = some w) : w.step s.hub = none :=
  (work?_eq_none_iff hw).mp (h k)

/-- What happens to a stream happens to one worker. -/
theorem workers_cue (s : System) (j : Nat) (cue : Cue) (k : Nat) :
    (s.act (.cue j cue)).workers[k]? =
      if k = j then (s.workers[k]?).map (·.cue cue) else s.workers[k]? := by
  simp only [act, updateStream, List.getElem?_modify]
  by_cases h : k = j
  · subst h
    simp [Worker.cue]
  · simp [h, Ne.symm h]

/-- What an action does to the worker in a place: nothing, something to its stream, or a step of its
own if it can make one. -/
inductive Fate (s : System) (k : Nat) (w : Worker) (action : Action) : Prop where
  | kept : action ≠ .work k → (∀ cue, action ≠ .cue k cue) →
      (s.act action).workers[k]? = some w → Fate s k w action
  | cued (cue : Cue) : action = .cue k cue → (s.act action).workers[k]? = some (w.cue cue) →
      Fate s k w action
  | stuck : action = .work k → w.step s.hub = none → s.act action = s → Fate s k w action
  | stepped (hub : Hub) (w' : Worker) : action = .work k → w.step s.hub = some (hub, w') →
      s.act action = { hub, workers := s.workers.set k w' } → Fate s k w action

/-- Every action does one of these to a worker. -/
theorem fate {s : System} {k : Nat} {w : Worker} (hw : s.workers[k]? = some w) (action : Action) :
    s.Fate k w action := by
  have hlt : k < s.workers.length := (List.getElem?_eq_some_iff.mp hw).1
  cases action with
  | connect pace counted =>
      refine .kept (by simp) (by simp) ?_
      simp only [act, connect]
      rw [List.getElem?_append_left hlt, hw]
  | work j =>
      by_cases hjk : j = k
      · subst hjk
        cases hstep : w.step s.hub with
        | none => exact .stuck rfl hstep (act_of_stuck hw hstep)
        | some next => exact .stepped next.1 next.2 rfl hstep (act_of_step hw hstep)
      · refine .kept (by simpa using hjk) (by simp) ?_
        simp only [act]
        cases hwork : s.work? j with
        | none => exact hw
        | some t =>
            obtain ⟨v, hub, v', -, -, rfl⟩ := work?_eq_some hwork
            rw [Option.getD_some, List.getElem?_set_ne hjk]
            exact hw
  | cue j cue =>
      have hcue := s.workers_cue j cue k
      by_cases hjk : k = j
      · subst hjk
        exact .cued cue rfl (by rw [hcue, if_pos rfl, hw]; rfl)
      · exact .kept (by simp) (by simp [Ne.symm hjk]) (by rw [hcue, if_neg hjk, hw])
  | broadcast room sender text =>
      refine .kept (by simp) (by simp) ?_
      simp only [act, broadcast]
      split <;> exact hw
  | setClosing value => exact .kept (by simp) (by simp) hw
  | pass ms => exact .kept (by simp) (by simp) hw

theorem getElem?_set_self {s : System} {k : Nat} {w : Worker} (hw : s.workers[k]? = some w)
    (w' : Worker) : (s.workers.set k w')[k]? = some w' :=
  List.getElem?_set_self (List.getElem?_eq_some_iff.mp hw).1

/-- A worker stays in its place and keeps its session id. -/
theorem exists_worker_act {s : System} {k : Nat} {w : Worker} (hw : s.workers[k]? = some w)
    (action : Action) :
    ∃ w', (s.act action).workers[k]? = some w' ∧ w'.session.id = w.session.id := by
  cases fate hw action with
  | kept _ _ hsame => exact ⟨w, hsame, rfl⟩
  | cued cue _ hcue => exact ⟨w.cue cue, hcue, rfl⟩
  | stuck _ _ hsame => exact ⟨w, by rw [hsame]; exact hw, rfl⟩
  | stepped hub w' _ hstep hafter =>
      refine ⟨w', ?_, (Worker.step_sound hstep).id_eq⟩
      rw [hafter]
      exact getElem?_set_self hw w'

theorem exists_worker_run {s : System} {k : Nat} {w : Worker} (hw : s.workers[k]? = some w)
    (actions : List Action) :
    ∃ w', (s.run actions).workers[k]? = some w' ∧ w'.session.id = w.session.id := by
  induction actions generalizing s w with
  | nil => exact ⟨w, hw, rfl⟩
  | cons action rest ih =>
      obtain ⟨v, hv, hid⟩ := exists_worker_act hw action
      obtain ⟨w', hw', hid'⟩ := ih hv
      exact ⟨w', hw', hid'.trans hid⟩

/-- The session ids of the workers, in their places. -/
def ids (s : System) : List Nat :=
  s.workers.map (·.session.id)

theorem length_connect (s : System) (pace : Nat → Option Nat) (counted : Bool) :
    (s.act (.connect pace counted)).workers.length = s.workers.length + 1 := by
  simp [act, connect]

theorem ids_connect (s : System) (pace : Nat → Option Nat) (counted : Bool) :
    (s.act (.connect pace counted)).ids = s.ids ++ [s.workers.length + 1] := by
  simp [ids, act, connect]

/-- Nothing but a connection brings an id in. -/
theorem ids_act {s : System} {action : Action}
    (h : ∀ pace counted, action ≠ .connect pace counted) :
    (s.act action).ids = s.ids := by
  cases action with
  | connect pace counted => exact absurd rfl (h pace counted)
  | work i =>
      cases hwork : s.work? i with
      | none => rw [act, hwork, Option.getD_none]
      | some next =>
          obtain ⟨w, hub, w', hw, hstep, rfl⟩ := work?_eq_some hwork
          obtain ⟨hlt, rfl⟩ := List.getElem?_eq_some_iff.mp hw
          rw [act, hwork, Option.getD_some, ids, List.map_set, (Worker.step_sound hstep).id_eq]
          apply List.ext_getElem?
          intro j
          rw [List.getElem?_set]
          split
          · subst j
            simp [ids, hlt]
          · rfl
  | cue i cue =>
      apply List.ext_getElem?
      intro j
      rw [ids, ids, List.getElem?_map, List.getElem?_map, workers_cue]
      split
      · cases s.workers[j]? <;> rfl
      · rfl
  | broadcast room sender text =>
      simp only [act, broadcast]
      split <;> rfl
  | setClosing | pass => rfl

/-- Where the same places have the same ids, the same places are taken. -/
theorem exists_worker_of_ids {s t : System} (h : t.ids = s.ids) {j : Nat} {v : Worker}
    (hv : s.workers[j]? = some v) :
    ∃ w, t.workers[j]? = some w ∧ w.session.id = v.session.id := by
  have hid : t.ids[j]? = some v.session.id := by
    rw [h, ids, List.getElem?_map, hv, Option.map_some]
  rw [ids, List.getElem?_map] at hid
  exact Option.map_eq_some_iff.mp hid

theorem DistinctIds.of_ids {s t : System} (hids : s.DistinctIds) (h : t.ids = s.ids) :
    t.DistinctIds := by
  intro i j v w hv hw heq
  obtain ⟨v', hv', hvid⟩ := exists_worker_of_ids h.symm hv
  obtain ⟨w', hw', hwid⟩ := exists_worker_of_ids h.symm hw
  exact hids i j v' w' hv' hw' (by rw [hvid, hwid, heq])

theorem length_of_ids {s t : System} (h : t.ids = s.ids) :
    t.workers.length = s.workers.length := by
  simpa [ids] using congrArg List.length h

/-- A worker was there before, or it has just been connected. -/
theorem exists_worker_before {s : System} {k : Nat} {action : Action} {w' : Worker}
    (h : (s.act action).workers[k]? = some w') :
    (∃ w, s.workers[k]? = some w) ∨ w'.Fresh ∧ w'.place = k ∧ w'.session.id = k + 1 := by
  by_cases hconnect : ∃ pace counted, action = .connect pace counted
  · obtain ⟨pace, counted, rfl⟩ := hconnect
    simp only [act, connect, List.getElem?_append, List.getElem?_singleton] at h
    split at h
    · exact .inl ⟨w', h⟩
    · split at h
      · cases h
        have hlast : s.workers.length = k := by omega
        exact .inr ⟨⟨rfl, rfl, rfl, rfl, rfl, rfl⟩, hlast, congrArg (· + 1) hlast⟩
      · cases h
  · have hids : (s.act action).ids = s.ids := ids_act (by simpa using hconnect)
    obtain ⟨w, hw, -⟩ := exists_worker_of_ids hids.symm h
    exact .inl ⟨w, hw⟩

theorem Placed.act {s : System} (h : s.Placed) (action : Action) : (s.act action).Placed := by
  intro k w' hw'
  rcases exists_worker_before hw' with ⟨w, hw⟩ | ⟨-, hplace, -⟩
  · cases fate hw action with
    | kept _ _ hsame =>
        obtain rfl := Option.some.inj (hw'.symm.trans hsame)
        exact h k w' hw
    | cued cue _ hcue =>
        obtain rfl := Option.some.inj (hw'.symm.trans hcue)
        exact h k w hw
    | stuck _ _ hsame =>
        rw [hsame] at hw'
        exact h k w' hw'
    | stepped hub v _ hstep hafter =>
        rw [hafter] at hw'
        obtain rfl := Option.some.inj (hw'.symm.trans (getElem?_set_self hw v))
        rw [(Worker.step_sound hstep).place_eq, h k w hw]
  · exact hplace

/-- The workers have got their ids by connecting to the server. -/
def Numbered (s : System) : Prop :=
  ∀ (k : Nat) (w : Worker), s.workers[k]? = some w → w.session.id = k + 1

theorem Numbered.act {s : System} (h : s.Numbered) (action : Action) : (s.act action).Numbered := by
  intro k w' hw'
  rcases exists_worker_before hw' with ⟨w, hw⟩ | ⟨-, -, hid⟩
  · obtain ⟨v, hv, hid⟩ := exists_worker_act hw action
    rw [Option.some.inj (hw'.symm.trans hv), hid, h k w hw]
  · exact hid

theorem Numbered.run {s : System} (h : s.Numbered) (actions : List Action) :
    (s.run actions).Numbered := by
  induction actions generalizing s with
  | nil => exact h
  | cons action rest ih => exact ih (h.act action)

/-- A server that numbers its own connections never gives an id twice. -/
theorem Numbered.distinctIds {s : System} (h : s.Numbered) : s.DistinctIds := by
  intro j k v w hv hw hid
  rw [h j v hv, h k w hw] at hid
  omega

theorem numbered_of_nil {s : System} (h : s.workers = []) : s.Numbered := by
  intro k w hw
  simp [h] at hw

theorem numbered_empty : Numbered {} :=
  numbered_of_nil rfl

/-- Ids that are distinct after an action were distinct before it. -/
theorem DistinctIds.of_act {s : System} {action : Action} (h : (s.act action).DistinctIds) :
    s.DistinctIds := by
  intro j k v w hv hw hid
  obtain ⟨v', hv', hvid⟩ := exists_worker_act hv action
  obtain ⟨w', hw', hwid⟩ := exists_worker_act hw action
  exact h j k v' w' hv' hw' (by rw [hvid, hwid, hid])

/-- Ids that are distinct after a run were distinct before it. -/
theorem DistinctIds.of_run {s : System} {actions : List Action}
    (h : (s.run actions).DistinctIds) : s.DistinctIds := by
  induction actions generalizing s with
  | nil => exact h
  | cons action rest ih => exact (ih h).of_act

/-- What holds at the start and is kept by every action holds after every run. -/
theorem run_induction {P : System → Prop} {s : System} (hstart : P s)
    (hact : ∀ t action, P t → P (t.act action)) (actions : List Action) : P (s.run actions) := by
  induction actions generalizing s with
  | nil => exact hstart
  | cons action rest ih => exact ih (hact s action hstart)

end System

end Server

end ChatRelay
