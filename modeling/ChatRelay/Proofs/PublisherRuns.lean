import ChatRelay.Proofs.Broadcasts
import ChatRelay.Proofs.Dialogue

/-!
# A publisher's session in any run

`System.deeds` lists what the worker in one place does in a run. `owes_run` says that this is the
next of what the worker owed, whatever else happens in the run, and `exists_rest` that a worker
which nobody disturbs comes to rest. `publisher_follows_dialogue` puts the two together: what a
publisher's worker does is what the dialogue says, up to where its input has come.
-/

namespace ChatRelay.Server

open Transport Wire Text

/-- The byte that is written, if this is a write. -/
def Deed.byte? : Deed → Option UInt8
  | .wrote byte => some byte
  | _ => none

/-- What is broadcast, if this is a broadcast. -/
def Deed.delivery? : Deed → Option Delivery
  | .broadcast delivery => some delivery
  | _ => none

/-- What an action puts on the stream of the worker in this place. -/
def Action.arrivals (k : Nat) : Action → List Arrival
  | .cue j what => if j = k then Connection.brought what else []
  | _ => []

/-- The action makes writes or flushes on the stream of the worker in this place fail or wait. -/
def Action.harms (k : Nat) : Action → Bool
  | .cue j (.block _) | .cue j (.haltFlush _) | .cue j .drop => j == k
  | .cue j (.limit most) => j == k && most == 0
  | _ => false

namespace Worker

variable {hub hub' : Hub} {w w' : Worker} {d : Directory} {username : String}
  {owed : List Deed × Option Result}

/-- What is left to do when nothing more comes in: messages, then control points up to the next
message, then bytes. -/
def left (w : Worker) : Nat × Nat × Nat :=
  let messages := w.connection.transcript.1.length + 1
  match w.control with
  | .receive _ => (messages, 1, w.connection.stream.unread.length)
  | .send rest _ => (messages, 2, rest.length)
  | .close _ => (0, 1, 0)
  | .ended _ => (0, 0, 0)
  | _ => (messages, 3, 0)

/-- A step leaves less to do. -/
theorem Step.left_lt (h : Step hub w hub' w') (howes : w.Owes d username [] owed) :
    Prod.Lex (· < ·) (Prod.Lex (· < ·) (· < ·)) w'.left w.left := by
  cases h with
  | input await connection hcontrol hstep =>
      have hsame := Connection.transcript_feed_of_more hstep []
      simp only [Connection.feed_nil] at hsame
      simp only [left, hcontrol, hsame]
      exact .right _ (.right _ (Connection.unread_lt_of_more hstep))
  | loginFailed connection failure hcontrol hstep =>
      have hinput := Connection.transcript_feed_of_error hstep []
      simp only [Owes, hcontrol, hinput] at howes
      obtain ⟨-, -, _, _, hlogin, -⟩ := howes
      cases hlogin
  -- messages may follow a failure, but nobody receives them any more
  | commandFailed room connection failure hcontrol hstep =>
      simp only [left, hcontrol, control_goTo]
      exact .left _ _ (Nat.succ_pos _)
  | loginRefused _ _ _ hcontrol hstep | loginAccepted _ _ _ hcontrol hstep
  | commandRefused _ _ _ _ hcontrol hstep | joinCommand _ _ _ hcontrol hstep
  | sendCommand _ _ _ hcontrol hstep | leaveCommand _ _ _ hcontrol hstep
  | quitCommand _ _ _ hcontrol hstep =>
      have hless := congrArg (·.1.length) (Connection.transcript_feed_of_ok hstep [])
      simp only [Connection.feed_nil, List.length_cons] at hless
      simp only [left, hcontrol, control_goTo, control_say, connection_goTo, connection_say, hless]
      exact .left _ _ (Nat.lt_succ_self _)
  | openRoom name directory room hcontrol | broadcast room text directory hcontrol =>
      simp only [left, hcontrol, control_say, connection_say]
      exact .right _ (.left _ _ (Nat.lt_succ_self _))
  | output rest after connection rest' hcontrol hstep =>
      have hsame := (w.connection.alike_sendStep rest []).transcript
      simp only [hstep, Connection.feed_nil] at hsame
      simp only [left, hcontrol, hsame]
      exact .right _ (.right _ (Connection.rest_lt_of_more hstep))
  | sent rest after connection hcontrol hstep =>
      have hsame := (w.connection.alike_sendStep rest []).transcript
      simp only [hstep, Connection.feed_nil] at hsame
      simp only [Owes, hcontrol] at howes
      obtain ⟨-, _, -, hafter⟩ := howes
      cases after with
      | loggedIn role =>
          cases role with
          | publisher =>
              simp only [left, hcontrol, onSent, control_goTo, connection_goTo, hsame]
              exact .right _ (.left _ _ (Nat.lt_succ_self _))
          | subscriber => exact hafter.elim
      | replied room =>
          simp only [left, hcontrol, onSent, control_goTo, connection_goTo, hsame]
          exact .right _ (.left _ _ (Nat.lt_succ_self _))
      | quit =>
          simp only [left, hcontrol, onSent, control_goTo]
          exact .left _ _ (Nat.succ_pos _)
      | _ => exact hafter.elim
  | unsent rest after connection failure hcontrol hstep =>
      simp only [Owes, hcontrol] at howes
      obtain ⟨-, _, -, hafter⟩ := howes
      cases after with
      | loggedIn | replied | quit =>
          simp only [left, hcontrol, onUnsent, control_goTo]
          exact .left _ _ (Nat.succ_pos _)
      | _ => exact hafter.elim
  | close result hcontrol =>
      simp only [left, hcontrol]
      exact .right _ (.left _ _ (Nat.lt_succ_self _))
  | _ => simp [Owes, *] at howes

/-- A step leaves a healthy stream healthy. -/
theorem Step.healthy (h : Step hub w hub' w') (hhealthy : Connection.Healthy w.connection.stream) :
    Connection.Healthy w'.connection.stream := by
  rcases h.connection_cases with ⟨-, heq | heq | ⟨rest, heq⟩⟩ | ⟨_, -, -, heq⟩ <;> rw [heq]
  · exact hhealthy
  · exact hhealthy.receiveStep
  · exact hhealthy.sendStep rest
  · exact hhealthy.close

/-- The stream of a worker that receives and can make no step brings nothing yet. -/
theorem transcript_of_step_eq_none {await : Await} (hcontrol : w.control = .receive await)
    (hstep : w.step hub = none) : w.connection.transcript = ([], none) := by
  have hwaiting : ∃ after, w.connection.receiveStep = (after, .waiting) := by
    simp only [step, hcontrol] at hstep
    split at hstep
    · exact ⟨_, ‹_›⟩
    · cases hstep
    · cases hstep
  obtain ⟨after, hwaiting⟩ := hwaiting
  exact Connection.transcript_of_none (Connection.receive_of_waiting hwaiting)

/-- A worker that can make no step on a healthy stream owes nothing more than its result. -/
theorem Owes.of_step_eq_none (h : w.Owes d username [] owed)
    (hhealthy : Connection.Healthy w.connection.stream) (hstep : w.step hub = none) :
    owed = ([], w.result?) := by
  have hflows := isStalled_eq_false hhealthy.responsive
  rcases control_of_step_eq_none hstep hflows with
    ⟨await, hcontrol⟩ | ⟨room, hcontrol⟩ | ⟨result, hresult⟩
  · have hinput := transcript_of_step_eq_none hcontrol hstep
    simp only [Owes, hcontrol, Connection.feed_nil, hinput] at h
    cases await with
    | login =>
        obtain ⟨-, -, _, _, hlogin, -⟩ := h
        cases hlogin
    | join => exact h.elim
    | command room =>
        rw [h.2.2, result?, hcontrol, dialogue]
  · simp only [Owes, hcontrol] at h
  · cases hcontrol : w.control with
    | ended other =>
        simp only [Owes, hcontrol] at h
        rw [h, result?, hcontrol]
    | _ => simp [result?, hcontrol] at hresult

/-- The connection of a publisher whose first message logs it in. -/
theorem Fresh.owes (h : w.Fresh) {more : List Arrival} {later : List Message}
    {ending : Option Failure}
    (hinput : (w.connection.feed more).transcript = (⟨.slogin, username⟩ :: later, ending)) :
    w.Owes d username more (andThen (sends .ok) (dialogue username none later ending)) := by
  simp only [Owes, h.control]
  exact ⟨by rw [h.session], h.isOpen, later, ending, hinput, rfl⟩

theorem filterMap_delivery?_deeds (d : Directory) (w w' : Worker) :
    (w.deeds d w').filterMap Deed.delivery? = (w.acts d).filterMap Deed.delivery? := by
  have hwrites (bytes : List UInt8) : (bytes.map Deed.wrote).filterMap Deed.delivery? = [] := by
    simp [Deed.delivery?]
  rw [deeds, List.filterMap_append, hwrites, List.append_nil]

theorem filterMap_byte?_deeds (d : Directory) (w w' : Worker) :
    (w.deeds d w').filterMap Deed.byte? = w'.written.drop w.written.length := by
  have hacts : (w.acts d).filterMap Deed.byte? = [] := by
    unfold acts
    split <;> rfl
  have hwrites (bytes : List UInt8) : (bytes.map Deed.wrote).filterMap Deed.byte? = bytes := by
    simp [List.filterMap_map, Function.comp_def, Deed.byte?]
  rw [deeds, List.filterMap_append, hacts, hwrites, List.nil_append]

/-- A worker opens a room where its control point says so. -/
theorem control_of_mem_deeds {name : String} (h : .opened name ∈ w.deeds d w') :
    w.control = .openRoom name := by
  rcases List.mem_append.mp h with hacts | hwrites
  · cases hcontrol : w.control with
    | openRoom other =>
        simp only [acts, hcontrol, List.mem_singleton, Deed.opened.injEq] at hacts
        rw [hacts]
    | _ => simp [acts, hcontrol] at hacts
  · obtain ⟨byte, -, hwrote⟩ := List.mem_map.mp hwrites
    cases hwrote

/-- A worker whose step has a broadcast among its deeds broadcasts by this step. -/
theorem Step.directory_of_mem_deeds (h : Step hub w hub' w') {delivery : Delivery}
    (hmem : .broadcast delivery ∈ w.deeds hub.directory w') :
    ∃ room text, delivery = ⟨hub.directory.name room, w.session.name, text⟩ ∧
      hub'.directory = (hub.directory.broadcast room w.session.name text).1 := by
  rcases List.mem_append.mp hmem with hacts | hwrites
  · cases hcontrol : w.control with
    | broadcast room text =>
        simp only [acts, hcontrol, List.mem_singleton, Deed.broadcast.injEq] at hacts
        have hstep := h.step_eq
        simp only [step, hcontrol, Option.some.injEq, Prod.mk.injEq] at hstep
        exact ⟨room, text, hacts, by rw [← hstep.1, Hub.directory_count]⟩
    | _ => simp [acts, hcontrol] at hacts
  · obtain ⟨byte, -, hwrote⟩ := List.mem_map.mp hwrites
    cases hwrote

/-- A step writes behind what is written. -/
theorem Step.written (h : Step hub w hub' w') :
    w'.written = w.written ++ (w.deeds d w').filterMap Deed.byte? := by
  have hmore : ∃ taken, w'.written = w.written ++ taken := by
    unfold Worker.written
    rcases h.connection_cases with ⟨-, heq | heq | ⟨rest, heq⟩⟩ | ⟨_, -, -, heq⟩ <;> rw [heq]
    · exact ⟨[], (List.append_nil _).symm⟩
    · obtain ⟨arrivals, hstream⟩ := w.connection.stream_receiveStep
      exact ⟨[], by rw [hstream, List.append_nil]⟩
    · rcases hstep : w.connection.sendStep rest with ⟨connection, sending⟩
      cases sending with
      | waiting => exact ⟨[], by rw [Connection.eq_of_waiting hstep, List.append_nil]⟩
      | more rest' =>
          obtain ⟨taken, -, -, hwritten⟩ := Connection.written_of_more hstep
          exact ⟨taken, hwritten⟩
      | done result =>
          cases result with
          | ok => exact ⟨[], by rw [(Connection.written_of_ok hstep).2, List.append_nil]⟩
          | error failure =>
              exact ⟨[], by rw [(Connection.written_of_error hstep).1, List.append_nil]⟩
    · exact ⟨[], by rw [written_close, List.append_nil]⟩
  obtain ⟨taken, htaken⟩ := hmore
  rw [filterMap_byte?_deeds, htaken, List.drop_left]

end Worker

namespace System

variable {s : System} {k : Nat} {w : Worker} {username : String} {owed : List Deed × Option Result}

/-- What the worker in this place does by an action. -/
def deed (s : System) (k : Nat) : Action → List Deed
  | .work j =>
      if j = k then
        match s.workers[k]? with
        | none => []
        | some w =>
            match w.step s.hub with
            | none => []
            | some (_, w') => w.deeds s.hub.directory w'
      else []
  | _ => []

/-- What the worker in this place does in a run, in order. -/
def deeds (k : Nat) : System → List Action → List Deed
  | _, [] => []
  | s, action :: rest => s.deed k action ++ deeds k (s.act action) rest

/-- What the worker in this place broadcasts by an action, with the number of the room. -/
def airs (s : System) (k : Nat) : Action → List (Nat × Delivery)
  | .work j => if j = k then (s.broadcastOf? (.work k)).toList else []
  | _ => []

/-- What the worker in this place broadcasts in a run, in order. -/
def aired (k : Nat) : System → List Action → List (Nat × Delivery)
  | _, [] => []
  | s, action :: rest => s.airs k action ++ aired k (s.act action) rest

/-- Writes and flushes on the stream of the worker in this place succeed all along a run. -/
def WritesSucceed (k : Nat) (s : System) (actions : List Action) : Prop :=
  ∀ (n : Nat) (v : Worker), (s.run (actions.take n)).workers[k]? = some v →
    Connection.Healthy v.connection.stream

theorem WritesSucceed.head {actions : List Action} (h : WritesSucceed k s actions)
    (hw : s.workers[k]? = some w) : Connection.Healthy w.connection.stream :=
  h 0 w hw

theorem WritesSucceed.last {actions : List Action} {v : Worker} (h : WritesSucceed k s actions)
    (hv : (s.run actions).workers[k]? = some v) : Connection.Healthy v.connection.stream :=
  h actions.length v (by rwa [List.take_length])

theorem WritesSucceed.tail {action : Action} {rest : List Action}
    (h : WritesSucceed k s (action :: rest)) : WritesSucceed k (s.act action) rest :=
  fun n v hv ↦ h (n + 1) v hv

theorem deed_of_ne {action : Action} (h : action ≠ .work k) : s.deed k action = [] := by
  cases action with
  | work j => exact if_neg fun hjk : j = k ↦ h (hjk ▸ rfl)
  | _ => rfl

theorem deed_of_step {hub : Hub} {w' : Worker} (hw : s.workers[k]? = some w)
    (hstep : w.step s.hub = some (hub, w')) :
    s.deed k (.work k) = w.deeds s.hub.directory w' := by
  simp only [deed, if_true, hw, hstep]

theorem deed_of_stuck (hw : s.workers[k]? = some w) (hstep : w.step s.hub = none) :
    s.deed k (.work k) = [] := by
  simp only [deed, if_true, hw, hstep]

theorem arrivals_of_ne {action : Action} (h : ∀ cue, action ≠ .cue k cue) :
    action.arrivals k = [] := by
  cases action with
  | cue j cue => exact if_neg fun hjk : j = k ↦ h cue (hjk ▸ rfl)
  | _ => rfl

/-- Whatever an action is, the worker does the next of what it owes by it. -/
theorem owes_act (hw : s.workers[k]? = some w) (action : Action)
    (hhealthy : Connection.Healthy w.connection.stream)
    (husername : usernameRefusal? username = none) {more : List Arrival}
    (howes : w.Owes s.hub.directory username (action.arrivals k ++ more) owed) :
    ∃ v owed', (s.act action).workers[k]? = some v ∧ owed = andThen (s.deed k action) owed' ∧
      v.Owes (s.act action).hub.directory username more owed' := by
  have hgrows := s.grows_act action
  cases fate hw action with
  | kept hwork hcue hsame =>
      rw [arrivals_of_ne hcue, List.nil_append] at howes
      exact ⟨w, owed, hsame, by rw [deed_of_ne hwork, andThen_nil], howes.mono hgrows⟩
  | cued cue haction hcue =>
      subst haction
      have harrivals : (Action.cue k cue).arrivals k = Connection.brought cue := if_pos rfl
      rw [harrivals] at howes
      exact ⟨w.cue cue, owed, hcue, rfl, howes.cue.mono hgrows⟩
  | stuck haction hstep hsame =>
      subst haction
      exact ⟨w, owed, by rw [hsame]; exact hw, by rw [deed_of_stuck hw hstep, andThen_nil],
        howes.mono hgrows⟩
  | stepped hub w' haction hstep hafter =>
      subst haction
      obtain ⟨owed', howed, howes'⟩ := (Worker.step_sound hstep).owes hhealthy husername howes
      rw [hafter]
      exact ⟨w', owed', getElem?_set_self hw w', by rw [deed_of_step hw hstep]; exact howed, howes'⟩

/-- Whatever happens in a run, the worker does the next of what it owes. -/
theorem owes_run (hw : s.workers[k]? = some w) (actions : List Action)
    (hhealthy : WritesSucceed k s actions) (husername : usernameRefusal? username = none)
    {more : List Arrival}
    (howes : w.Owes s.hub.directory username (actions.flatMap (·.arrivals k) ++ more) owed) :
    ∃ v owed', (s.run actions).workers[k]? = some v ∧ owed = andThen (deeds k s actions) owed' ∧
      v.Owes (s.run actions).hub.directory username more owed' := by
  induction actions generalizing s w owed with
  | nil => exact ⟨w, owed, hw, rfl, howes⟩
  | cons action rest ih =>
      rw [List.flatMap_cons, List.append_assoc] at howes
      obtain ⟨v, owed', hv, rfl, howes'⟩ := owes_act hw action (hhealthy.head hw) husername howes
      obtain ⟨u, left, hu, rfl, hleft⟩ := ih hv hhealthy.tail howes'
      exact ⟨u, left, hu, by rw [deeds, andThen_append], hleft⟩

/-- What a worker broadcasts by an action are its deeds that are broadcasts. -/
theorem map_airs (s : System) (k : Nat) (action : Action) :
    (s.airs k action).map Prod.snd = (s.deed k action).filterMap Deed.delivery? := by
  by_cases haction : action = .work k
  · subst haction
    simp only [airs, if_true, broadcastOf?]
    cases hw : s.workers[k]? with
    | none => simp [deed, hw]
    | some w =>
        cases hstep : w.step s.hub with
        | none =>
            rw [deed_of_stuck hw hstep]
            cases hcontrol : w.control with
            | broadcast room text => simp [Worker.step, hcontrol] at hstep
            | _ => simp [hcontrol]
        | some next =>
            rw [deed_of_step hw hstep, Worker.filterMap_delivery?_deeds, Worker.acts]
            dsimp only
            cases w.control <;> rfl
  · rw [deed_of_ne haction]
    cases action with
    | work j => simp [airs, (show j ≠ k by simpa using haction)]
    | _ => rfl

/-- What a worker broadcasts in a run are its deeds that are broadcasts. -/
theorem map_aired (s : System) (k : Nat) (actions : List Action) :
    (aired k s actions).map Prod.snd = (deeds k s actions).filterMap Deed.delivery? := by
  induction actions generalizing s with
  | nil => rfl
  | cons action rest ih =>
      rw [aired, deeds, List.map_append, List.filterMap_append, map_airs, ih]

/-- The action by which a worker broadcasts is the one that puts the delivery into the mailbox of each
member of the room, once, and into no other. -/
theorem Seated.mailbox_of_mem_deed (h : s.Seated) {action : Action} {delivery : Delivery}
    (hdeed : .broadcast delivery ∈ s.deed k action) :
    ∃ room, delivery.room = s.hub.directory.name room ∧ ∀ number,
      (s.act action).hub.directory.mailbox number =
        if number ∈ (s.hub.directory.members room).values then
          (s.hub.directory.mailbox number).enqueue delivery.message
        else s.hub.directory.mailbox number := by
  by_cases haction : action = .work k
  · subst haction
    cases hw : s.workers[k]? with
    | none => simp [deed, hw] at hdeed
    | some w =>
        cases hstep : w.step s.hub with
        | none => simp [deed_of_stuck hw hstep] at hdeed
        | some next =>
            obtain ⟨hub, w'⟩ := next
            rw [deed_of_step hw hstep] at hdeed
            obtain ⟨room, text, rfl, hbroadcast⟩ :=
              (Worker.step_sound hstep).directory_of_mem_deeds hdeed
            refine ⟨room, rfl, fun number ↦ ?_⟩
            rw [act_of_step hw hstep]
            dsimp only
            rw [hbroadcast, h.keyed.mailbox_broadcast]
  · simp [deed_of_ne haction] at hdeed

/-- A room that a worker opens by an action is there afterwards. -/
theorem find?_of_mem_deed {action : Action} {name : String}
    (h : .opened name ∈ s.deed k action) :
    ∃ number, (s.act action).hub.directory.find? name = some number := by
  by_cases haction : action = .work k
  · subst haction
    cases hw : s.workers[k]? with
    | none => simp [deed, hw] at h
    | some w =>
        cases hstep : w.step s.hub with
        | none => simp [deed_of_stuck hw hstep] at h
        | some next =>
            obtain ⟨hub, w'⟩ := next
            rw [deed_of_step hw hstep] at h
            have hact := act_of_step hw hstep
            simp only [Worker.step, Worker.control_of_mem_deeds h, Option.some.injEq,
              Prod.mk.injEq] at hstep
            rw [hact, ← hstep.1]
            exact ⟨_, Directory.find?_findOrCreate _ _⟩
  · simp [deed_of_ne haction] at h

/-- A room that a worker opens in a run is there afterwards. -/
theorem find?_of_mem_deeds {actions : List Action} {name : String}
    (h : .opened name ∈ deeds k s actions) :
    ∃ number, (s.run actions).hub.directory.find? name = some number := by
  induction actions generalizing s with
  | nil => cases h
  | cons action rest ih =>
      rcases List.mem_append.mp h with hdeed | hrest
      · obtain ⟨number, hfind⟩ := find?_of_mem_deed hdeed
        exact ⟨number, ((s.act action).grows_run rest).find? hfind⟩
      · exact ih hrest

/-- A publisher broadcasts on the room that its name finds. -/
theorem find?_of_mem_aired (hw : s.workers[k]? = some w) {actions : List Action}
    (hhealthy : WritesSucceed k s actions) (husername : usernameRefusal? username = none)
    {more : List Arrival}
    (howes : w.Owes s.hub.directory username (actions.flatMap (·.arrivals k) ++ more) owed)
    {room : Nat} {delivery : Delivery} (h : (room, delivery) ∈ aired k s actions) :
    (s.run actions).hub.directory.find? delivery.room = some room := by
  induction actions generalizing s w owed with
  | nil => cases h
  | cons action rest ih =>
      rw [List.flatMap_cons, List.append_assoc] at howes
      rcases List.mem_append.mp h with hairs | hrest
      · have hgrows := s.grows_run (action :: rest)
        cases action with
        | work j =>
            by_cases hjk : j = k
            · simp only [airs, hjk, if_true, broadcastOf?, hw, Option.mem_toList] at hairs
              cases hcontrol : w.control with
              | broadcast target text =>
                  simp only [hcontrol, Option.some.injEq] at hairs
                  cases hairs
                  simp only [Worker.Owes, hcontrol] at howes
                  exact hgrows.find? (howes.2.1 room rfl)
              | _ => simp [hcontrol] at hairs
            · simp [airs, hjk] at hairs
        | _ => simp [airs] at hairs
      · obtain ⟨v, owed', hv, -, howes'⟩ := owes_act hw action (hhealthy.head hw) husername howes
        exact ih hv hhealthy.tail howes' hrest

/-- What a worker has written is what it did write. -/
theorem written_run (hw : s.workers[k]? = some w) (actions : List Action) :
    ∃ v, (s.run actions).workers[k]? = some v ∧
      v.written = w.written ++ (deeds k s actions).filterMap Deed.byte? := by
  induction actions generalizing s w with
  | nil => exact ⟨w, hw, (List.append_nil _).symm⟩
  | cons action rest ih =>
      suffices ∃ u, (s.act action).workers[k]? = some u ∧
          u.written = w.written ++ (s.deed k action).filterMap Deed.byte? by
        obtain ⟨u, hu, hwritten⟩ := this
        obtain ⟨v, hv, hrest⟩ := ih hu
        exact ⟨v, hv, by rw [hrest, hwritten, deeds, List.filterMap_append, List.append_assoc]⟩
      cases fate hw action with
      | kept hwork _ hsame => exact ⟨w, hsame, by simp [deed_of_ne hwork]⟩
      | cued cue haction hcue =>
          subst haction
          refine ⟨w.cue cue, hcue, ?_⟩
          cases cue <;> exact (List.append_nil _).symm
      | stuck haction hstep hsame =>
          subst haction
          exact ⟨w, by rw [hsame]; exact hw, by simp [deed_of_stuck hw hstep]⟩
      | stepped hub w' haction hstep hafter =>
          subst haction
          rw [hafter, deed_of_step hw hstep]
          exact ⟨w', getElem?_set_self hw w', (Worker.step_sound hstep).written⟩

/-- A healthy stream stays healthy by an action that does it no harm. -/
theorem healthy_act (hw : s.workers[k]? = some w)
    (hhealthy : Connection.Healthy w.connection.stream) {action : Action}
    (hharmless : action.harms k = false) :
    ∃ v, (s.act action).workers[k]? = some v ∧ Connection.Healthy v.connection.stream := by
  cases fate hw action with
  | kept _ _ hsame => exact ⟨w, hsame, hhealthy⟩
  | cued cue haction hcue =>
      subst haction
      refine ⟨w.cue cue, hcue, ?_⟩
      cases cue with
      | block | haltFlush | drop => simp [Action.harms] at hharmless
      | limit most =>
          have hmost : most ≠ 0 := by simpa [Action.harms] using hharmless
          exact ⟨hhealthy.barrier, hhealthy.flushHalt, fun _ hzero ↦ hmost (Option.some.inj hzero)⟩
      | heal => exact ⟨rfl, rfl, hhealthy.pace⟩
      | arrive | breakShutdown => exact ⟨hhealthy.barrier, hhealthy.flushHalt, hhealthy.pace⟩
  | stuck _ _ hsame => exact ⟨w, by rw [hsame]; exact hw, hhealthy⟩
  | stepped hub v _ hstep hafter =>
      rw [hafter]
      exact ⟨v, getElem?_set_self hw v, (Worker.step_sound hstep).healthy hhealthy⟩

/-- Writes on a healthy stream succeed as long as nothing does it harm. -/
theorem writesSucceed_of_healthy (hw : s.workers[k]? = some w)
    (hhealthy : Connection.Healthy w.connection.stream) {actions : List Action}
    (hharmless : ∀ action ∈ actions, action.harms k = false) : WritesSucceed k s actions := by
  induction actions generalizing s w with
  | nil =>
      intro n v hv
      rw [List.take_nil] at hv
      rwa [Option.some.inj (hv.symm.trans hw)]
  | cons action rest ih =>
      obtain ⟨u, hu, hhealthy'⟩ := healthy_act hw hhealthy (hharmless action (.head _))
      have hsucceed := ih hu hhealthy' fun action hmem ↦ hharmless action (.tail _ hmem)
      intro n v hv
      cases n with
      | zero => rwa [Option.some.inj (hv.symm.trans hw)]
      | succ n => exact hsucceed n v hv

theorem WritesSucceed.append {first second : List Action} (h : WritesSucceed k s first)
    (h' : WritesSucceed k (s.run first) second) : WritesSucceed k s (first ++ second) := by
  induction first generalizing s with
  | nil => exact h'
  | cons action rest ih =>
      have hsucceed := ih h.tail h'
      intro n v hv
      cases n with
      | zero => exact h.head hv
      | succ n => exact hsucceed n v hv

/-- A publisher's worker that nobody disturbs comes to rest. -/
theorem exists_rest {s : System} {w : Worker} {owed : List Deed × Option Result}
    (hw : s.workers[k]? = some w) (hhealthy : Connection.Healthy w.connection.stream)
    (husername : usernameRefusal? username = none)
    (howes : w.Owes s.hub.directory username [] owed) :
    ∃ n, (s.run (List.replicate n (.work k))).work? k = none := by
  cases hstep : w.step s.hub with
  | none => exact ⟨0, (work?_eq_none_iff hw).mpr hstep⟩
  | some next =>
      obtain ⟨hub, w'⟩ := next
      have hsound := Worker.step_sound hstep
      have hact := act_of_step hw hstep
      have hw' : (s.act (.work k)).workers[k]? = some w' := by
        rw [hact]
        exact getElem?_set_self hw w'
      obtain ⟨owed', -, howes'⟩ := hsound.owes hhealthy husername howes
      have hless := hsound.left_lt howes
      obtain ⟨n, hrest⟩ :=
        exists_rest hw' (hsound.healthy hhealthy) husername (by rw [hact]; exact howes')
      exact ⟨n + 1, hrest⟩
termination_by w.left
decreasing_by exact hless

/-- A worker at rest has done all that it owed. -/
theorem deeds_of_rest (hw : s.workers[k]? = some w) {actions : List Action}
    (hhealthy : WritesSucceed k s actions) (husername : usernameRefusal? username = none)
    (howes : w.Owes s.hub.directory username (actions.flatMap (·.arrivals k)) owed)
    (hrest : (s.run actions).work? k = none) :
    deeds k s actions = owed.1 ∧ (s.run actions).workers[k]?.bind Worker.result? = owed.2 := by
  rw [← List.append_nil (actions.flatMap _)] at howes
  obtain ⟨v, owed', hv, rfl, howes'⟩ := owes_run hw actions hhealthy husername howes
  rw [howes'.of_step_eq_none (hhealthy.last hv) ((work?_eq_none_iff hv).mp hrest), hv]
  exact ⟨(List.append_nil _).symm, rfl⟩

/-- A connection whose first message is an `slogin` with a name that is not refused, while the
writes on its stream succeed. Whatever the other workers do, whatever else happens, and whatever
rooms there are, what its worker does is the confirmation and then what the dialogue says of the
messages that come after it: never anything else, all of it once the worker is at rest, with the
result that the dialogue says, and it comes to rest by its own steps. What it writes and what it
broadcasts are what it does of each kind, the rooms that it opens are there, and it broadcasts on
the room that its name finds. -/
theorem publisher_follows_dialogue (hw : s.workers[k]? = some w) (hfresh : w.Fresh)
    (actions : List Action) (hhealthy : WritesSucceed k s actions)
    (hempty : username ≠ "") (hcolon : ':' ∉ username.toList)
    {later : List Message} {ending : Option Failure}
    (hinput : (w.connection.feed (actions.flatMap (·.arrivals k))).transcript =
      (⟨.slogin, username⟩ :: later, ending)) :
    let expected := andThen (sends .ok) (dialogue username none later ending)
    let t := s.run actions
    (deeds k s actions <+: expected.1 ∧
      (t.work? k = none →
        deeds k s actions = expected.1 ∧ t.workers[k]?.bind Worker.result? = expected.2) ∧
      ∃ n, let more := actions ++ List.replicate n (.work k)
        (s.run more).work? k = none ∧ deeds k s more = expected.1 ∧
          (s.run more).workers[k]?.bind Worker.result? = expected.2) ∧
    (∃ v, t.workers[k]? = some v ∧ v.written = (deeds k s actions).filterMap Deed.byte?) ∧
    (∀ name, .opened name ∈ deeds k s actions →
      ∃ number, t.hub.directory.find? name = some number) ∧
    (aired k s actions).map Prod.snd = (deeds k s actions).filterMap Deed.delivery? ∧
    ∀ room delivery, (room, delivery) ∈ aired k s actions →
      t.hub.directory.find? delivery.room = some room := by
  intro expected t
  have husername : usernameRefusal? username = none := by
    rw [usernameRefusal?_eq, if_neg hempty, if_neg hcolon]
  have howes : w.Owes s.hub.directory username (actions.flatMap (·.arrivals k)) expected :=
    hfresh.owes hinput
  have howes' :
      w.Owes s.hub.directory username (actions.flatMap (·.arrivals k) ++ []) expected := by
    rwa [List.append_nil]
  obtain ⟨v, owed, hv, hexpected, hleft⟩ := owes_run hw actions hhealthy husername howes'
  refine ⟨⟨?_, ?_, ?_⟩, ?_, ?_, ?_, ?_⟩
  -- what the worker still owes is the part of the dialogue that it has not done
  · exact ⟨owed.1, (congrArg Prod.fst hexpected).symm⟩
  · exact deeds_of_rest hw hhealthy husername howes
  · have hsound := hhealthy.last hv
    -- the worker's own steps do its stream no harm, and bring nothing in
    obtain ⟨n, hrest⟩ := exists_rest hv hsound husername hleft
    have hown : WritesSucceed k t (List.replicate n (.work k)) :=
      writesSucceed_of_healthy hv hsound fun action hmem ↦ (List.eq_of_mem_replicate hmem) ▸ rfl
    refine ⟨n, ?_⟩
    rw [← run_append] at hrest
    refine ⟨hrest, deeds_of_rest hw (hhealthy.append hown) husername ?_ hrest⟩
    have hsilent : (List.replicate n (Action.work k)).flatMap (·.arrivals k) = [] := by
      simp [Action.arrivals]
    rwa [List.flatMap_append, hsilent]
  · obtain ⟨u, hu, hwritten⟩ := written_run hw actions
    have hnothing : w.written = [] := hfresh.written
    exact ⟨u, hu, by rw [hwritten, hnothing, List.nil_append]⟩
  · exact fun name h ↦ find?_of_mem_deeds h
  · exact map_aired s k actions
  · exact fun room delivery h ↦ find?_of_mem_aired hw hhealthy husername howes' h

/-- A publisher logs in, joins a room, sends a text there and quits. -/
def speaking : List Action :=
  .cue 0 (.arrive (.chunk (Message.bytes ⟨.slogin, "alice"⟩ ++ Message.bytes ⟨.join, "den"⟩ ++
    Message.bytes ⟨.sendall, "hi"⟩ ++ Message.bytes ⟨.quit, ""⟩))) :: List.replicate 24 (.work 0)

/-- The text is broadcast once, between the second and the third of the four replies. -/
theorem publisher_follows_dialogue_speaking :
    let s := connect {} (fun _ ↦ none) true
    deeds 0 s speaking =
        sends .ok ++ (.opened "den" :: sends .ok) ++
          (.broadcast ⟨"den", "alice", "hi"⟩ :: sends .ok) ++ sends .ok ∧
      (s.run speaking).workers[0]?.bind Worker.result? = some (.ok ()) := by
  intro s
  let w : Worker :=
    { place := 0, session := { id := 1 }, connection := { stream := {} }, counted := true }
  have hw : s.workers[0]? = some w := rfl
  have hfresh : w.Fresh := ⟨rfl, rfl, rfl, rfl, rfl, rfl⟩
  have hhealthy : WritesSucceed 0 s speaking :=
    writesSucceed_of_healthy hw ⟨rfl, rfl, fun _ hzero ↦ nomatch hzero⟩ (by decide)
  have hinput : (w.connection.feed (speaking.flatMap (·.arrivals 0))).transcript =
      (⟨.slogin, "alice"⟩ :: [⟨.join, "den"⟩, ⟨.sendall, "hi"⟩, ⟨.quit, ""⟩], none) := by
    decide +kernel
  have hrest : (s.run speaking).work? 0 = none := by
    rw [← Option.not_isSome_iff_eq_none]
    decide +kernel
  obtain ⟨⟨-, hall, -⟩, -⟩ :=
    publisher_follows_dialogue hw hfresh speaking hhealthy (by decide) (by decide) hinput
  obtain ⟨hdeeds, hresult⟩ := hall hrest
  refine ⟨hdeeds.trans ?_, hresult.trans rfl⟩
  decide +kernel

end System

end ChatRelay.Server
