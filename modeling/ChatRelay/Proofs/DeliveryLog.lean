import ChatRelay.Proofs.Broadcasts
import ChatRelay.Proofs.Unread

/-!
# What a subscriber gets of its room

From the step in which a subscriber becomes a member of a room, the broadcasts on that room fall
into those it has written, the one it is writing, and those in its mailbox, in this order:
`Worker.Account` says what is written at each control point, and `System.Ledger` that nothing of the
room's log is missing, doubled or out of place. `deliveries_follow_log` is the statement over all
runs.
-/

namespace ChatRelay.Server

open Transport Wire

/-- The bytes of these messages, one line after the other. -/
def lines (messages : List Message) : List UInt8 :=
  messages.flatMap Message.bytes

namespace Worker

/-- What a subscriber has written: its two confirmations, these deliveries, and a first part of the
line of the current one. A subscriber that did not get its confirmations out has written no
delivery. -/
def Wrote (w : Worker) (complete : List Message) (current : Option Message) : Prop :=
  (w.written <+: confirmations ∧ complete = [] ∧ current = none) ∨
    ∃ torn, w.written = confirmations ++ lines complete ++ torn ∧ torn <+: lines current.toList

/-- What a subscriber of this room has written at its control point. A delivery is current while it
is being sent, and stays so if it could not be sent. -/
def Account (w : Worker) (room : Nat) (complete : List Message) (current : Option Message) : Prop :=
  match w.control with
  | .send rest (.joined target) =>
      target = room ∧ complete = [] ∧ current = none ∧ w.written ++ rest = confirmations
  | .testFlag target | .dequeue target | .collect target =>
      target = room ∧ current = none ∧ w.written = confirmations ++ lines complete
  | .send rest (.delivered target) =>
      target = room ∧ ∃ m torn, current = some m ∧ torn ++ rest = m.bytes ∧
        w.written = confirmations ++ lines complete ++ torn
  | .removeMember target _ => target = room ∧ w.Wrote complete current
  | .close _ | .ended _ => w.Wrote complete current
  | _ => False

variable {hub hub' : Hub} {w w' : Worker} {room : Nat} {complete : List Message}
  {current : Option Message}

/-- At every control point the written bytes are the confirmations, the complete deliveries and a
first part of the current one. -/
theorem Account.wrote (h : w.Account room complete current) : w.Wrote complete current := by
  revert h
  unfold Account
  cases w.control with
  | send rest after =>
      cases after with
      | joined =>
          intro haccount
          obtain ⟨-, hcomplete, hcurrent, hwritten⟩ := haccount
          exact .inl ⟨⟨rest, hwritten⟩, hcomplete, hcurrent⟩
      | delivered =>
          intro haccount
          obtain ⟨-, m, torn, rfl, htorn, hwritten⟩ := haccount
          exact .inr ⟨torn, hwritten, rest, by simp [lines, htorn]⟩
      | _ => exact False.elim
  | testFlag | dequeue | collect =>
      intro haccount
      obtain ⟨-, -, hwritten⟩ := haccount
      exact .inr ⟨[], by rw [hwritten, List.append_nil], List.nil_prefix⟩
  | removeMember => exact And.right
  | close | ended => exact id
  | _ => exact False.elim

/-- Only what is written counts. -/
theorem Wrote.of_written (h : w.Wrote complete current) (hwritten : w'.written = w.written) :
    w'.Wrote complete current := by
  unfold Wrote
  rw [hwritten]
  exact h

/-- What happens to the stream changes nothing about what was written. -/
theorem Account.cue (h : w.Account room complete current) (cue : Cue) :
    (w.cue cue).Account room complete current := by
  have hwritten : (w.cue cue).written = w.written := by
    cases cue <;> rfl
  revert h
  unfold Account
  rw [control_cue]
  cases w.control with
  | send rest after =>
      cases after with
      | joined | delivered => simp only [hwritten, imp_self]
      | _ => exact id
  | testFlag | dequeue | collect => simp only [hwritten, imp_self]
  | removeMember => exact fun h ↦ ⟨h.1, h.2.of_written hwritten⟩
  | close | ended => exact fun h ↦ h.of_written hwritten
  | _ => exact id

/-- A step of a subscriber moves deliveries from its mailbox to the line being written and from
there to those written, and loses none. What it has missed stays behind them. -/
theorem Step.account (h : Step hub w hub' w') (hw : w.Lawful hub.directory)
    (haccount : w.Account room complete current) {rest missed : List Message}
    (hrest : w.control.seat? = some room →
      rest = (hub.directory.mailbox w.place).messages ++ missed) :
    ∃ complete' current' rest', w'.Account room complete' current' ∧
      complete ++ current.toList ++ rest = complete' ++ current'.toList ++ rest' ∧
      (w'.control.seat? = some room →
        rest' = (hub'.directory.mailbox w'.place).messages ++ missed) := by
  have hown (hseat : w.control.seat? = some room) (change : Mailbox → Mailbox) :
      (hub.directory.updateMailbox w.place change).mailbox w.place =
        change (hub.directory.mailbox w.place) :=
    Directory.mailbox_updateMailbox_self (hw.seated hseat).enrolled change
  cases h with
  | output left after connection left' hcontrol hstep =>
      obtain ⟨taken, -, rfl, hwritten⟩ := Connection.written_of_more hstep
      have hwritten' : connection.stream.written = w.written ++ taken := hwritten
      simp only [Account, hcontrol] at haccount
      cases after with
      | joined target =>
          obtain ⟨rfl, rfl, rfl, hlines⟩ := haccount
          refine ⟨[], none, rest, ⟨rfl, rfl, rfl, ?_⟩, rfl, fun _ ↦ hrest (by rw [hcontrol]; rfl)⟩
          show connection.stream.written ++ left' = confirmations
          rw [hwritten', List.append_assoc, hlines]
      | delivered target =>
          obtain ⟨rfl, m, torn, rfl, htorn, hlines⟩ := haccount
          refine ⟨complete, some m, rest, ⟨rfl, m, torn ++ taken, rfl, ?_, ?_⟩, rfl,
            fun _ ↦ hrest (by rw [hcontrol]; rfl)⟩
          · rw [List.append_assoc, htorn]
          · show connection.stream.written = _
            rw [hwritten', hlines]
            simp only [List.append_assoc]
      | _ => exact haccount.elim
  | sent left after connection hcontrol hstep =>
      obtain ⟨rfl, hstream⟩ := Connection.written_of_ok hstep
      have hwritten : connection.stream.written = w.written := by rw [hstream]; rfl
      simp only [Account, hcontrol] at haccount
      cases after with
      | joined target =>
          obtain ⟨rfl, rfl, rfl, hlines⟩ := haccount
          refine ⟨[], none, rest, ⟨rfl, rfl, ?_⟩, rfl, fun _ ↦ hrest (by rw [hcontrol]; rfl)⟩
          show connection.stream.written = confirmations ++ lines []
          rw [hwritten, ← hlines]
          simp [lines]
      | delivered target =>
          obtain ⟨rfl, m, torn, rfl, htorn, hlines⟩ := haccount
          refine ⟨complete ++ [m], none, rest, ⟨rfl, rfl, ?_⟩, by simp,
            fun _ ↦ hrest (by rw [hcontrol]; rfl)⟩
          show connection.stream.written = confirmations ++ lines (complete ++ [m])
          rw [hwritten, hlines, ← List.append_nil torn, htorn]
          simp [lines]
      | _ => exact haccount.elim
  | unsent left after connection failure hcontrol hstep =>
      obtain ⟨hwritten, -⟩ := Connection.written_of_error hstep
      have hwrote := haccount.wrote
      simp only [Account, hcontrol] at haccount
      cases after with
      | joined target | delivered target =>
          obtain ⟨rfl, -⟩ := haccount
          exact ⟨complete, current, rest, ⟨rfl, hwrote.of_written hwritten⟩, rfl,
            fun _ ↦ hrest (by rw [hcontrol]; rfl)⟩
      | _ => exact haccount.elim
  | parting target hcontrol =>
      have hwrote := haccount.wrote
      simp only [Account, hcontrol] at haccount
      obtain ⟨rfl, -⟩ := haccount
      exact ⟨complete, current, rest, ⟨rfl, hwrote⟩, rfl, fun _ ↦ hrest (by rw [hcontrol]; rfl)⟩
  | staying target hcontrol =>
      simp only [Account, hcontrol] at haccount
      obtain ⟨rfl, hlines⟩ := haccount
      exact ⟨complete, current, rest, ⟨rfl, hlines⟩, rfl, fun _ ↦ hrest (by rw [hcontrol]; rfl)⟩
  | dequeue target directory hcontrol hd =>
      subst hd
      simp only [Account, hcontrol] at haccount
      obtain ⟨rfl, hlines⟩ := haccount
      have hseat : w.control.seat? = some target := by rw [hcontrol]; rfl
      refine ⟨complete, current, rest, ⟨rfl, hlines⟩, rfl, fun _ ↦ ?_⟩
      simp only [hrest hseat, place_goTo, hown hseat, Mailbox.messages_ask]
  | collected target directory m hcontrol hholds hhead hd =>
      subst hd
      simp only [Account, hcontrol] at haccount
      obtain ⟨rfl, rfl, hlines⟩ := haccount
      have hseat : w.control.seat? = some target := by rw [hcontrol]; rfl
      obtain ⟨later, hmessages⟩ := List.head?_eq_some_iff.mp hhead
      refine ⟨complete, some m, later ++ missed, ⟨rfl, m, [], rfl, rfl, ?_⟩, ?_, fun _ ↦ ?_⟩
      · rw [List.append_nil]
        exact hlines
      · rw [hrest hseat, hmessages]
        simp
      · simp only [place_say, hown hseat, Mailbox.take, hmessages, List.tail_cons]
  | missed target directory hcontrol hholds hhead hd =>
      subst hd
      simp only [Account, hcontrol] at haccount
      obtain ⟨rfl, hlines⟩ := haccount
      have hseat : w.control.seat? = some target := by rw [hcontrol]; rfl
      have hmessages := List.head?_eq_none_iff.mp hhead
      refine ⟨complete, current, rest, ⟨rfl, hlines⟩, rfl, fun _ ↦ ?_⟩
      simp only [hrest hseat, place_goTo, hown hseat, Mailbox.take, hmessages, List.tail_nil]
  | lapsed target directory hcontrol hholds hdue hd =>
      subst hd
      simp only [Account, hcontrol] at haccount
      obtain ⟨rfl, hlines⟩ := haccount
      have hseat : w.control.seat? = some target := by rw [hcontrol]; rfl
      refine ⟨complete, current, rest, ⟨rfl, hlines⟩, rfl, fun _ ↦ ?_⟩
      simp only [hrest hseat, place_goTo, hown hseat, Mailbox.giveUp]
  | removeMember target result directory hcontrol =>
      simp only [Account, hcontrol] at haccount
      refine ⟨complete, current, rest, haccount.2, rfl, fun hseat ↦ ?_⟩
      cases hseat
  | close result hcontrol =>
      simp only [Account, hcontrol] at haccount
      refine ⟨complete, current, rest, haccount.of_written (written_close _), rfl, fun hseat ↦ ?_⟩
      cases hseat
  | _ => simp [Account, *] at haccount

/-- A subscriber with an account is not made a member again. -/
theorem Step.membership?_of_account (h : Step hub w hub' w') (hw : w.Lawful hub.directory)
    (haccount : w.Account room complete current)
    (hmember : w'.membership? hub'.directory = some room) :
    w.membership? hub.directory = some room := by
  cases h.moves hw with
  | stays hmembers hseat =>
      rw [membership?, hseat, h.id_eq, h.place_eq] at hmember
      simpa only [membership?, hmembers] using hmember
  | sits _ _ hadds => simp [Account, hadds] at haccount
  | rises _ _ _ _ hnone =>
      rw [membership?, hnone] at hmember
      cases hmember

end Worker

/-- The subscriber is on its way into a room and is no member yet. -/
def Control.IsJoining : Control → Prop
  | .receive .join | .enterRoom _ | .addMember _ => True
  | _ => False

theorem Control.IsJoining.seat? {control : Control} (h : control.IsJoining) :
    control.seat? = none := by
  cases control with
  | receive | enterRoom | addMember => rfl
  | _ => exact h.elim

/-- A step on the way into a room leaves the mailbox empty. -/
theorem Worker.Step.unheard {hub hub' : Hub} {w w' : Worker} (h : Worker.Step hub w hub' w')
    (hbefore : w.control.IsJoining → (hub.directory.mailbox w.place).messages = [])
    (hafter : w'.control.IsJoining) : (hub'.directory.mailbox w'.place).messages = [] := by
  cases h with
  | input await connection hcontrol =>
      exact hbefore hafter
  | joinAccepted connection m hcontrol => exact hbefore (by rw [hcontrol]; trivial)
  | enterRoom name directory room hcontrol hfind =>
      have hsame : directory.subscribers = hub.directory.subscribers := by
        have hkept := hub.directory.subscribers_findOrCreate name
        rwa [hfind] at hkept
      have hempty := hbefore (by rw [hcontrol]; trivial)
      simpa only [Worker.place_goTo, Directory.mailbox, hsame] using hempty
  | sent rest after connection hcontrol =>
      cases after with
      | loggedIn role =>
          cases role with
          | publisher => exact hafter.elim
          | subscriber =>
              -- the login replaces whatever mailbox stood under the number by an empty one
              have hempty :=
                hub.directory.mailbox_subscribe w.place w.session.id w.place w.session.name
              rw [if_pos rfl] at hempty
              exact congrArg Mailbox.messages hempty
      | _ => exact hafter.elim
  | unsent rest after connection failure hcontrol =>
      cases after <;> exact hafter.elim
  | _ => exact hafter.elim

namespace System

variable {s : System} {k room : Nat}

/-- Nobody has anything in its mailbox before it is a member of a room. -/
structure Ready (s : System) : Prop extends s.Seated where
  unheard : ∀ (k : Nat) (w : Worker), s.workers[k]? = some w → w.control.IsJoining →
    (s.hub.directory.mailbox w.place).messages = []

/-- Whoever is on its way into a room is enrolled. -/
theorem enrolled_of_isJoining {d : Directory} {w : Worker} (hw : w.Lawful d)
    (h : w.control.IsJoining) : d.Enrolled w.place w.session.id := by
  cases hcontrol : w.control with
  | receive await =>
      cases await with
      | join =>
          simp only [Worker.Lawful, hcontrol] at hw
          exact hw.enrolled
      | _ => rw [hcontrol] at h; exact h.elim
  | enterRoom =>
      simp only [Worker.Lawful, hcontrol] at hw
      exact hw.enrolled
  | addMember =>
      simp only [Worker.Lawful, hcontrol] at hw
      exact hw.1.enrolled
  | _ => rw [hcontrol] at h; exact h.elim

theorem Ready.act (h : s.Ready) (action : Action) : (s.act action).Ready := by
  refine ⟨h.toSeated.act action, fun k w' hw' hjoining ↦ ?_⟩
  rcases exists_worker_before hw' with ⟨w, hw⟩ | ⟨hnew, -⟩
  · have hother (hplace : w'.place = w.place) (hcontrol : w'.control = w.control)
        (hwork : action ≠ .work k) :
        ((s.act action).hub.directory.mailbox w'.place).messages = [] := by
      rw [hcontrol] at hjoining
      rw [hplace, messages_act h.toSeated hw
        (enrolled_of_isJoining (h.lawful k w hw) hjoining) hwork, h.unheard k w hw hjoining,
        Worker.membership?, hjoining.seat?, Option.filter_none, List.append_nil]
    cases fate hw action with
    | kept hwork _ hsame =>
        obtain rfl := Option.some.inj (hw'.symm.trans hsame)
        exact hother rfl rfl hwork
    | cued cue haction hcue =>
        obtain rfl := Option.some.inj (hw'.symm.trans hcue)
        exact hother rfl rfl (by simp [haction])
    | stuck _ _ hsame =>
        rw [hsame] at hw' ⊢
        exact h.unheard k w' hw' hjoining
    | stepped hub v _ hstep hafter =>
        rw [hafter] at hw' ⊢
        obtain rfl := Option.some.inj (hw'.symm.trans (getElem?_set_self hw v))
        exact (Worker.step_sound hstep).unheard (h.unheard k w hw) hjoining
  · rw [hnew.control] at hjoining
    exact hjoining.elim

theorem Initial.ready (h : s.Initial) : s.Ready := by
  refine ⟨h.seated, fun k w hw hjoining ↦ ?_⟩
  rw [(h.fresh k w hw).control] at hjoining
  exact hjoining.elim

/-- The account of a subscriber of this room: the segment of the room's log since it became a member
falls into the deliveries written, the current one, and the rest. While the subscriber sits there, the
rest is its mailbox and behind it what it has missed, which is nothing as long as it is a member. -/
def Ledger (s : System) (k room : Nat) (segment : List Message) : Prop :=
  ∃ (w : Worker) (complete : List Message) (current : Option Message) (rest missed : List Message),
    s.workers[k]? = some w ∧ w.Account room complete current ∧
      segment = complete ++ current.toList ++ rest ∧
      (w.control.seat? = some room →
        rest = (s.hub.directory.mailbox w.place).messages ++ missed) ∧
      (w.membership? s.hub.directory = some room → missed = [])

/-- Every action carries the account on by what it broadcasts on the room. -/
theorem Ledger.act (hs : s.Seated) {segment : List Message} (h : s.Ledger k room segment)
    (action : Action) :
    (s.act action).Ledger k room (segment ++ (s.entry room action).map Delivery.message) := by
  obtain ⟨w, complete, current, rest, missed, hw, haccount, rfl, hrest, hmissed⟩ := h
  have hlawful := hs.lawful k w hw
  -- what others do arrives at the end of a member's mailbox, and is missed by whoever is none
  have hother (w' : Worker) (hw' : (s.act action).workers[k]? = some w')
      (hplace : w'.place = w.place) (hcontrol : w'.control = w.control)
      (haccount' : w'.Account room complete current) (hwork : action ≠ .work k) :
      (s.act action).Ledger k room
        (complete ++ current.toList ++ rest ++ (s.entry room action).map Delivery.message) := by
    have hbefore (hafter : w'.membership? (s.act action).hub.directory = some room) :
        w.membership? s.hub.directory = some room :=
      hs.membership?_of_act hw hw' hwork hafter
    have harrives (hseat : w.control.seat? = some room) :=
      messages_act hs hw (hlawful.seated hseat).enrolled hwork
    by_cases hmember : w.membership? s.hub.directory = some room
    · refine ⟨w', complete, current, rest ++ (s.entry room action).map Delivery.message, [], hw',
        haccount', by rw [List.append_assoc _ rest], fun hseat ↦ ?_, fun _ ↦ rfl⟩
      rw [hcontrol] at hseat
      rw [hplace, harrives hseat, hmember, hrest hseat, hmissed hmember, List.append_nil,
        List.append_nil]
    · refine ⟨w', complete, current, rest ++ (s.entry room action).map Delivery.message,
        missed ++ (s.entry room action).map Delivery.message, hw', haccount',
        by rw [List.append_assoc _ rest], fun hseat ↦ ?_, fun hafter ↦ absurd (hbefore hafter) hmember⟩
      rw [hcontrol] at hseat
      have hnone : w.membership? s.hub.directory = none := by
        cases hroom : w.membership? s.hub.directory with
        | none => rfl
        | some other =>
            obtain rfl := Option.some.inj
              (hseat.symm.trans (Option.filter_eq_some_iff.mp hroom).1)
            exact absurd hroom hmember
      rw [hplace, harrives hseat, hnone, hrest hseat, List.append_nil, List.append_assoc]
  -- a subscriber makes no broadcasts
  have hsilent (hwork : action = .work k) : s.entry room action = [] := by
    subst hwork
    cases hcontrol : w.control with
    | broadcast => simp [Worker.Account, hcontrol] at haccount
    | _ => simp [entry, broadcastOf?, hw, hcontrol]
  cases fate hw action with
  | kept hwork _ hsame => exact hother w hsame rfl rfl haccount hwork
  | cued cue haction hcue =>
      exact hother (w.cue cue) hcue rfl rfl (haccount.cue cue) (by simp [haction])
  | stuck hwork _ hsame =>
      rw [hsilent hwork, hsame, List.map_nil, List.append_nil]
      exact ⟨w, complete, current, rest, missed, hw, haccount, rfl, hrest, hmissed⟩
  | stepped hub w' hwork hstep hafter =>
      have hstepped := Worker.step_sound hstep
      obtain ⟨complete', current', rest', haccount', heq, hrest'⟩ :=
        hstepped.account hlawful haccount hrest
      rw [hsilent hwork, hafter, List.map_nil, List.append_nil, heq]
      exact ⟨w', complete', current', rest', missed, getElem?_set_self hw w', haccount', rfl, hrest',
        fun hmember ↦ hmissed (hstepped.membership?_of_account hlawful haccount hmember)⟩

/-- Every run carries the account on by what it broadcasts on the room. -/
theorem Ledger.run (hs : s.Seated) {segment : List Message} (h : s.Ledger k room segment)
    (actions : List Action) :
    (s.run actions).Ledger k room (segment ++ (log room s actions).map Delivery.message) := by
  induction actions generalizing s segment with
  | nil => simpa [log] using h
  | cons action rest ih =>
      have hnext := ih (hs.act action) (h.act hs action)
      rw [run_cons, log, List.map_append, ← List.append_assoc]
      exact hnext

/-- The step that makes a subscriber a member: it goes on to confirm the join, and nothing is
written yet. -/
theorem act_addMember {w : Worker} (hw : s.workers[k]? = some w)
    (hcontrol : w.control = .addMember room) :
    ∃ w', (s.act (.work k)).workers[k]? = some w' ∧ w'.place = w.place ∧
      w'.session.id = w.session.id ∧ w'.control = .send confirmation (.joined room) ∧
      w'.written = w.written ∧
      (s.act (.work k)).hub.directory.subscribers = s.hub.directory.subscribers := by
  cases fate hw (.work k) with
  | kept hwork => exact absurd rfl hwork
  | cued _ haction => cases haction
  | stuck _ hnone => simp [Worker.step, hcontrol] at hnone
  | stepped hub w' _ hstep hafter =>
      simp only [Worker.step, hcontrol, Option.some.injEq, Prod.mk.injEq] at hstep
      obtain ⟨rfl, rfl⟩ := hstep
      rw [hafter]
      exact ⟨_, getElem?_set_self hw _, rfl, Session.id_join _ _, rfl, rfl,
        Directory.subscribers_addMember _ _ _⟩

/-- Once a subscriber is made a member of a room, its account begins. -/
theorem Ready.ledger (h : s.Ready) {w : Worker} (hw : s.workers[k]? = some w)
    (hcontrol : w.control = .addMember room) : (s.act (.work k)).Ledger k room [] := by
  have hlawful := h.lawful k w hw
  simp only [Worker.Lawful, hcontrol] at hlawful
  obtain ⟨w', hw', hplace, -, hcontrol', hwritten, hsubscribers⟩ := act_addMember hw hcontrol
  refine ⟨w', [], none, [], [], hw', ?_, rfl, fun _ ↦ ?_, fun _ ↦ rfl⟩
  · simp only [Worker.Account, hcontrol']
    refine ⟨trivial, trivial, trivial, ?_⟩
    rw [hwritten, hlawful.1.written]
    rfl
  · have hempty := h.unheard k w hw (by rw [hcontrol]; trivial)
    rw [List.append_nil, ← hempty, hplace]
    simp only [Directory.mailbox, hsubscribers]

theorem Initial.ready_run (h : s.Initial) (actions : List Action) : (s.run actions).Ready :=
  run_induction h.ready (fun _ action ht ↦ ht.act action) actions

/-- The step that makes a subscriber a member puts its own mailbox under its id. -/
theorem Seated.get?_addMember (h : s.Seated) {w : Worker} (hw : s.workers[k]? = some w)
    (hcontrol : w.control = .addMember room) :
    ((s.act (.work k)).hub.directory.members room).get? w.session.id = some w.place := by
  have hlawful := h.lawful k w hw
  simp only [Worker.Lawful, hcontrol] at hlawful
  cases fate hw (.work k) with
  | kept hwork => exact absurd rfl hwork
  | cued _ haction => cases haction
  | stuck _ hnone => simp [Worker.step, hcontrol] at hnone
  | stepped hub w' _ hstep hafter =>
      simp only [Worker.step, hcontrol, Option.some.injEq, Prod.mk.injEq] at hstep
      obtain ⟨rfl, rfl⟩ := hstep
      rw [hafter, Directory.addMember_eq hlawful.1.enrolled]
      simp [Directory.members_updateMembers _ _ _ _ hlawful.2]

/-- From the step in which a subscriber becomes a member of a room, by any later run: the broadcasts
on the room since then are, in order and each once, the deliveries it has written after its two
confirmations, the one it is writing, and the rest, which is what its mailbox holds while it is a
member. All of them name the room. What arrives on its stream after its join changes nothing but what
is left unread there. -/
theorem deliveries_follow_log (h : s.Initial) (before after : List Action) {w : Worker}
    (hw : (s.run before).workers[k]? = some w) (hcontrol : w.control = .addMember room) :
    let joined := (s.run before).act (.work k)
    let t := joined.run after
    (∀ delivery ∈ log room joined after, delivery.room = t.hub.directory.name room) ∧
    (∃ (v : Worker) (complete : List Message) (current : Option Message) (rest : List Message),
      t.workers[k]? = some v ∧ v.place = w.place ∧ v.session.id = w.session.id ∧
      v.Account room complete current ∧ v.Wrote complete current ∧
      (log room joined after).map Delivery.message = complete ++ current.toList ++ rest ∧
      ((t.hub.directory.members room).get? v.session.id = some v.place →
        rest = (t.hub.directory.mailbox v.place).messages)) ∧
    (joined.hub.directory.members room).get? w.session.id = some w.place ∧
    ∃ arrivals,
      joined.run (after.filter (!·.isArrival k)) = t.updateStream k ({ · with arrivals }) := by
  intro joined t
  have hready : (s.run before).Ready := h.ready_run before
  have hseated : joined.Seated := hready.toSeated.act (.work k)
  have hledger : joined.Ledger k room [] := hready.ledger hw hcontrol
  -- the room and the subscriber are there at the join, and stay
  obtain ⟨w', hw', hplace, hid, hcontrol', -⟩ := act_addMember hw hcontrol
  have hseat : w'.control.seat? = some room := by rw [hcontrol']; rfl
  have hdeaf : w'.IsDeaf := by simp only [Worker.IsDeaf, hcontrol']
  have hroom := ((hseated.lawful k w' hw').seated hseat).lt
  obtain ⟨v, complete, current, rest, missed, hv, haccount, hsegment, hrest, hmissed⟩ :=
    hledger.run hseated after
  have ht : t.Seated := hseated.run after
  have hplaces : v.place = w.place := by
    rw [ht.placed k v hv, ← hplace, hseated.placed k w' hw']
  refine ⟨?_, ⟨v, complete, current, rest, hv, hplaces, ?_, haccount, haccount.wrote, ?_, ?_⟩,
    hready.toSeated.get?_addMember hw hcontrol, exists_deafen_run hw' hdeaf after⟩
  · intro delivery hdelivery
    rw [room_of_mem_log hroom hdelivery, (joined.grows_run after).name room hroom]
  · obtain ⟨v', hv', hid'⟩ := exists_worker_run hw' after
    rw [Option.some.inj (hv.symm.trans hv'), hid', hid]
  · rwa [List.nil_append] at hsegment
  · intro hmember
    have hroom := (ht.membership?_eq_some_iff hv room).mpr hmember
    rw [hrest (Option.filter_eq_some_iff.mp hroom).1, hmissed hroom, List.append_nil]

/-- A broadcast between the join and its confirmation is delivered after the confirmation. -/
theorem deliveries_follow_log_early :
    let joined := (run {} (listening.take 8)).act (.work 0)
    let after := .broadcast "den" "alice" "hi" :: List.replicate 7 (.work 0)
    let delivery := Delivery.message ⟨"den", "alice", "hi"⟩
    log 0 joined after = [⟨"den", "alice", "hi"⟩] ∧
    ∃ (v : Worker) (complete : List Message) (current : Option Message) (rest : List Message),
      (joined.run after).workers[0]? = some v ∧ v.Account 0 complete current ∧
      [delivery] = complete ++ current.toList ++ rest ∧
      v.written = confirmations ++ delivery.bytes := by
  intro joined after delivery
  have hjoining : ((run {} (listening.take 8)).workers[0]?.bind fun w ↦
      match w.control with
      | .addMember room => some room
      | _ => none) = some 0 := by
    decide +kernel
  obtain ⟨w, hw, hroom⟩ := Option.bind_eq_some_iff.mp hjoining
  have hcontrol : w.control = .addMember 0 := by
    cases hc : w.control with
    | addMember room => simpa [hc] using hroom
    | _ => simp [hc] at hroom
  have hlog : log 0 joined after = [⟨"den", "alice", "hi"⟩] := by
    decide +kernel
  have hwritten : (joined.run after).workers[0]?.map (·.written) =
      some (confirmations ++ delivery.bytes) := by
    decide +kernel
  obtain ⟨-, ⟨v, complete, current, rest, hv, -, -, haccount, -, hsegment, -⟩, -⟩ :=
    deliveries_follow_log initial_empty (listening.take 8) after hw hcontrol
  rw [hlog] at hsegment
  rw [hv] at hwritten
  exact ⟨hlog, v, complete, current, rest, hv, haccount, hsegment, Option.some.inj hwritten⟩

end System

end ChatRelay.Server
