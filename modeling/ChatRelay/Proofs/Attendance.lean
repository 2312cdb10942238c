import ChatRelay.Proofs.Dequeues
import ChatRelay.Proofs.Mail

/-!
# Who attends to a mailbox, and what a worker waits for

Each message in a subscriber's mailbox has its permit, and only its own worker asks for one, one dequeue
at a time. `Worker.Attends` says which dequeue is under way at each control point, and
`Worker.step_eq_none_iff` what a worker waits for that can make no step: its peer's next line, or the next
delivery, until a deadline that has not come, or that its peer takes what it sends.
-/

namespace ChatRelay

open Transport Wire

namespace Mailbox

variable {b : Mailbox} {ticket : Nat}

/-- The dequeue with this ticket is under way and no other. It holds a permit, or it waits because there
is no message. -/
inductive Attended (b : Mailbox) (ticket : Nat) : Prop where
  | holding : b.holding = [ticket] → b.waiting = [] → b.messages.length = b.permits + 1 →
      Attended b ticket
  | waiting (deadline : Nat) : b.holding = [] → b.waiting = [⟨ticket, deadline⟩] → b.permits = 0 →
      b.messages = [] → Attended b ticket

theorem Quiet.enqueue (h : b.Quiet) (m : Message) : (b.enqueue m).Quiet := by
  obtain ⟨hpermits, hwaiting, hholding⟩ := h
  simp [Quiet, Mailbox.enqueue, push, release, hpermits, hwaiting, hholding]

/-- Whoever asks alone gets a permit if there is a message, and waits otherwise. -/
theorem Quiet.ask (h : b.Quiet) (ticket deadline : Nat) : (b.ask ticket deadline).Attended ticket := by
  obtain ⟨hpermits, hwaiting, hholding⟩ := h
  unfold Mailbox.ask
  split
  · rename_i hnone
    exact .waiting deadline hholding (by simp [hwaiting]) hnone
      (List.eq_nil_of_length_eq_zero (hpermits.symm.trans hnone))
  · rename_i permits hsome
    exact .holding (by simp [hholding]) hwaiting (hpermits.symm.trans hsome)

/-- A message that comes in goes to the dequeue that waits for one. -/
theorem Attended.enqueue (h : b.Attended ticket) (m : Message) : (b.enqueue m).Attended ticket := by
  cases h with
  | holding hholding hwaiting hmessages =>
      refine .holding ?_ ?_ ?_ <;> simp [Mailbox.enqueue, push, release, hholding, hwaiting, hmessages]
  | waiting deadline hholding hwaiting hpermits hmessages =>
      refine .holding ?_ ?_ ?_ <;>
        simp [Mailbox.enqueue, push, release, hholding, hwaiting, hpermits, hmessages]

/-- A permit is good for a message. -/
theorem Attended.head?_ne_none (h : b.Attended ticket) (hholds : b.holds ticket = true) :
    b.messages.head? ≠ none := by
  intro hnone
  rw [List.head?_eq_none_iff] at hnone
  cases h with
  | holding _ _ hmessages => simp [hnone] at hmessages
  | waiting _ hholding => simp [holds, hholding] at hholds

/-- With its message a dequeue ends. -/
theorem Attended.take (h : b.Attended ticket) (hholds : b.holds ticket = true) :
    (b.take ticket).1.Quiet := by
  cases h with
  | holding hholding hwaiting hmessages =>
      refine ⟨?_, hwaiting, by simp [Mailbox.take, hholding]⟩
      simp [Mailbox.take, hmessages]
  | waiting _ hholding => simp [holds, hholding] at hholds

/-- Whoever waits and gives up leaves an empty mailbox behind. -/
theorem Attended.giveUp (h : b.Attended ticket) (hholds : b.holds ticket = false) :
    (b.giveUp ticket).Quiet := by
  cases h with
  | holding hholding => simp [holds, hholding] at hholds
  | waiting _ hholding hwaiting hpermits hmessages =>
      exact ⟨by simp [Mailbox.giveUp, hpermits, hmessages], by simp [Mailbox.giveUp, hwaiting], hholding⟩

end Mailbox

namespace Connection

/-- A receive waits exactly when nothing is there to be read and the buffer leaves everything open. -/
theorem receiveStep_eq_waiting_iff {c : Connection} (hopen : c.isOpen = true) :
    (∃ after, c.receiveStep = (after, .waiting)) ↔
      c.stream.arrivals = [] ∧ NoVerdict c.buffer := by
  constructor
  · intro hwaiting
    obtain ⟨after, hstep⟩ := hwaiting
    have houtcome := receiveStep_outcome hopen
    rw [hstep] at houtcome
    cases houtcome with
    | waiting _ hempty hnone =>
        have hsame : after = c := by
          unfold receiveStep at hstep
          dsimp only at hstep
          split at hstep
          · split at hstep
            · cases hstep
            · split at hstep <;> cases hstep
          · split at hstep
            · cases hstep
            · split at hstep
              · cases hstep
              · split at hstep <;> cases hstep
                rfl
        subst hsame
        rw [backlog, Stream.unread, hempty, Stream.unread.go, List.append_nil] at hnone
        exact ⟨hempty, hnone⟩
  · intro hnothing
    obtain ⟨hempty, hfree, hshort⟩ := hnothing
    refine ⟨c, ?_⟩
    unfold receiveStep
    simp [Line.cut?_eq_none_iff.mpr hfree, Nat.not_le_of_lt hshort, hopen, Stream.read, hempty]

end Connection

/-- A mailbox depends on the subscribers only. -/
theorem Directory.mailbox_of_subscribers {d d' : Directory} (h : d'.subscribers = d.subscribers)
    (id : Nat) : d'.mailbox id = d.mailbox id := by
  rw [Directory.mailbox, Directory.mailbox, h]

namespace Server

namespace Worker

variable {d : Directory} {hub hub' : Hub} {w w' : Worker}

/-- Which dequeue is under way on the mailbox of a subscriber at its control point: none, or the one
whose outcome the worker waits for. -/
def Attends (d : Directory) (w : Worker) : Prop :=
  match w.control with
  | .collect _ => (d.mailbox w.place).Attended ticket
  | .receive .join | .enterRoom _ | .addMember _ => (d.mailbox w.place).Quiet
  | .send _ (.joined _) | .send _ (.delivered _) => (d.mailbox w.place).Quiet
  | .testFlag _ | .dequeue _ => (d.mailbox w.place).Quiet
  | _ => True

/-- A step of a worker keeps account of its own dequeues. -/
theorem Step.attends (h : Step hub w hub' w') (hw : w.Lawful hub.directory)
    (hattends : w.Attends hub.directory) : w'.Attends hub'.directory := by
  have hown {room : Nat} (hseat : w.control.seat? = some room) (change : Mailbox → Mailbox) :
      (hub.directory.updateMailbox w.place change).mailbox w.place =
        change (hub.directory.mailbox w.place) :=
    Directory.mailbox_updateMailbox_self (hw.seated hseat).enrolled change
  cases h with
  | input await connection hcontrol =>
      simp only [Attends, hcontrol] at hattends ⊢
      exact hattends
  | joinAccepted connection m hcontrol =>
      simp only [Attends, hcontrol] at hattends
      exact hattends
  | enterRoom name directory room hcontrol hfind =>
      have hsubscribers := hub.directory.subscribers_findOrCreate name
      rw [hfind] at hsubscribers
      simp only [Attends, hcontrol] at hattends
      simp only [Attends, control_goTo, place_goTo, Directory.mailbox_of_subscribers hsubscribers]
      exact hattends
  | addMember room directory hcontrol hd =>
      have hsubscribers : directory.subscribers = hub.directory.subscribers := by
        rw [hd]
        exact Directory.subscribers_addMember _ _ _
      simp only [Attends, hcontrol] at hattends
      simp only [Attends, control_say, place_say, Directory.mailbox_of_subscribers hsubscribers]
      exact hattends
  | output rest after connection left hcontrol =>
      simp only [Attends, hcontrol] at hattends ⊢
      cases after <;> exact hattends
  | sent rest after connection hcontrol =>
      simp only [Attends, hcontrol] at hattends
      cases after with
      | loggedIn role =>
          cases role with
          | publisher => trivial
          | subscriber =>
              -- the subscriber is taken up with an empty mailbox
              have hempty : (hub.directory.subscribe w.place w.session.id
                  w.session.name).mailbox w.place = {} := by
                rw [Directory.mailbox_subscribe, if_pos rfl]
              show ((hub.directory.subscribe w.place w.session.id
                w.session.name).mailbox w.place).Quiet
              rw [hempty]
              exact ⟨rfl, rfl, rfl⟩
      | joined room | delivered room => exact hattends
      | part | replied | quit => trivial
  | unsent rest after => cases after <;> trivial
  | staying room hcontrol =>
      simp only [Attends, hcontrol] at hattends
      exact hattends
  | dequeue room directory hcontrol hd =>
      subst hd
      simp only [Attends, hcontrol] at hattends
      simp only [Attends, control_goTo, place_goTo]
      rw [hown (by rw [hcontrol]; rfl)]
      exact hattends.ask _ _
  | collected room directory m hcontrol hholds _ hd | missed room directory hcontrol hholds _ hd =>
      subst hd
      simp only [Attends, hcontrol] at hattends
      have hquiet := hattends.take hholds
      rw [← hown (by rw [hcontrol]; rfl) fun b ↦ (b.take ticket).1] at hquiet
      exact hquiet
  | lapsed room directory hcontrol hholds _ hd =>
      subst hd
      simp only [Attends, hcontrol] at hattends
      have hquiet := hattends.giveUp hholds
      rw [← hown (by rw [hcontrol]; rfl) (·.giveUp ticket)] at hquiet
      exact hquiet
  | _ => trivial

/-- Where it matters which dequeue is under way, the worker's subscriber has been taken up. -/
theorem Attends.of_enrolled {d' : Directory} (h : w.Attends d) (hw : w.Lawful d)
    (hmailbox : d.Enrolled w.place w.session.id →
      d'.mailbox w.place = d.mailbox w.place ∨
        ∃ m, d'.mailbox w.place = (d.mailbox w.place).enqueue m) : w.Attends d' := by
  have hquiet (hid : d.Enrolled w.place w.session.id) (h : (d.mailbox w.place).Quiet) :
      (d'.mailbox w.place).Quiet := by
    rcases hmailbox hid with heq | ⟨m, heq⟩ <;> rw [heq]
    · exact h
    · exact h.enqueue m
  revert h hw
  unfold Attends Lawful
  cases w.control with
  | receive await =>
      cases await with
      | join => exact fun h hw ↦ hquiet hw.enrolled h
      | _ => exact fun _ _ ↦ trivial
  | enterRoom => exact fun h hw ↦ hquiet hw.enrolled h
  | addMember => exact fun h hw ↦ hquiet hw.1.enrolled h
  | send rest after =>
      cases after with
      | joined | delivered => exact fun h hw ↦ hquiet hw.1.enrolled h
      | _ => exact fun _ _ ↦ trivial
  | testFlag | dequeue => exact fun h hw ↦ hquiet hw.1.enrolled h
  | collect =>
      intro h hw
      rcases hmailbox hw.1.enrolled with heq | ⟨m, heq⟩ <;> simp only [heq]
      · exact h
      · exact h.enqueue m
  | _ => exact fun _ _ ↦ trivial

/-- What a worker waits for: that its peer sends more, or that a delivery comes before a deadline that is
not further ahead than a dequeue may take. Or it has ended. -/
inductive AtRest (hub : Hub) (w : Worker) : Prop where
  | input (await : Await) : w.control = .receive await → w.connection.stream.arrivals = [] →
      Connection.NoVerdict w.connection.buffer → AtRest hub w
  | delivery (room deadline : Nat) : w.control = .collect room →
      (hub.directory.mailbox w.place).messages = [] →
      (hub.directory.mailbox w.place).waiting = [⟨ticket, deadline⟩] →
      hub.now < deadline → deadline ≤ hub.now + hub.dequeueTimeout → AtRest hub w
  | ended (result : Result) : w.control = .ended result → AtRest hub w

/-- A worker that is to receive something and can make no step waits for its peer. -/
theorem receiveStep_of_step_eq_none {await : Await} (hcontrol : w.control = .receive await)
    (hstep : w.step hub = none) : ∃ after, w.connection.receiveStep = (after, .waiting) := by
  simp only [step, hcontrol] at hstep
  split at hstep
  · exact ⟨_, ‹_›⟩
  · cases hstep
  · cases hstep

/-- A worker at rest is not stalled. -/
theorem AtRest.isStalled_eq_false (h : w.AtRest hub) : w.isStalled = false := by
  cases h <;> simp [isStalled, *]

/-- A worker at rest can make no step. -/
theorem AtRest.step_eq_none (h : w.AtRest hub) (hattends : w.Attends hub.directory)
    (htended : w.Tended d) : w.step hub = none := by
  cases h with
  | input await hcontrol hempty hnone =>
      have hopen : w.connection.isOpen = true := by
        simp only [Tended, result?, hcontrol] at htended
        exact htended.1
      obtain ⟨after, hwaiting⟩ := (Connection.receiveStep_eq_waiting_iff hopen).mpr ⟨hempty, hnone⟩
      simp [step, hcontrol, hwaiting]
  | delivery room deadline hcontrol hmessages hwaiting hearly _ =>
      have hnot : (hub.directory.mailbox w.place).holds ticket = false := by
        cases hholds : (hub.directory.mailbox w.place).holds ticket with
        | false => rfl
        | true =>
            simp only [Attends, hcontrol] at hattends
            exact absurd (by rw [hmessages]; rfl) (hattends.head?_ne_none hholds)
      simp [step, hcontrol, Worker.collect, hnot, Mailbox.isDue, Mailbox.due, hwaiting,
        Nat.not_le_of_lt hearly]
  | ended result hcontrol => simp [step, hcontrol]

/-- A worker can make no step exactly while it waits or is stalled, and once it has ended. -/
theorem step_eq_none_iff (hattends : w.Attends hub.directory) (htended : w.Tended d)
    (hdue : w.DueBy hub (hub.now + hub.dequeueTimeout)) :
    w.step hub = none ↔ w.AtRest hub ∨ w.isStalled = true := by
  constructor
  · intro hstep
    refine (em (w.isStalled = true)).symm.imp_left fun hflows ↦ ?_
    rcases control_of_step_eq_none hstep (Bool.eq_false_iff.mpr hflows) with
      ⟨await, hcontrol⟩ | ⟨room, hcontrol⟩ | ⟨result, hresult⟩
    · have hopen : w.connection.isOpen = true := by
        simp only [Tended, result?, hcontrol] at htended
        exact htended.1
      obtain ⟨hempty, hnone⟩ := (Connection.receiveStep_eq_waiting_iff hopen).mp
        (receiveStep_of_step_eq_none hcontrol hstep)
      exact .input await hcontrol hempty hnone
    · simp only [step, hcontrol, Worker.collect] at hstep
      split at hstep
      · split at hstep <;> cases hstep
      · rename_i hholds
        split at hstep
        · cases hstep
        · rename_i hearly
          simp only [Attends, DueBy, hcontrol] at hattends hdue
          cases hattends with
          | holding hholding => simp [Mailbox.holds, hholding] at hholds
          | waiting deadline hholding hwaiting _ hmessages =>
              refine .delivery room deadline hcontrol hmessages hwaiting ?_ ?_
              · simpa [Mailbox.isDue, Mailbox.due, hwaiting] using hearly
              · simpa [Mailbox.EndsBy, Mailbox.holds, hholding, hwaiting] using hdue
    · cases hcontrol : w.control with
      | ended given => exact .ended given hcontrol
      | _ => simp [result?, hcontrol] at hresult
  · intro hwaits
    rcases hwaits with hrest | hstalled
    · exact hrest.step_eq_none hattends htended
    · exact step_eq_none_of_isStalled hstalled

end Worker

namespace System

variable {s : System} {k : Nat}

/-- What is known in every run. -/
structure Attended (s : System) : Prop extends s.Dated where
  named : s.Everywhere fun d w ↦ w.Lawful d ∧ w.Named d
  tended : s.Everywhere Worker.Tended
  attends : s.Everywhere fun d w ↦ w.Attends d

/-- What others do leaves a subscriber's mailbox as it is, or puts a message into it. -/
theorem Seated.mailbox_other (h : s.Seated) {w : Worker} (hw : s.workers[k]? = some w)
    (hid : s.hub.directory.Enrolled w.place w.session.id) {action : Action}
    (hother : action ≠ .work k) :
    (s.act action).hub.directory.mailbox w.place = s.hub.directory.mailbox w.place ∨
      ∃ m, (s.act action).hub.directory.mailbox w.place =
        (s.hub.directory.mailbox w.place).enqueue m := by
  rw [mailbox_act h hw hid hother]
  cases s.broadcastOf? action with
  | none => exact .inl rfl
  | some heard =>
      dsimp only
      split
      · exact .inr ⟨_, rfl⟩
      · exact .inl rfl

theorem Attended.act (h : s.Attended) (action : Action) : (s.act action).Attended := by
  refine ⟨h.toDated.act action, lasting_named.act h.placed h.named action,
    lasting_tended.act h.placed h.tended action, fun k w' hw' ↦ ?_⟩
  rcases exists_worker_before hw' with ⟨w, hw⟩ | ⟨hnew, -⟩
  · have hlawful := h.lawful k w hw
    have hother (hwork : action ≠ .work k) : w.Attends (s.act action).hub.directory :=
      (h.attends k w hw).of_enrolled hlawful fun hid ↦
        h.toSeated.mailbox_other hw hid hwork
    cases fate hw action with
    | kept hwork _ hsame =>
        obtain rfl := Option.some.inj (hw'.symm.trans hsame)
        exact hother hwork
    | cued cue haction hcue =>
        obtain rfl := Option.some.inj (hw'.symm.trans hcue)
        exact hother (by simp [haction])
    | stuck _ _ hsame =>
        rw [hsame] at hw' ⊢
        exact h.attends k w' hw'
    | stepped hub v _ hstep hafter =>
        rw [hafter] at hw' ⊢
        obtain rfl := Option.some.inj (hw'.symm.trans (getElem?_set_self hw v))
        exact (Worker.step_sound hstep).attends hlawful (h.attends k w hw)
  · simp only [Worker.Attends, hnew.control]

theorem Initial.attended (h : s.Initial) (actions : List Action) : (s.run actions).Attended := by
  refine run_induction ⟨h.dated [], ?_, ?_, ?_⟩ (fun _ action ht ↦ ht.act action) actions
  · exact lasting_named.run h []
  · exact lasting_tended.run h []
  · intro k w hw
    simp only [Worker.Attends, (h.fresh k w hw).control]

/-- The system is idle exactly when each worker waits, is stalled or has ended. -/
theorem Attended.idle_iff (h : s.Attended) :
    s.Idle ↔ ∀ (k : Nat) (w : Worker), s.workers[k]? = some w →
      w.AtRest s.hub ∨ w.isStalled = true := by
  constructor
  · intro hidle k w hw
    exact (Worker.step_eq_none_iff (h.attends k w hw) (h.tended k w hw) (h.due k w hw)).mp
      (hidle.step_eq_none hw)
  · intro hrest k
    cases hw : s.workers[k]? with
    | none => simp [work?, hw]
    | some w =>
        rw [work?_eq_none_iff hw]
        exact (Worker.step_eq_none_iff (h.attends k w hw) (h.tended k w hw) (h.due k w hw)).mpr
          (hrest k w hw)

/-- The system is settled exactly when each worker waits or has ended. -/
theorem Attended.settled_iff (h : s.Attended) :
    s.Settled ↔ ∀ (k : Nat) (w : Worker), s.workers[k]? = some w → w.AtRest s.hub := by
  constructor
  · intro hsettled k w hw
    have hflows := hsettled.flowing k w hw
    exact (h.idle_iff.mp hsettled.idle k w hw).resolve_right (by rw [hflows]; decide)
  · intro hrest
    exact ⟨h.idle_iff.mpr fun k w hw ↦ .inl (hrest k w hw),
      fun k w hw ↦ (hrest k w hw).isStalled_eq_false⟩

end System

end Server

end ChatRelay
