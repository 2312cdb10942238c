import ChatRelay.Proofs.Progress
import ChatRelay.Proofs.Shutdown

/-!
# How often a waiting subscriber wakes

A subscriber's worker that waits for a delivery wakes with one or when its time is up. `Worker.Rests`
says before which time no dequeue of the worker gives up, and `Worker.Step.turned` that each time one
does, the next lasts for as long as a dequeue may take. Hence `workers_never_spin`: with the clock
standing still the workers have only so many steps to make before none can make one, and while time
passes a subscriber wakes once for each delivery and otherwise no more often than dequeues can lapse.
-/

namespace ChatRelay

open Wire

namespace Mailbox

variable {b : Mailbox} {ticket now deadline : Nat}

/-- Whoever asks alone is the only one to wait. -/
theorem Quiet.deadline_of_mem_ask (h : b.Quiet) {entry : Waiting}
    (hentry : entry ∈ (b.ask ticket deadline).waiting) : entry.deadline = deadline := by
  obtain ⟨-, hwaiting, -⟩ := h
  unfold Mailbox.ask at hentry
  split at hentry
  · simp only [hwaiting, List.nil_append, List.mem_singleton] at hentry
    rw [hentry]
  · simp [hwaiting] at hentry

theorem exists_of_isDue (h : b.isDue ticket now = true) :
    ∃ entry ∈ b.waiting, entry.deadline ≤ now := by
  simp only [isDue, due, List.any_eq_true, List.mem_filter, decide_eq_true_eq] at h
  obtain ⟨entry, ⟨hentry, hlate⟩, -⟩ := h
  exact ⟨entry, hentry, hlate⟩

end Mailbox

namespace Server

/-- The action brings nothing into the system from outside. -/
def Action.isCalm : Action → Bool
  | .work _ | .setClosing _ | .pass _ => true
  | .connect _ _ | .cue _ _ | .broadcast _ _ _ => false

namespace Worker

variable {hub hub' : Hub} {w w' : Worker} {limit : Nat}

/-- The next step ends the dequeue that the worker is in. -/
def wakes (hub : Hub) (w : Worker) : Bool :=
  match w.control with
  | .collect _ => (w.step hub).isSome
  | _ => false

/-- How many deliveries lie in the mailbox of a worker that sits in a room. -/
def queued (d : Directory) (w : Worker) : Nat :=
  match w.control.seat? with
  | some _ => (d.mailbox w.place).messages.length
  | none => 0

/-- The dequeue that the worker is in, or else its next one, does not give up before this time. -/
structure Rests (hub : Hub) (w : Worker) (limit : Nat) : Prop where
  next : limit ≤ hub.now + hub.dequeueTimeout
  current : ∀ room, w.control = .collect room →
    ∀ entry ∈ (hub.directory.mailbox w.place).waiting, limit ≤ max entry.deadline hub.now

theorem wakes_eq_false (h : ∀ room, w.control ≠ .collect room) : w.wakes hub = false := by
  unfold wakes
  split
  · rename_i room hcontrol
    exact absurd hcontrol (h room)
  · rfl

/-- Nothing gives up before now. -/
theorem rests_now (hub : Hub) (w : Worker) : w.Rests hub hub.now :=
  ⟨Nat.le_add_right _ _, fun _ _ _ _ ↦ Nat.le_max_right _ _⟩

/-- A worker that is in no dequeue begins its next one later. -/
theorem Rests.of_control (h : limit ≤ hub.now + hub.dequeueTimeout)
    (hcontrol : ∀ room, w.control ≠ .collect room) : w.Rests hub limit :=
  ⟨h, fun room heq ↦ absurd heq (hcontrol room)⟩

/-- What one turn does to the wakings of its worker that are still to come: it takes a delivery for one
of them, or it takes none and adds none, or the time was up and the next dequeue begins now or later. -/
inductive Turned (hub : Hub) (w : Worker) (limit : Nat) (hub' : Hub) (w' : Worker) : Prop where
  | goes : (if w.wakes hub then 1 else 0) + w'.queued hub'.directory ≤ w.queued hub.directory →
      w'.Rests hub' limit → Turned hub w limit hub' w'
  | lapses : w'.queued hub'.directory ≤ w.queued hub.directory → limit ≤ hub.now →
      w'.Rests hub' (hub.now + hub.dequeueTimeout) → Turned hub w limit hub' w'

/-- A step from elsewhere than a dequeue wakes nobody. -/
theorem Turned.of_step (h : Step hub w hub' w') (hrests : w.Rests hub limit)
    (hbefore : ∀ room, w.control ≠ .collect room) (hafter : ∀ room, w'.control ≠ .collect room)
    (hqueued : w'.queued hub'.directory ≤ w.queued hub.directory) :
    Turned hub w limit hub' w' := by
  obtain ⟨-, hnow, htimeout⟩ := h.clock
  refine .goes ?_ (.of_control ?_ hafter)
  · rw [wakes_eq_false hbefore, if_neg Bool.false_ne_true, Nat.zero_add]
    exact hqueued
  · rw [hnow, htimeout]
    exact hrests.next

/-- Whoever sits nowhere has nothing queued. -/
theorem queued_of_none {d : Directory} (h : w.control.seat? = none) : w.queued d = 0 := by
  rw [queued, h]

theorem queued_of_some {d : Directory} {room : Nat} (h : w.control.seat? = some room) :
    w.queued d = (d.mailbox w.place).messages.length := by
  rw [queued, h]

/-- A worker that sits where it sat, with the mailbox that it had, has as much queued as before. -/
theorem queued_congr {d d' : Directory} (hseat : w'.control.seat? = w.control.seat?)
    (hmailbox : (d'.mailbox w'.place).messages = (d.mailbox w.place).messages) :
    w'.queued d' = w.queued d := by
  rw [queued, queued, hseat, hmailbox]

/-- Every step turns in one of these ways. -/
theorem Step.turned (h : Step hub w hub' w') (hw : w.Lawful hub.directory)
    (hattends : w.Attends hub.directory)
    (hunheard : w.control.IsJoining → (hub.directory.mailbox w.place).messages = [])
    (hrests : w.Rests hub limit) : Turned hub w limit hub' w' := by
  have hturned := Turned.of_step h hrests
  have hwakes {room : Nat} (hcontrol : w.control = .collect room) : w.wakes hub = true := by
    rw [wakes, hcontrol, h.step_eq]
    rfl
  have hgone (hseat : w'.control.seat? = none) :
      w'.queued hub'.directory ≤ w.queued hub.directory :=
    Nat.le_trans (Nat.le_of_eq (queued_of_none hseat)) (Nat.zero_le _)
  cases h with
  | addMember room directory hcontrol hd =>
      have hempty := hunheard (by rw [hcontrol]; trivial)
      have hsame : directory.subscribers = hub.directory.subscribers := by
        rw [hd]
        exact Directory.subscribers_addMember _ _ _
      refine hturned (by simp [hcontrol]) (by simp) ?_
      rw [queued_of_some rfl, place_say, Directory.mailbox_of_subscribers hsame, hempty]
      exact Nat.zero_le _
  | dequeue room directory hcontrol hd =>
      simp only [Lawful, Attends, hcontrol] at hw hattends
      have hmailbox : directory.mailbox w.place = (hub.directory.mailbox w.place).ask
          ticket (hub.now + hub.dequeueTimeout) := by
        rw [hd, Directory.mailbox_updateMailbox_self hw.1.enrolled]
      refine .goes ?_ ⟨hrests.next, fun _ _ entry hentry ↦ ?_⟩
      · rw [wakes_eq_false (by simp [hcontrol]), if_neg Bool.false_ne_true, Nat.zero_add]
        refine Nat.le_of_eq (queued_congr (by rw [hcontrol]; rfl) ?_)
        rw [place_goTo, hmailbox, Mailbox.messages_ask]
      · rw [place_goTo, hmailbox] at hentry
        rw [hattends.deadline_of_mem_ask hentry]
        exact Nat.le_trans hrests.next (Nat.le_max_left _ _)
  | collected room directory m hcontrol hholds hhead hd =>
      simp only [Lawful, hcontrol] at hw
      obtain ⟨rest, hmessages⟩ := List.head?_eq_some_iff.mp hhead
      refine .goes ?_ (.of_control hrests.next (by simp))
      rw [hwakes hcontrol, if_pos rfl, queued_of_some rfl, queued_of_some (by rw [hcontrol]; rfl),
        place_say, hd, Directory.mailbox_updateMailbox_self hw.1.enrolled]
      simp only [Mailbox.take, hmessages, List.tail_cons, List.length_cons]
      omega
  | missed room directory hcontrol hholds hhead =>
      simp only [Attends, hcontrol] at hattends
      exact absurd hhead (hattends.head?_ne_none hholds)
  | lapsed room directory hcontrol hholds hdue hd =>
      simp only [Lawful, hcontrol] at hw
      obtain ⟨entry, hentry, hlate⟩ := Mailbox.exists_of_isDue hdue
      have hmax := hrests.current room hcontrol entry hentry
      rw [Nat.max_eq_right hlate] at hmax
      refine .lapses (Nat.le_of_eq (queued_congr (by rw [hcontrol]; rfl) ?_)) hmax
        (.of_control (Nat.le_refl _) (by simp))
      rw [place_goTo, hd, Directory.mailbox_updateMailbox_self hw.1.enrolled]
      rfl
  | output rest after connection left hcontrol =>
      refine hturned (by simp [hcontrol]) (by simp) (Nat.le_of_eq (queued_congr ?_ rfl))
      rw [hcontrol]
      cases after <;> rfl
  | sent rest after connection hcontrol =>
      refine hturned (by simp [hcontrol]) ?_ ?_
      · intro room hcollect
        cases after with
        | loggedIn role => cases role <;> cases hcollect
        | _ => cases hcollect
      · cases after with
        | loggedIn role => cases role <;> exact hgone rfl
        | joined room | delivered room =>
            exact Nat.le_of_eq (queued_congr (by rw [hcontrol]; rfl) rfl)
        | part | replied | quit => exact hgone rfl
  | unsent rest after connection failure hcontrol =>
      refine hturned (by simp [hcontrol]) ?_ ?_
      · intro room hcollect
        cases after <;> cases hcollect
      · cases after with
        | joined room | delivered room =>
            exact Nat.le_of_eq (queued_congr (by rw [hcontrol]; rfl) rfl)
        | part | loggedIn | replied | quit => exact hgone rfl
  | parting room hcontrol | staying room hcontrol =>
      exact hturned (by simp [hcontrol]) (by simp)
        (Nat.le_of_eq (queued_congr (by rw [hcontrol]; rfl) rfl))
  | input await connection hcontrol =>
      exact hturned (by simp [hcontrol]) (by simp [hcontrol]) (hgone (by rw [hcontrol]; rfl))
  | _ => exact hturned (by simp [*]) (by simp) (hgone rfl)

/-- The worker waits for its peer, or it is a subscriber that has joined. Either way it broadcasts
nothing. -/
def Mute (w : Worker) : Prop :=
  (∃ await after, w.control = .receive await ∧ w.connection.receiveStep = (after, .waiting)) ∨
    w.control.IsHearing

theorem mute_of_step_eq_none (h : w.step hub = none) (hflows : w.isStalled = false) : w.Mute := by
  rcases control_of_step_eq_none h hflows with
    ⟨await, hcontrol⟩ | ⟨room, hcontrol⟩ | ⟨result, hresult⟩
  · obtain ⟨after, hwaiting⟩ := receiveStep_of_step_eq_none hcontrol h
    exact .inl ⟨await, after, hcontrol, hwaiting⟩
  · exact .inr (by rw [hcontrol]; trivial)
  · cases hcontrol : w.control with
    | ended => exact .inr (by rw [hcontrol]; trivial)
    | _ => simp [result?, hcontrol] at hresult

/-- Unless its peer sends something, whoever broadcasts nothing never will. -/
theorem Step.mute (h : Step hub w hub' w') (hmute : w.Mute) : w'.Mute := by
  rcases hmute with ⟨await, after, hcontrol, hwaiting⟩ | hhearing
  · have hstep := h.step_eq
    simp [step, hcontrol, hwaiting] at hstep
  · exact .inr (h.hearsOn hhearing).hearing

end Worker

namespace System

variable {s : System} {k limit : Nat} {w : Worker} {action : Action} {actions : List Action}

/-- The action ends a dequeue of the worker in this place. -/
def wakes (k : Nat) (s : System) : Action → Bool
  | .work j => j == k && (s.workers[j]?.map (·.wakes s.hub)).getD false
  | _ => false

/-- The action puts a message into the mailbox of the worker in this place, which sits in a room. -/
def hears (k : Nat) (s : System) (action : Action) : Bool :=
  match s.workers[k]?.bind (·.membership? s.hub.directory), s.broadcastOf? action with
  | some room, some heard => heard.1 == room
  | _, _ => false

theorem wakes_of_ne (h : action ≠ .work k) : s.wakes k action = false := by
  cases action with
  | work j =>
      have hjk : j ≠ k := by simpa using h
      simp [wakes, hjk]
  | _ => rfl

theorem wakes_work (hw : s.workers[k]? = some w) : s.wakes k (.work k) = w.wakes s.hub := by
  simp [wakes, hw]

/-- What others do adds to what is queued for a worker what they put into its mailbox. -/
theorem queued_act (h : s.Seated) (hw : s.workers[k]? = some w)
    (hother : action ≠ .work k) :
    w.queued (s.act action).hub.directory =
      w.queued s.hub.directory + if s.hears k action then 1 else 0 := by
  cases hseat : w.control.seat? with
  | none =>
      have hdeaf : s.hears k action = false := by simp [hears, hw, Worker.membership?, hseat]
      rw [Worker.queued_of_none hseat, Worker.queued_of_none hseat, hdeaf, if_neg Bool.false_ne_true]
  | some room =>
      have hmessages := messages_act h hw ((h.lawful k w hw).seated hseat).enrolled hother
      rw [Worker.queued_of_some hseat, Worker.queued_of_some hseat, hmessages, List.length_append]
      simp only [hears, entry, hw, Option.bind_some]
      cases w.membership? s.hub.directory with
      | none => rfl
      | some joined =>
          cases s.broadcastOf? action with
          | none => rfl
          | some heard =>
              by_cases hroom : heard.1 = joined <;> simp [hroom]

/-- What others do, and time, make no dequeue give up earlier. -/
theorem rests_act (h : s.Seated) (hw : s.workers[k]? = some w) (hother : action ≠ .work k)
    (hrests : w.Rests s.hub limit) : w.Rests (s.act action).hub limit := by
  obtain ⟨-, hnow, htimeout⟩ := s.clock_act action
  have hlater : s.hub.now ≤ (s.act action).hub.now := hnow ▸ Nat.le_add_right _ _
  refine ⟨?_, fun room hcontrol entry hentry ↦ ?_⟩
  · rw [htimeout]
    exact Nat.le_trans hrests.next (Nat.add_le_add_right hlater _)
  · have hseat : w.control.seat? = some room := by rw [hcontrol]; rfl
    have hbefore : entry ∈ (s.hub.directory.mailbox w.place).waiting := by
      rcases h.mailbox_other hw ((h.lawful k w hw).seated hseat).enrolled hother with
        heq | ⟨m, heq⟩ <;> rw [heq] at hentry
      · exact hentry
      · exact Mailbox.mem_waiting_of_enqueue hentry
    have hmax := hrests.current room hcontrol entry hbefore
    omega

/-- One action wakes the worker in this place with a message that is queued, or because its time is up,
and then not again before the time of another dequeue is up. -/
theorem Attended.wakes_act (h : s.Attended) (hready : s.Ready) (hw : s.workers[k]? = some w)
    (hrests : w.Rests s.hub limit) :
    ∃ w' lapses later, (s.act action).workers[k]? = some w' ∧ w'.Rests (s.act action).hub later ∧
      (if s.wakes k action then 1 else 0) + w'.queued (s.act action).hub.directory ≤
        lapses + w.queued s.hub.directory + (if s.hears k action then 1 else 0) ∧
      limit + lapses * s.hub.dequeueTimeout ≤ later := by
  have hkept (hother : action ≠ .work k) :
      (if s.wakes k action then 1 else 0) + w.queued (s.act action).hub.directory ≤
        0 + w.queued s.hub.directory + (if s.hears k action then 1 else 0) := by
    rw [wakes_of_ne hother, queued_act h.toSeated hw hother, if_neg Bool.false_ne_true]
    exact Nat.le_of_eq (Nat.add_assoc _ _ _).symm
  have hrested (hother : action ≠ .work k) : w.Rests (s.act action).hub limit :=
    rests_act h.toSeated hw hother hrests
  have hzero : limit + 0 * s.hub.dequeueTimeout ≤ limit :=
    Nat.le_of_eq (by rw [Nat.zero_mul, Nat.add_zero])
  cases fate hw action with
  | kept hother _ hsame => exact ⟨w, 0, limit, hsame, hrested hother, hkept hother, hzero⟩
  | cued cue haction hcue =>
      have hother : action ≠ .work k := by simp [haction]
      exact ⟨w.cue cue, 0, limit, hcue, ⟨(hrested hother).next, (hrested hother).current⟩,
        hkept hother, hzero⟩
  | stuck haction hstep hsame =>
      have hasleep : s.wakes k action = false := by
        rw [haction, wakes_work hw, Worker.wakes, hstep]
        split <;> rfl
      refine ⟨w, 0, limit, by rw [hsame]; exact hw, by rw [hsame]; exact hrests, ?_, hzero⟩
      rw [hasleep, hsame, if_neg Bool.false_ne_true]
      omega
  | stepped hub w' haction hstep hafter =>
      have hw' : (s.act action).workers[k]? = some w' := by
        rw [hafter]
        exact getElem?_set_self hw w'
      have hturned := (Worker.step_sound hstep).turned (h.lawful k w hw) (h.attends k w hw)
        (hready.unheard k w hw) hrests
      rw [haction, wakes_work hw, ← haction, hafter]
      rw [hafter] at hw'
      dsimp only
      cases hturned with
      | goes hqueued hrests' =>
          refine ⟨w', 0, limit, hw', hrests', ?_, hzero⟩
          omega
      | lapses hqueued hlimit hrests' =>
          refine ⟨w', 1, _, hw', hrests', ?_, ?_⟩
          · have hone : (if w.wakes s.hub then 1 else 0) ≤ 1 := by split <;> omega
            omega
          · rw [Nat.one_mul]
            exact Nat.add_le_add_right hlimit _

/-- In a run the worker in this place wakes with the messages queued for it, and otherwise because its
time is up, for each of these times that a dequeue takes once. -/
theorem Attended.wakes_run (h : s.Attended) (hready : s.Ready) (hw : s.workers[k]? = some w)
    (hrests : w.Rests s.hub limit) (actions : List Action) :
    ∃ (w' : Worker) (lapses later : Nat), w'.Rests (s.run actions).hub later ∧
      occurrences (wakes k) s actions + w'.queued (s.run actions).hub.directory ≤
        lapses + w.queued s.hub.directory + occurrences (hears k) s actions ∧
      limit + lapses * s.hub.dequeueTimeout ≤ later := by
  induction actions generalizing s w limit with
  | nil =>
      refine ⟨w, 0, limit, hrests, Nat.le_of_eq ?_, Nat.le_of_eq ?_⟩
      · exact (Nat.add_zero _).symm
      · rw [Nat.zero_mul, Nat.add_zero]
  | cons action rest ih =>
      obtain ⟨v, first, middle, hv, hrests', hfirst, hmiddle⟩ := h.wakes_act hready hw hrests
      obtain ⟨w', others, later, hend, hrest, hlater⟩ :=
        ih (h.act action) (hready.act action) hv hrests'
      rw [(s.clock_act action).2.2] at hlater
      refine ⟨w', first + others, later, hend, ?_, ?_⟩
      · simp only [occurrences]
        rw [run_cons]
        omega
      · rw [Nat.add_mul]
        omega

/-- If nothing comes in from outside while everybody waits, nobody broadcasts. -/
theorem hears_of_mute (hmute : ∀ (j : Nat) (v : Worker), s.workers[j]? = some v → v.Mute)
    (hcalm : action.isCalm = true) : s.hears k action = false := by
  have hnone : s.broadcastOf? action = none := by
    cases action with
    | work j =>
        cases hv : s.workers[j]? with
        | none => simp only [broadcastOf?, hv]
        | some v =>
            cases hcontrol : v.control with
            | broadcast =>
                have hmute := hmute j v hv
                simp [Worker.Mute, hcontrol, Control.IsHearing] at hmute
            | _ => simp only [broadcastOf?, hv, hcontrol]
    | broadcast => cases hcalm
    | _ => rfl
  unfold hears
  rw [hnone]
  cases s.workers[k]?.bind (·.membership? s.hub.directory) <;> rfl

theorem mute_act (hmute : ∀ (j : Nat) (v : Worker), s.workers[j]? = some v → v.Mute)
    (hcalm : action.isCalm = true) :
    ∀ (j : Nat) (v : Worker), (s.act action).workers[j]? = some v → v.Mute := by
  intro j v' hv'
  have hids : (s.act action).ids = s.ids := ids_act fun _ _ heq ↦ by simp [heq, Action.isCalm] at hcalm
  obtain ⟨v, hv, -⟩ := exists_worker_of_ids hids.symm hv'
  cases fate hv action with
  | kept _ _ hsame =>
      obtain rfl := Option.some.inj (hv'.symm.trans hsame)
      exact hmute j v' hv
  | cued cue haction => simp [haction, Action.isCalm] at hcalm
  | stuck _ _ hsame =>
      rw [hsame] at hv'
      exact hmute j v' hv'
  | stepped hub u _ hstep hafter =>
      rw [hafter] at hv'
      obtain rfl := Option.some.inj (hv'.symm.trans (getElem?_set_self hv u))
      exact (Worker.step_sound hstep).mute (hmute j v hv)

/-- While everybody waits and nothing comes in from outside, nothing comes into a mailbox. -/
theorem hears_run (hmute : ∀ (j : Nat) (v : Worker), s.workers[j]? = some v → v.Mute)
    (hcalm : ∀ action ∈ actions, action.isCalm = true) : occurrences (hears k) s actions = 0 := by
  induction actions generalizing s with
  | nil => rfl
  | cons action rest ih =>
      have hfirst := hcalm action List.mem_cons_self
      rw [occurrences, hears_of_mute hmute hfirst, if_neg Bool.false_ne_true, Nat.zero_add]
      exact ih (mute_act hmute hfirst) fun other hother ↦ hcalm other (List.mem_cons_of_mem _ hother)

/-- Where everybody waits, nothing is queued. -/
theorem Attended.queued_eq_zero (h : s.Attended) (hsettled : s.Settled)
    (hw : s.workers[k]? = some w) : w.queued s.hub.directory = 0 := by
  cases h.settled_iff.mp hsettled k w hw with
  | input await hcontrol => exact Worker.queued_of_none (by rw [hcontrol]; rfl)
  | delivery room deadline hcontrol hmessages =>
      rw [Worker.queued_of_some (by rw [hcontrol]; rfl), hmessages, List.length_nil]
  | ended result hcontrol => exact Worker.queued_of_none (by rw [hcontrol]; rfl)

theorem dequeueTimeout_run (s : System) (actions : List Action) :
    (s.run actions).hub.dequeueTimeout = s.hub.dequeueTimeout := by
  induction actions generalizing s with
  | nil => rfl
  | cons action rest ih => exact (ih (s.act action)).trans (s.clock_act action).2.2

/-- Apart from the deliveries, the wakings of a worker are as many as dequeues that follow each other can
lapse in the time that passes. -/
theorem Attended.wakes_le (h : s.Attended) (hready : s.Ready)
    (htimeout : 1 ≤ s.hub.dequeueTimeout) (hw : s.workers[k]? = some w) (actions : List Action) :
    occurrences (wakes k) s actions ≤
      ((s.run actions).hub.now - s.hub.now) / s.hub.dequeueTimeout + 1 +
        w.queued s.hub.directory + occurrences (hears k) s actions := by
  obtain ⟨w', lapses, later, hrests, hwakes, hlater⟩ :=
    h.wakes_run hready hw (Worker.rests_now s.hub w) actions
  have hnext := hrests.next
  rw [dequeueTimeout_run] at hnext
  have htime : lapses * s.hub.dequeueTimeout ≤
      (s.run actions).hub.now - s.hub.now + s.hub.dequeueTimeout := by
    omega
  have hlapses : lapses ≤ ((s.run actions).hub.now - s.hub.now) / s.hub.dequeueTimeout + 1 := by
    rw [← Nat.add_div_right _ htimeout]
    exact (Nat.le_div_iff_mul_le htimeout).mpr htime
  omega

/-- From every state that a run from a fresh start leads to, if a dequeue may take a millisecond at
least. While no time passes, the steps that the workers make are bounded by what there is to do, in
whatever order they have their turns; after as many rounds in which each of them has a turn none can make
a step any more, nor can one once they have been left to settle. On responsive streams each of them then
waits for its peer to send something or for a delivery, or has ended; on others it may also be that its
peer does not take what it sends. Whatever happens later, a worker wakes once for each delivery that is
queued or comes in, and apart from that no more often than once and once more for each time that a
dequeue may take; and if the system has settled and nothing comes in from outside, there are no such
deliveries. -/
theorem workers_never_spin (h : s.Initial) (before : List Action)
    (htimeout : 1 ≤ s.hub.dequeueTimeout) :
    let t := s.run before
    (∀ turns : List Nat, occurrences makesStep t (turns.map .work) ≤ t.effort) ∧
      (∀ rounds : List (List Nat), (∀ turns ∈ rounds, ∀ k < t.workers.length, k ∈ turns) →
        t.effort ≤ rounds.length →
          (t.run (rounds.flatten.map .work)).Idle ∧
            (t.Responsive → (t.run (rounds.flatten.map .work)).Settled)) ∧
      t.settle.Idle ∧ (t.Responsive → t.settle.Settled) ∧
      (t.Idle ↔ ∀ (k : Nat) (w : Worker), t.workers[k]? = some w →
        w.AtRest t.hub ∨ w.isStalled = true) ∧
      (t.Settled ↔ ∀ (k : Nat) (w : Worker), t.workers[k]? = some w → w.AtRest t.hub) ∧
      ∀ (after : List Action) (k : Nat) (w : Worker), t.workers[k]? = some w →
        let lapses := ((t.run after).hub.now - t.hub.now) / t.hub.dequeueTimeout + 1
        occurrences (wakes k) t after ≤
          lapses + w.queued t.hub.directory + occurrences (hears k) t after ∧
        (t.Settled → (∀ action ∈ after, action.isCalm = true) →
          occurrences (wakes k) t after ≤ lapses) := by
  intro t
  have hattended : t.Attended := h.attended before
  have hready : t.Ready := h.ready_run before
  have htimeout' : 1 ≤ t.hub.dequeueTimeout := by rwa [dequeueTimeout_run]
  have hsettle := hattended.idle_settle htimeout'
  refine ⟨fun turns ↦ ?_, fun rounds hall henough ↦ ?_, hsettle,
    fun hresponsive ↦ (hresponsive.unfolds t.unfolds_settle).settled hsettle, hattended.idle_iff,
    hattended.settled_iff, fun after k w hw ↦ ⟨?_, fun hsettled hcalm ↦ ?_⟩⟩
  · exact Nat.le_trans (Nat.le_add_right _ _) (hattended.steps_le htimeout' turns)
  · have hidle := hattended.idle_rounds htimeout' hall henough
    exact ⟨hidle, fun hresponsive ↦
      (hresponsive.unfolds (t.unfolds_turns rounds.flatten)).settled hidle⟩
  · exact hattended.wakes_le hready htimeout' hw after
  · have hwakes := hattended.wakes_le hready htimeout' hw after
    have hsilent : occurrences (hears k) t after = 0 := hears_run (fun j v hv ↦
      Worker.mute_of_step_eq_none (hsettled.idle.step_eq_none hv) (hsettled.flowing j v hv)) hcalm
    rwa [hattended.queued_eq_zero hsettled hw, hsilent] at hwakes

/-- A subscriber waits in its room, and the time of its dequeue is up in a millisecond. -/
def dozing : List Action :=
  listening ++ [.pass 999]

/-- The time of a dequeue is up twice, and the subscriber has its turns each time. -/
def stirring : List Action :=
  .pass 1 :: List.replicate 4 (.work 0) ++ lapsing

/-- In the time of one dequeue a waiting subscriber can wake twice, and no more often. -/
theorem workers_never_spin_dozing :
    1 ≤ (run {} dozing).hub.dequeueTimeout ∧ (run {} dozing).settle.Settled ∧
      (run {} dozing).Settled ∧ (∀ action ∈ stirring, action.isCalm = true) ∧
      occurrences (wakes 0) (run {} dozing) stirring = 2 ∧
      occurrences (wakes 0) (run {} dozing) stirring ≤ 1001 / 1000 + 1 := by
  have htimeout : 1 ≤ (run {} dozing).hub.dequeueTimeout := by decide +kernel
  have hsettled : (run {} dozing).Settled := by decide +kernel
  have hcalm : ∀ action ∈ stirring, action.isCalm = true := by decide +kernel
  have hsome : (run {} dozing).workers[0]?.isSome = true := by decide +kernel
  obtain ⟨w, hw⟩ := Option.isSome_iff_exists.mp hsome
  have hwakes : occurrences (wakes 0) (run {} dozing) stirring = 2 := by decide +kernel
  have hstreams : (run {} dozing).workers.map
      (fun w ↦ (w.connection.stream.barrier, w.connection.stream.flushHalt)) = [(none, none)] := by
    decide +kernel
  have hresponsive : (run {} dozing).Responsive := by
    intro k w hw
    have hmem := hstreams ▸ List.mem_map_of_mem (List.mem_of_getElem? hw)
    simp only [List.mem_singleton, Prod.mk.injEq] at hmem
    exact ⟨fun after ↦ by simp [hmem.1], by simp [hmem.2]⟩
  obtain ⟨-, -, -, hsettles, -, -, hlater⟩ := workers_never_spin initial_empty dozing (by decide)
  have hbound := (hlater stirring 0 w hw).2 hsettled hcalm
  have helapsed : ((run {} dozing).run stirring).hub.now - (run {} dozing).hub.now = 1001 := by
    decide +kernel
  have hlength : (run {} dozing).hub.dequeueTimeout = 1000 := by decide +kernel
  rw [helapsed, hlength] at hbound
  exact ⟨htimeout, hsettles hresponsive, hsettled, hcalm, hwakes, hbound⟩

end System

end Server

end ChatRelay
