import ChatRelay.Proofs.Broadcasts

/-!
# How long a subscriber waits

A subscriber's worker that waits for a delivery holds a permit for one, or stands in the queue of its
mailbox with a deadline. `Worker.DueBy` says by when the dequeue that it is in will have ended, and
`Dated.run` that this is never further ahead than the time that a dequeue may take.
-/

namespace ChatRelay

open Transport Wire

namespace Mailbox

/-- The dequeue holds a permit, or it waits for one until this time at the latest. -/
def EndsBy (b : Mailbox) (ticket limit : Nat) : Prop :=
  b.holds ticket = true ∨ ∃ entry ∈ b.waiting, entry.ticket = ticket ∧ entry.deadline ≤ limit

variable {b : Mailbox} {ticket limit : Nat}

theorem EndsBy.mono {limit' : Nat} (hle : limit ≤ limit') (h : b.EndsBy ticket limit) :
    b.EndsBy ticket limit' := by
  rcases h with hholds | ⟨entry, hentry, hticket, hdeadline⟩
  · exact .inl hholds
  · exact .inr ⟨entry, hentry, hticket, Nat.le_trans hdeadline hle⟩

/-- A dequeue that is begun gets a permit or a place in the queue. -/
theorem endsBy_ask (b : Mailbox) (ticket deadline : Nat) :
    (b.ask ticket deadline).EndsBy ticket deadline := by
  unfold ask
  split
  · exact .inr ⟨⟨ticket, deadline⟩, by simp, rfl, Nat.le_refl _⟩
  · exact .inl (by simp [holds])

/-- A message that comes in takes nobody's permit, and nobody's place without giving a permit. -/
theorem EndsBy.enqueue (h : b.EndsBy ticket limit) (m : Message) :
    (b.enqueue m).EndsBy ticket limit := by
  unfold Mailbox.enqueue release
  rcases h with hholds | ⟨entry, hentry, hticket, hdeadline⟩
  · split
    · exact .inl hholds
    · refine .inl ?_
      simp only [holds, push, List.contains_eq_mem, decide_eq_true_eq] at hholds ⊢
      exact List.mem_append_left _ hholds
  · split
    · rename_i hnone
      simp only [push] at hnone
      rw [hnone] at hentry
      cases hentry
    · rename_i first rest hwaiting
      simp only [push] at hwaiting
      rw [hwaiting] at hentry
      rcases List.mem_cons.mp hentry with rfl | hrest
      · exact .inl (by simp [holds, hticket])
      · exact .inr ⟨entry, hrest, hticket, hdeadline⟩

/-- Once the time has come, the dequeue takes a message or gives up. -/
theorem EndsBy.ends (h : b.EndsBy ticket limit) {now : Nat} (hnow : limit ≤ now) :
    b.holds ticket = true ∨ b.isDue ticket now = true := by
  refine h.imp_right fun hwaits ↦ ?_
  obtain ⟨entry, hentry, hticket, hdeadline⟩ := hwaits
  simp only [isDue, due, List.any_eq_true, List.mem_filter, decide_eq_true_eq, beq_iff_eq]
  exact ⟨entry, ⟨hentry, Nat.le_trans hdeadline hnow⟩, hticket⟩

end Mailbox

namespace Server

/-- What the action makes of the flag, if it changes it. -/
def Action.flag? : Action → Option Bool
  | .setClosing value => some value
  | _ => none

/-- The time that passes by the action. -/
def Action.elapsed : Action → Nat
  | .pass ms => ms
  | _ => 0

namespace Worker

variable {hub hub' : Hub} {w w' : Worker} {limit : Nat}

/-- No step of a worker sets the flag, moves the clock, or changes how long a dequeue may take. -/
theorem Step.clock (h : Step hub w hub' w') :
    hub'.closing = hub.closing ∧ hub'.now = hub.now ∧
      hub'.dequeueTimeout = hub.dequeueTimeout := by
  cases h with
  | sent rest after =>
      cases after with
      | loggedIn role => cases role <;> exact ⟨rfl, rfl, rfl⟩
      | _ => exact ⟨rfl, rfl, rfl⟩
  | close => split <;> exact ⟨rfl, rfl, rfl⟩
  | _ => exact ⟨rfl, rfl, rfl⟩

/-- The dequeue that the worker is in, or is about to begin, ends by this time. -/
def DueBy (hub : Hub) (w : Worker) (limit : Nat) : Prop :=
  match w.control with
  | .dequeue _ => hub.now + hub.dequeueTimeout ≤ limit
  | .collect _ => (hub.directory.mailbox w.place).EndsBy ticket limit
  | _ => True

theorem DueBy.mono {limit' : Nat} (hle : limit ≤ limit') (h : w.DueBy hub limit) :
    w.DueBy hub limit' := by
  revert h
  unfold DueBy
  cases w.control with
  | dequeue => exact fun h ↦ Nat.le_trans h hle
  | collect => exact fun h ↦ h.mono hle
  | _ => exact id

/-- By its own steps a worker begins another dequeue only if the flag is not set. -/
theorem Step.dueBy (h : Step hub w hub' w') (hw : w.Lawful hub.directory)
    (hagain : hub.closing = false → hub.now + hub.dequeueTimeout ≤ limit)
    (hdue : w.DueBy hub limit) : w'.DueBy hub' limit := by
  cases h with
  | staying room hcontrol hclosing => exact hagain hclosing
  | dequeue room directory hcontrol hd =>
      subst hd
      simp only [DueBy, Lawful, hcontrol] at hdue hw
      show ((hub.directory.updateMailbox w.place
        (·.ask ticket (hub.now + hub.dequeueTimeout))).mailbox w.place).EndsBy ticket limit
      rw [Directory.mailbox_updateMailbox_self hw.1.enrolled]
      exact (Mailbox.endsBy_ask _ _ _).mono hdue
  | input await connection hcontrol => simp [DueBy, hcontrol]
  | output rest after connection left hcontrol => simp [DueBy]
  | sent rest after connection =>
      cases after with
      | loggedIn role => cases role <;> trivial
      | _ => trivial
  | unsent rest after => cases after <;> trivial
  | _ => trivial

/-- A worker whose dequeue should have ended does not wait. -/
theorem DueBy.step_ne_none {room : Nat} (h : w.DueBy hub limit) (hcontrol : w.control = .collect room)
    (hnow : limit ≤ hub.now) : w.step hub ≠ none := by
  simp only [DueBy, hcontrol] at h
  simp only [step, hcontrol, Worker.collect]
  rcases h.ends hnow with hholds | hdue
  · rw [if_pos hholds]
    split <;> simp
  · split
    · split <;> simp
    · simp

end Worker

namespace System

variable {s : System} {k limit : Nat} {w : Worker}

/-- What an action does to the flag, to the clock, and to the time that a dequeue may take. -/
theorem clock_act (s : System) (action : Action) :
    (s.act action).hub.closing = action.flag?.getD s.hub.closing ∧
      (s.act action).hub.now = s.hub.now + action.elapsed ∧
      (s.act action).hub.dequeueTimeout = s.hub.dequeueTimeout := by
  cases action with
  | connect pace counted =>
      simp only [act, connect]
      split <;> exact ⟨rfl, rfl, rfl⟩
  | work k =>
      simp only [act]
      cases hwork : s.work? k with
      | none => exact ⟨rfl, rfl, rfl⟩
      | some t =>
          obtain ⟨w, hub, w', -, hstep, rfl⟩ := work?_eq_some hwork
          exact (Worker.step_sound hstep).clock
  | broadcast name sender text =>
      simp only [act, broadcast]
      split <;> exact ⟨rfl, rfl, rfl⟩
  | setClosing | pass | cue => exact ⟨rfl, rfl, rfl⟩

/-- The flag stays set as long as it is not taken back. -/
theorem closing_run (hclosing : s.hub.closing = true) {actions : List Action}
    (hstays : .setClosing false ∉ actions) : (s.run actions).hub.closing = true := by
  induction actions generalizing s with
  | nil => exact hclosing
  | cons action rest ih =>
      rw [List.mem_cons, not_or] at hstays
      obtain ⟨hhead, htail⟩ := hstays
      refine ih ?_ htail
      rw [(s.clock_act action).1]
      cases action with
      | setClosing value =>
          cases value with
          | true => rfl
          | false => exact absurd rfl hhead
      | _ => exact hclosing

/-- What others do does not put off the end of a dequeue, and if it has not begun yet, only the time
that passes does. -/
theorem dueBy_act (h : s.Seated) {action : Action} (hw : s.workers[k]? = some w)
    (hdue : w.DueBy s.hub limit) (hother : action ≠ .work k)
    (hclock : ∀ room, w.control = .dequeue room →
      s.hub.now + action.elapsed + s.hub.dequeueTimeout ≤ limit) :
    w.DueBy (s.act action).hub limit := by
  obtain ⟨-, hnow, htimeout⟩ := s.clock_act action
  have hlawful := h.lawful k w hw
  cases hcontrol : w.control with
  | dequeue room =>
      simp only [Worker.DueBy, hcontrol, hnow, htimeout]
      exact hclock room hcontrol
  | collect room =>
      simp only [Worker.DueBy, Worker.Lawful, hcontrol] at hdue hlawful ⊢
      rw [mailbox_act h hw hlawful.1.enrolled hother]
      cases s.broadcastOf? action with
      | none => exact hdue
      | some heard =>
          dsimp only
          split
          · exact hdue.enqueue _
          · exact hdue
  | _ => simp only [Worker.DueBy, hcontrol]

/-- Every dequeue ends within the time it may take. -/
structure Dated (s : System) : Prop extends s.Seated where
  due : ∀ (k : Nat) (w : Worker), s.workers[k]? = some w →
    w.DueBy s.hub (s.hub.now + s.hub.dequeueTimeout)

theorem Dated.act (h : s.Dated) (action : Action) : (s.act action).Dated := by
  refine ⟨h.toSeated.act action, fun k w' hw' ↦ ?_⟩
  obtain ⟨-, hnow, htimeout⟩ := s.clock_act action
  have hlater : s.hub.now + s.hub.dequeueTimeout ≤
      (s.act action).hub.now + (s.act action).hub.dequeueTimeout := by
    rw [hnow, htimeout]
    omega
  rcases exists_worker_before hw' with ⟨w, hw⟩ | ⟨hnew, -⟩
  · have hother (hwork : action ≠ .work k) :
        w.DueBy (s.act action).hub ((s.act action).hub.now + (s.act action).hub.dequeueTimeout) := by
      refine dueBy_act h.toSeated hw ((h.due k w hw).mono hlater) hwork fun _ _ ↦ ?_
      exact Nat.le_of_eq (by rw [hnow, htimeout])
    cases fate hw action with
    | kept hwork _ hsame =>
        obtain rfl := Option.some.inj (hw'.symm.trans hsame)
        exact hother hwork
    | cued cue haction hcue =>
        obtain rfl := Option.some.inj (hw'.symm.trans hcue)
        exact hother (by simp [haction])
    | stuck _ _ hsame =>
        rw [hsame] at hw' ⊢
        exact h.due k w' hw'
    | stepped hub v _ hstep hafter =>
        rw [hafter] at hw' hlater ⊢
        obtain rfl := Option.some.inj (hw'.symm.trans (getElem?_set_self hw v))
        exact (Worker.step_sound hstep).dueBy (h.lawful k w hw) (fun _ ↦ hlater)
          ((h.due k w hw).mono hlater)
  · simp only [Worker.DueBy, hnew.control]

theorem Initial.dated (h : s.Initial) (actions : List Action) : (s.run actions).Dated := by
  refine run_induction ⟨h.seated, fun k w hw ↦ ?_⟩ (fun _ action ht ↦ ht.act action) actions
  simp only [Worker.DueBy, (h.fresh k w hw).control]

end System

end Server

end ChatRelay
