import ChatRelay.Server.Effort

/-!
# Running a system in virtual time

Whatever the workers can do without time passing, they do before the clock moves, and the clock then
goes to the next deadline. A system does both by itself, in the sense of `Unfolds`: `unfolds_settle`
and `unfolds_advance` say so.
-/

namespace ChatRelay.Server

/-- The action comes from within: a worker's step, or the passing of time. -/
def Action.isInner : Action → Bool
  | .work _ | .pass _ => true
  | _ => false

namespace System

/-- Make at most so many steps, until no worker can make one. -/
def settleWithin : Nat → System → System
  | 0, s => s
  | steps + 1, s =>
      match s.next? with
      | none => s
      | some next => settleWithin steps next

/-- Let the workers go on until each of them waits or has ended. -/
def settle (s : System) : System :=
  settleWithin s.effort s

/-- The next deadline of a waiting dequeue, if it comes by then. -/
def nextDeadline? (s : System) (target : Nat) : Option Nat :=
  (s.hub.directory.subscribers.values.flatMap fun subscriber ↦
    (subscriber.mailbox.due target).map (·.deadline)).min?

/-- Let the clock go to this time and the workers go on there. -/
def goTo (s : System) (time : Nat) : System :=
  (s.act (.pass (time - s.hub.now))).settle

/-- Go on to the target, stopping at no more than so many deadlines on the way. -/
def advanceWithin : Nat → Nat → System → System
  | 0, target, s => s.goTo target
  | stops + 1, target, s =>
      match s.nextDeadline? target with
      | none => s.goTo target
      | some time => advanceWithin stops target (s.goTo time)

/-- Let time pass, stopping at each deadline on the way. Deadlines lie at different times, so there
are no more of them than milliseconds. -/
def advance (s : System) (ms : Nat) : System :=
  advanceWithin (ms + 1) (s.hub.now + ms) s

/-- The system comes to the other by itself: its workers make steps, and time passes. -/
def Unfolds (s t : System) : Prop :=
  ∃ actions, (∀ action ∈ actions, action.isInner = true) ∧ s.run actions = t

theorem Unfolds.refl (s : System) : s.Unfolds s :=
  ⟨[], nofun, rfl⟩

theorem Unfolds.trans {s t u : System} (hst : s.Unfolds t) (htu : t.Unfolds u) : s.Unfolds u := by
  obtain ⟨first, hfirst, rfl⟩ := hst
  obtain ⟨second, hsecond, rfl⟩ := htu
  refine ⟨first ++ second, fun action haction ↦ ?_, run_append s first second⟩
  rcases List.mem_append.mp haction with hold | hnew
  · exact hfirst action hold
  · exact hsecond action hnew

theorem unfolds_act (s : System) {action : Action} (h : action.isInner = true) :
    s.Unfolds (s.act action) := by
  refine ⟨[action], fun other hother ↦ ?_, rfl⟩
  obtain rfl := List.mem_singleton.mp hother
  exact h

theorem unfolds_of_next {s t : System} (h : s.next? = some t) : s.Unfolds t := by
  obtain ⟨worker, -, hwork⟩ := List.exists_of_findSome?_eq_some h
  have hact : s.act (.work worker) = t := by
    simp [act, hwork]
  exact hact ▸ unfolds_act s rfl

theorem unfolds_settleWithin (steps : Nat) (s : System) : s.Unfolds (settleWithin steps s) := by
  induction steps generalizing s with
  | zero => exact .refl s
  | succ steps ih =>
      rw [settleWithin]
      split
      · exact .refl s
      · rename_i next hnext
        exact (unfolds_of_next hnext).trans (ih next)

/-- A system settles by itself. -/
theorem unfolds_settle (s : System) : s.Unfolds s.settle :=
  unfolds_settleWithin s.effort s

theorem unfolds_goTo (s : System) (time : Nat) : s.Unfolds (s.goTo time) :=
  (unfolds_act s rfl).trans (unfolds_settle _)

theorem unfolds_advanceWithin (stops target : Nat) (s : System) :
    s.Unfolds (advanceWithin stops target s) := by
  induction stops generalizing s with
  | zero => exact unfolds_goTo s target
  | succ stops ih =>
      rw [advanceWithin]
      split
      · exact unfolds_goTo s target
      · exact (unfolds_goTo s _).trans (ih _)

/-- A system by itself goes on as time passes. -/
theorem unfolds_advance (s : System) (ms : Nat) : s.Unfolds (s.advance ms) :=
  unfolds_advanceWithin _ _ s

end System

end ChatRelay.Server
