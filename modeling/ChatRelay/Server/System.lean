import ChatRelay.Server.Worker

/-!
# Systems of workers

A system is a hub and the workers that share it. `Action` lists everything that can happen to one: a
worker's step, and what the world outside does. A run is any list of actions, so whatever is said of all
runs holds whichever way the workers are scheduled.
-/

namespace ChatRelay.Server

open Transport

/-- Workers and what they share. A worker is known by its place in the order of connecting. One that
connects gets the session id one more than its place; those that are there from the start may have any
ids. -/
structure System where
  hub : Hub := {}
  workers : List Worker := []

/-- What can happen to a system. -/
inductive Action where
  /-- A new connection, whose stream accepts writes at this pace, gets a worker. -/
  | connect (pace : Nat → Option Nat) (counted : Bool)
  /-- A worker makes a step, if it can. -/
  | work (worker : Nat)
  /-- Something happens to the stream of a worker. -/
  | cue (worker : Nat) (cue : Cue)
  /-- A text is broadcast into a room directly, if there is such a room. -/
  | broadcast (room sender text : String)
  /-- The shutdown flag is set. It wakes nobody. -/
  | setClosing (value : Bool)
  /-- Time passes. -/
  | pass (ms : Nat)

namespace System

/-- A worker's step; none if it cannot make one. -/
def work? (s : System) (worker : Nat) : Option System := do
  let w ← s.workers[worker]?
  let (hub, w) ← w.step s.hub
  pure { hub, workers := s.workers.set worker w }

/-- A text is broadcast into a room directly; the answer is how many members the room has. -/
def broadcast (s : System) (room sender text : String) : System × Option Nat :=
  match s.hub.directory.find? room with
  | none => (s, none)
  | some number =>
      let (directory, count) := s.hub.directory.broadcast number sender text
      ({ s with hub := { s.hub with directory } }, some count)

/-- A new connection gets a worker. -/
def connect (s : System) (pace : Nat → Option Nat) (counted : Bool) : System :=
  let place := s.workers.length
  let session : Session := { id := place + 1 }
  let hub := if counted then s.hub.count .opened else s.hub
  { hub, workers := s.workers ++ [{ place, session, connection := { stream := { pace } }, counted }] }

/-- Change the stream of a worker from outside. -/
def updateStream (s : System) (worker : Nat) (change : Stream → Stream) : System :=
  { s with
    workers := s.workers.modify worker fun w ↦
      { w with connection := { w.connection with stream := change w.connection.stream } } }

/-- The action happens if it can; otherwise nothing does. -/
def act (s : System) : Action → System
  | .connect pace counted => s.connect pace counted
  | .work worker => (s.work? worker).getD s
  | .cue worker cue => s.updateStream worker (·.cue cue)
  | .broadcast room sender text => (s.broadcast room sender text).1
  | .setClosing value => { s with hub := { s.hub with closing := value } }
  | .pass ms => { s with hub := { s.hub with now := s.hub.now + ms } }

/-- One action after the other. -/
def run (s : System) (actions : List Action) : System :=
  actions.foldl act s

/-- No worker can make a step. -/
def Idle (s : System) : Prop :=
  ∀ worker, s.work? worker = none

/-- No worker is held up by a peer that takes no bytes. -/
def Flowing (s : System) : Prop :=
  ∀ (k : Nat) (w : Worker), s.workers[k]? = some w → w.isStalled = false

/-- Each worker waits for its peer to send something or for a delivery, or has ended. -/
structure Settled (s : System) : Prop where
  idle : s.Idle
  flowing : s.Flowing

/-- The first worker that can make a step makes it. -/
def next? (s : System) : Option System :=
  (List.range s.workers.length).findSome? s.work?

@[simp] theorem run_nil (s : System) : s.run [] = s :=
  rfl

@[simp] theorem run_cons (s : System) (action : Action) (rest : List Action) :
    s.run (action :: rest) = (s.act action).run rest :=
  rfl

/-- Running one list of actions after another is running both together. -/
theorem run_append (s : System) (first second : List Action) :
    s.run (first ++ second) = (s.run first).run second :=
  List.foldl_append

/-- A system is idle exactly when there is no next step. -/
theorem next?_eq_none_iff {s : System} : s.next? = none ↔ s.Idle := by
  simp only [next?, List.findSome?_eq_none_iff, List.mem_range, Idle]
  constructor
  · intro h worker
    by_cases hlt : worker < s.workers.length
    · exact h worker hlt
    · simp [work?, List.getElem?_eq_none (Nat.le_of_not_lt hlt)]
  · intro h worker _
    exact h worker

theorem flowing_iff {s : System} : s.Flowing ↔ s.workers.all (!·.isStalled) = true := by
  simp only [Flowing, List.all_eq_true, Bool.not_eq_true']
  constructor
  · intro h w hw
    obtain ⟨k, hk⟩ := List.mem_iff_getElem?.mp hw
    exact h k w hk
  · exact fun h k w hw ↦ h w (List.mem_of_getElem? hw)

instance (s : System) : Decidable s.Idle :=
  decidable_of_iff (s.next?.isNone = true) (Option.isNone_iff_eq_none.trans next?_eq_none_iff)

instance (s : System) : Decidable s.Flowing :=
  decidable_of_iff _ flowing_iff.symm

instance (s : System) : Decidable s.Settled :=
  decidable_of_iff (s.Idle ∧ s.Flowing)
    ⟨fun h ↦ ⟨h.1, h.2⟩, fun h ↦ ⟨h.idle, h.flowing⟩⟩

end System

end ChatRelay.Server
