import ChatRelay.Proofs.Runs

/-!
# What a worker no longer reads

A worker past its last receive leaves the reading side of its stream alone. `exists_deafen_run` says
what this means for the whole system: without what arrives on that stream every run goes the same
way.
-/

namespace ChatRelay

open Transport

namespace Connection

/-- The connection with other arrivals on its stream. -/
def deafen (c : Connection) (arrivals : List Arrival) : Connection :=
  { c with stream := { c.stream with arrivals } }

/-- A write is the same whatever has arrived. -/
theorem write_arrivals (s : Stream) (arrivals : List Arrival) (bytes : List UInt8) :
    Stream.write { s with arrivals } bytes =
      ({ (s.write bytes).1 with arrivals }, (s.write bytes).2) := by
  obtain ⟨_, pace, writes, barrier, flushHalt, shutdownFault, written, shutdowns⟩ := s
  cases barrier with
  | none => rfl
  | some barrier =>
      obtain ⟨after, halt⟩ := barrier
      cases after with
      | zero =>
          cases halt with
          | none => rfl
          | some halt => cases halt <;> rfl
      | succ after => rfl

/-- A step of a send is the same whatever has arrived. -/
theorem sendStep_deafen (c : Connection) (arrivals : List Arrival) (rest : List UInt8) :
    (c.deafen arrivals).sendStep rest =
      ((c.sendStep rest).1.deafen arrivals, (c.sendStep rest).2) := by
  have hflush : (c.deafen arrivals).stream.flush = c.stream.flush := rfl
  have hwrite : (c.deafen arrivals).stream.write rest =
      ({ (c.stream.write rest).1 with arrivals }, (c.stream.write rest).2) :=
    write_arrivals c.stream arrivals rest
  have hopen : (c.deafen arrivals).isOpen = c.isOpen := rfl
  unfold sendStep
  dsimp only
  rw [hflush, hwrite, hopen]
  split
  · rfl
  · split
    · split <;> rfl
    · obtain ⟨after, writing⟩ := c.stream.write rest
      cases writing with
      | pending | fault => rfl
      | accepted count => cases count <;> rfl

/-- Closing is the same whatever has arrived. -/
theorem close_deafen (c : Connection) (arrivals : List Arrival) :
    (c.deafen arrivals).close = c.close.deafen arrivals := by
  obtain ⟨stream, isOpen, buffer, last⟩ := c
  cases isOpen <;> rfl

end Connection

namespace Server

/-- What arrives on the stream of this worker. -/
def Action.isArrival (k : Nat) : Action → Bool
  | .cue j (.arrive _) => j == k
  | _ => false

namespace Worker

/-- The worker with other arrivals on its stream. -/
def deafen (w : Worker) (arrivals : List Arrival) : Worker :=
  { w with connection := w.connection.deafen arrivals }

/-- The worker is past its last receive. -/
def IsDeaf (w : Worker) : Prop :=
  match w.control with
  | .send _ (.part _) | .send _ .quit | .send _ (.joined _) | .send _ (.delivered _) => True
  | .testFlag _ | .dequeue _ | .collect _ | .removeMember _ _ | .close _ | .ended _ => True
  | _ => False

/-- Once past its last receive a worker stays so. -/
theorem Step.isDeaf {hub hub' : Hub} {w w' : Worker} (h : Step hub w hub' w') (hw : w.IsDeaf) :
    w'.IsDeaf := by
  cases h with
  | output rest after connection left hcontrol | sent rest after connection hcontrol
  | unsent rest after connection failure hcontrol =>
      simp only [IsDeaf, hcontrol] at hw
      cases after <;> trivial
  | parting | staying | dequeue | collected | missed | lapsed | removeMember | close => trivial
  -- the other steps start from a receive, or lead up to one
  | _ => simp [IsDeaf, *] at hw

/-- A step past the last receive is the same whatever has arrived. -/
theorem step_deafen {hub : Hub} {w : Worker} (hw : w.IsDeaf) (arrivals : List Arrival) :
    (w.deafen arrivals).step hub =
      (w.step hub).map fun next ↦ (next.1, next.2.deafen arrivals) := by
  obtain ⟨place, session, connection, counted, control⟩ := w
  cases control with
  | send rest after =>
      have hstep := Connection.sendStep_deafen connection arrivals rest
      simp only [step, deafen, hstep]
      obtain ⟨next, sending⟩ := connection.sendStep rest
      cases sending with
      | more | waiting => rfl
      | done result =>
          cases result with
          | error failure => cases after <;> rfl
          | ok =>
              cases after with
              | loggedIn role => cases role <;> rfl
              | _ => rfl
  | testFlag room =>
      simp only [step, deafen]
      split <;> rfl
  | collect room =>
      cases hholds : (hub.directory.mailbox place).holds ticket with
      | true =>
          simp only [step, deafen, collect, hholds, if_true]
          cases ((hub.directory.mailbox place).take ticket).2 <;> rfl
      | false =>
          cases hdue : (hub.directory.mailbox place).isDue ticket hub.now with
          | true =>
              simp only [step, deafen, collect, hholds, hdue, Bool.false_eq_true, if_false, if_true]
              rfl
          | false =>
              simp only [step, deafen, collect, hholds, hdue, Bool.false_eq_true, if_false]
              rfl
  | close result =>
      have hclose := Connection.close_deafen connection arrivals
      simp only [step, deafen, hclose]
      rfl
  | dequeue | removeMember | ended => rfl
  | _ => exact hw.elim

end Worker

namespace System

variable {s : System} {k : Nat}

/-- The system with other arrivals on the stream of this worker. -/
def deafen (s : System) (k : Nat) (arrivals : List Arrival) : System :=
  s.updateStream k ({ · with arrivals })

theorem workers_deafen (s : System) (k : Nat) (arrivals : List Arrival) (j : Nat) :
    (s.deafen k arrivals).workers[j]? =
      if j = k then (s.workers[j]?).map (·.deafen arrivals) else s.workers[j]? := by
  simp only [deafen, updateStream, List.getElem?_modify]
  by_cases h : j = k
  · subst h
    simp [Worker.deafen, Connection.deafen]
  · simp [h, Ne.symm h]

/-- Two systems are one if they agree in each place. -/
theorem ext_workers {s t : System} (hhub : s.hub = t.hub)
    (hworkers : ∀ j : Nat, s.workers[j]? = t.workers[j]?) : s = t := by
  obtain ⟨hub, workers⟩ := s
  obtain rfl : hub = t.hub := hhub
  obtain rfl : workers = t.workers := List.ext_getElem? hworkers
  rfl

/-- Whatever happens to the stream happens to it with other arrivals as well. -/
theorem cue_arrivals (stream : Stream) (arrivals : List Arrival) (cue : Cue) :
    Stream.cue { stream with arrivals } cue =
      { stream.cue cue with arrivals := (Stream.cue { stream with arrivals } cue).arrivals } := by
  cases cue <;> rfl

/-- What arrives makes no difference once other arrivals take its place. -/
theorem deafen_arrival (s : System) {action : Action} (h : action.isArrival k = true)
    (arrivals : List Arrival) : (s.act action).deafen k arrivals = s.deafen k arrivals := by
  cases action with
  | cue j cue =>
      cases cue with
      | arrive arrival =>
          obtain rfl : j = k := by simpa [Action.isArrival] using h
          refine ext_workers rfl fun i ↦ ?_
          rw [workers_deafen, workers_deafen, workers_cue]
          by_cases hi : i = j
          · rw [if_pos hi, if_pos hi, if_pos hi, Option.map_map]
            rfl
          · rw [if_neg hi, if_neg hi, if_neg hi]
      | _ => simp [Action.isArrival] at h
  | _ => simp [Action.isArrival] at h

/-- A worker past its last receive makes its steps, and the others theirs, as if other bytes had
arrived for it. -/
theorem work_deafen {w : Worker} (hw : s.workers[k]? = some w) (hdeaf : w.IsDeaf)
    (arrivals : List Arrival) (j : Nat) :
    (s.deafen k arrivals).act (.work j) = (s.act (.work j)).deafen k arrivals := by
  have hworkers := s.workers_deafen k arrivals
  cases hv : s.workers[j]? with
  | none =>
      have hsame : (s.deafen k arrivals).workers[j]? = none := by
        rw [hworkers, hv]
        split <;> rfl
      simp [act, work?, hv, hsame]
  | some v =>
      -- the worker that makes the step, with the arrivals it then has
      obtain ⟨v', hv', hstep⟩ : ∃ v', (s.deafen k arrivals).workers[j]? = some v' ∧
          v'.step s.hub = (v.step s.hub).map fun next ↦
            (next.1, if j = k then next.2.deafen arrivals else next.2) := by
        by_cases hjk : j = k
        · subst hjk
          obtain rfl := Option.some.inj (hw.symm.trans hv)
          refine ⟨w.deafen arrivals, by simp [hworkers, hv], ?_⟩
          simp [Worker.step_deafen hdeaf]
        · exact ⟨v, by simp [hworkers, hv, hjk], by simp [hjk]⟩
      cases hnext : v.step s.hub with
      | none =>
          rw [hnext, Option.map_none] at hstep
          rw [act_of_stuck hv hnext, act_of_stuck hv' hstep]
      | some next =>
          have hlt : j < s.workers.length := (List.getElem?_eq_some_iff.mp hv).1
          have hlt' : j < (s.deafen k arrivals).workers.length :=
            (List.getElem?_eq_some_iff.mp hv').1
          rw [hnext, Option.map_some] at hstep
          rw [act_of_step hv hnext, act_of_step hv' hstep]
          refine ext_workers rfl fun i ↦ ?_
          rw [workers_deafen]
          by_cases hij : i = j
          · subst hij
            rw [List.getElem?_set_self hlt, List.getElem?_set_self hlt']
            split <;> rfl
          · rw [List.getElem?_set_ne (Ne.symm hij), List.getElem?_set_ne (Ne.symm hij), hworkers]

/-- Everything goes on as if other bytes had arrived for a worker past its last receive. -/
theorem act_deafen {w : Worker} (hw : s.workers[k]? = some w) (hdeaf : w.IsDeaf)
    (arrivals : List Arrival) (action : Action) :
    ∃ arrivals', (s.deafen k arrivals).act action = (s.act action).deafen k arrivals' := by
  have hworkers := s.workers_deafen k arrivals
  have hhub : (s.deafen k arrivals).hub = s.hub := rfl
  cases action with
  | connect pace counted =>
      have hlt : k < s.workers.length := (List.getElem?_eq_some_iff.mp hw).1
      have hlength : (s.deafen k arrivals).workers.length = s.workers.length := by
        simp [deafen, updateStream]
      refine ⟨arrivals, ext_workers rfl fun i ↦ ?_⟩
      rw [workers_deafen]
      simp only [act, connect, hlength]
      by_cases hi : i < s.workers.length
      · rw [List.getElem?_append_left hi, List.getElem?_append_left (by rwa [hlength]), hworkers]
      · rw [if_neg (by omega), List.getElem?_append_right (by omega),
          List.getElem?_append_right (by omega), hlength]
  | work j => exact ⟨arrivals, work_deafen hw hdeaf arrivals j⟩
  | cue j cue =>
      by_cases hjk : j = k
      · subst hjk
        refine ⟨(Stream.cue { w.connection.stream with arrivals } cue).arrivals,
          ext_workers rfl fun i ↦ ?_⟩
        rw [workers_deafen, workers_cue, workers_cue, hworkers]
        by_cases hi : i = j
        · subst hi
          rw [if_pos rfl, if_pos rfl, if_pos rfl, if_pos rfl, hw]
          refine congrArg some ?_
          simp only [Worker.cue, Worker.deafen, Connection.deafen]
          rw [cue_arrivals]
        · rw [if_neg hi, if_neg hi, if_neg hi, if_neg hi]
      · refine ⟨arrivals, ext_workers rfl fun i ↦ ?_⟩
        rw [workers_deafen, workers_cue, workers_cue, hworkers]
        by_cases hi : i = k
        · rw [if_pos hi, if_pos hi, if_neg (hi ▸ Ne.symm hjk), if_neg (hi ▸ Ne.symm hjk)]
        · rw [if_neg hi, if_neg hi]
  | broadcast room sender text =>
      refine ⟨arrivals, ?_⟩
      simp only [act, broadcast, hhub]
      cases s.hub.directory.find? room <;> rfl
  | setClosing | pass => exact ⟨arrivals, rfl⟩

/-- Without what arrives for a worker past its last receive, every run goes the same way. -/
theorem run_deafen {w : Worker} (hw : s.workers[k]? = some w) (hdeaf : w.IsDeaf)
    (actions : List Action) (arrivals : List Arrival) :
    ∃ arrivals', (s.deafen k arrivals).run (actions.filter (!·.isArrival k)) =
      (s.run actions).deafen k arrivals' := by
  induction actions generalizing s w arrivals with
  | nil => exact ⟨arrivals, rfl⟩
  | cons action rest ih =>
      obtain ⟨w', hw', hdeaf'⟩ : ∃ w', (s.act action).workers[k]? = some w' ∧ w'.IsDeaf := by
        cases fate hw action with
        | kept _ _ hsame => exact ⟨w, hsame, hdeaf⟩
        | cued cue _ hcue => exact ⟨w.cue cue, hcue, hdeaf⟩
        | stuck _ _ hsame => exact ⟨w, by rw [hsame]; exact hw, hdeaf⟩
        | stepped hub w' _ hstep hafter =>
            exact ⟨w', by rw [hafter]; exact getElem?_set_self hw w',
              (Worker.step_sound hstep).isDeaf hdeaf⟩
      cases harrival : action.isArrival k with
      | true =>
          rw [List.filter_cons_of_neg (by simp [harrival]), run_cons,
            ← deafen_arrival s harrival arrivals]
          exact ih hw' hdeaf' arrivals
      | false =>
          obtain ⟨arrivals', hact⟩ := act_deafen hw hdeaf arrivals action
          rw [List.filter_cons_of_pos (by simp [harrival]), run_cons, run_cons, hact]
          exact ih hw' hdeaf' arrivals'

/-- The arrivals there are make no difference. -/
theorem deafen_self {w : Worker} (hw : s.workers[k]? = some w) :
    s.deafen k w.connection.stream.arrivals = s := by
  refine ext_workers rfl fun j ↦ ?_
  rw [workers_deafen]
  by_cases hj : j = k
  · subst hj
    rw [if_pos rfl, hw]
    rfl
  · rw [if_neg hj]

/-- What arrives for a worker past its last receive changes nothing but what is left unread there.
-/
theorem exists_deafen_run {w : Worker} (hw : s.workers[k]? = some w) (hdeaf : w.IsDeaf)
    (actions : List Action) :
    ∃ arrivals, s.run (actions.filter (!·.isArrival k)) = (s.run actions).deafen k arrivals := by
  obtain ⟨arrivals, hrun⟩ := run_deafen hw hdeaf actions w.connection.stream.arrivals
  rw [deafen_self hw] at hrun
  exact ⟨arrivals, hrun⟩

end System

end Server

end ChatRelay
