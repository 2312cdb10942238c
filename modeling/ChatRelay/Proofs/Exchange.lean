import ChatRelay.Proofs.PublisherRuns
import ChatRelay.Proofs.Reading

/-!
# A client's call against its worker

An exchange is what happens between a client in a call and the worker at the other end of its link.
Both directions of the link are lanes: a lane carries the bytes of a stream in order, in pieces of any
size and at any time, and behind them the end of the stream. `Since.step` says that every event of an
exchange keeps the account of what went each way, and `exists_since` that every exchange has one:
the system made a run that harmed nothing, and each side got a first part of what the other wrote.
-/

namespace ChatRelay.Server

open Connection Transport Wire

/-! ## One direction of a link -/

/-- How far one direction of a link has come: how many bytes of the stream went through, and whether
the end did. -/
structure Lane where
  passed : Nat := 0
  ended : Bool := false

namespace Lane

/-- What a lane carries next: the bytes that come next, at most so many behind the first of them,
or the end of a stream that is shut down once all bytes went. Nothing follows the end. -/
def next? (lane : Lane) (source : Stream) (most : Nat) : Option Arrival :=
  if lane.ended then none
  else
    match source.written.drop lane.passed with
    | byte :: bytes => some (.chunk (byte :: bytes.take most))
    | [] => if source.shutdowns > 0 then some .finish else none

/-- The lane after this went through. -/
def carry (lane : Lane) : Arrival → Lane
  | .chunk bytes => { lane with passed := lane.passed + bytes.length }
  | .finish => { lane with ended := true }
  | .fault _ => lane

/-- These arrivals are what went through a lane of these bytes, from the one state to the other. -/
structure Carried (bytes : List UInt8) (start now : Lane) (arrivals : List Arrival) : Prop where
  start_le : start.passed ≤ bytes.length
  now_le : now.passed ≤ bytes.length
  plain : Plain arrivals
  drop_eq : bytes.drop start.passed = Stream.unread.go arrivals ++ bytes.drop now.passed
  ended_iff : now.ended = true ↔ start.ended = true ∨ Arrival.finish ∈ arrivals
  last : Arrival.finish ∈ arrivals → bytes.drop now.passed = []

variable {bytes : List UInt8} {start now : Lane} {arrivals : List Arrival}

theorem carried_refl (h : start.passed ≤ bytes.length) : Carried bytes start start [] :=
  ⟨h, h, trivial, rfl, by simp, nofun⟩

/-- What a lane carries next goes behind what went before. -/
theorem Carried.next (h : Carried bytes start now arrivals) {source : Stream} {most : Nat}
    {arrival : Arrival} (hsource : source.written = bytes)
    (hnext : now.next? source most = some arrival) :
    Carried bytes start (now.carry arrival) (arrivals ++ [arrival]) := by
  obtain ⟨hstart, hnow, hplain, hdrop, hended, -⟩ := h
  unfold next? at hnext
  split at hnext
  · cases hnext
  · rename_i hopen
    have hbefore : ¬(start.ended = true ∨ Arrival.finish ∈ arrivals) := mt hended.mpr hopen
    rw [not_or] at hbefore
    have hunread := unread_append hbefore.2 [arrival]
    rw [hsource] at hnext
    split at hnext
    · rename_i byte rest hrest
      cases hnext
      have hlength := congrArg List.length hrest
      simp only [List.length_drop, List.length_cons] at hlength
      have hpiece : (byte :: rest.take most).length = min most rest.length + 1 := by
        rw [List.length_cons, List.length_take]
      have hsplit : byte :: rest =
          (byte :: rest.take most) ++ bytes.drop (now.passed + (byte :: rest.take most).length) := by
        rw [← List.drop_drop, hrest, hpiece, List.drop_succ_cons, List.cons_append]
        congr 1
        rcases Nat.le_total most rest.length with hle | hle
        · rw [Nat.min_eq_left hle, List.take_append_drop]
        · rw [Nat.min_eq_right hle, List.drop_length, List.append_nil, List.take_of_length_le hle]
      refine ⟨hstart, ?_, ?_, ?_, ?_, ?_⟩
      · show now.passed + (byte :: rest.take most).length ≤ bytes.length
        omega
      · exact plain_append_iff.mpr ⟨hplain, .inr ⟨by simp, trivial⟩⟩
      · have hcarried : Stream.unread.go [.chunk (byte :: rest.take most)] = byte :: rest.take most := by
          simp [Stream.unread.go]
        rw [hdrop, hunread, hrest, hsplit, hcarried, List.append_assoc]
        rfl
      · simp [carry, hended]
      · simp [hbefore.2]
    · rename_i hnone
      split at hnext
      · cases hnext
        refine ⟨hstart, hnow, plain_append_iff.mpr ⟨hplain, .inr trivial⟩, ?_, ?_, fun _ ↦ hnone⟩
        · rw [hdrop, hunread]
          simp [carry, Stream.unread.go]
        · simp [carry]
      · cases hnext

/-- The end goes through once the stream is shut down. -/
theorem shutdowns_of_next? {lane : Lane} {source : Stream} {most : Nat}
    (h : lane.next? source most = some .finish) : 0 < source.shutdowns := by
  unfold next? at h
  split at h
  · cases h
  · split at h
    · cases h
    · split at h
      · assumption
      · cases h

/-- Bytes that are written later are still to be carried. Nothing is written behind the end. -/
theorem Carried.grow (h : Carried bytes start now arrivals) {more : List UInt8}
    (hmore : Arrival.finish ∈ arrivals → more = []) :
    Carried (bytes ++ more) start now arrivals := by
  refine ⟨?_, ?_, h.plain, ?_, h.ended_iff, fun hend ↦ ?_⟩
  · exact Nat.le_trans h.start_le (by simp)
  · exact Nat.le_trans h.now_le (by simp)
  · rw [List.drop_append_of_le_length h.start_le, List.drop_append_of_le_length h.now_le, h.drop_eq,
      List.append_assoc]
  · rw [hmore hend, List.append_nil]
    exact h.last hend

end Lane

/-! ## Events -/

/-- What can happen while a client waits in a call. -/
inductive Event where
  /-- Something of what the client wrote reaches its worker. -/
  | forth (most : Nat)
  /-- Something of what the worker wrote reaches the client. -/
  | back (most : Nat)
  /-- Something else happens to the system. -/
  | other (action : Action)

/-- The action is done to the stream of the worker in this place. -/
def Action.touches (k : Nat) : Action → Bool
  | .cue j _ => j == k
  | _ => false

/-- A client in a call, seen from its link: the worker's place, the system, the two lanes, and what
reached the client since the call began. -/
structure Exchange where
  worker : Nat
  system : System
  forth : Lane := {}
  back : Lane := {}
  arrived : List Arrival := []

namespace Exchange

/-- What an event does, where `out` is the client's stream after the call was made with what has
arrived. The link does all that is done to the worker's stream. -/
def step (out : List Arrival → Stream) (x : Exchange) : Event → Exchange
  | .forth most =>
      match x.forth.next? (out x.arrived) most with
      | none => x
      | some arrival =>
          { x with
            forth := x.forth.carry arrival
            system := x.system.act (.cue x.worker (.arrive arrival)) }
  | .back most =>
      match x.system.workers[x.worker]?.bind (x.back.next? ·.connection.stream most) with
      | none => x
      | some arrival => { x with back := x.back.carry arrival, arrived := x.arrived ++ [arrival] }
  | .other action =>
      if action.touches x.worker then x else { x with system := x.system.act action }

/-- One event after the other. -/
def run (out : List Arrival → Stream) (x : Exchange) (events : List Event) : Exchange :=
  events.foldl (step out) x

theorem run_append (out : List Arrival → Stream) (x : Exchange) (first second : List Event) :
    x.run out (first ++ second) = (x.run out first).run out second :=
  List.foldl_append

/-- A link stays with its worker. -/
theorem worker_run (out : List Arrival → Stream) (x : Exchange) (events : List Event) :
    (x.run out events).worker = x.worker := by
  induction events generalizing x with
  | nil => rfl
  | cons event rest ih =>
      refine (ih (x.step out event)).trans ?_
      cases event <;> simp only [step] <;> split <;> rfl

end Exchange

theorem Action.harms_eq_false {k : Nat} {action : Action} (h : action.touches k = false) :
    action.harms k = false := by
  cases action with
  | cue j cue =>
      have hjk : (j == k) = false := h
      cases cue <;> simp [Action.harms, hjk]
  | _ => rfl

theorem Action.arrivals_eq_nil {k : Nat} {action : Action} (h : action.touches k = false) :
    action.arrivals k = [] :=
  System.arrivals_of_ne fun cue heq ↦ by simp [heq, Action.touches] at h

namespace System

/-- What an action leaves of a worker: it keeps its connection until it ends, what it wrote stays
written, and nothing is written on a stream that is shut down. -/
theorem tended_act {s : System} {k : Nat} {w : Worker} (hw : s.workers[k]? = some w)
    (htended : w.Tended {}) (action : Action) :
    ∃ v, (s.act action).workers[k]? = some v ∧ v.Tended {} ∧
      ∃ more, v.written = w.written ++ more ∧
        (0 < w.connection.stream.shutdowns → more = [] ∧ 0 < v.connection.stream.shutdowns) := by
  cases fate hw action with
  | kept _ _ hsame => exact ⟨w, hsame, htended, [], by simp, fun h ↦ ⟨rfl, h⟩⟩
  | cued cue _ hcue =>
      have hwritten : (w.cue cue).written = w.written := by
        cases cue <;> rfl
      have hshut : (w.cue cue).connection.stream.shutdowns = w.connection.stream.shutdowns := by
        cases cue <;> rfl
      exact ⟨w.cue cue, hcue, htended.cue cue, [], by simp [hwritten], fun h ↦ ⟨rfl, hshut ▸ h⟩⟩
  | stuck _ _ hsame => exact ⟨w, by rw [hsame]; exact hw, htended, [], by simp, fun h ↦ ⟨rfl, h⟩⟩
  | stepped hub v _ hstep hafter =>
      have hsound := Worker.step_sound hstep
      rw [hafter]
      refine ⟨v, getElem?_set_self hw v, hsound.tended htended, _, hsound.written (d := {}),
        fun hshut ↦ ?_⟩
      -- a worker that goes on has not shut its stream down
      simp only [Worker.Tended, hsound.result?_eq_none] at htended
      omega

end System

/-! ## The account of an exchange -/

namespace Exchange

/-- What happened between the two: the system made these actions, which brought the worker a first
part of what the client wrote, and the client got a first part of what the worker wrote. An end comes
only from the side that shut its stream down. -/
structure Since (out : List Arrival → Stream) (bytes : List UInt8) (x y : Exchange) (w : Worker)
    (actions : List Action) (brought : List Arrival) : Prop where
  worker : y.worker = x.worker
  system : y.system = x.system.run actions
  harmless : ∀ action ∈ actions, action.harms x.worker = false
  here : y.system.workers[x.worker]? = some w
  tended : w.Tended {}
  forth : Lane.Carried bytes x.forth y.forth (actions.flatMap (·.arrivals x.worker))
  shut : Arrival.finish ∈ actions.flatMap (·.arrivals x.worker) →
    ∃ arrived, 0 < (out arrived).shutdowns
  arrived : y.arrived = x.arrived ++ brought
  back : Lane.Carried w.written x.back y.back brought
  finished : Arrival.finish ∈ brought → 0 < w.connection.stream.shutdowns

variable {out : List Arrival → Stream} {bytes : List UInt8} {x y : Exchange} {w : Worker}
  {actions : List Action} {brought : List Arrival}

theorem since_refl (hw : x.system.workers[x.worker]? = some w) (htended : w.Tended {})
    (hforth : x.forth.passed ≤ bytes.length) (hback : x.back.passed ≤ w.written.length) :
    Since out bytes x x w [] [] where
  worker := rfl
  system := rfl
  harmless := nofun
  here := hw
  tended := htended
  forth := Lane.carried_refl hforth
  shut := nofun
  arrived := (List.append_nil _).symm
  back := Lane.carried_refl hback
  finished := nofun

/-- An action of the system that brings the worker the next of what the client wrote, or nothing. -/
theorem Since.act (h : Since out bytes x y w actions brought) {action : Action}
    (hharms : action.harms x.worker = false) {forth : Lane}
    (hforth : Lane.Carried bytes x.forth forth
      (actions.flatMap (·.arrivals x.worker) ++ action.arrivals x.worker))
    (hshut : Arrival.finish ∈ action.arrivals x.worker → ∃ arrived, 0 < (out arrived).shutdowns) :
    ∃ v, Since out bytes x { y with system := y.system.act action, forth } v (actions ++ [action])
      brought := by
  obtain ⟨v, hv, htended, more, hwritten, hshutdowns⟩ := System.tended_act h.here h.tended action
  have harrivals : (actions ++ [action]).flatMap (·.arrivals x.worker) =
      actions.flatMap (·.arrivals x.worker) ++ action.arrivals x.worker := by
    simp
  refine ⟨v, h.worker, ?_, ?_, hv, htended, ?_, ?_, h.arrived, ?_, ?_⟩
  · rw [System.run_append, ← h.system]
    rfl
  · intro other hother
    rcases List.mem_append.mp hother with hold | hnew
    · exact h.harmless other hold
    · exact List.mem_singleton.mp hnew ▸ hharms
  · rw [harrivals]
    exact hforth
  · rw [harrivals, List.mem_append]
    exact fun hend ↦ hend.elim h.shut hshut
  · rw [hwritten]
    exact h.back.grow fun hend ↦ (hshutdowns (h.finished hend)).1
  · exact fun hend ↦ (hshutdowns (h.finished hend)).2

/-- Every event keeps the account. -/
theorem Since.step (h : Since out bytes x y w actions brought)
    (hout : ∀ arrived, (out arrived).written = bytes) (event : Event) :
    ∃ v actions' brought', Since out bytes x (y.step out event) v actions' brought' := by
  cases event with
  | forth most =>
      simp only [Exchange.step]
      split
      · exact ⟨w, actions, brought, h⟩
      · rename_i arrival hnext
        have harrivals : (Action.cue x.worker (.arrive arrival)).arrivals x.worker = [arrival] :=
          if_pos rfl
        have hcarried := h.forth.next (hout y.arrived) hnext
        have hshut (hend : Arrival.finish ∈ [arrival]) : ∃ arrived, 0 < (out arrived).shutdowns := by
          obtain rfl := List.mem_singleton.mp hend
          exact ⟨y.arrived, Lane.shutdowns_of_next? hnext⟩
        rw [← harrivals] at hcarried hshut
        obtain ⟨v, hv⟩ := h.act rfl hcarried hshut
        rw [← h.worker] at hv
        exact ⟨v, _, brought, hv⟩
  | back most =>
      have hnext? : y.system.workers[y.worker]?.bind (y.back.next? ·.connection.stream most) =
          y.back.next? w.connection.stream most := by
        rw [h.worker, h.here, Option.bind_some]
      simp only [Exchange.step, hnext?]
      split
      · exact ⟨w, actions, brought, h⟩
      · rename_i arrival hnext
        refine ⟨w, actions, brought ++ [arrival], h.worker, h.system, h.harmless, h.here, h.tended,
          h.forth, h.shut, ?_, h.back.next rfl hnext, fun hend ↦ ?_⟩
        · show y.arrived ++ [arrival] = _
          rw [h.arrived, List.append_assoc]
        · rcases List.mem_append.mp hend with hold | hnew
          · exact h.finished hold
          · obtain rfl := List.mem_singleton.mp hnew
            exact Lane.shutdowns_of_next? hnext
  | other action =>
      simp only [Exchange.step]
      split
      · exact ⟨w, actions, brought, h⟩
      · rename_i htouches
        have hno : action.touches x.worker = false := by simpa [h.worker] using htouches
        have hnone := Action.arrivals_eq_nil hno
        have hcarried := h.forth
        rw [← List.append_nil (actions.flatMap _), ← hnone] at hcarried
        obtain ⟨v, hv⟩ := h.act (Action.harms_eq_false hno) hcarried (by rw [hnone]; nofun)
        exact ⟨v, _, brought, hv⟩

/-- Every exchange has an account. -/
theorem exists_since (hw : x.system.workers[x.worker]? = some w) (htended : w.Tended {})
    (hforth : x.forth.passed ≤ bytes.length) (hback : x.back.passed ≤ w.written.length)
    (hout : ∀ arrived, (out arrived).written = bytes) (events : List Event) :
    ∃ v actions brought, Since out bytes x (x.run out events) v actions brought := by
  suffices ∀ y w actions brought, Since out bytes x y w actions brought →
      ∃ v actions brought, Since out bytes x (y.run out events) v actions brought from
    this x w [] [] (since_refl hw htended hforth hback)
  clear hw htended hback
  induction events with
  | nil => exact fun y w actions brought h ↦ ⟨w, actions, brought, h⟩
  | cons event rest ih =>
      intro y w actions brought h
      obtain ⟨v, actions', brought', h'⟩ := h.step hout event
      exact ih _ v actions' brought' h'

end Exchange

end ChatRelay.Server
