import ChatRelay.Proofs.Answers
import ChatRelay.Proofs.Calls
import ChatRelay.Proofs.Exchange

/-!
# One call and its answer

A client asks over a link on which nothing is pending. `Asks.answered` says what its call answers at
any point of the exchange, given how far the worker is: nothing yet, or what the worker's one reply
says, or that the stream has ended, and then there is no reply. `Asks.exists_answer` says that the
exchange can always go on to an answer.
-/

namespace ChatRelay.Server

open Client Connection Text Transport Wire

namespace Exchange

variable {out : List Arrival → Stream} {bytes : List UInt8} {x y : Exchange} {w v : Worker}
  {actions : List Action} {brought : List Arrival}

/-! ## Going on to the end -/

theorem next?_eq_none_iff {lane : Lane} {source : Stream} {most : Nat} :
    lane.next? source most = none ↔
      lane.ended = true ∨ source.written.drop lane.passed = [] ∧ source.shutdowns = 0 := by
  unfold Lane.next?
  cases lane.ended with
  | true => simp
  | false =>
      cases source.written.drop lane.passed with
      | nil => simp [Nat.pos_iff_ne_zero]
      | cons byte rest => simp

/-- A piece that may be long enough takes all the bytes there are, or the end. -/
theorem drop_carry {lane : Lane} {source : Stream} {most : Nat} {arrival : Arrival}
    (hmost : source.written.length ≤ most) (hnext : lane.next? source most = some arrival) :
    source.written.drop (lane.carry arrival).passed = [] := by
  unfold Lane.next? at hnext
  split at hnext
  · cases hnext
  · split at hnext
    · rename_i byte rest hrest
      cases hnext
      have hlength := congrArg List.length hrest
      simp only [List.length_drop, List.length_cons] at hlength
      rw [List.take_of_length_le (by omega)]
      show source.written.drop (lane.passed + (byte :: rest).length) = []
      rw [List.drop_eq_nil_iff, List.length_cons]
      omega
    · rename_i hnone
      split at hnext
      · cases hnext
        exact hnone
      · cases hnext

/-- All that the client wrote can reach the worker. -/
theorem exists_carried (hout : ∀ arrived, (out arrived).written = bytes)
    (h : Since out bytes x y w actions brought) (hopen : x.forth.ended = false) :
    ∃ event, bytes.drop (y.step out event).forth.passed = [] := by
  refine ⟨.forth bytes.length, ?_⟩
  simp only [step]
  cases hnext : y.forth.next? (out y.arrived) bytes.length with
  | some arrival =>
      have hall := drop_carry (Nat.le_of_eq (by rw [hout])) hnext
      rwa [hout] at hall
  | none =>
      rcases next?_eq_none_iff.mp hnext with hended | ⟨hnone, -⟩
      · -- the end went through, so all the bytes did
        have hfinish := (h.forth.ended_iff.mp hended).resolve_left (by simp [hopen])
        exact h.forth.last hfinish
      · rwa [hout] at hnone

/-- The end came in only from a worker that has ended. -/
theorem Since.exists_result (h : Since out bytes x y w actions brought)
    (hend : Arrival.finish ∈ brought) : ∃ result, w.result? = some result := by
  have hshut := h.finished hend
  have htended := h.tended
  unfold Worker.Tended at htended
  cases hresult : w.result? with
  | some result => exact ⟨result, rfl⟩
  | none =>
      rw [hresult] at htended
      omega

/-- An exchange does the worker's stream no harm. -/
theorem Since.writesSucceed (h : Since out bytes x y v actions brought)
    (hw : x.system.workers[x.worker]? = some w) (hhealthy : Healthy w.connection.stream) :
    System.WritesSucceed x.worker x.system actions :=
  System.writesSucceed_of_healthy hw hhealthy h.harmless

theorem Since.healthy (h : Since out bytes x y v actions brought)
    (hw : x.system.workers[x.worker]? = some w) (hhealthy : Healthy w.connection.stream) :
    Healthy v.connection.stream := by
  refine h.writesSucceed hw hhealthy actions.length v ?_
  rw [List.take_length, ← h.system]
  exact h.here

/-- What a run makes of the worker holds of the worker at the end of the exchange. -/
theorem Since.of_run (h : Since out bytes x y v actions brought) {P : Worker → Prop}
    (hrun : ∃ u, (x.system.run actions).workers[x.worker]? = some u ∧ P u) : P v := by
  obtain ⟨u, hu, hP⟩ := hrun
  rw [← h.system] at hu
  obtain rfl := Option.some.inj (hu.symm.trans h.here)
  exact hP

/-- Where a worker has ended and nothing is under way to the client, the end went through. -/
theorem Since.ended (h : Since out bytes x y w actions brought)
    (hbrought : y.back.next? w.connection.stream 0 = none) {result : Result}
    (hresult : w.result? = some result) : y.back.ended = true := by
  rcases next?_eq_none_iff.mp hbrought with hended | ⟨-, hshut⟩
  · exact hended
  · have htended := h.tended
    unfold Worker.Tended at htended
    rw [hresult] at htended
    omega

/-- The end comes in from no side that is not shut down. -/
theorem Since.unfinished (h : Since out bytes x y w actions brought)
    (hshut : ∀ arrived, (out arrived).shutdowns = 0) :
    Arrival.finish ∉ actions.flatMap (·.arrivals x.worker) := by
  intro hend
  obtain ⟨arrived, hpos⟩ := h.shut hend
  rw [hshut] at hpos
  omega

theorem Since.back_passed (h : Since out bytes x y w actions brought)
    (hnone : w.written.drop y.back.passed = []) : y.back.passed = w.written.length :=
  Nat.le_antisymm h.back.now_le (List.drop_eq_nil_iff.mp hnone)

/-- Where the worker writes nothing and all before it has been read, no byte comes in. -/
theorem Since.nothing_back (h : Since out bytes x y w actions brought)
    (hread : x.back.passed = w.written.length) :
    Stream.unread.go brought = [] ∧ y.back.passed = w.written.length := by
  have hdrop := h.back.drop_eq
  rw [hread, List.drop_length] at hdrop
  obtain ⟨hbrought, hall⟩ := List.append_eq_nil_iff.mp hdrop.symm
  exact ⟨hbrought, h.back_passed hall⟩

/-- The worker's own steps are events. -/
theorem run_works (out : List Arrival → Stream) (x : Exchange) (n : Nat) :
    x.run out (List.replicate n (.other (.work x.worker))) =
      { x with system := x.system.run (List.replicate n (.work x.worker)) } := by
  induction n generalizing x with
  | zero => rfl
  | succ n ih => exact ih { x with system := x.system.act (.work x.worker) }

/-- What the worker wrote reaches the client, and nothing else changes. -/
theorem step_back (out : List Arrival → Stream) (hw : x.system.workers[x.worker]? = some w)
    (most : Nat) :
    let y := x.step out (.back most)
    y.worker = x.worker ∧ y.system = x.system ∧ y.forth = x.forth ∧
      y.back = ((x.back.next? w.connection.stream most).map x.back.carry).getD x.back := by
  simp only [step, hw, Option.bind_some]
  cases x.back.next? w.connection.stream most <;> exact ⟨rfl, rfl, rfl, rfl⟩

/-- All that the worker wrote, and the end behind it, can reach the client. -/
theorem exists_brought (out : List Arrival → Stream) (hw : x.system.workers[x.worker]? = some w) :
    ∃ events, let y := x.run out events
      y.worker = x.worker ∧ y.system = x.system ∧ y.forth = x.forth ∧
        y.back.next? w.connection.stream 0 = none := by
  -- the first piece takes the bytes, the second the end
  let y := x.step out (.back w.written.length)
  obtain ⟨hworker, hsystem, hforth, hback⟩ := x.step_back out hw w.written.length
  have hw' : y.system.workers[y.worker]? = some w := by
    rw [hsystem, hworker]
    exact hw
  obtain ⟨hworker', hsystem', hforth', hback'⟩ := y.step_back out hw' 0
  refine ⟨[.back w.written.length, .back 0], hworker'.trans hworker, hsystem'.trans hsystem,
    hforth'.trans hforth, ?_⟩
  show (y.step out (.back 0)).back.next? w.connection.stream 0 = none
  rw [hback']
  cases hnext : y.back.next? w.connection.stream 0 with
  | none => exact hnext
  | some arrival =>
      rw [Option.map_some, Option.getD_some, next?_eq_none_iff]
      left
      have hnone : w.connection.stream.written.drop y.back.passed = [] ∨ y.back.ended = true := by
        cases hfirst : x.back.next? w.connection.stream w.written.length with
        | some first =>
            left
            rw [hback, hfirst]
            exact drop_carry (Nat.le_refl _) hfirst
        | none =>
            rw [hback, hfirst]
            exact (next?_eq_none_iff.mp hfirst).symm.imp And.left id
      unfold Lane.next? at hnext
      split at hnext
      · cases hnext
      · rename_i hopen
        rw [hnone.resolve_right hopen] at hnext
        dsimp only at hnext
        split at hnext
        · cases hnext
          rfl
        · cases hnext

/-- Nothing is under way to the client, and the worker can make no step. -/
structure Drained (x : Exchange) (w : Worker) : Prop where
  stuck : w.step x.system.hub = none
  brought : x.back.next? w.connection.stream 0 = none

/-- An exchange whose worker comes to rest can go on until nothing is under way to the client. -/
theorem exists_drained (out : List Arrival → Stream) (hw : x.system.workers[x.worker]? = some w)
    (hsettles : x.system.Settles x.worker) :
    ∃ events, let y := x.run out events
      y.forth = x.forth ∧ ∃ v, y.system.workers[x.worker]? = some v ∧ y.Drained v := by
  obtain ⟨n, hrest⟩ := hsettles
  let works : List Action := List.replicate n (.work x.worker)
  obtain ⟨v, hv, -⟩ := System.exists_worker_run hw works
  have hworks := run_works out x n
  let y : Exchange := { x with system := x.system.run works }
  obtain ⟨events, -, hsystem, hforth, hbrought⟩ := y.exists_brought out hv
  refine ⟨List.replicate n (.other (.work x.worker)) ++ events, ?_⟩
  rw [run_append, hworks]
  refine ⟨hforth, v, ?_, ?_, hbrought⟩
  · rw [hsystem]
    exact hv
  · rw [hsystem]
    exact (System.work?_eq_none_iff hv).mp hrest

end Exchange

/-! ## Asking -/

/-- A client makes a request over a link: its connection is in order, everything that was written
went through, and everything that came in was read. `out` is the client's stream in the call. -/
structure Asks (out : List Arrival → Stream) (x : Exchange) (c : Connection) (m : Message)
    (w : Worker) : Prop where
  here : x.system.workers[x.worker]? = some w
  tended : w.Tended {}
  healthy : Healthy w.connection.stream
  sound : c.Sound
  isOpen : c.isOpen = true
  read : c.backlog = []
  unended : ¬c.HasEnded
  written : ∀ arrived, (out arrived).written = c.stream.written ++ m.bytes
  arrived : x.arrived = []
  forth_eq : x.forth.passed = c.stream.written.length
  forth_open : x.forth.ended = false
  back_eq : x.back.passed = w.written.length
  back_open : x.back.ended = false

/-- What came of a request, if the worker turned to it with this reply and these bytes of its line are
still to come. -/
inductive Answered (y : Exchange) (w v : Worker) (reply : Message) (rest : List UInt8)
    (next gone : Prop) (went : Connection × Answer Unit) : Prop where
  /-- There is no answer yet, and more is to happen. -/
  | waits (hanswer : went.2 = none) (hpending : rest = [] → ¬y.Drained v)
  /-- The answer is what the reply says, and nothing else was written. -/
  | replied (hanswer : went.2 = some (verdict reply)) (hread : went.1.backlog = [])
      (hwritten : v.written = w.written ++ reply.bytes) (hback : y.back.passed = v.written.length)
      (hnext : next)
  /-- The stream ended without a reply. -/
  | closed (hanswer : went.2 = some (.error .closed)) (hread : went.1.backlog = [])
      (hwritten : v.written = w.written) (hback : y.back.passed = v.written.length) (hgone : gone)

namespace Asks

variable {out : List Arrival → Stream} {x y : Exchange} {c : Connection} {m : Message}
  {w v : Worker} {actions : List Action} {brought : List Arrival} {reply : Message}
  {next gone : Prop}

/-- Every exchange in the call has its account. -/
theorem since (h : Asks out x c m w) (events : List Event) :
    ∃ v actions brought,
      Exchange.Since out (c.stream.written ++ m.bytes) x (x.run out events) v actions brought := by
  refine Exchange.exists_since h.here h.tended ?_ (Nat.le_of_eq h.back_eq) h.written events
  rw [h.forth_eq, List.length_append]
  exact Nat.le_add_right _ _

/-- The worker got a first part of the request's line. -/
theorem forth_bytes (h : Asks out x c m w)
    (hsince : Exchange.Since out (c.stream.written ++ m.bytes) x y v actions brought) :
    Stream.unread.go (actions.flatMap (·.arrivals x.worker)) ++
      (c.stream.written ++ m.bytes).drop y.forth.passed = m.bytes := by
  rw [← hsince.forth.drop_eq, h.forth_eq, List.drop_left]

/-- The client got a first part of what the worker wrote in the call. -/
theorem back_bytes (h : Asks out x c m w)
    (hsince : Exchange.Since out (c.stream.written ++ m.bytes) x y v actions brought) :
    v.written.drop w.written.length =
      Stream.unread.go brought ++ v.written.drop y.back.passed := by
  rw [← hsince.back.drop_eq, h.back_eq]

/-- The client's connection with what came in. -/
theorem fed (h : Asks out x c m w)
    (hsince : Exchange.Since out (c.stream.written ++ m.bytes) x y v actions brought) :
    (c.feed y.arrived).Sound ∧ (c.feed y.arrived).isOpen = true ∧
      (c.feed y.arrived).backlog = Stream.unread.go brought ∧
      ((c.feed y.arrived).HasEnded ↔ Arrival.finish ∈ brought) := by
  have harrived : y.arrived = brought := by
    rw [hsince.arrived, h.arrived, List.nil_append]
  obtain ⟨hbuffer, hunread⟩ := List.append_eq_nil_iff.mp h.read
  rw [harrived]
  refine ⟨h.sound.feed hsince.back.plain, h.isOpen, ?_, ?_⟩
  · show c.buffer ++ Stream.unread.go (c.stream.arrivals ++ brought) = _
    rw [unread_append h.unended, hbuffer]
    show [] ++ (c.stream.unread ++ Stream.unread.go brought) = _
    rw [hunread, List.nil_append, List.nil_append]
  · show Arrival.finish ∈ c.stream.arrivals ++ brought ↔ _
    rw [List.mem_append]
    exact or_iff_right h.unended

/-- Once nothing is under way to the client, it has all bytes, and the end if there is one. -/
theorem drained (h : Asks out x c m w)
    (hsince : Exchange.Since out (c.stream.written ++ m.bytes) x y v actions brought)
    (hdrained : y.Drained v) :
    v.written.drop y.back.passed = [] ∧
      ((∃ result, v.result? = some result) → Arrival.finish ∈ brought) := by
  have hended : y.back.ended = true → Arrival.finish ∈ brought := fun hended ↦
    (hsince.back.ended_iff.mp hended).resolve_left (by simp [h.back_open])
  refine ⟨?_, fun ⟨result, hresult⟩ ↦ hended (hsince.ended hdrained.brought hresult)⟩
  rcases Exchange.next?_eq_none_iff.mp hdrained.brought with hend | ⟨hnone, -⟩
  · exact hsince.back.last (hended hend)
  · exact hnone

/-- What a request answers is settled by the worker's turn and by how much of its reply came in. -/
theorem answered (h : Asks out x c m w)
    (hsince : Exchange.Since out (c.stream.written ++ m.bytes) x y v actions brought)
    (hvalid : reply.Valid)
    (hturn : v.Turn y.system.hub reply w.written
      ((c.stream.written ++ m.bytes).drop y.forth.passed) next gone)
    (hgone : gone → v.step y.system.hub = none → ∃ result, v.result? = some result) :
    Answered y w v reply ((c.stream.written ++ m.bytes).drop y.forth.passed) next gone
      (request (c.feed y.arrived) m) := by
  obtain ⟨hsound, hopen, hbacklog, hended⟩ := h.fed hsince
  have hback := h.back_bytes hsince
  cases hturn with
  | waiting hrest hwritten hresult =>
      rw [hwritten, List.drop_length] at hback
      have hnone := (List.append_eq_nil_iff.mp hback.symm).1
      refine .waits (request_of_nothing hsound hopen ?_ ?_).1 fun hnil ↦ absurd hnil hrest
      · rw [hended]
        intro hend
        obtain ⟨result, hsome⟩ := hsince.exists_result hend
        rw [hresult] at hsome
        cases hsome
      · rw [hbacklog, hnone]
        exact ⟨nofun, by decide⟩
  | replying left hwritten hover hstuck hnext =>
      have hstart : w.written.length ≤ v.written.length := h.back_eq ▸ hsince.back.start_le
      have hreply : Stream.unread.go brought ++ (v.written.drop y.back.passed ++ left) =
          reply.bytes := by
        have hdrop := congrArg (List.drop w.written.length) hwritten
        rw [List.drop_append_of_le_length hstart, List.drop_left, hback, List.append_assoc] at hdrop
        exact hdrop
      by_cases hall : v.written.drop y.back.passed ++ left = []
      · obtain ⟨hnone, rfl⟩ := List.append_eq_nil_iff.mp hall
        rw [hall, List.append_nil] at hreply
        obtain ⟨hanswer, hread⟩ := request_of_reply hsound hopen hvalid (hbacklog.trans hreply)
        rw [List.append_nil] at hwritten
        exact .replied hanswer hread hwritten (hsince.back_passed hnone) (hnext rfl)
      · have hnoVerdict := noVerdict_of_append hvalid hreply hall
        refine .waits (request_of_nothing hsound hopen ?_ (hbacklog ▸ hnoVerdict)).1 ?_
        · -- the end comes behind the whole reply
          rw [hended]
          intro hend
          obtain ⟨result, hsome⟩ := hsince.exists_result hend
          exact hall (List.append_eq_nil_iff.mpr ⟨hsince.back.last hend, hover result hsome⟩)
        · intro hrest hdrained
          exact hall (List.append_eq_nil_iff.mpr
            ⟨(h.drained hsince hdrained).1, hstuck hrest hdrained.stuck⟩)
  | refusing hwritten hover =>
      rw [hwritten, List.drop_length] at hback
      obtain ⟨hnone, hleft⟩ := List.append_eq_nil_iff.mp hback.symm
      rw [← hwritten] at hleft
      have hnoVerdict : NoVerdict (c.feed y.arrived).backlog := by
        rw [hbacklog, hnone]
        exact ⟨nofun, by decide⟩
      by_cases hend : Arrival.finish ∈ brought
      · obtain ⟨hanswer, hread⟩ := request_of_end hsound hopen (hended.mpr hend) hnoVerdict
        rw [hbacklog, hnone] at hread
        exact .closed hanswer hread hwritten (hsince.back_passed hleft) hover
      · refine .waits (request_of_nothing hsound hopen (mt hended.mp hend) hnoVerdict).1 ?_
        intro _ hdrained
        exact hend ((h.drained hsince hdrained).2 (hgone hover hdrained.stuck))

/-- Whatever has happened in a call, it can go on to an answer. -/
theorem exists_answer (h : Asks out x c m w)
    (hcall : ∀ y v actions brought,
      Exchange.Since out (c.stream.written ++ m.bytes) x y v actions brought →
        ∃ reply next gone, Message.Valid reply ∧
          v.Turn y.system.hub reply w.written
            ((c.stream.written ++ m.bytes).drop y.forth.passed) next gone ∧
          (gone → v.step y.system.hub = none → ∃ result, v.result? = some result) ∧
          ((c.stream.written ++ m.bytes).drop y.forth.passed = [] → y.system.Settles x.worker))
    (events : List Event) :
    ∃ more result, (request (c.feed (x.run out (events ++ more)).arrived) m).2 = some result := by
  obtain ⟨v, actions, brought, hsince⟩ := h.since events
  obtain ⟨event, hcarried⟩ := Exchange.exists_carried h.written hsince h.forth_open
  obtain ⟨u, actions', brought', hsince'⟩ := hsince.step h.written event
  let y := (x.run out events).step out event
  have hy : y = x.run out (events ++ [event]) := (Exchange.run_append out x events [event]).symm
  obtain ⟨-, -, -, -, -, -, hsettles⟩ := hcall y u actions' brought' hsince'
  have hhere : y.system.workers[y.worker]? = some u := by
    rw [hsince'.worker]
    exact hsince'.here
  obtain ⟨rest, hforth, z, hz, hdrained⟩ :=
    Exchange.exists_drained out hhere (hsince'.worker ▸ hsettles hcarried)
  refine ⟨event :: rest, ?_⟩
  have hall : y.run out rest = x.run out (events ++ event :: rest) := by
    rw [hy, ← Exchange.run_append, List.append_assoc]
    rfl
  rw [hall] at hforth hz hdrained
  obtain ⟨z', actions'', brought'', hsince''⟩ := h.since (events ++ event :: rest)
  obtain rfl : z' = z := by
    have hhere'' := hsince''.here
    rw [← hsince'.worker] at hhere''
    exact Option.some.inj (hhere''.symm.trans hz)
  obtain ⟨reply, next, gone, hvalid, hturn, hgone, -⟩ := hcall _ _ _ _ hsince''
  cases h.answered hsince'' hvalid hturn hgone with
  | waits hanswer hpending =>
      rw [hforth] at hpending
      exact absurd hdrained (hpending hcarried)
  | replied hanswer => exact ⟨_, hanswer⟩
  | closed hanswer => exact ⟨_, hanswer⟩

end Asks

end ChatRelay.Server
