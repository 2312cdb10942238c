import ChatRelay.Proofs.Exchange
import ChatRelay.Server.Link

/-!
# The link that calls run on

`Link.converse` runs a call in rounds: in each of them everything that is there goes through the link,
and the workers go on until they wait. `converse_eq` says that this is one of the exchanges that
`Exchange.run` allows, so what holds of all exchanges holds of the calls that the link runs.
-/

namespace ChatRelay.Server

open Client Connection Text Transport Wire

/-! ## What a lane can carry -/

namespace Lane

/-- A lane has carried no more of a stream than there is, and the end only behind all bytes of a
stream that is shut down. -/
structure Fits (lane : Lane) (source : Stream) : Prop where
  passed_le : lane.passed ≤ source.written.length
  of_ended : lane.ended = true → lane.passed = source.written.length ∧ 0 < source.shutdowns

/-- A lane carries these arrivals of a stream, one after the other. -/
inductive Hauls (source : Stream) : Lane → List Arrival → Lane → Prop where
  | none (lane : Lane) : Hauls source lane [] lane
  | next {lane last : Lane} {most : Nat} {arrival : Arrival} {rest : List Arrival}
      (hnext : lane.next? source most = some arrival)
      (hrest : Hauls source (lane.carry arrival) rest last) :
      Hauls source lane (arrival :: rest) last

variable {source later : Stream} {lane last : Lane} {arrival : Arrival}

/-- What is written later behind a stream that is not shut down makes no difference. -/
theorem Fits.grow (h : lane.Fits source) {more : List UInt8}
    (hwritten : later.written = source.written ++ more)
    (hshut : 0 < source.shutdowns → more = [] ∧ 0 < later.shutdowns) : lane.Fits later := by
  refine ⟨?_, fun hended ↦ ?_⟩
  · rw [hwritten, List.length_append]
    exact Nat.le_trans h.passed_le (Nat.le_add_right _ _)
  · obtain ⟨hpassed, hpos⟩ := h.of_ended hended
    obtain ⟨rfl, hlater⟩ := hshut hpos
    rw [hwritten, List.append_nil]
    exact ⟨hpassed, hlater⟩

/-- A lane fits its stream also after what it carries next. -/
theorem Fits.carry (h : lane.Fits source) {most : Nat}
    (hnext : lane.next? source most = some arrival) : (lane.carry arrival).Fits source := by
  have hcarried := (Lane.carried_refl h.passed_le).next rfl hnext
  unfold next? at hnext
  split at hnext
  · cases hnext
  · rename_i hopen
    split at hnext
    · cases hnext
      exact ⟨hcarried.now_le, fun hended ↦ absurd hended hopen⟩
    · rename_i hnone
      split at hnext
      · cases hnext
        exact ⟨h.passed_le, fun _ ↦
          ⟨Nat.le_antisymm h.passed_le (List.drop_eq_nil_iff.mp hnone), ‹_›⟩⟩
      · cases hnext

theorem Hauls.trans {middle : Lane} {first second : List Arrival}
    (h : Hauls source lane first middle) (hsecond : Hauls source middle second last) :
    Hauls source lane (first ++ second) last := by
  induction h with
  | none => exact hsecond
  | next hnext _ ih => exact .next hnext (ih hsecond)

/-- A lane can carry the bytes that are left in any pieces. -/
theorem hauls_chunks {pieces : List (List UInt8)} (hpieces : ∀ piece ∈ pieces, piece ≠ [])
    (hopen : lane.ended = false) (hrest : source.written.drop lane.passed = pieces.flatten) :
    Hauls source lane (pieces.map .chunk)
      { lane with passed := lane.passed + pieces.flatten.length } := by
  induction pieces generalizing lane with
  | nil => exact .none lane
  | cons piece rest ih =>
      obtain ⟨byte, bytes, rfl⟩ := List.exists_cons_of_ne_nil (hpieces piece List.mem_cons_self)
      have hnext : lane.next? source bytes.length = some (.chunk (byte :: bytes)) := by
        simp only [next?, hopen, hrest, List.flatten_cons, List.cons_append, List.take_left]
        rfl
      have hleft : source.written.drop (lane.carry (.chunk (byte :: bytes))).passed =
          rest.flatten := by
        show source.written.drop (lane.passed + (byte :: bytes).length) = rest.flatten
        rw [← List.drop_drop, hrest, List.flatten_cons, List.drop_left]
      have hhauls : Hauls source (lane.carry (.chunk (byte :: bytes))) _ _ :=
        ih (fun piece hmem ↦ hpieces piece (List.mem_cons_of_mem _ hmem)) hopen hleft
      rw [List.flatten_cons, List.length_append, ← Nat.add_assoc]
      exact .next hnext hhauls

end Lane

namespace Link

/-- A way to cut bytes into chunks that loses none and makes no chunk empty. -/
def Faithful (cut : List UInt8 → List (List UInt8)) : Prop :=
  ∀ bytes, bytes ≠ [] → (cut bytes).flatten = bytes ∧ ∀ piece ∈ cut bytes, piece ≠ []

/-- What a link still has to carry is what a lane can carry. -/
theorem hauls_pending (link : Link) (hcut : Faithful link.cut) {source : Stream} {lane : Lane}
    (hfits : lane.Fits source) :
    Lane.Hauls source lane (link.pending source lane.passed lane.ended)
      { passed := source.written.length, ended := decide (source.shutdowns > 0) } := by
  cases hended : lane.ended with
  | true =>
      obtain ⟨hpassed, hpos⟩ := hfits.of_ended hended
      have hnothing : link.pending source lane.passed true = [] := by
        simp [pending, hpassed]
      have hlane : lane =
          { passed := source.written.length, ended := decide (source.shutdowns > 0) } := by
        rw [← hpassed, decide_eq_true hpos, ← hended]
      rw [hnothing, ← hlane]
      exact .none lane
  | false =>
      let all : Lane := { lane with passed := source.written.length }
      have hbytes : Lane.Hauls source lane
          (if (source.written.drop lane.passed).isEmpty then []
            else (link.cut (source.written.drop lane.passed)).map .chunk) all := by
        have hlength := source.written.length_drop (i := lane.passed)
        have hle := hfits.passed_le
        split
        · rename_i hempty
          rw [List.isEmpty_iff.mp hempty, List.length_nil] at hlength
          have hall : lane = all := by
            show lane = { lane with passed := source.written.length }
            rw [show source.written.length = lane.passed by omega]
          rw [← hall]
          exact .none lane
        · rename_i hsome
          rw [List.isEmpty_iff] at hsome
          obtain ⟨hflat, hpieces⟩ := hcut _ hsome
          have hhauls := Lane.hauls_chunks hpieces hended hflat.symm
          rw [hflat, hlength, Nat.add_sub_cancel' hle] at hhauls
          exact hhauls
      refine hbytes.trans ?_
      by_cases hpos : source.shutdowns > 0
      · have hnext : all.next? source 0 = some .finish := by
          simp [Lane.next?, all, hended, hpos]
        simp only [hpos, decide_true, Bool.not_false, Bool.and_self, if_true]
        exact .next hnext (.none _)
      · have hlast : all = { passed := source.written.length, ended := false } := by
          rw [← hended]
        simp only [hpos, decide_false, Bool.false_and, Bool.false_eq_true, if_false, ← hlast]
        exact .none all

end Link

/-! ## Runs of a link as exchanges -/

theorem System.bring_nil (s : System) (k : Nat) : s.updateStream k (Link.bring · []) = s := by
  have hsame : (fun w : Worker ↦ { w with
      connection := { w.connection with stream := Link.bring w.connection.stream [] } }) = id := by
    funext w
    simp [Link.bring]
  simp only [updateStream, hsame, List.modify_id]

theorem System.bring_bring (s : System) (k : Nat) (first second : List Arrival) :
    (s.updateStream k (Link.bring · first)).updateStream k (Link.bring · second) =
      s.updateStream k (Link.bring · (first ++ second)) := by
  simp only [updateStream, List.modify_modify_eq]
  congr 2
  funext w
  simp [Link.bring]

namespace Exchange

/-- Some events lead from the one exchange to the other. -/
def Reaches (out : List Arrival → Stream) (x y : Exchange) : Prop :=
  ∃ events, x.run out events = y

variable {out : List Arrival → Stream} {x y z : Exchange} {lane : Lane}
  {arrivals : List Arrival}

theorem Reaches.refl (x : Exchange) : Reaches out x x :=
  ⟨[], rfl⟩

theorem Reaches.trans (h : Reaches out x y) (hnext : Reaches out y z) : Reaches out x z := by
  obtain ⟨first, rfl⟩ := h
  obtain ⟨second, rfl⟩ := hnext
  exact ⟨first ++ second, run_append out x first second⟩

theorem reaches_step (x : Exchange) (event : Event) : Reaches out x (x.step out event) :=
  ⟨[event], rfl⟩

/-- What the lane to the worker can carry comes in at the end of the worker's stream. -/
theorem reaches_forth (h : Lane.Hauls (out x.arrived) x.forth arrivals lane) :
    Reaches out x
      { x with
        forth := lane
        system := x.system.updateStream x.worker (Link.bring · arrivals) } := by
  generalize hsource : out x.arrived = source at h
  generalize hlane : x.forth = first at h
  induction h generalizing x with
  | none =>
      rw [System.bring_nil, ← hlane]
      exact .refl x
  | @next first last most arrival rest hnext _ ih =>
      subst hsource hlane
      let after : Exchange :=
        { x with
          forth := x.forth.carry arrival
          system := x.system.updateStream x.worker (Link.bring · [arrival]) }
      have hstep : x.step out (.forth most) = after := by
        simp only [step, hnext]
        rfl
      have hrest := ih (x := after) rfl rfl
      dsimp only [after] at hrest
      rw [System.bring_bring] at hrest
      exact (hstep ▸ reaches_step x (.forth most)).trans hrest

/-- What the lane to the client can carry reaches the client. -/
theorem reaches_back {w : Worker} (hw : x.system.workers[x.worker]? = some w)
    (h : Lane.Hauls w.connection.stream x.back arrivals lane) :
    Reaches out x { x with back := lane, arrived := x.arrived ++ arrivals } := by
  generalize hlane : x.back = first at h
  induction h generalizing x with
  | none =>
      rw [List.append_nil, ← hlane]
      exact .refl x
  | @next first last most arrival rest hnext _ ih =>
      subst hlane
      let after : Exchange :=
        { x with back := x.back.carry arrival, arrived := x.arrived ++ [arrival] }
      have hstep : x.step out (.back most) = after := by
        simp only [step, hw, Option.bind_some, hnext, after]
      have hrest := ih (x := after) hw rfl
      dsimp only [after] at hrest
      rw [List.append_assoc] at hrest
      exact (hstep ▸ reaches_step x (.back most)).trans hrest

/-- What a system does by itself can happen in an exchange. -/
theorem reaches_of_unfolds {s : System} (h : x.system.Unfolds s) :
    Reaches out x { x with system := s } := by
  obtain ⟨actions, hinner, rfl⟩ := h
  induction actions generalizing x with
  | nil => exact .refl x
  | cons action rest ih =>
      have htouches : action.touches x.worker = false := by
        have haction := hinner action List.mem_cons_self
        cases action <;> first | rfl | cases haction
      have hstep : x.step out (.other action) = { x with system := x.system.act action } := by
        simp [step, htouches]
      refine (reaches_step x (.other action)).trans ?_
      rw [hstep]
      exact ih (x := { x with system := x.system.act action }) fun other hother ↦
        hinner other (List.mem_cons_of_mem _ hother)

/-- What a client has written in a call does not depend on what comes in, and what comes in later
undoes no shutdown. -/
structure Steady (out : List Arrival → Stream) : Prop where
  written : ∀ arrived, (out arrived).written = (out []).written
  shut : ∀ arrived more, 0 < (out arrived).shutdowns → 0 < (out (arrived ++ more)).shutdowns

/-- Both lanes of an exchange fit the streams that they carry. -/
structure InOrder (out : List Arrival → Stream) (x : Exchange) (w : Worker) : Prop where
  here : x.system.workers[x.worker]? = some w
  tended : w.Tended {}
  forth : x.forth.Fits (out x.arrived)
  back : x.back.Fits w.connection.stream

/-- An action of the system leaves an exchange in order. -/
theorem InOrder.act {w : Worker} (h : x.InOrder out w) (action : Action)
    (hforth : lane.Fits (out x.arrived)) :
    ∃ v, InOrder out { x with forth := lane, system := x.system.act action } v := by
  obtain ⟨v, hv, htended, more, hwritten, hshut⟩ := System.tended_act h.here h.tended action
  exact ⟨v, hv, htended, hforth, h.back.grow hwritten hshut⟩

/-- Every event leaves an exchange in order. -/
theorem InOrder.step {w : Worker} (h : x.InOrder out w) (hsteady : Steady out) (event : Event) :
    ∃ v, (x.step out event).InOrder out v := by
  cases event with
  | forth most =>
      simp only [Exchange.step]
      split
      · exact ⟨w, h⟩
      · rename_i arrival hnext
        exact h.act _ (h.forth.carry hnext)
  | back most =>
      simp only [Exchange.step, h.here, Option.bind_some]
      split
      · exact ⟨w, h⟩
      · rename_i arrival hnext
        have hwritten : (out (x.arrived ++ [arrival])).written = (out x.arrived).written ++ [] := by
          rw [hsteady.written, ← hsteady.written x.arrived, List.append_nil]
        exact ⟨w, h.here, h.tended,
          h.forth.grow hwritten fun hpos ↦ ⟨rfl, hsteady.shut x.arrived [arrival] hpos⟩,
          h.back.carry hnext⟩
  | other action =>
      simp only [Exchange.step]
      split
      · exact ⟨w, h⟩
      · exact h.act action h.forth

/-- Whatever happens, an exchange stays in order. -/
theorem InOrder.reaches {w : Worker} (h : x.InOrder out w) (hsteady : Steady out)
    (hreaches : Reaches out x y) : ∃ v, y.InOrder out v := by
  obtain ⟨events, rfl⟩ := hreaches
  induction events generalizing x w with
  | nil => exact ⟨w, h⟩
  | cons event rest ih =>
      obtain ⟨v, hv⟩ := h.step hsteady event
      exact ih hv

/-- The link at this point of an exchange. -/
def link (x : Exchange) (cut : List UInt8 → List (List UInt8)) : Link :=
  { worker := x.worker
    cut
    sent := x.forth.passed
    brought := x.back.passed
    sentEnd := x.forth.ended
    broughtEnd := x.back.ended }

/-- The stream of a client in a call, after what has arrived. -/
def outOf {α : Type} (call : Connection → Connection × α) (c : Connection)
    (arrived : List Arrival) : Stream :=
  (call (c.feed arrived)).1.stream

variable {α : Type} {call : Connection → Connection × Answer α} {c : Connection} {w : Worker}
  {cut : List UInt8 → List (List UInt8)}

/-- What the link carries to the worker in a round. -/
theorem reaches_toWorker (hcut : Link.Faithful cut) (h : x.InOrder (outOf call c) w) :
    ∃ y, Reaches (outOf call c) x y ∧ y.arrived = x.arrived ∧
      (x.link cut).toWorker (call (c.feed x.arrived)).1 x.system = (y.link cut, y.system) := by
  have hhauls := (x.link cut).hauls_pending hcut h.forth
  exact ⟨_, reaches_forth hhauls, rfl, rfl⟩

/-- What the link carries to the client in a round. -/
theorem reaches_toClient (hcut : Link.Faithful cut) (h : x.InOrder (outOf call c) w) :
    ∃ y, Reaches (outOf call c) x y ∧ y.system = x.system ∧
      (x.link cut).toClient (c.feed x.arrived) x.system = (y.link cut, c.feed y.arrived) := by
  have hhauls := (x.link cut).hauls_pending hcut h.back
  refine ⟨_, reaches_back h.here hhauls, rfl, ?_⟩
  have hhere : x.system.workers[(x.link cut).worker]? = some w := h.here
  simp only [Link.toClient, hhere, ← feed_feed]
  rfl

/-- Once a call has nothing left to write, the workers go on until they wait. -/
theorem reaches_settle {after : Connection} {answer : Answer α}
    (hcall : call (c.feed x.arrived) = (after, answer)) (hxy : Reaches (outOf call c) x y)
    (harrived : y.arrived = x.arrived) :
    ∃ z, Reaches (outOf call c) x z ∧
      (y.link cut, y.system.settle, after, answer) =
        (z.link cut, z.system, call (c.feed z.arrived)) := by
  refine ⟨_, hxy.trans (reaches_of_unfolds (System.unfolds_settle y.system)), ?_⟩
  show _ = (y.link cut, y.system.settle, call (c.feed y.arrived))
  rw [harrived, hcall]

variable (call) in
/-- A call that the link runs is one of the exchanges. -/
theorem converse_eq (hcut : Link.Faithful cut) (hsteady : Steady (outOf call c)) (rounds : Nat)
    (h : x.InOrder (outOf call c) w) :
    ∃ y, Reaches (outOf call c) x y ∧
      Link.converse call rounds (x.link cut) (c.feed x.arrived) x.system =
        (y.link cut, y.system, call (c.feed y.arrived)) := by
  induction rounds generalizing x w with
  | zero =>
      obtain ⟨y, hxy, harrived, hlink⟩ := reaches_toWorker hcut h
      rcases hcall : call (c.feed x.arrived) with ⟨after, answer⟩
      rw [hcall] at hlink
      simp only [Link.converse, hcall, hlink]
      exact reaches_settle hcall hxy harrived
  | succ rounds ih =>
      obtain ⟨y, hxy, harrived, hlink⟩ := reaches_toWorker hcut h
      rcases hcall : call (c.feed x.arrived) with ⟨after, _ | result⟩
      all_goals
        rw [hcall] at hlink
        simp only [Link.converse, hcall, hlink]
      · let next :=
          if (y.link cut).isQuiet y.system.settle then
            y.system.settle.advance y.system.settle.hub.dequeueTimeout
          else y.system.settle
        have hunfolds : y.system.Unfolds next := by
          dsimp only [next]
          split
          · exact (System.unfolds_settle _).trans (System.unfolds_advance _ _)
          · exact System.unfolds_settle _
        have hxnext := hxy.trans (reaches_of_unfolds hunfolds)
        obtain ⟨v, hv⟩ := h.reaches hsteady hxnext
        obtain ⟨z, hnextz, hsystem, hback⟩ := reaches_toClient hcut hv
        obtain ⟨v', hv'⟩ := hv.reaches hsteady hnextz
        obtain ⟨last, hlast, hconverse⟩ := ih hv'
        refine ⟨last, hxnext.trans (hnextz.trans hlast), ?_⟩
        rw [← hconverse, hsystem, ← harrived]
        have hround : (y.link cut).toClient (c.feed y.arrived) next = (z.link cut, c.feed z.arrived) :=
          hback
        simp only [next] at hround ⊢
        rw [hround]
      · exact reaches_settle hcall hxy harrived

end Exchange

end ChatRelay.Server
