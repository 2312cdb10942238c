import ChatRelay.Proofs.CurrentRoom
import ChatRelay.Proofs.Refusals
import ChatRelay.Proofs.Scripts

/-!
# How a worker answers one request

`Worker.Ready` says that a publisher's worker goes on as if its connection were new, `Worker.Over` that
nothing it gets makes a difference any more. `Worker.Turn` says how far a worker is with a request of
which some has come in: it waits for the rest, it replies, or it gives up without a reply.
`command_turn` has a ready worker take its turn with a message, and then it is ready again or over;
`accepted_turn` and `refused_turn` have a new worker take its turn with a login.
-/

namespace ChatRelay.Server

open Connection Text Transport Wire

theorem filterMap_byte?_sends (reply : Message) :
    (sends reply).filterMap Deed.byte? = reply.bytes := by
  simp [sends, List.filterMap_map, Function.comp_def, Deed.byte?]

/-- Where no byte of a reply is left, nothing is left of what ends with it. -/
theorem eq_nil_of_no_byte {acts done left : List Deed} {reply : Message}
    (h : acts ++ sends reply = done ++ left) (hnone : left.filterMap Deed.byte? = []) :
    left = [] := by
  rcases List.eq_nil_or_concat left with hnil | ⟨front, last, hleft⟩
  · exact hnil
  · -- the last deed is the LF of the reply
    have hfeed : last = .wrote lineFeed := by
      have hlast := congrArg List.getLast? h
      rw [hleft, sends, Message.bytes_eq] at hlast
      simpa using hlast.symm
    rw [hleft, hfeed] at hnone
    simp [Deed.byte?] at hnone

namespace Worker

/-- A publisher's worker goes on in this room with what comes in as if its connection were new. -/
def Ready (d : Directory) (username : String) (room : Option String) (w : Worker) : Prop :=
  ∀ more, w.Serves d username more (dialogue username room (script more).1 (script more).2)
    (finalRoom username room (script more).1)

/-- A publisher's session is over: whatever comes in, nothing is done any more. -/
def Over (d : Directory) (username : String) (room : Option String) (w : Worker) : Prop :=
  ∃ result, ∀ more, w.Serves d username more ([], some result) room

variable {d : Directory} {hub hub' : Hub} {w w' : Worker} {username : String}
  {room : Option String} {more : List Arrival} {left : List Deed}

/-- A ready worker has nothing left to do. -/
theorem Ready.serves (h : w.Ready d username room) : w.Serves d username [] ([], none) room := by
  have hserves := h []
  rw [script_nil] at hserves
  exact hserves

theorem Ready.room_eq (h : w.Ready d username room) : w.session.room = room :=
  h.serves.room_eq

theorem Over.room_eq (h : w.Over d username room) : w.session.room = room := by
  obtain ⟨result, hserves⟩ := h
  exact (hserves []).room_eq

/-- A worker whose session is over ends. -/
theorem Over.exists_result (h : w.Over d username room)
    (hhealthy : Connection.Healthy w.connection.stream) (hstep : w.step hub = none) :
    ∃ result, w.result? = some result := by
  obtain ⟨result, hserves⟩ := h
  exact ⟨result, (congrArg Prod.snd ((hserves []).owes.of_step_eq_none hhealthy hstep)).symm⟩

/-- A worker whose session has no ending yet has not ended. -/
theorem Owes.result?_eq_none (h : w.Owes d username more (left, none)) : w.result? = none := by
  cases hcontrol : w.control with
  | ended result =>
      simp only [Owes, hcontrol] at h
      cases h
  | _ => simp [result?, hcontrol]

/-- A worker that has logged a publisher in and has done all it had to do shows its name. -/
theorem Owes.username_eq (h : w.Owes d username more ([], none)) :
    w.session.username = some username := by
  revert h
  unfold Owes
  cases w.control with
  | receive await =>
      cases await with
      | login =>
          rintro ⟨-, -, _, _, -, howed⟩
          have hsends := congrArg Prod.fst howed
          simp [andThen, sends, Message.bytes_ne_nil] at hsends
      | join => exact fun h ↦ h.elim
      | command => exact fun h ↦ h.1.username
  | openRoom | broadcast | send => exact fun h ↦ h.1.username
  | close | ended =>
      intro h
      have hending := congrArg Prod.snd h
      cases hending
  | _ => exact fun h ↦ h.elim

/-- How far a worker is with a request, if these bytes of its line are still to come and the worker had
written so much before: what holds `next` holds once the reply is out, `gone` if there is none. -/
inductive Turn (hub : Hub) (reply : Message) (start rest : List UInt8) (next gone : Prop)
    (w : Worker) : Prop where
  /-- The line is not there yet. -/
  | waiting (hrest : rest ≠ []) (hwritten : w.written = start) (hresult : w.result? = none)
  /-- These bytes of the reply are still to be written. -/
  | replying (left : List UInt8) (hwritten : w.written ++ left = start ++ reply.bytes)
      (hended : ∀ result, w.result? = some result → left = [])
      (hstuck : rest = [] → w.step hub = none → left = []) (hnext : left = [] → next)
  /-- The line is not accepted. -/
  | refusing (hwritten : w.written = start) (hgone : gone)

/-- A worker that owes the rest of a response is replying. -/
theorem Owes.replying {ending : Option Result} {all done acts : List Deed} {reply : Message}
    {start rest : List UInt8} {next gone : Prop} (h : w.Owes d username [] (left, ending))
    (hhealthy : Connection.Healthy w.connection.stream) (hreply : all = acts ++ sends reply)
    (hacts : acts.filterMap Deed.byte? = [])
    (hsplit : all = done ++ left) (hwritten : w.written = start ++ done.filterMap Deed.byte?)
    (hnext : left = [] → next) : w.Turn hub reply start rest next gone := by
  have hbytes := congrArg (List.filterMap Deed.byte?) (hreply.symm.trans hsplit)
  rw [List.filterMap_append, List.filterMap_append, hacts, List.nil_append,
    filterMap_byte?_sends] at hbytes
  refine .replying (left.filterMap Deed.byte?) ?_ ?_ ?_ fun hnone ↦ hnext ?_
  · rw [hwritten, hbytes, List.append_assoc]
  · intro result hresult
    cases hcontrol : w.control with
    | ended other =>
        simp only [Owes, hcontrol] at h
        rw [(Prod.mk.inj h).1]
        rfl
    | _ => simp [result?, hcontrol] at hresult
  · intro _ hstep
    rw [(Prod.mk.inj (h.of_step_eq_none hhealthy hstep)).1]
    rfl
  · exact eq_nil_of_no_byte (hreply.symm.trans hsplit) hnone

/-- A worker waits for a message of which nothing is there that it could judge. -/
def Waits (more : List Arrival) (w : Worker) : Prop :=
  ∃ await, w.control = .receive await ∧ (w.connection.feed more).transcript = ([], none)

/-- A worker that waits for a message goes on waiting, and writes nothing. -/
theorem Step.waits (h : Step hub w hub' w') (hw : w.Waits more) :
    w'.Waits more ∧ w'.written = w.written := by
  obtain ⟨await, hcontrol, hinput⟩ := hw
  cases h with
  | input _ connection _ hstep =>
      rw [Connection.transcript_feed_of_more hstep] at hinput
      exact ⟨⟨await, hcontrol, hinput⟩, written_of_receiveStep hstep⟩
  | loginFailed _ _ _ hstep | joinFailed _ _ _ hstep | commandFailed _ _ _ _ hstep =>
      rw [Connection.transcript_feed_of_error hstep] at hinput
      cases hinput
  | loginRefused _ _ _ _ hstep | loginAccepted _ _ _ _ hstep | joinRefused _ _ _ _ hstep
  | joinAccepted _ _ _ hstep | commandRefused _ _ _ _ _ hstep | joinCommand _ _ _ _ hstep
  | sendCommand _ _ _ _ hstep | leaveCommand _ _ _ _ hstep | quitCommand _ _ _ _ hstep =>
      rw [Connection.transcript_feed_of_ok hstep] at hinput
      cases hinput
  | _ => simp [hcontrol] at *

/-- What comes in was among what was to come. -/
theorem Waits.cue {cue : Cue} (h : w.Waits (Connection.brought cue ++ more)) :
    (w.cue cue).Waits more := by
  obtain ⟨await, hcontrol, hinput⟩ := h
  exact ⟨await, hcontrol, (w.connection.alike_cue cue more).transcript.trans hinput⟩

/-- A session that is refused at its login gets no name. -/
theorem Step.unnamed {sure : Prop} {reply : Message} {result : Result} (h : Step hub w hub' w')
    (hw : w.Dismissed sure more [reply] result) : w'.session.username = w.session.username := by
  cases h with
  | loginAccepted connection m role hcontrol hstep hrole hname =>
      simp only [Dismissed, hcontrol, Connection.transcript_feed_of_ok hstep more] at hw
      have hnone : loginRefusal? m = none := by simp [loginRefusal?, hrole, hname]
      obtain ⟨-, _, htwo, -⟩ := turnedAway?_of_accepted hnone hw.2.2
      cases htwo
  | loginFailed | loginRefused | joinFailed | joinRefused => rfl
  | input | output | close => rfl
  | sent => rw [session_onSent]; rfl
  | unsent => rw [session_onUnsent]
  | _ => simp [Dismissed, *] at hw

/-- A session that is refused at its login is replying with the reason. -/
theorem Dismissed.replying {reply : Message} {result : Result} {rest : List UInt8}
    {next gone : Prop} (h : w.Dismissed True more [reply] result)
    (hhealthy : Connection.Healthy w.connection.stream) (hmore : rest = [] → more = [])
    (hnext : next) : w.Turn hub reply [] rest next gone := by
  obtain ⟨⟨left, hleft⟩, hparted⟩ := h.outcome
  rw [List.flatMap_singleton] at hleft
  have hnothing {given : Result} (hgiven : w.result? = some given) : left = [] := by
    have hall := ((hparted given hgiven).all trivial).2
    rw [List.flatMap_singleton] at hall
    rw [hall] at hleft
    exact List.append_right_eq_self.mp hleft
  refine .replying left ?_ (fun _ ↦ hnothing) (fun hrest hstep ↦ ?_) fun _ ↦ hnext
  · rw [hleft, List.nil_append]
  · rw [hmore hrest] at h
    obtain ⟨given, hgiven⟩ := h.result_of_step_eq_none hstep (isStalled_eq_false hhealthy.responsive)
    exact hnothing hgiven

end Worker

namespace System

variable {s : System} {k : Nat} {w : Worker} {username : String} {room : Option String}
  {actions : List Action}

/-- Where the same deeds come first whatever comes in later, the worker does them and goes on with what
comes in. -/
theorem serves_all (hw : s.workers[k]? = some w) (hhealthy : WritesSucceed k s actions)
    (husername : usernameRefusal? username = none) {all : List Deed} {ending : Option Result}
    {later : List Arrival → List Deed × Option Result} {heading : List Arrival → Option String}
    (h : ∀ more, w.Serves s.hub.directory username (actions.flatMap (·.arrivals k) ++ more)
      (andThen all (later more)) (heading more))
    (hnow : later [] = ([], ending)) :
    ∃ v left, (s.run actions).workers[k]? = some v ∧ all = deeds k s actions ++ left ∧
      v.Owes (s.run actions).hub.directory username [] (left, ending) ∧
      (left = [] → ∀ more,
        v.Serves (s.run actions).hub.directory username more (later more) (heading more)) := by
  obtain ⟨v, owed, hv, howed, hserves⟩ := serves_run hw actions hhealthy husername (h [])
  rw [hnow] at howed
  obtain ⟨hdeeds, hending⟩ := Prod.mk.inj howed
  rw [List.append_nil] at hdeeds
  obtain ⟨left, given⟩ := owed
  obtain rfl : ending = given := hending
  refine ⟨v, left, hv, hdeeds, hserves.owes, fun hnone more ↦ ?_⟩
  subst hnone
  obtain ⟨u, owed, hu, howed', hserves'⟩ := serves_run hw actions hhealthy husername (h more)
  obtain rfl := Option.some.inj (hu.symm.trans hv)
  obtain ⟨hdeeds', hending'⟩ := Prod.mk.inj howed'
  rw [hdeeds, List.append_nil] at hdeeds'
  have hsame : later more = owed := Prod.ext (List.append_cancel_left hdeeds') hending'
  exact hsame ▸ hserves'

/-- Left to itself, the worker in this place comes to rest. -/
def Settles (s : System) (k : Nat) : Prop :=
  ∃ n, (s.run (List.replicate n (.work k))).work? k = none

/-- A session that is over stays over, and its worker writes nothing. -/
theorem over_run (hw : s.workers[k]? = some w) (hhealthy : WritesSucceed k s actions)
    (husername : usernameRefusal? username = none)
    (h : w.Over s.hub.directory username room) :
    ∃ v, (s.run actions).workers[k]? = some v ∧ v.written = w.written ∧
      v.Over (s.run actions).hub.directory username room := by
  obtain ⟨result, hserves⟩ := h
  have hall (more : List Arrival) : w.Serves s.hub.directory username
      (actions.flatMap (·.arrivals k) ++ more) (andThen [] ([], some result)) room :=
    hserves _
  obtain ⟨v, left, hv, hsplit, -, hnext⟩ := serves_all hw hhealthy husername hall rfl
  obtain ⟨hdone, hleft⟩ := List.append_eq_nil_iff.mp hsplit.symm
  obtain ⟨u, hu, hwritten⟩ := written_run hw actions
  obtain rfl := Option.some.inj (hu.symm.trans hv)
  refine ⟨u, hu, ?_, result, hnext hleft⟩
  rw [hwritten, hdone, List.filterMap_nil, List.append_nil]

/-- A ready worker that gets nothing stays ready, and writes nothing. -/
theorem ready_run (hw : s.workers[k]? = some w) (hhealthy : WritesSucceed k s actions)
    (husername : usernameRefusal? username = none)
    (hready : w.Ready s.hub.directory username room)
    (hnothing : actions.flatMap (·.arrivals k) = []) :
    ∃ v, (s.run actions).workers[k]? = some v ∧ v.written = w.written ∧
      v.Ready (s.run actions).hub.directory username room := by
  have hall (more : List Arrival) : w.Serves s.hub.directory username
      (actions.flatMap (·.arrivals k) ++ more)
      (andThen [] (dialogue username room (script more).1 (script more).2))
      (finalRoom username room (script more).1) := by
    rw [hnothing]
    exact hready more
  have hnow : dialogue username room (script []).1 (script []).2 = ([], none) := by
    rw [script_nil]
    rfl
  obtain ⟨v, left, hv, hsplit, -, hnext⟩ := serves_all hw hhealthy husername hall hnow
  obtain ⟨hdone, hleft⟩ := List.append_eq_nil_iff.mp hsplit.symm
  obtain ⟨u, hu, hwritten⟩ := written_run hw actions
  obtain rfl := Option.some.inj (hu.symm.trans hv)
  refine ⟨u, hu, ?_, hnext hleft⟩
  rw [hwritten, hdone, List.filterMap_nil, List.append_nil]

/-- What comes of a publisher's worker by a message of this kind. -/
def Sequel (d : Directory) (username : String) (room : Option String) (m : Message)
    (v : Worker) : Prop :=
  if m.tag = .quit then v.Over d username room
  else v.Ready d username (response username room m).2

/-- A ready worker takes its turn with a message of which some has come in. -/
theorem command_turn (hw : s.workers[k]? = some w) (hhealthy : WritesSucceed k s actions)
    (husername : usernameRefusal? username = none)
    (hready : w.Ready s.hub.directory username room) {m : Message} {rest : List UInt8}
    (hcame : Came m (actions.flatMap (·.arrivals k)) rest)
    (hend : Arrival.finish ∈ actions.flatMap (·.arrivals k) → m.tag = .quit)
    {acts : List Deed} {reply : Message} (hreply : (response username room m).1 = acts ++ sends reply)
    (hacts : acts.filterMap Deed.byte? = []) :
    ∃ v, (s.run actions).workers[k]? = some v ∧
      v.Turn (s.run actions).hub reply w.written rest
        (rest = [] ∧ m.Valid ∧ Sequel (s.run actions).hub.directory username room m v)
        (maxPayload < size m.payload ∧ v.Over (s.run actions).hub.directory username room) ∧
      ∃ owed, v.Owes (s.run actions).hub.directory username [] owed := by
  obtain ⟨u, hu, hwritten⟩ := written_run hw actions
  cases hcame with
  | partly hrest hscript =>
      have hserves := hready (actions.flatMap (·.arrivals k))
      rw [hscript, ← List.append_nil (actions.flatMap _)] at hserves
      obtain ⟨v, owed, hv, howed, hserves'⟩ := serves_run hw actions hhealthy husername hserves
      obtain rfl := Option.some.inj (hu.symm.trans hv)
      obtain ⟨hdeeds, hending⟩ := Prod.mk.inj howed
      obtain ⟨hdone, hleft⟩ := List.append_eq_nil_iff.mp hdeeds.symm
      obtain rfl : owed = ([], none) := Prod.ext hleft hending.symm
      refine ⟨u, hv, .waiting hrest ?_ hserves'.owes.result?_eq_none, _, hserves'.owes⟩
      rw [hwritten, hdone, List.filterMap_nil, List.append_nil]
  | refused violation hlong hscript =>
      have hall (more : List Arrival) : w.Serves s.hub.directory username
          (actions.flatMap (·.arrivals k) ++ more)
          (andThen [] ([], some (.error (.protocol violation)))) room := by
        have hserves := hready (actions.flatMap (·.arrivals k) ++ more)
        rw [hscript] at hserves
        exact hserves
      obtain ⟨v, left, hv, hsplit, howes, hnext⟩ := serves_all hw hhealthy husername hall rfl
      obtain rfl := Option.some.inj (hu.symm.trans hv)
      obtain ⟨hdone, hleft⟩ := List.append_eq_nil_iff.mp hsplit.symm
      refine ⟨u, hv, .refusing ?_ ⟨hlong, _, hnext hleft⟩, _, howes⟩
      rw [hwritten, hdone, List.filterMap_nil, List.append_nil]
  | whole hrest hvalid hscript =>
      by_cases hquit : m.tag = .quit
      · -- what comes in behind a quit makes no difference
        have hall (more : List Arrival) : w.Serves s.hub.directory username
            (actions.flatMap (·.arrivals k) ++ more)
            (andThen (response username room m).1 ([], some (.ok ()))) room := by
          have hserves := hready (actions.flatMap (·.arrivals k) ++ more)
          obtain ⟨later, ending, hbrought, -⟩ := hscript more
          rw [hbrought, dialogue, if_pos hquit, finalRoom, if_pos hquit] at hserves
          rwa [andThen, List.append_nil]
        obtain ⟨v, left, hv, hsplit, howes, hnext⟩ := serves_all hw hhealthy husername hall rfl
        obtain rfl := Option.some.inj (hu.symm.trans hv)
        refine ⟨u, hv, howes.replying (hhealthy.last hv) hreply hacts hsplit hwritten fun hleft ↦ ?_, _,
          howes⟩
        refine ⟨hrest, hvalid, ?_⟩
        rw [Sequel, if_pos hquit]
        exact ⟨_, hnext hleft⟩
      · have hall (more : List Arrival) : w.Serves s.hub.directory username
            (actions.flatMap (·.arrivals k) ++ more)
            (andThen (response username room m).1
              (dialogue username (response username room m).2 (script more).1 (script more).2))
            (finalRoom username (response username room m).2 (script more).1) := by
          have hserves := hready (actions.flatMap (·.arrivals k) ++ more)
          obtain ⟨later, ending, hbrought, hsame⟩ := hscript more
          rw [hbrought, dialogue_of_ne_quit hquit, finalRoom_of_ne_quit hquit] at hserves
          rw [← hsame (mt hend hquit)]
          exact hserves
        have hnow : dialogue username (response username room m).2 (script []).1 (script []).2 =
            ([], none) := by
          rw [script_nil]
          rfl
        obtain ⟨v, left, hv, hsplit, howes, hnext⟩ := serves_all hw hhealthy husername hall hnow
        obtain rfl := Option.some.inj (hu.symm.trans hv)
        refine ⟨u, hv, howes.replying (hhealthy.last hv) hreply hacts hsplit hwritten fun hleft ↦ ?_, _,
          howes⟩
        refine ⟨hrest, hvalid, ?_⟩
        rw [Sequel, if_neg hquit]
        exact hnext hleft

/-- A worker that waits for a message goes on waiting through a run, and writes nothing. -/
theorem waits_run (hw : s.workers[k]? = some w) (actions : List Action) {more : List Arrival}
    (h : w.Waits (actions.flatMap (·.arrivals k) ++ more)) :
    ∃ v, (s.run actions).workers[k]? = some v ∧ v.Waits more ∧ v.written = w.written := by
  induction actions generalizing s w with
  | nil => exact ⟨w, hw, h, rfl⟩
  | cons action rest ih =>
      rw [List.flatMap_cons, List.append_assoc] at h
      suffices ∃ u, (s.act action).workers[k]? = some u ∧
          u.Waits (rest.flatMap (·.arrivals k) ++ more) ∧ u.written = w.written by
        obtain ⟨u, hu, hwaits, hwritten⟩ := this
        obtain ⟨v, hv, hlast, hrest⟩ := ih hu hwaits
        exact ⟨v, hv, hlast, hrest.trans hwritten⟩
      cases fate hw action with
      | kept _ hcue hsame =>
          rw [arrivals_of_ne hcue, List.nil_append] at h
          exact ⟨w, hsame, h, rfl⟩
      | cued cue haction hcue =>
          subst haction
          have harrivals : (Action.cue k cue).arrivals k = Connection.brought cue := if_pos rfl
          rw [harrivals] at h
          refine ⟨w.cue cue, hcue, h.cue, ?_⟩
          cases cue <;> rfl
      | stuck haction _ hsame =>
          subst haction
          exact ⟨w, by rw [hsame]; exact hw, h, rfl⟩
      | stepped hub v haction hstep hafter =>
          subst haction
          obtain ⟨hwaits, hwritten⟩ := (Worker.step_sound hstep).waits h
          rw [hafter]
          exact ⟨v, getElem?_set_self hw v, hwaits, hwritten⟩

/-! ## Logins -/

/-- What a new worker's connection brings is the script. -/
theorem transcript_of_fresh (hfresh : w.Fresh) (harrivals : w.connection.stream.arrivals = [])
    (arrivals : List Arrival) : (w.connection.feed arrivals).transcript = script arrivals :=
  transcript_feed_eq_script hfresh.isOpen hfresh.buffer harrivals arrivals

/-- A new worker takes its turn with a login that it accepts. -/
theorem accepted_turn (hw : s.workers[k]? = some w) (hhealthy : WritesSucceed k s actions)
    (husername : usernameRefusal? username = none) (hfresh : w.Fresh)
    (harrivals : w.connection.stream.arrivals = []) {rest : List UInt8}
    (hshort : size username ≤ maxPayload)
    (hcame : Came ⟨.slogin, username⟩ (actions.flatMap (·.arrivals k)) rest)
    (hend : Arrival.finish ∉ actions.flatMap (·.arrivals k)) :
    ∃ v, (s.run actions).workers[k]? = some v ∧
      v.Turn (s.run actions).hub .ok w.written rest
        (rest = [] ∧ v.Ready (s.run actions).hub.directory username none) False ∧
      (rest = [] → ∃ owed, v.Owes (s.run actions).hub.directory username [] owed) := by
  have hinput := transcript_of_fresh hfresh harrivals
  cases hcame with
  | partly hrest hscript =>
      have hwaits : w.Waits (actions.flatMap (·.arrivals k) ++ []) := by
        refine ⟨.login, hfresh.control, ?_⟩
        rw [List.append_nil, hinput, hscript]
      obtain ⟨v, hv, ⟨await, hcontrol, -⟩, hwritten⟩ := waits_run hw actions hwaits
      refine ⟨v, hv, .waiting hrest hwritten ?_, fun hnil ↦ absurd hnil hrest⟩
      simp [Worker.result?, hcontrol]
  | refused violation hlong => exact absurd hshort (Nat.not_le_of_lt hlong)
  | whole hrest hvalid hscript =>
      have hall (more : List Arrival) : w.Serves s.hub.directory username
          (actions.flatMap (·.arrivals k) ++ more)
          (andThen (sends .ok) (dialogue username none (script more).1 (script more).2))
          (finalRoom username none (script more).1) := by
        obtain ⟨later, ending, hbrought, hsame⟩ := hscript more
        have hfed := (hinput _).trans hbrought
        rw [← hsame hend]
        refine ⟨hfresh.owes hfed, ?_⟩
        simp only [Worker.HeadsFor, hfresh.control, hfed]
        exact ⟨by rw [hfresh.session], later, rfl, rfl⟩
      have hnow : dialogue username none (script []).1 (script []).2 = ([], none) := by
        rw [script_nil]
        rfl
      obtain ⟨v, left, hv, hsplit, howes, hnext⟩ := serves_all hw hhealthy husername hall hnow
      obtain ⟨u, hu, hwritten⟩ := written_run hw actions
      obtain rfl := Option.some.inj (hu.symm.trans hv)
      exact ⟨u, hv, howes.replying (hhealthy.last hv) (List.nil_append _).symm rfl hsplit hwritten
        fun hleft ↦ ⟨hrest, hnext hleft⟩, fun _ ↦ ⟨_, howes⟩⟩

/-- Whatever an action is, a session that is refused at its login gets no name by it. -/
theorem unnamed_act {sure : Prop} (hw : s.workers[k]? = some w) (action : Action)
    (hsure : sure → Connection.Healthy w.connection.stream) {more : List Arrival} {reply : Message}
    {result : Result} (h : w.Dismissed sure (action.arrivals k ++ more) [reply] result) :
    ∃ v, (s.act action).workers[k]? = some v ∧ v.Dismissed sure more [reply] result ∧
      v.session.username = w.session.username := by
  obtain ⟨v, hv, hdismissed⟩ := dismissed_act hw action hsure h
  refine ⟨v, hv, hdismissed, ?_⟩
  cases fate hw action with
  | kept _ _ hsame =>
      obtain rfl := Option.some.inj (hv.symm.trans hsame)
      rfl
  | cued cue _ hcue =>
      obtain rfl := Option.some.inj (hv.symm.trans hcue)
      rfl
  | stuck _ _ hsame =>
      rw [hsame] at hv
      obtain rfl := Option.some.inj (hv.symm.trans hw)
      rfl
  | stepped hub u _ hstep hafter =>
      rw [hafter] at hv
      obtain rfl := Option.some.inj (hv.symm.trans (getElem?_set_self hw u))
      exact (Worker.step_sound hstep).unnamed h

/-- Whatever happens in a run, a session that is refused at its login gets no name. -/
theorem unnamed_run {sure : Prop} (hw : s.workers[k]? = some w) (actions : List Action)
    (hsure : sure → WritesSucceed k s actions) {more : List Arrival} {reply : Message}
    {result : Result}
    (h : w.Dismissed sure (actions.flatMap (·.arrivals k) ++ more) [reply] result) :
    ∃ v, (s.run actions).workers[k]? = some v ∧ v.Dismissed sure more [reply] result ∧
      v.session.username = w.session.username := by
  induction actions generalizing s w with
  | nil => exact ⟨w, hw, h, rfl⟩
  | cons action rest ih =>
      rw [List.flatMap_cons, List.append_assoc] at h
      obtain ⟨u, hu, hdismissed, hname⟩ := unnamed_act hw action (fun hs ↦ (hsure hs).head hw) h
      obtain ⟨v, hv, hlast, hname'⟩ := ih hu (fun hs ↦ (hsure hs).tail) hdismissed
      exact ⟨v, hv, hlast, hname'.trans hname⟩

/-- The reason for which a login is refused, its line being there as a whole. -/
theorem exists_dismissal {arrivals : List Arrival}
    (hcame : Came ⟨.slogin, username⟩ arrivals [])
    (hrefused : size username ≤ maxPayload → usernameRefusal? username ≠ none) :
    ∃ refusal result, turnedAway? (script arrivals) = some ([Refusal.reply refusal], result) := by
  cases hcame with
  | partly hrest => exact absurd rfl hrest
  | refused violation hlong hscript =>
      have hfailed := hscript []
      rw [List.append_nil] at hfailed
      exact ⟨.invalidLogin, _, by rw [hfailed, turnedAway?_of_failure]⟩
  | whole hrest hvalid hscript =>
      obtain ⟨later, ending, hbrought, -⟩ := hscript []
      rw [List.append_nil] at hbrought
      cases hrefusal : usernameRefusal? username with
      | none => exact absurd hrefusal (hrefused hvalid.2)
      | some refusal =>
          have hlogin : loginRefusal? ⟨.slogin, username⟩ = some refusal := hrefusal
          exact ⟨refusal, _, by rw [hbrought, turnedAway?_of_refusal hlogin]⟩

/-- A worker whose session is on its way out comes to rest. -/
theorem settles_of_dismissed (hw : s.workers[k]? = some w) {replies : List Message}
    {result : Result} (h : w.Dismissed False [] replies result) : s.Settles k := by
  obtain ⟨n, last, hlast, hends⟩ := exists_ended hw h
  refine ⟨n, (work?_eq_none_iff hlast).mpr ?_⟩
  rcases hends with hstalled | ⟨given, hgiven⟩
  · exact Worker.step_eq_none_of_isStalled hstalled
  · cases hstep : last.step (s.run (List.replicate n (.work k))).hub with
    | none => rfl
    | some next =>
        rw [(Worker.step_sound hstep).result?_eq_none] at hgiven
        cases hgiven

/-- A new worker takes its turn with a login that it refuses. -/
theorem refused_turn (hw : s.workers[k]? = some w) (hhealthy : WritesSucceed k s actions)
    (hfresh : w.Fresh) (harrivals : w.connection.stream.arrivals = [])
    (hplain : Plain (actions.flatMap (·.arrivals k))) (hfree : hasTerminator username = false)
    {rest : List UInt8}
    (hbytes : Stream.unread.go (actions.flatMap (·.arrivals k)) ++ rest =
      Message.bytes ⟨.slogin, username⟩)
    (hend : Arrival.finish ∉ actions.flatMap (·.arrivals k))
    (hrefused : size username ≤ maxPayload → usernameRefusal? username ≠ none) :
    ∃ refusal v, (s.run actions).workers[k]? = some v ∧
      v.Turn (s.run actions).hub (Refusal.reply refusal) w.written rest
        (v.session.username = none) False ∧
      (rest = [] → (s.run actions).Settles k) := by
  -- the verdict depends on the bytes to come as well, so they are taken to come in one piece
  obtain ⟨more, hmore, hunread, hnone⟩ := exists_arrivals rest
  have hcame : Came ⟨.slogin, username⟩ (actions.flatMap (·.arrivals k) ++ more) [] :=
    came_whole (plain_append_iff.mpr ⟨hplain, .inr hmore⟩) hfree
      (by rw [unread_append hend, hunread, hbytes])
  obtain ⟨refusal, result, haway⟩ := exists_dismissal hcame hrefused
  rw [← transcript_of_fresh hfresh harrivals] at haway
  have hdismissed (sure : Prop) : w.Dismissed sure (actions.flatMap (·.arrivals k) ++ more)
      [refusal.reply] result :=
    hfresh.dismissed haway
  obtain ⟨v, hv, hreplying, hname⟩ := unnamed_run hw actions (fun _ ↦ hhealthy) (hdismissed True)
  obtain ⟨u, hu, hleaving, -⟩ := unnamed_run hw actions False.elim (hdismissed False)
  obtain rfl := Option.some.inj (hu.symm.trans hv)
  have hstart : w.written = [] := hfresh.written
  have hunnamed : u.session.username = none := by
    rw [hname, hfresh.session]
  refine ⟨refusal, u, hv, hstart ▸ hreplying.replying (hhealthy.last hv) hnone hunnamed,
    fun hrest ↦ ?_⟩
  rw [hnone hrest] at hleaving
  exact settles_of_dismissed hv hleaving

end System

end ChatRelay.Server
