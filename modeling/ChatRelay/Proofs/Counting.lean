import ChatRelay.Proofs.Output
import ChatRelay.Proofs.Tallies
import ChatRelay.Server.Service

/-!
# What the counters say

The counters of a server are moved in the midst of the workers' steps. `counters_tally` says what they
come to in every run: the sessions that are logged in, the broadcasts in the logs of the rooms, the
deliveries written, and, for a server that takes connections, the connections made and those of which
the worker has not ended. A text that was accepted and not yet broadcast is in no log, but no worker
waits there, so that once none of them can make a step as many texts were accepted as the logs hold.
`numbers_lt_size` says that what a session counts stays below 2^64 in every run that is shorter.
-/

namespace ChatRelay

open Transport Wire

namespace Session

/-- How many messages the session has counted. -/
def counted (s : Session) : Nat :=
  s.received + s.sent

@[simp] theorem counted_login (s : Session) (role : Role) (username : String) :
    (s.login role username).counted = s.counted := by
  unfold login
  split <;> rfl

@[simp] theorem counted_join (s : Session) (room : String) : (s.join room).counted = s.counted := by
  unfold join
  split <;> rfl

@[simp] theorem counted_leave (s : Session) : s.leave.counted = s.counted := by
  unfold leave
  split <;> rfl

@[simp] theorem counted_close (s : Session) : s.close.counted = s.counted :=
  rfl

@[simp] theorem counted_countReceived (s : Session) : s.countReceived.counted = s.counted + 1 :=
  Nat.add_right_comm s.received 1 s.sent

@[simp] theorem counted_countSent (s : Session) : s.countSent.counted = s.counted + 1 :=
  rfl

end Session

namespace Server

namespace Worker

variable {hub hub' : Hub} {w w' : Worker} {role : Role}

/-- The next step accepts a text from a publisher, to be broadcast into its room. -/
def acceptsText (hub : Hub) (w : Worker) : Bool :=
  match w.control, w.connection.receiveStep.2 with
  | .receive (.command room), .done (.ok m) =>
      m.tag == .sendall && (commandRefusal? hub w room m).isNone
  | _, _ => false

/-- The text that a turn accepts is what the next one broadcasts. -/
theorem turn_broadcasting (hub : Hub) (w : Worker) :
    (w.turn hub).2.broadcasting = w.acceptsText hub := by
  cases hstep : w.step hub with
  | none =>
      rw [turn, hstep, Option.getD_none]
      cases hcontrol : w.control with
      | receive await =>
          cases hreceive : w.connection.receiveStep with
          | mk connection went =>
              cases went with
              | waiting => simp only [broadcasting, acceptsText, hcontrol, hreceive]
              | more | done => simp [step, hcontrol, hreceive] at hstep
      | broadcast => simp [step, hcontrol] at hstep
      | _ => simp only [broadcasting, acceptsText, hcontrol]
  | some next =>
      obtain ⟨hub', w'⟩ := next
      rw [turn, hstep, Option.getD_some]
      have hsound := step_sound hstep
      cases hsound with
      | sendCommand target connection text hcontrol hreceive hshort =>
          simp [broadcasting, acceptsText, hcontrol, hreceive, commandRefusal?, hshort]
      | commandRefused room connection m refusal hcontrol hreceive hrefusal =>
          simp [broadcasting, acceptsText, hcontrol, hreceive, hrefusal]
      | sent rest after connection hcontrol =>
          cases after with
          | loggedIn role =>
              cases role <;> simp only [broadcasting, acceptsText, hcontrol, onSent, control_goTo]
          | _ => simp only [broadcasting, acceptsText, hcontrol, onSent, control_goTo]
      | unsent rest after connection failure hcontrol =>
          cases after <;>
            simp only [broadcasting, acceptsText, hcontrol, onUnsent, control_goTo]
      | input await connection hcontrol hreceive =>
          simp [broadcasting, acceptsText, hcontrol, hreceive]
      | _ => simp [broadcasting, acceptsText, *]

/-- Broadcasts are counted where they are made. -/
theorem turn_broadcasts (hw : w.Lawful hub.directory) :
    (w.turn hub).1.counters.broadcasts =
      hub.counters.broadcasts + .ofNat (if w.broadcasting then 1 else 0) := by
  cases turn_tallied hw with
  | nothing hquiet hcounters | delivery hquiet hcounters =>
      rw [hquiet, hcounters]
      exact (UInt64.add_zero _).symm
  | login role hquiet _ _ hcounters =>
      rw [hquiet, hcounters]
      cases role <;> exact (UInt64.add_zero _).symm
  | broadcast hloud hcounters =>
      rw [hloud, hcounters]
      rfl
  | close hquiet _ hcounters =>
      rw [hquiet, hcounters]
      split <;> exact (UInt64.add_zero _).symm

/-- A role is got by the login that is accepted, and kept. -/
theorem Step.role_iff (h : Step hub w hub' w') (hw : w.Lawful hub.directory) :
    w'.session.role = some role ↔ w.session.role = some role ∨ w.LogsIn role := by
  have hlogsIn (haccepts : w.LogsIn role) : w'.session.role = some role := by
    refine haccepts.role_eq h ?_
    simp only [Lawful, haccepts.control] at hw
    exact hw.phase
  have hkept (hrole : w'.session.role = w.session.role) :
      w'.session.role = some role ↔ w.session.role = some role ∨ w.LogsIn role := by
    rw [hrole]
    exact ⟨.inl, fun hnow ↦ hnow.elim id fun haccepts ↦ hrole ▸ hlogsIn haccepts⟩
  cases h.tallied hw with
  | nothing _ _ hshare | broadcast _ _ hshare | delivery _ _ hshare | close _ _ _ hshare =>
      exact hkept (congrArg Share.role hshare)
  | login other _ haccepts hnone _ hshare =>
      have hrole : w'.session.role = some other := congrArg Share.role hshare
      have hnone : w.session.role = none := hnone
      simp only [hrole, hnone, Option.some.injEq, reduceCtorEq, false_or]
      constructor
      · intro hsame
        exact hsame ▸ haccepts
      · intro haccepts
        exact Option.some.inj (hrole.symm.trans (hlogsIn haccepts))

end Worker

/-- A step counts one message at most. -/
theorem Worker.Step.counted_le {hub hub' : Hub} {w w' : Worker} (h : Worker.Step hub w hub' w') :
    w'.session.counted ≤ w.session.counted + 1 := by
  cases h <;> simp

/-- A connection is made. -/
def Action.connects : Action → Bool
  | .connect _ _ => true
  | _ => false

namespace System

variable {s t : System} {k : Nat} {role : Role}

/-! ## Which sessions are logged in -/

/-- The session in this place is logged in with this role. -/
def LoggedIn (s : System) (k : Nat) (role : Role) : Prop :=
  ∃ w, s.workers[k]? = some w ∧ w.session.role = some role

theorem loggedIn_iff {w : Worker} (hw : s.workers[k]? = some w) :
    s.LoggedIn k role ↔ w.session.role = some role := by
  simp only [LoggedIn, hw, Option.some.injEq, exists_eq_left']

/-- After an action those are logged in that were so before it or whose login it accepts. -/
theorem loggedIn_act (hlawful : s.Everywhere Worker.Lawful) (action : Action) :
    (s.act action).LoggedIn k role ↔
      s.LoggedIn k role ∨ action = .work k ∧ ∃ w, s.workers[k]? = some w ∧ w.LogsIn role := by
  cases hw : s.workers[k]? with
  | none =>
      have hafter : ¬(s.act action).LoggedIn k role := by
        intro ⟨v, hv, hrole⟩
        rcases exists_worker_before hv with ⟨w, hbefore⟩ | ⟨hnew, -⟩
        · exact nomatch hw.symm.trans hbefore
        · rw [hnew.session] at hrole
          cases hrole
      rw [iff_false_left hafter]
      simp [LoggedIn, hw]
  | some w =>
      simp only [loggedIn_iff hw, Option.some.injEq, exists_eq_left']
      cases fate hw action with
      | kept hwork _ hsame => simp only [loggedIn_iff hsame, hwork, false_and, or_false]
      | cued cue hcue hafter =>
          rw [loggedIn_iff hafter, hcue]
          exact (or_iff_left nofun).symm
      | stuck hwork hnone hsame =>
          -- an accepted login is a step
          have hrefused : ¬w.LogsIn role := by
            intro ⟨hcontrol, connection, m, hreceive, _⟩
            simp [Worker.step, hcontrol, hreceive] at hnone
          simp only [hsame, loggedIn_iff hw, hrefused, and_false, or_false]
      | stepped hub w' hwork hstep hafter =>
          have hw' : (s.act action).workers[k]? = some w' := by
            rw [hafter]
            exact getElem?_set_self hw w'
          rw [loggedIn_iff hw', (Worker.step_sound hstep).role_iff (hlawful k w hw),
            and_iff_right hwork]

/-- After a run those are logged in that were so before it or whose login it accepts. -/
theorem loggedIn_run (hplaced : s.Placed) (hlawful : s.Everywhere Worker.Lawful)
    (actions : List Action) :
    (s.run actions).LoggedIn k role ↔
      s.LoggedIn k role ∨ Happens (Worker.LogsIn role) k s actions := by
  induction actions generalizing s with
  | nil => exact (or_iff_left id).symm
  | cons action rest ih =>
      rw [run_cons, ih (hplaced.act action) (lasting_lawful.act hplaced hlawful action),
        loggedIn_act hlawful, or_assoc]
      rfl

/-! ## How many texts are broadcast -/

/-- How often something is so of the next action in a run. -/
def occurrences (p : System → Action → Bool) : System → List Action → Nat
  | _, [] => 0
  | s, action :: rest => (if p s action then 1 else 0) + occurrences p (s.act action) rest

/-- The action accepts a text from a publisher. -/
def acceptsText (s : System) : Action → Bool
  | .work k => (s.workers[k]?.map (·.acceptsText s.hub)).getD false
  | _ => false

/-- The action broadcasts a text into a room. -/
def broadcasts (s : System) (action : Action) : Bool :=
  (s.broadcastOf? action).isSome

/-- How many texts are accepted and not yet broadcast. -/
def pending (s : System) : Nat :=
  total (fun w ↦ if w.broadcasting then 1 else 0) s.workers

theorem broadcasts_work {w : Worker} (hw : s.workers[k]? = some w) :
    s.broadcasts (.work k) = w.broadcasting := by
  simp only [broadcasts, broadcastOf?, hw, Worker.broadcasting]
  cases w.control <;> rfl

theorem broadcasts_eq_false {action : Action} (hsource : NoDirect [action])
    (hwork : ∀ k, action ≠ .work k) : s.broadcasts action = false := by
  cases action with
  | work k => exact absurd rfl (hwork k)
  | broadcast room sender text => exact absurd List.mem_cons_self (hsource room sender text)
  | _ => rfl

/-- What is accepted is pending until it is broadcast. -/
theorem pending_act {action : Action} (hsource : NoDirect [action]) :
    (if s.acceptsText action then 1 else 0) + s.pending =
      (s.act action).pending + if s.broadcasts action then 1 else 0 := by
  cases action with
  | work k =>
      cases hw : s.workers[k]? with
      | none => simp [act_work_of_none s hw, acceptsText, broadcasts, broadcastOf?, hw]
      | some w =>
          have haccepts : s.acceptsText (.work k) = (w.turn s.hub).2.broadcasting := by
            rw [Worker.turn_broadcasting, acceptsText, hw]
            rfl
          have hset := total_set (q := fun w ↦ if w.broadcasting then 1 else 0) hw (w.turn s.hub).2
          rw [haccepts, broadcasts_work hw, act_work s hw]
          exact (Nat.add_comm _ _).trans hset.symm
  | connect pace counted =>
      rw [broadcasts_eq_false hsource (by simp)]
      simp [pending, act, connect, acceptsText, total_append, total, Worker.broadcasting]
  | cue k cue =>
      rw [broadcasts_eq_false hsource (by simp)]
      have hkept : (s.act (.cue k cue)).pending = s.pending := by
        refine total_modify ?_ s.workers k
        intro w
        rfl
      rw [hkept]
      exact Nat.add_comm _ _
  | broadcast room sender text => exact absurd List.mem_cons_self (hsource room sender text)
  | setClosing | pass => exact Nat.add_comm _ _

/-- The counter moves by one at each broadcast. -/
theorem counted_broadcasts_act (hlawful : s.Everywhere Worker.Lawful) {action : Action}
    (hsource : NoDirect [action]) :
    (s.act action).hub.counters.broadcasts =
      s.hub.counters.broadcasts + .ofNat (if s.broadcasts action then 1 else 0) := by
  by_cases hwork : ∃ k, action = .work k
  · obtain ⟨k, rfl⟩ := hwork
    cases hw : s.workers[k]? with
    | none => simp [act_work_of_none s hw, broadcasts, broadcastOf?, hw]
    | some w =>
        rw [act_work s hw, broadcasts_work hw]
        exact Worker.turn_broadcasts (hlawful k w hw)
  · rw [broadcasts_eq_false hsource (by simpa using hwork)]
    cases action with
    | work k => exact absurd ⟨k, rfl⟩ hwork
    | connect pace counted => cases counted <;> exact (UInt64.add_zero _).symm
    | broadcast room sender text => exact absurd List.mem_cons_self (hsource room sender text)
    | cue | setClosing | pass => exact (UInt64.add_zero _).symm

/-- In a run as many texts are broadcast as were accepted, but for those still pending. -/
theorem pending_run {actions : List Action} (hsource : NoDirect actions) :
    occurrences acceptsText s actions + s.pending =
      (s.run actions).pending + occurrences broadcasts s actions := by
  induction actions generalizing s with
  | nil => exact Nat.add_comm _ _
  | cons action rest ih =>
      have hfirst := s.pending_act hsource.head
      have hrest := ih (s := s.act action) hsource.tail
      simp only [occurrences, run_cons]
      omega

theorem counted_broadcasts_run (hplaced : s.Placed) (hlawful : s.Everywhere Worker.Lawful)
    {actions : List Action} (hsource : NoDirect actions) :
    (s.run actions).hub.counters.broadcasts =
      s.hub.counters.broadcasts + .ofNat (occurrences broadcasts s actions) := by
  induction actions generalizing s with
  | nil => exact (UInt64.add_zero _).symm
  | cons action rest ih =>
      rw [run_cons, ih (hplaced.act action) (lasting_lawful.act hplaced hlawful action) hsource.tail,
        counted_broadcasts_act hlawful hsource.head, UInt64.add_assoc, ← UInt64.ofNat_add]
      rfl

/-- No worker waits with a text still to be broadcast. -/
theorem Idle.pending_eq (h : s.Idle) : s.pending = 0 := by
  refine total_eq_zero fun w hmem ↦ ?_
  obtain ⟨k, hw⟩ := List.mem_iff_getElem?.mp hmem
  have hnone := h.step_eq_none hw
  cases hcontrol : w.control with
  | broadcast => simp [Worker.step, hcontrol] at hnone
  | _ => simp [Worker.broadcasting, hcontrol]

/-- Each broadcast is in the log of one of the rooms. -/
theorem length_entries (action : Action) {n : Nat}
    (hroom : ∀ room delivery, s.broadcastOf? action = some (room, delivery) → room < n) :
    total (fun room ↦ (s.entry room action).length) (List.range n) =
      if s.broadcasts action then 1 else 0 := by
  cases hheard : s.broadcastOf? action with
  | none =>
      simp only [entry, broadcasts, hheard]
      exact total_eq_zero fun _ _ ↦ rfl
  | some heard =>
      obtain ⟨target, delivery⟩ := heard
      have hlt := hroom target delivery hheard
      have hlength : (fun room ↦ (s.entry room action).length) =
          fun room ↦ if room == target then 1 else 0 := by
        funext room
        simp only [entry, hheard, beq_iff_eq, eq_comm (a := target)]
        split <;> rfl
      rw [hlength, total_ite, broadcasts, hheard]
      change (List.range n).count target = 1
      rw [List.nodup_range.count, if_pos (List.mem_range.mpr hlt)]

/-- How many broadcasts the logs of all rooms have together. -/
def logged (s : System) (actions : List Action) : Nat :=
  total (fun room ↦ (log room s actions).length)
    (List.range (s.run actions).hub.directory.rooms.length)

/-- The logs of the rooms have all that was broadcast. -/
theorem logged_eq (hplaced : s.Placed) (hnamed : s.Everywhere fun d w ↦ w.Lawful d ∧ w.Named d)
    {actions : List Action} (hsource : NoDirect actions) :
    s.logged actions = occurrences broadcasts s actions := by
  induction actions generalizing s with
  | nil => exact total_eq_zero fun _ _ ↦ rfl
  | cons action rest ih =>
      have hrest := ih (hplaced.act action) (lasting_named.act hplaced hnamed action) hsource.tail
      have hgrows := s.grows_run (action :: rest)
      have hfirst := s.length_entries action
        (n := (s.run (action :: rest)).hub.directory.rooms.length) fun room delivery hheard ↦
          Nat.lt_of_lt_of_le (sendable_of_action hnamed hsource.head hheard).1 hgrows.length_le
      simp only [logged, log, List.length_append, total_add, occurrences, hfirst]
      rw [← hrest, logged, run_cons]

/-! ## What is written to those who joined -/

/-- What was sent to a subscriber that has joined, after the replies to its login and its join, is
deliveries. -/
theorem Voiced.deliveries {failed : Nat → Prop} (h : s.Voiced failed) {w : Worker}
    (hw : s.workers[k]? = some w) (hjoined : w.hasJoined = true) :
    ∃ (deliveries : List Message) (current : Option Message) (torn : List UInt8),
      deliveries.length = w.session.sent - 2 ∧ (∀ m ∈ deliveries, IsDelivery m) ∧
      w.written = confirmations ++ lines deliveries ++ torn ∧ torn <+: lines current.toList := by
  obtain ⟨name, hrole, hroom, hsent⟩ := Worker.hasJoined_iff.mp hjoined
  obtain ⟨said, current, torn, htold⟩ := (h.voice k w hw).told (h.named k w hw).1
  rcases htold.speech with ⟨-, hroomless⟩ | ⟨-, deliveries, hsaid, hdeliveries⟩
  · exact nomatch (hroomless hrole).symm.trans hroom
  · have htwo : 2 ≤ said.length := htold.sent ▸ hsent
    obtain ⟨first, second, rest, rfl⟩ : ∃ first second rest, said = first :: second :: rest := by
      rcases said with _ | ⟨first, _ | ⟨second, rest⟩⟩
      · simp at htwo
      · simp at htwo
      · exact ⟨first, second, rest, rfl⟩
    simp only [List.cons_append, List.cons.injEq] at hsaid
    obtain ⟨rfl, rfl, rfl⟩ := hsaid
    refine ⟨rest, current, torn, ?_, fun m hm ↦ hdeliveries m (List.mem_append_left _ hm), ?_,
      htold.beginning⟩
    · rw [htold.sent]
      rfl
    · rw [htold.written]
      rfl

/-! ## The counters in every run -/

theorem Initial.total_shares (h : s.Initial) {quantity : Share → Nat}
    (hfresh : ∀ counted, quantity (.fresh counted) = 0) : total quantity s.shares = 0 := by
  rw [shares, total_map]
  refine total_eq_zero fun w hmem ↦ ?_
  obtain ⟨k, hw⟩ := List.mem_iff_getElem?.mp hmem
  rw [(h.fresh k w hw).share, hfresh]

theorem logins_run (h : s.Initial) (hzero : s.hub.counters = {}) (actions : List Action)
    (role : Role) :
    (s.run actions).hub.counters.logins role =
      .ofNat ((s.run actions).workers.countP (·.session.role == some role)) := by
  have hstart : s.hub.counters.logins role = 0 := by
    rw [hzero]
    cases role <;> rfl
  rw [counter_run (follows_logins role) h hstart (h.total_shares fun _ ↦ rfl), shares, total_map,
    ← total_ite]
  simp only [beq_iff_eq]
  rfl

theorem deliveries_run (h : s.Initial) (hzero : s.hub.counters = {}) (actions : List Action) :
    (s.run actions).hub.counters.deliveriesSent =
      .ofNat (total (·.session.sent - 2) ((s.run actions).workers.filter (·.hasJoined))) := by
  have hstart : s.hub.counters.deliveriesSent = 0 := by rw [hzero]
  rw [counter_run follows_deliveries h hstart (h.total_shares fun _ ↦ rfl), shares, total_map,
    ← total_filter]
  rfl

/-- While every connection made is counted, each worker is one of those counted. -/
theorem counted_act (hlawful : s.Everywhere Worker.Lawful)
    (h : ∀ share ∈ s.shares, share.counted = true) {action : Action}
    (hcounted : ∀ pace, action ≠ .connect pace false) :
    ∀ share ∈ (s.act action).shares, share.counted = true := by
  intro share hmem
  cases action with
  | connect pace counted =>
      rw [shares_connect, List.mem_append, List.mem_singleton] at hmem
      rcases hmem with hbefore | rfl
      · exact h share hbefore
      · cases counted with
        | true => rfl
        | false => exact absurd rfl (hcounted pace)
  | work k =>
      cases hw : s.workers[k]? with
      | none => exact h share (act_work_of_none s hw ▸ hmem)
      | some w =>
          rw [shares_work s hw] at hmem
          rcases List.mem_or_eq_of_mem_set hmem with hbefore | rfl
          · exact h share hbefore
          · have hbefore : w.share ∈ s.shares := List.mem_map_of_mem (List.mem_of_getElem? hw)
            have hsame := (Worker.turn_tallied (hlawful k w hw)).counted_eq
            exact hsame.trans (h w.share hbefore)
  | cue k cue => exact h share (s.shares_cue k cue ▸ hmem)
  | broadcast room sender text =>
      simp only [act, broadcast] at hmem
      split at hmem <;> exact h share hmem
  | setClosing | pass => exact h share hmem

theorem counted_run (hplaced : s.Placed) (hlawful : s.Everywhere Worker.Lawful)
    (h : ∀ share ∈ s.shares, share.counted = true) {actions : List Action}
    (hcounted : ∀ pace, .connect pace false ∉ actions) :
    ∀ share ∈ (s.run actions).shares, share.counted = true := by
  induction actions generalizing s with
  | nil => exact h
  | cons action rest ih =>
      have hfirst (pace : Nat → Option Nat) : action ≠ .connect pace false :=
        fun heq ↦ hcounted pace (heq ▸ List.mem_cons_self)
      exact ih (hplaced.act action) (lasting_lawful.act hplaced hlawful action)
        (counted_act hlawful h hfirst) fun pace hmem ↦ hcounted pace (List.mem_cons_of_mem _ hmem)

/-- There are as many workers as connections were made. -/
theorem length_run (s : System) (actions : List Action) :
    (s.run actions).workers.length = s.workers.length + actions.countP (·.connects) := by
  induction actions generalizing s with
  | nil => rfl
  | cons action rest ih =>
      rw [run_cons, ih, List.countP_cons]
      cases action with
      | connect pace counted =>
          rw [length_connect]
          simp only [Action.connects, if_true]
          omega
      | _ =>
          rw [length_of_ids (ids_act (by simp))]
          simp [Action.connects]

/-- What the counters say of the connections of a server that counts all of them. -/
structure Served (t : System) (made : Nat) : Prop where
  ids : ∀ (k : Nat) (w : Worker), t.workers[k]? = some w → w.session.id = k + 1
  length_eq : t.workers.length = made
  total : t.hub.counters.totalConnections = .ofNat made
  active : t.hub.counters.activeConnections = .ofNat (t.workers.countP (·.result?.isNone))

/-- A server that counts its connections from the first one on counts them right. -/
theorem served_run (hnone : s.workers = []) (h : s.Initial) (hzero : s.hub.counters = {})
    {actions : List Action} (hcounted : ∀ pace, .connect pace false ∉ actions) :
    (s.run actions).Served (actions.countP (·.connects)) := by
  have hempty : s.shares = [] := by rw [shares, hnone, List.map_nil]
  have hlength : (s.run actions).workers.length = actions.countP (·.connects) := by
    rw [length_run, hnone, List.length_nil, Nat.zero_add]
  have hlawful : s.Everywhere Worker.Lawful := lasting_lawful.run h []
  have hall := counted_run h.placed hlawful (by simp [hempty]) hcounted
  refine ⟨?_, hlength, ?_, ?_⟩
  · exact (numbered_of_nil hnone).run actions
  · rw [counter_run follows_connections h (by rw [hzero]) (by rw [hempty]; rfl), total_ite,
      List.countP_eq_length.mpr hall, shares, List.length_map, hlength]
  · rw [counter_run follows_active h (by rw [hzero]) (by rw [hempty]; rfl), total_ite, shares,
      List.countP_map]
    congr 1
    refine List.countP_congr fun w hw ↦ ?_
    have hone : w.counted = true := hall w.share (List.mem_map_of_mem hw)
    simp [Worker.share, hone]

/-- The connections counted as open are those whose workers have not ended. -/
theorem Served.toNat_active {made : Nat} (h : t.Served made)
    (hsmall : t.workers.countP (·.result?.isNone) < UInt64.size) :
    t.hub.counters.activeConnections.toNat = t.workers.countP (·.result?.isNone) := by
  rw [h.active, UInt64.toNat_ofNat_of_lt' hsmall]

/-- No more connections are counted as open than were ever made. -/
theorem Served.active_le_total {made : Nat} (h : t.Served made) (hsmall : made < UInt64.size) :
    t.hub.counters.activeConnections ≤ t.hub.counters.totalConnections := by
  have hle : t.workers.countP (·.result?.isNone) ≤ made :=
    h.length_eq ▸ List.countP_le_length
  rw [UInt64.le_iff_toNat_le, h.toNat_active (Nat.lt_of_le_of_lt hle hsmall), h.total,
    UInt64.toNat_ofNat_of_lt' hsmall]
  exact hle

/-- No session counts more messages than there are actions. -/
theorem counted_le_run {most : Nat} (h : ∀ (k : Nat) (w : Worker), s.workers[k]? = some w →
    w.session.counted ≤ most) (actions : List Action) {w : Worker}
    (hw : (s.run actions).workers[k]? = some w) : w.session.counted ≤ most + actions.length := by
  induction actions generalizing s most with
  | nil => exact h k w hw
  | cons action rest ih =>
      have hfirst (j : Nat) (v : Worker) (hv : (s.act action).workers[j]? = some v) :
          v.session.counted ≤ most + 1 := by
        rcases exists_previous hv with hnew | ⟨u, hu, rfl | ⟨cue, rfl⟩ | ⟨-, hstep⟩⟩
        · rw [hnew.session]
          exact Nat.zero_le _
        · exact Nat.le_succ_of_le (h j v hu)
        · exact Nat.le_succ_of_le (h j u hu)
        · exact Nat.le_trans hstep.counted_le (Nat.succ_le_succ (h j u hu))
      have hrest := ih hfirst hw
      rw [List.length_cons]
      omega

/-- The id that a session gets from the server and what it counts fit into 64 bits, unless the run is
longer than that. -/
theorem numbers_lt_size (hnone : s.workers = []) {actions : List Action}
    (hshort : actions.length < UInt64.size) {w : Worker}
    (hw : (s.run actions).workers[k]? = some w) :
    w.session.id < UInt64.size ∧ w.session.received < UInt64.size ∧
      w.session.sent < UInt64.size := by
  have hid := (numbered_of_nil hnone).run actions k w hw
  have hplace := (List.getElem?_eq_some_iff.mp hw).1
  rw [length_run, hnone, List.length_nil, Nat.zero_add] at hplace
  have hmade := List.countP_le_length (p := (·.connects)) (l := actions)
  have hcounted : w.session.received + w.session.sent ≤ 0 + actions.length :=
    counted_le_run (by simp [hnone]) actions hw
  omega

theorem initial_start (settings : Settings) : (Service.start settings).system.Initial :=
  ⟨(fun _ _ hw ↦ nomatch hw), List.nodup_nil, fun _ _ ↦ rfl, fun _ _ hw ↦ nomatch hw⟩

/-- In every run in which nothing is broadcast but by the workers, whatever the streams do, and modulo
2^64. The logins counted in a role are the sessions with that role, which are those whose login in it
was accepted. The broadcasts counted are those in the logs of all rooms, and once no worker can make a
step, as many texts were accepted from publishers. The deliveries counted are what was sent to the
subscribers that have joined, after the replies to their logins and joins, and what is written to each
is these replies, these deliveries, and at most a first part of one more line. And where a service
counts each connection that is made, the session ids are 1, 2, 3 and so on, the connections ever made
are the workers, and those open are the workers that have not ended, so that never more are open than
were made. -/
theorem counters_tally (h : s.Initial) (hzero : s.hub.counters = {}) {actions : List Action}
    (hsource : NoDirect actions) (ht : s.run actions = t) :
    (∀ role, t.hub.counters.logins role =
        .ofNat (t.workers.countP (·.session.role == some role)) ∧
      ∀ k, t.LoggedIn k role ↔ Happens (Worker.LogsIn role) k s actions) ∧
    (t.hub.counters.broadcasts = .ofNat (s.logged actions) ∧
      (t.Idle → occurrences acceptsText s actions = s.logged actions)) ∧
    (t.hub.counters.deliveriesSent =
        .ofNat (total (·.session.sent - 2) (t.workers.filter (·.hasJoined))) ∧
      ∀ (k : Nat) (w : Worker), t.workers[k]? = some w → w.hasJoined = true →
        ∃ (deliveries : List Message) (current : Option Message) (torn : List UInt8),
          deliveries.length = w.session.sent - 2 ∧ (∀ m ∈ deliveries, IsDelivery m) ∧
          w.written = confirmations ++ lines deliveries ++ torn ∧ torn <+: lines current.toList) ∧
    ∀ settings, s = (Service.start settings).system → (∀ pace, .connect pace false ∉ actions) →
      t.Served (actions.countP (·.connects)) ∧
      (t.workers.countP (·.result?.isNone) < UInt64.size →
        t.hub.counters.activeConnections.toNat = t.workers.countP (·.result?.isNone)) ∧
      (t.workers.length < UInt64.size →
        t.hub.counters.activeConnections ≤ t.hub.counters.totalConnections) := by
  subst ht
  have hlawful : s.Everywhere Worker.Lawful := lasting_lawful.run h []
  have hlogged := logged_eq h.placed h.voiced.named hsource
  refine ⟨fun role ↦ ⟨logins_run h hzero actions role, fun k ↦ ?_⟩, ⟨?_, fun hidle ↦ ?_⟩,
    ⟨deliveries_run h hzero actions, fun k w hw hjoined ↦ ?_⟩, fun settings hs hcounted ↦ ?_⟩
  · rw [loggedIn_run h.placed hlawful]
    refine or_iff_right fun ⟨w, hw, hrole⟩ ↦ ?_
    rw [(h.fresh k w hw).session] at hrole
    cases hrole
  · rw [counted_broadcasts_run h.placed hlawful hsource, hzero, hlogged]
    exact UInt64.zero_add _
  · have hbalance := pending_run (s := s) hsource
    have hstart : s.pending = 0 := by
      refine total_eq_zero fun w hmem ↦ ?_
      obtain ⟨k, hw⟩ := List.mem_iff_getElem?.mp hmem
      simp [Worker.broadcasting, (h.fresh k w hw).control]
    rw [hstart, hidle.pending_eq, Nat.zero_add] at hbalance
    exact hbalance.trans hlogged.symm
  · exact (h.voiced.run hsource).deliveries hw hjoined
  · have hserved := served_run (by rw [hs]; rfl) h hzero hcounted
    exact ⟨hserved, hserved.toNat_active, fun hsmall ↦
      hserved.active_le_total (hserved.length_eq ▸ hsmall)⟩

/-- A subscriber joins a room, and a publisher joins it, says one thing and quits. -/
def relaying : List Action :=
  [.connect (fun _ ↦ none) true, .connect (fun _ ↦ none) true,
    .cue 0 (.arrive (.chunk (Message.bytes ⟨.rlogin, "bob"⟩ ++ Message.bytes ⟨.join, "den"⟩))),
    .cue 1 (.arrive (.chunk (Message.bytes ⟨.slogin, "amy"⟩ ++ Message.bytes ⟨.join, "den"⟩ ++
      Message.bytes ⟨.sendall, "hi"⟩ ++ Message.bytes ⟨.quit, ""⟩)))] ++
    List.replicate 12 (.work 0) ++ List.replicate 16 (.work 1) ++ List.replicate 6 (.work 0)

/-- One text was accepted, and one delivery written; one of two connections is still open. -/
theorem counters_tally_relaying :
    (run (Service.start {}).system relaying).Settled ∧
      (run (Service.start {}).system relaying).hub.counters = ⟨2, 1, 1, 1, 1, 1⟩ ∧
      occurrences acceptsText (Service.start {}).system relaying =
        logged (Service.start {}).system relaying ∧
      .ofNat (logged (Service.start {}).system relaying) = (1 : UInt64) ∧
      (run (Service.start {}).system relaying).LoggedIn 1 .publisher ∧
      Happens (Worker.LogsIn .publisher) 1 (Service.start {}).system relaying ∧
      (run (Service.start {}).system relaying).Served 2 := by
  have hsource : NoDirect relaying := by
    intro room sender text
    simp [relaying]
  have hcounted : ∀ pace, .connect pace false ∉ relaying := by
    intro pace
    simp [relaying]
  have hsettled : (run (Service.start {}).system relaying).Settled := by decide +kernel
  have hcounters : (run (Service.start {}).system relaying).hub.counters = ⟨2, 1, 1, 1, 1, 1⟩ := by
    decide +kernel
  have hrole : (run (Service.start {}).system relaying).workers[1]?.map (·.session.role) =
      some (some .publisher) := by
    decide +kernel
  have hmade : relaying.countP (·.connects) = 2 := by decide +kernel
  obtain ⟨hlogins, ⟨hbroadcasts, haccepted⟩, -, hserved⟩ :=
    counters_tally (initial_start {}) rfl hsource rfl
  have hloggedIn : (run (Service.start {}).system relaying).LoggedIn 1 .publisher :=
    Option.map_eq_some_iff.mp hrole
  rw [hcounters] at hbroadcasts
  exact ⟨hsettled, hcounters, haccepted hsettled.idle, hbroadcasts.symm, hloggedIn,
    ((hlogins .publisher).2 1).mp hloggedIn, hmade ▸ (hserved {} rfl hcounted).1⟩

end System

end Server

end ChatRelay
