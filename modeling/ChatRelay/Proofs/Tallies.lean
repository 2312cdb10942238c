import ChatRelay.Proofs.Unflagged
import ChatRelay.Server.Effort

/-!
# What the counters follow

What of a worker is counted makes up its `Share`. `Step.tallied` lists what a step can do to the share
and to the counters together. A counter follows a quantity of the shares if a step moves both by the
same amount, modulo 2^64, and so does a new connection (`Follows`). It then follows it through every run,
whichever way the workers are scheduled (`counter_run`).
-/

namespace ChatRelay

open Transport Wire

/-- The logins in a role. -/
def Counters.logins (c : Counters) : Role → UInt64
  | .publisher => c.publisherLogins
  | .subscriber => c.subscriberLogins

namespace Server

/-! ## Sums over lists -/

section
variable {α : Type}

/-- Where one element is put for another, the total changes by what the two differ. -/
theorem total_set {q : α → Nat} {l : List α} {k : Nat} {a : α} (h : l[k]? = some a) (b : α) :
    total q (l.set k b) + q a = total q l + q b := by
  induction l generalizing k with
  | nil => cases h
  | cons head rest ih =>
      cases k with
      | zero =>
          obtain rfl := Option.some.inj h
          simp only [List.set_cons_zero, total]
          omega
      | succ k =>
          have hrest := ih (k := k) h
          simp only [List.set_cons_succ, total]
          omega

theorem total_eq_zero {quantity : α → Nat} {l : List α} (h : ∀ a ∈ l, quantity a = 0) :
    total quantity l = 0 := by
  induction l with
  | nil => rfl
  | cons a rest ih =>
      rw [total, h a List.mem_cons_self, ih fun b hb ↦ h b (List.mem_cons_of_mem _ hb)]

/-- Counting one for each element of which something is so is counting these elements. -/
theorem total_ite (p : α → Bool) (l : List α) :
    total (fun a ↦ if p a then 1 else 0) l = l.countP p := by
  induction l with
  | nil => rfl
  | cons a rest ih => rw [total, ih, List.countP_cons, Nat.add_comm]

theorem total_modify {quantity : α → Nat} {change : α → α}
    (h : ∀ a, quantity (change a) = quantity a) (l : List α) (k : Nat) :
    total quantity (l.modify k change) = total quantity l := by
  induction l generalizing k with
  | nil => rw [List.modify_nil]
  | cons a rest ih =>
      cases k with
      | zero => rw [List.modify_zero_cons, total, total, h]
      | succ k => rw [List.modify_succ_cons, total, total, ih]

theorem total_add (first second : α → Nat) (l : List α) :
    total (fun a ↦ first a + second a) l = total first l + total second l := by
  induction l with
  | nil => rfl
  | cons a rest ih =>
      simp only [total, ih]
      omega

theorem total_map {β : Type} (quantity : β → Nat) (f : α → β) (l : List α) :
    total quantity (l.map f) = total (fun a ↦ quantity (f a)) l := by
  induction l with
  | nil => rfl
  | cons a rest ih => rw [List.map_cons, total, total, ih]

/-- What is counted of some elements only is counted of these. -/
theorem total_filter (p : α → Bool) (quantity : α → Nat) (l : List α) :
    total (fun a ↦ if p a then quantity a else 0) l = total quantity (l.filter p) := by
  induction l with
  | nil => rfl
  | cons a rest ih =>
      rw [total, ih, List.filter_cons]
      by_cases h : p a
      · rw [if_pos h, if_pos h, total]
      · rw [if_neg h, if_neg h, Nat.zero_add]

end

/-! ## What of a worker is counted -/

/-- What of a worker is counted: the role of its login, how many deliveries it wrote, whether its
connection is one of those counted, and whether it has ended. -/
structure Share where
  role : Option Role := none
  deliveries : Nat := 0
  counted : Bool
  ended : Bool := false
  deriving DecidableEq

/-- What is counted of a worker that has just been connected. -/
def Share.fresh (counted : Bool) : Share :=
  { counted := counted }

namespace Worker

variable {hub hub' : Hub} {w w' : Worker}

/-- The join of a subscriber was accepted, and both replies went out. -/
def hasJoined (w : Worker) : Bool :=
  w.session.role == some .subscriber && w.session.room.isSome && decide (2 ≤ w.session.sent)

theorem hasJoined_iff : w.hasJoined = true ↔ ∃ name, w.Joined name := by
  rw [hasJoined, Bool.and_eq_true, Bool.and_eq_true, beq_iff_eq, Option.isSome_iff_exists,
    decide_eq_true_iff]
  constructor
  · intro ⟨⟨hrole, name, hroom⟩, hsent⟩
    exact ⟨name, hrole, hroom, hsent⟩
  · intro ⟨name, hjoined⟩
    exact ⟨⟨hjoined.role, name, hjoined.room⟩, hjoined.sent⟩

/-- How many deliveries went out: what was sent after the replies to login and join. -/
def deliveries (w : Worker) : Nat :=
  if w.hasJoined then w.session.sent - 2 else 0

/-- What of the worker is counted. -/
def share (w : Worker) : Share where
  role := w.session.role
  deliveries := w.deliveries
  counted := w.counted
  ended := w.result?.isSome

/-- The next step broadcasts. -/
def broadcasting (w : Worker) : Bool :=
  match w.control with
  | .broadcast _ _ => true
  | _ => false

/-- The next step accepts a login in this role. -/
structure LogsIn (role : Role) (w : Worker) : Prop where
  control : w.control = .receive .login
  accepted : ∃ connection m, w.connection.receiveStep = (connection, .done (.ok m)) ∧
    roleOf? m.tag = some role ∧ usernameRefusal? m.payload = none

/-- What a step can do to the counters and to what of its worker is counted. -/
inductive Tallied (hub : Hub) (w : Worker) (hub' : Hub) (w' : Worker) : Prop where
  | nothing : w.broadcasting = false → hub'.counters = hub.counters → w'.share = w.share →
      Tallied hub w hub' w'
  | login (role) : w.broadcasting = false → w.LogsIn role → w.share.role = none →
      hub'.counters = hub.counters.count (loginEvent role) →
      w'.share = { w.share with role := some role } → Tallied hub w hub' w'
  | broadcast : w.broadcasting = true → hub'.counters = hub.counters.count .broadcast →
      w'.share = w.share → Tallied hub w hub' w'
  | delivery : w.broadcasting = false → hub'.counters = hub.counters.count .deliverySent →
      w'.share = { w.share with deliveries := w.share.deliveries + 1 } → Tallied hub w hub' w'
  | close : w.broadcasting = false → w.share.ended = false →
      hub'.counters = (if w.share.counted then hub.counters.count .closed else hub.counters) →
      w'.share = { w.share with ended := true } → Tallied hub w hub' w'

theorem Tallied.counted_eq (h : Tallied hub w hub' w') : w'.counted = w.counted := by
  cases h with
  | nothing _ _ hshare | login _ _ _ _ _ hshare | broadcast _ _ hshare | delivery _ _ hshare
  | close _ _ _ hshare => exact congrArg Share.counted hshare

theorem deliveries_of_publisher (h : w.session.role = some .publisher) : w.deliveries = 0 := by
  simp [deliveries, hasJoined, h]

theorem deliveries_of_roomless (h : w.session.room = none) : w.deliveries = 0 := by
  simp [deliveries, hasJoined, h]

theorem deliveries_of_sent (h : w.session.sent ≤ 2) : w.deliveries = 0 := by
  unfold deliveries
  split <;> omega

theorem Joined.deliveries {name : String} (h : w.Joined name) :
    w.deliveries = w.session.sent - 2 :=
  if_pos (hasJoined_iff.mpr ⟨name, h⟩)

/-- The share of a worker depends on little of its session. -/
theorem share_of_eq (hrole : w'.session.role = w.session.role)
    (hroom : w'.session.room = w.session.room) (hsent : w'.session.sent = w.session.sent)
    (hcounted : w'.counted = w.counted) (hresult : w'.result? = w.result?) :
    w'.share = w.share := by
  unfold share deliveries hasJoined
  rw [hrole, hroom, hsent, hcounted, hresult]

/-- While a worker has written no delivery, nothing but the role can differ. -/
theorem share_of_role {role : Option Role} (hrole : w'.session.role = role)
    (hbefore : w.deliveries = 0) (hafter : w'.deliveries = 0) (hcounted : w'.counted = w.counted)
    (hresult : w'.result? = w.result?) : w'.share = { w.share with role } := by
  unfold share
  rw [hrole, hbefore, hafter, hcounted, hresult]

theorem Fresh.share (h : w.Fresh) : w.share = .fresh w.counted := by
  have hnone : w.deliveries = 0 := deliveries_of_roomless (by rw [h.session])
  simp only [Worker.share, hnone, result?, h.control, Option.isSome_none]
  rw [h.session]
  rfl

theorem LogsIn.role_eq {role : Role} (h : w.LogsIn role) (hstep : Step hub w hub' w')
    (hphase : w.session.phase = .awaitLogin) : w'.session.role = some role := by
  obtain ⟨hcontrol, connection, m, hreceive, hrole, hname⟩ := h
  have heq := hstep.step_eq
  simp only [Worker.step, hcontrol, hreceive, onReceived, onLogin, hrole, hname,
    Option.some.injEq, Prod.mk.injEq] at heq
  obtain ⟨-, rfl⟩ := heq
  have hcounted : w.session.countReceived.phase = .awaitLogin := hphase
  rw [session_say, Session.login_eq hcounted]

/-- What goes out is counted if it is a delivery. -/
theorem tallied_onSent {rest : List UInt8} {after : After} {connection : Connection}
    (hw : w.Lawful hub.directory) (hcontrol : w.control = .send rest after) :
    Tallied hub w (onSent hub { w with connection, session := w.session.countSent } after).1
      (onSent hub { w with connection, session := w.session.countSent } after).2 := by
  have hquiet : w.broadcasting = false := by rw [broadcasting, hcontrol]
  have hresult : w.result? = none := by rw [result?, hcontrol]
  simp only [Lawful, hcontrol] at hw
  cases after with
  | part result =>
      exact .nothing hquiet rfl (share_of_role rfl (deliveries_of_roomless hw)
        (deliveries_of_roomless hw) rfl hresult.symm)
  | loggedIn role =>
      cases role <;>
        exact .nothing hquiet rfl (share_of_role rfl (deliveries_of_roomless hw.room)
          (deliveries_of_roomless hw.room) rfl hresult.symm)
  | replied | quit =>
      exact .nothing hquiet rfl (share_of_role rfl (deliveries_of_publisher hw.role)
        (deliveries_of_publisher hw.role) rfl hresult.symm)
  | joined room =>
      -- two messages have now gone out, and neither of them is a delivery
      have hone : w.session.sent = 1 := hw.2.1
      have hbefore : w.deliveries = 0 := deliveries_of_sent (by omega)
      refine .nothing hquiet rfl (share_of_role rfl hbefore (deliveries_of_sent ?_) rfl hresult.symm)
      show w.session.sent + 1 ≤ 2
      omega
  | delivered room =>
      obtain ⟨hseated, hconfirmed⟩ := hw
      have hjoined : w.Joined (hub.directory.name room) :=
        ⟨hseated.role, hseated.name, hconfirmed.sent⟩
      have hlonger : 2 ≤ w.session.sent + 1 := Nat.le_succ_of_le hconfirmed.sent
      refine .delivery hquiet rfl ?_
      have hafter : (onSent hub { w with connection, session := w.session.countSent }
          (.delivered room)).2.Joined (hub.directory.name room) :=
        ⟨hseated.role, hseated.name, hlonger⟩
      have hmore : w.session.sent + 1 - 2 = w.session.sent - 2 + 1 :=
        Nat.sub_add_comm hconfirmed.sent
      unfold share
      rw [hafter.deliveries, hjoined.deliveries, hresult, ← hmore]
      rfl

/-- Every step tallies in one of these ways. -/
theorem Step.tallied (h : Step hub w hub' w') (hw : w.Lawful hub.directory) :
    Tallied hub w hub' w' := by
  have hresult := h.result?_eq_none
  cases h with
  | input _ _ hcontrol | loginFailed _ _ hcontrol | loginRefused _ _ _ hcontrol
  | joinFailed _ _ hcontrol | joinRefused _ _ _ hcontrol | joinAccepted _ _ hcontrol
  | commandFailed _ _ _ hcontrol | commandRefused _ _ _ _ hcontrol | joinCommand _ _ _ hcontrol
  | sendCommand _ _ _ hcontrol | quitCommand _ _ _ hcontrol | enterRoom _ _ _ hcontrol
  | parting _ hcontrol | staying _ hcontrol | dequeue _ _ hcontrol | collected _ _ _ hcontrol
  | missed _ _ hcontrol | lapsed _ _ hcontrol | removeMember _ _ _ hcontrol
  | output _ _ _ _ hcontrol =>
      refine .nothing (by rw [broadcasting, hcontrol]) rfl (share_of_eq rfl rfl rfl rfl ?_)
      rw [hresult]
      simp only [result?, control_say, control_goTo, hcontrol]
  | loginAccepted connection m role hcontrol hstep hrole hname =>
      have haccepted : w.LogsIn role := ⟨hcontrol, connection, m, hstep, hrole, hname⟩
      simp only [Lawful, hcontrol] at hw
      have hphase : w.session.countReceived.phase = .awaitLogin := hw.phase
      refine .login role (by rw [broadcasting, hcontrol]) haccepted hw.role rfl ?_
      rw [Session.login_eq hphase]
      exact share_of_role rfl (deliveries_of_roomless hw.room) (deliveries_of_roomless hw.room) rfl
        hresult.symm
  | leaveCommand room connection payload hcontrol =>
      simp only [Lawful, hcontrol] at hw
      have hphase : w.session.countReceived.phase = .publisherLoop := hw.phase
      refine .nothing (by rw [broadcasting, hcontrol]) rfl ?_
      rw [Session.leave_eq hphase]
      exact share_of_role rfl (deliveries_of_publisher hw.role) (deliveries_of_publisher hw.role) rfl
        hresult.symm
  | openRoom name directory room hcontrol =>
      simp only [Lawful, hcontrol] at hw
      refine .nothing (by rw [broadcasting, hcontrol]) rfl ?_
      rw [Session.join_eq_of_publisher hw.phase]
      exact share_of_role rfl (deliveries_of_publisher hw.role) (deliveries_of_publisher hw.role) rfl
        hresult.symm
  | addMember room directory hcontrol =>
      simp only [Lawful, hcontrol] at hw
      have hone : w.session.sent ≤ 2 := by rw [hw.1.sent]; decide
      refine .nothing (by rw [broadcasting, hcontrol]) rfl ?_
      rw [Session.join_eq_of_subscriber hw.1.phase]
      exact share_of_role rfl (deliveries_of_sent hone) (deliveries_of_sent hone) rfl hresult.symm
  | broadcast room text directory hcontrol =>
      exact .broadcast (by rw [broadcasting, hcontrol]) rfl
        (share_of_eq rfl rfl rfl rfl hresult.symm)
  | sent rest after connection hcontrol => exact tallied_onSent hw hcontrol
  | unsent rest after connection failure hcontrol =>
      refine .nothing (by rw [broadcasting, hcontrol]) rfl ?_
      cases after <;> exact share_of_eq rfl rfl rfl rfl hresult.symm
  | close result hcontrol =>
      have hopen : w.share.ended = false := by rw [share, hresult]; rfl
      exact .close (by rw [broadcasting, hcontrol]) hopen (apply_ite Hub.counters _ _ _) rfl

/-- A turn tallies as a step does, also if nothing comes of it. -/
theorem turn_tallied (hw : w.Lawful hub.directory) :
    Tallied hub w (w.turn hub).1 (w.turn hub).2 := by
  cases hstep : w.step hub with
  | some next =>
      rw [turn, hstep]
      exact (step_sound hstep).tallied hw
  | none =>
      rw [turn, hstep]
      refine .nothing ?_ rfl rfl
      cases hcontrol : w.control with
      | broadcast => simp [step, hcontrol] at hstep
      | _ => rw [broadcasting, hcontrol]

end Worker

/-! ## What a counter follows -/

/-- Whenever the counter or the quantity moves, the other moves by the same amount, modulo 2^64. -/
structure Follows (counter : Counters → UInt64) (quantity : Share → Nat) : Prop where
  tallied : ∀ {hub w hub' w'}, Worker.Tallied hub w hub' w' →
    counter hub'.counters + .ofNat (quantity w.share) =
      counter hub.counters + .ofNat (quantity w'.share)
  opened : ∀ (c : Counters) (counted : Bool),
    counter (if counted then c.count .opened else c) = counter c + .ofNat (quantity (.fresh counted))

/-- The logins in a role are counted where one is accepted. -/
theorem follows_logins (role : Role) :
    Follows (·.logins role) fun share ↦ if share.role = some role then 1 else 0 where
  tallied h := by
    cases h with
    | nothing _ hcounters hshare => rw [hcounters, hshare]
    | login other _ _ hnone hcounters hshare =>
        rw [hcounters, hshare, hnone]
        cases role <;> cases other <;> simp [Counters.logins, Counters.count, Worker.loginEvent]
    | broadcast _ hcounters hshare | delivery _ hcounters hshare =>
        rw [hcounters, hshare]
        cases role <;> rfl
    | close _ _ hcounters hshare =>
        rw [hcounters, hshare]
        split <;> cases role <;> rfl
  opened c counted := by cases counted <;> cases role <;> exact (UInt64.add_zero _).symm

/-- A delivery is counted where its send is over. -/
theorem follows_deliveries : Follows (·.deliveriesSent) (·.deliveries) where
  tallied h := by
    cases h with
    | nothing _ hcounters hshare => rw [hcounters, hshare]
    | login role _ _ _ hcounters hshare =>
        rw [hcounters, hshare]
        cases role <;> rfl
    | broadcast _ hcounters hshare =>
        rw [hcounters, hshare]
        rfl
    | delivery _ hcounters hshare =>
        rw [hcounters, hshare, UInt64.ofNat_add, UInt64.add_comm (.ofNat _), ← UInt64.add_assoc]
        rfl
    | close _ _ hcounters hshare =>
        rw [hcounters, hshare]
        split <;> rfl
  opened c counted := by cases counted <;> exact (UInt64.add_zero _).symm

/-- A connection is counted where it is made. -/
theorem follows_connections :
    Follows (·.totalConnections) fun share ↦ if share.counted then 1 else 0 where
  tallied h := by
    cases h with
    | nothing _ hcounters hshare => rw [hcounters, hshare]
    | login role _ _ _ hcounters hshare =>
        rw [hcounters, hshare]
        cases role <;> rfl
    | broadcast _ hcounters hshare | delivery _ hcounters hshare =>
        rw [hcounters, hshare]
        rfl
    | close _ _ hcounters hshare =>
        rw [hcounters, hshare]
        split <;> rfl
  opened c counted := by
    cases counted with
    | true => rfl
    | false => exact (UInt64.add_zero _).symm

/-- A connection is open from where it is made to where its worker ends. -/
theorem follows_active :
    Follows (·.activeConnections) fun share ↦ if share.counted && !share.ended then 1 else 0 where
  tallied {hub w hub' w'} h := by
    cases h with
    | nothing _ hcounters hshare => rw [hcounters, hshare]
    | login role _ _ _ hcounters hshare =>
        rw [hcounters, hshare]
        cases role <;> rfl
    | broadcast _ hcounters hshare | delivery _ hcounters hshare =>
        rw [hcounters, hshare]
        rfl
    | close _ hended hcounters hshare =>
        rw [hcounters, hshare, hended]
        cases w.share.counted with
        | true => exact (UInt64.sub_add_cancel _ 1).trans (UInt64.add_zero _).symm
        | false => rfl
  opened c counted := by
    cases counted with
    | true => rfl
    | false => exact (UInt64.add_zero _).symm

namespace System

variable {s : System} {counter : Counters → UInt64} {quantity : Share → Nat}

/-- What of the workers is counted, in their places. -/
def shares (s : System) : List Share :=
  s.workers.map Worker.share

theorem shares_connect (s : System) (pace : Nat → Option Nat) (counted : Bool) :
    (s.act (.connect pace counted)).shares = s.shares ++ [.fresh counted] := by
  simp only [shares, act, connect, List.map_append]
  rfl

theorem shares_work (s : System) {k : Nat} {w : Worker} (hw : s.workers[k]? = some w) :
    (s.act (.work k)).shares = s.shares.set k (w.turn s.hub).2.share := by
  rw [act_work s hw, shares, List.map_set]
  rfl

theorem shares_cue (s : System) (k : Nat) (cue : Cue) : (s.act (.cue k cue)).shares = s.shares := by
  apply List.ext_getElem?
  intro j
  rw [shares, shares, List.getElem?_map, List.getElem?_map, workers_cue]
  split
  · cases s.workers[j]? <;> rfl
  · rfl

/-- An action moves a counter and what it follows by the same amount. -/
theorem follows_act (h : Follows counter quantity) (hlawful : s.Everywhere Worker.Lawful)
    (action : Action) :
    counter (s.act action).hub.counters + .ofNat (total quantity s.shares) =
      counter s.hub.counters + .ofNat (total quantity (s.act action).shares) := by
  cases action with
  | connect pace counted =>
      have hcounter := h.opened s.hub.counters counted
      have hcounters : (s.act (.connect pace counted)).hub.counters =
          if counted then s.hub.counters.count .opened else s.hub.counters := by
        simp only [act, connect]
        split <;> rfl
      rw [hcounters, hcounter, shares_connect, total_append, UInt64.ofNat_add, UInt64.add_assoc,
        UInt64.add_comm (.ofNat (total quantity s.shares))]
      rfl
  | work k =>
      cases hw : s.workers[k]? with
      | none => rw [act_work_of_none s hw]
      | some w =>
          have hmoved := h.tallied (Worker.turn_tallied (hlawful k w hw))
          have hshare : s.shares[k]? = some w.share := by
            rw [shares, List.getElem?_map, hw, Option.map_some]
          have hset : total quantity (s.shares.set k (w.turn s.hub).2.share) + quantity w.share =
              total quantity s.shares + quantity (w.turn s.hub).2.share := total_set hshare _
          have htotal := congrArg UInt64.ofNat hset
          rw [UInt64.ofNat_add, UInt64.ofNat_add] at htotal
          rw [shares_work s hw, act_work s hw]
          grind
  | cue k cue =>
      rw [shares_cue]
      rfl
  | broadcast room sender text =>
      simp only [act, broadcast]
      split <;> rfl
  | setClosing | pass => rfl

theorem follows_run (h : Follows counter quantity) (hplaced : s.Placed)
    (hlawful : s.Everywhere Worker.Lawful) (actions : List Action) :
    counter (s.run actions).hub.counters + .ofNat (total quantity s.shares) =
      counter s.hub.counters + .ofNat (total quantity (s.run actions).shares) := by
  induction actions generalizing s with
  | nil => rfl
  | cons action rest ih =>
      have hfirst := follows_act h hlawful action
      have hrest := ih (hplaced.act action) (lasting_lawful.act hplaced hlawful action)
      rw [run_cons]
      grind

/-- A counter that starts where its quantity does is equal to it in every run. -/
theorem counter_run (h : Follows counter quantity) (hs : s.Initial)
    (hzero : counter s.hub.counters = 0) (hnone : total quantity s.shares = 0)
    (actions : List Action) :
    counter (s.run actions).hub.counters = .ofNat (total quantity (s.run actions).shares) := by
  have hlawful : s.Everywhere Worker.Lawful := lasting_lawful.run hs []
  have hrun := follows_run h hs.placed hlawful actions
  rw [hzero, hnone, UInt64.zero_add] at hrun
  exact (UInt64.add_zero _).symm.trans hrun

end System

end Server

end ChatRelay
