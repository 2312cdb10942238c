import ChatRelay.Proofs.Output
import ChatRelay.Proofs.Unflagged

/-!
# What the shutdown flag does

The flag wakes nobody. A subscriber's worker looks at it before each dequeue, so once it is set the
worker ends the dequeue that it is in, writes what came of it, and leaves. Neither the flag nor time
ends a write, so a peer that takes no bytes keeps its worker from leaving until the write is over.
`Departing` says what the worker has done since, at each control point, and `Admitted` the same of one
whose join is not confirmed yet. The main statements are `System.shutdown_releases`, which says of
each of them what it can still wait for, and `System.unreleased_while_stalled`, where one does wait.
-/

namespace ChatRelay.Server

open Transport Wire

/-- A subscriber's join is accepted, and not confirmed yet. -/
def Control.IsAdmitted : Control → Prop
  | .enterRoom _ | .addMember _ | .send _ (.joined _) => True
  | _ => False

instance : DecidablePred Control.IsAdmitted
  | .enterRoom _ | .addMember _ | .send _ (.joined _) => isTrue trivial
  | .receive _ | .openRoom _ | .broadcast _ _ | .testFlag _ | .dequeue _ | .collect _
  | .removeMember _ _ | .close _ | .ended _ => isFalse id
  | .send _ (.part _) | .send _ (.loggedIn _) | .send _ (.replied _) | .send _ .quit
  | .send _ (.delivered _) => isFalse id

/-- The worker is in a dequeue, for the members of this room. -/
def Control.Dequeues (room : Nat) (control : Control) : Prop :=
  control = .dequeue room ∨ control = .collect room

/-- The worker is writing a delivery of this room. -/
def Control.Delivers (room : Nat) (control : Control) : Prop :=
  ∃ rest, control = .send rest (.delivered room)

/-- The bytes are a part of one delivery. -/
def IsPart (bytes : List UInt8) : Prop :=
  ∃ m : Message, m.tag = .delivery ∧ bytes <:+: m.bytes

theorem isPart_nil : IsPart [] :=
  ⟨⟨.delivery, ""⟩, rfl, [], Message.bytes ⟨.delivery, ""⟩, rfl⟩

namespace Worker

variable {d : Directory} {hub hub' : Hub} {w v v' : Worker}

/-- What the worker has done since it was `w`, if the flag was set then: it is still in the dequeue it
was in, or it is writing the one delivery that it will have written, which it was writing then or which
came of that dequeue. -/
def Departing (w v : Worker) : Prop :=
  match v.control with
  | .dequeue room =>
      w.control = .dequeue room ∧ v.written = w.written ∧ v.session.sent = w.session.sent
  | .collect room =>
      w.control.Dequeues room ∧ v.written = w.written ∧ v.session.sent = w.session.sent
  | .send rest (.delivered room) =>
      (w.control.Dequeues room ∨ w.control.Delivers room) ∧
        ∃ (m : Message) (torn : List UInt8), m.tag = .delivery ∧ torn ++ rest <:+ m.bytes ∧
          v.written = w.written ++ torn ∧ v.session.sent = w.session.sent
  | .testFlag _ | .removeMember _ _ | .close _ | .ended _ =>
      ∃ extra, IsPart extra ∧ v.written = w.written ++ extra ∧
        v.session.sent ≤ w.session.sent + 1
  | _ => False

/-- Nothing has been done yet. -/
theorem departing_self (h : w.control.IsHearing) (hcarries : w.Carries (·.tag = .delivery)) :
    Departing w w := by
  have hnothing : ∃ extra, IsPart extra ∧ w.written = w.written ++ extra ∧
      w.session.sent ≤ w.session.sent + 1 :=
    ⟨[], isPart_nil, (List.append_nil _).symm, Nat.le_succ _⟩
  cases hcontrol : w.control with
  | send rest after =>
      simp only [Carries, hcontrol] at hcarries
      cases after with
      | delivered room =>
          obtain ⟨m, htag, hrest⟩ := hcarries
          simp only [Departing, hcontrol]
          exact ⟨.inr ⟨rest, rfl⟩, m, [], htag, hrest, (List.append_nil _).symm, trivial⟩
      | _ => simp [Control.IsHearing, hcontrol] at h
  | testFlag | removeMember | close | ended =>
      simp only [Departing, hcontrol]
      exact hnothing
  | dequeue | collect => simp [Departing, Control.Dequeues, hcontrol]
  | _ => simp [Control.IsHearing, hcontrol] at h

theorem Departing.cue (h : Departing w v) (cue : Cue) : Departing w (v.cue cue) := by
  have hwritten : (v.cue cue).written = v.written := by
    cases cue <;> rfl
  revert h
  unfold Departing
  rw [control_cue, hwritten]
  exact id

/-- With the flag set, a worker that departs goes on departing. -/
theorem Step.departing (h : Step hub v hub' v') (hclosing : hub.closing = true)
    (hmail : v.control.IsListening → Holds (·.tag = .delivery) hub.directory v.place)
    (hdeparting : Departing w v) : Departing w v' := by
  cases h with
  | output rest after connection left hcontrol hstep =>
      obtain ⟨taken, -, rfl, haccepted⟩ := Connection.written_of_more hstep
      simp only [Departing, hcontrol] at hdeparting
      cases after with
      | delivered room =>
          obtain ⟨hfrom, m, torn, htag, hline, hwritten, hsent⟩ := hdeparting
          refine ⟨hfrom, m, torn ++ taken, htag, by rwa [List.append_assoc], ?_, hsent⟩
          show connection.stream.written = _
          rw [haccepted, ← List.append_assoc, ← hwritten]
          rfl
      | _ => exact hdeparting.elim
  | sent rest after connection hcontrol hstep =>
      obtain ⟨rfl, hstream⟩ := Connection.written_of_ok hstep
      simp only [Departing, hcontrol] at hdeparting
      cases after with
      | delivered room =>
          obtain ⟨-, m, torn, htag, hline, hwritten, hsent⟩ := hdeparting
          rw [List.append_nil] at hline
          refine ⟨torn, ⟨m, htag, hline.isInfix⟩, ?_, ?_⟩
          · show connection.stream.written = _
            rw [hstream, ← hwritten]
            rfl
          · exact Nat.le_of_eq (congrArg (· + 1) hsent)
      | _ => exact hdeparting.elim
  | unsent rest after connection failure hcontrol hstep =>
      have haccepted := (Connection.written_of_error hstep).1
      simp only [Departing, hcontrol] at hdeparting
      cases after with
      | delivered room =>
          obtain ⟨-, m, torn, htag, hline, hwritten, hsent⟩ := hdeparting
          refine ⟨torn, ⟨m, htag, (List.prefix_append torn rest).isInfix.trans hline.isInfix⟩, ?_,
            Nat.le_succ_of_le (Nat.le_of_eq hsent)⟩
          exact haccepted.trans hwritten
      | _ => exact hdeparting.elim
  | parting room hcontrol =>
      simp only [Departing, hcontrol] at hdeparting
      exact hdeparting
  | staying room hcontrol hopen => exact absurd (hopen.symm.trans hclosing) Bool.false_ne_true
  | dequeue room directory hcontrol =>
      simp only [Departing, hcontrol] at hdeparting
      exact ⟨.inl hdeparting.1, hdeparting.2⟩
  | collected room directory m hcontrol _ hhead =>
      have htag : m.tag = .delivery :=
        hmail (.inr ⟨room, by rw [hcontrol]; rfl⟩) m (List.mem_of_head? hhead)
      simp only [Departing, hcontrol] at hdeparting
      obtain ⟨hfrom, hwritten, hsent⟩ := hdeparting
      exact ⟨.inl hfrom, m, [], htag, List.suffix_rfl, hwritten.trans (List.append_nil _).symm, hsent⟩
  | missed room directory hcontrol | lapsed room directory hcontrol =>
      simp only [Departing, hcontrol] at hdeparting
      obtain ⟨-, hwritten, hsent⟩ := hdeparting
      exact ⟨[], isPart_nil, hwritten.trans (List.append_nil _).symm,
        Nat.le_succ_of_le (Nat.le_of_eq hsent)⟩
  | removeMember room result directory hcontrol =>
      simp only [Departing, hcontrol] at hdeparting
      exact hdeparting
  | close result hcontrol =>
      simp only [Departing, hcontrol] at hdeparting
      obtain ⟨extra, hpart, hwritten, hsent⟩ := hdeparting
      exact ⟨extra, hpart, (written_close _).trans hwritten, hsent⟩
  | _ => simp [Departing, *] at hdeparting

/-- Whatever the worker has written since is part of one delivery. -/
theorem Departing.written (h : Departing w v) :
    ∃ extra, IsPart extra ∧ v.written = w.written ++ extra ∧
      v.session.sent ≤ w.session.sent + 1 := by
  have hnothing (hwritten : v.written = w.written) (hsent : v.session.sent = w.session.sent) :
      ∃ extra, IsPart extra ∧ v.written = w.written ++ extra ∧
        v.session.sent ≤ w.session.sent + 1 :=
    ⟨[], isPart_nil, hwritten.trans (List.append_nil _).symm,
      Nat.le_succ_of_le (Nat.le_of_eq hsent)⟩
  cases hcontrol : v.control with
  | send rest after =>
      simp only [Departing, hcontrol] at h
      cases after with
      | delivered room =>
          obtain ⟨-, m, torn, htag, hline, hwritten, hsent⟩ := h
          exact ⟨torn, ⟨m, htag, (List.prefix_append torn rest).isInfix.trans hline.isInfix⟩,
            hwritten, Nat.le_succ_of_le (Nat.le_of_eq hsent)⟩
      | _ => exact h.elim
  | dequeue | collect =>
      simp only [Departing, hcontrol] at h
      exact hnothing h.2.1 h.2.2
  | testFlag | removeMember | close | ended => simpa only [Departing, hcontrol] using h
  | _ => simp [Departing, hcontrol] at h

/-- The worker still waits in the dequeue in which it was as `w`, and has written nothing since. -/
def Lingers (w v : Worker) : Prop :=
  ∃ room, w.control.Dequeues room ∧ v.control = .collect room ∧ v.written = w.written

/-- The worker is writing the delivery that it was writing as `w`, or that came of the dequeue in which
it was, and its peer takes no byte for now. No delivery has gone out since. -/
def HeldUp (w v : Worker) : Prop :=
  ∃ room, (w.control.Dequeues room ∨ w.control.Delivers room) ∧ v.control.Delivers room ∧
    v.isStalled = true ∧ v.session.sent = w.session.sent

/-- A worker that departs and can make no step waits in the dequeue that it was in, or for its peer to
take the delivery, or has ended. -/
theorem Departing.atRest (h : Departing w v) (hstep : v.step hub = none) :
    (∃ result, v.result? = some result) ∨ w.Lingers v ∨ w.HeldUp v := by
  cases hcontrol : v.control with
  | ended result => exact .inl ⟨result, by simp [result?, hcontrol]⟩
  | collect room =>
      simp only [Departing, hcontrol] at h
      exact .inr (.inl ⟨room, h.1, hcontrol, h.2.1⟩)
  | send rest after =>
      simp only [Departing, hcontrol] at h
      cases after with
      | delivered room =>
          obtain ⟨hfrom, -, -, -, -, -, hsent⟩ := h
          exact .inr (.inr ⟨room, hfrom, ⟨rest, hcontrol⟩,
            isStalled_of_step_eq_none hstep hcontrol, hsent⟩)
      | _ => exact h.elim
  | testFlag =>
      simp only [step, hcontrol] at hstep
      split at hstep <;> cases hstep
  | dequeue | removeMember | close => simp [step, hcontrol] at hstep
  | _ => simp [Departing, hcontrol] at h

/-- What has become of a subscriber whose join was accepted while the flag was set: its confirmation is
on the way or out, or its send failed, if this is so, and the worker ends with the failure. -/
def Admitted (failed : Prop) (v : Worker) : Prop :=
  match v.control with
  | .enterRoom _ | .addMember _ | .send _ (.joined _) => True
  | .testFlag _ => v.written = confirmations
  | .removeMember _ result | .close result | .ended result =>
      (v.written = confirmations ∧ result = .ok ()) ∨
        (v.written <+: confirmations ∧ (∃ failure, result = .error failure) ∧ failed)
  | _ => False

variable {failed failed' : Prop}

theorem admitted_of_isAdmitted (h : v.control.IsAdmitted) : v.Admitted failed := by
  cases hcontrol : v.control with
  | enterRoom | addMember => simp only [Admitted, hcontrol]
  | send rest after => cases after <;> simp_all [Admitted, Control.IsAdmitted]
  | _ => simp [Control.IsAdmitted, hcontrol] at h

theorem Admitted.mono (himp : failed → failed') (h : v.Admitted failed) : v.Admitted failed' := by
  revert h
  unfold Admitted
  cases v.control with
  | removeMember | close | ended => exact fun h ↦ h.imp_right (And.imp_right (And.imp_right himp))
  | send rest after => cases after <;> exact id
  | _ => exact id

theorem Admitted.cue (h : v.Admitted failed) (cue : Cue) : (v.cue cue).Admitted failed := by
  have hwritten : (v.cue cue).written = v.written := by
    cases cue <;> rfl
  revert h
  unfold Admitted
  rw [control_cue, hwritten]
  exact id

/-- With the flag set, a subscriber that is let in is confirmed and leaves again. -/
theorem Step.admitted (h : Step hub v hub' v') (hclosing : hub.closing = true)
    (hv : v.Lawful hub.directory) (hadmitted : v.Admitted failed) :
    v'.Admitted (failed ∨ v.SendFails) := by
  cases h with
  | enterRoom | addMember => trivial
  | output rest after connection left hcontrol =>
      simp only [Admitted, hcontrol] at hadmitted ⊢
      cases after with
      | joined => trivial
      | _ => exact hadmitted.elim
  | sent rest after connection hcontrol hstep =>
      obtain ⟨rfl, hstream⟩ := Connection.written_of_ok hstep
      simp only [Admitted, Lawful, hcontrol] at hadmitted hv
      cases after with
      | joined room =>
          show connection.stream.written = confirmations
          rw [hstream, ← hv.2.2, List.append_nil]
          rfl
      | _ => exact hadmitted.elim
  | unsent rest after connection failure hcontrol hstep =>
      have haccepted := (Connection.written_of_error hstep).1
      have hfails : v.SendFails := ⟨rest, after, connection, failure, hcontrol, hstep⟩
      simp only [Admitted, Lawful, hcontrol] at hadmitted hv
      cases after with
      | joined room =>
          refine .inr ⟨?_, ⟨failure, rfl⟩, .inr hfails⟩
          show connection.stream.written <+: confirmations
          rw [haccepted, ← hv.2.2]
          exact List.prefix_append _ _
      | _ => exact hadmitted.elim
  | parting room hcontrol =>
      simp only [Admitted, hcontrol] at hadmitted
      exact .inl ⟨hadmitted, rfl⟩
  | staying room hcontrol hopen => exact absurd (hopen.symm.trans hclosing) Bool.false_ne_true
  | removeMember room result directory hcontrol =>
      simp only [Admitted, hcontrol] at hadmitted
      exact hadmitted.imp_right (And.imp_right (And.imp_right .inl))
  | close result hcontrol =>
      simp only [Admitted, hcontrol] at hadmitted
      have hclosed : v.connection.close.stream.written = v.written := written_close _
      refine hadmitted.imp (fun hdone ↦ ⟨hclosed.trans hdone.1, hdone.2⟩) fun hfailed ↦ ?_
      refine ⟨?_, hfailed.2.1, .inl hfailed.2.2⟩
      show v.connection.close.stream.written <+: confirmations
      rw [hclosed]
      exact hfailed.1
  | _ => simp [Admitted, *] at hadmitted

/-- A subscriber that was let in while the flag was set has written nothing but its confirmations. -/
theorem Admitted.written (h : v.Admitted failed) (hv : v.Lawful d) :
    v.written <+: confirmations := by
  have hfirst (hwritten : v.written = confirmation) : v.written <+: confirmations :=
    ⟨confirmation, by rw [hwritten]; rfl⟩
  cases hcontrol : v.control with
  | enterRoom =>
      simp only [Lawful, hcontrol] at hv
      exact hfirst hv.written
  | addMember =>
      simp only [Lawful, hcontrol] at hv
      exact hfirst hv.1.written
  | send rest after =>
      simp only [Admitted, Lawful, hcontrol] at h hv
      cases after with
      | joined => exact ⟨rest, hv.2.2⟩
      | _ => exact h.elim
  | testFlag =>
      simp only [Admitted, hcontrol] at h
      exact h ▸ List.prefix_rfl
  | removeMember | close | ended =>
      simp only [Admitted, hcontrol] at h
      rcases h with ⟨hwritten, -⟩ | ⟨hbegins, -⟩
      · exact hwritten ▸ List.prefix_rfl
      · exact hbegins
  | _ => simp [Admitted, hcontrol] at h

/-- It waits for nothing but its peer to take the confirmation. -/
theorem Admitted.atRest (h : v.Admitted failed) (hstep : v.step hub = none) :
    (∃ result, v.result? = some result ∧
      (v.written = confirmations ∧ result = .ok () ∨
        (∃ failure, result = .error failure) ∧ failed)) ∨
      v.control.IsAdmitted ∧ v.isStalled = true := by
  cases hcontrol : v.control with
  | ended result =>
      simp only [Admitted, hcontrol] at h
      exact .inl ⟨result, by simp [result?, hcontrol], h.imp_right And.right⟩
  | send rest after =>
      simp only [Admitted, hcontrol] at h
      cases after with
      | joined room => exact .inr ⟨trivial, isStalled_of_step_eq_none hstep hcontrol⟩
      | _ => exact h.elim
  | testFlag =>
      simp only [step, hcontrol] at hstep
      split at hstep <;> cases hstep
  | enterRoom | addMember | removeMember | close => simp [step, hcontrol] at hstep
  | _ => simp [Admitted, hcontrol] at h

theorem Admitted.isOnWay (h : v.Admitted failed) :
    v.control.IsHearing ∨ v.control.IsAdmitted := by
  cases hcontrol : v.control with
  | enterRoom | addMember => exact .inr trivial
  | send rest after =>
      simp only [Admitted, hcontrol] at h
      cases after with
      | joined => exact .inr trivial
      | _ => exact h.elim
  | testFlag | dequeue | collect | removeMember | close | ended => exact .inl trivial
  | _ => simp [Admitted, hcontrol] at h

/-- How far a subscriber that was let in is from its end, once the flag is set, and how many bytes it
still has to write before it gets on. -/
def wayOut (v : Worker) : Nat × Nat :=
  match v.control with
  | .enterRoom _ => (8, 0)
  | .addMember _ => (7, 0)
  | .dequeue _ => (6, 0)
  | .collect _ => (5, 0)
  | .send rest _ => (4, rest.length)
  | .testFlag _ => (3, 0)
  | .removeMember _ _ => (2, 0)
  | .close _ => (1, 0)
  | _ => (0, 0)

/-- With the flag set, every step of a subscriber that was let in brings it nearer to its end. -/
theorem Step.wayOut_lt (h : Step hub v hub' v') (hclosing : hub.closing = true)
    (hv : v.control.IsHearing ∨ v.control.IsAdmitted) :
    Prod.Lex (· < ·) (· < ·) v'.wayOut v.wayOut ∧
      (v'.control.IsHearing ∨ v'.control.IsAdmitted) := by
  cases h with
  | output rest after connection left hcontrol hstep =>
      have hless := Connection.rest_lt_of_more hstep
      simp only [wayOut, hcontrol] at hv ⊢
      exact ⟨.right _ hless, by cases after <;> exact hv⟩
  | sent rest after connection hcontrol | unsent rest after connection failure hcontrol =>
      rw [hcontrol] at hv
      simp only [wayOut, hcontrol]
      cases after with
      | joined | delivered => exact ⟨.left _ _ (by decide), .inl trivial⟩
      | _ => simp [Control.IsHearing, Control.IsAdmitted] at hv
  | staying room hcontrol hopen => exact absurd (hopen.symm.trans hclosing) Bool.false_ne_true
  | enterRoom _ _ _ hcontrol | addMember _ _ hcontrol =>
      simp only [wayOut, hcontrol]
      exact ⟨.left _ _ (by decide), .inr trivial⟩
  | parting _ hcontrol | dequeue _ _ hcontrol | collected _ _ _ hcontrol | missed _ _ hcontrol
  | lapsed _ _ hcontrol | removeMember _ _ _ hcontrol | close _ hcontrol =>
      simp only [wayOut, hcontrol]
      exact ⟨.left _ _ (by decide), .inl trivial⟩
  | _ => simp [Control.IsHearing, Control.IsAdmitted, *] at hv

end Worker

namespace System

variable {s : System} {k limit : Nat} {w v : Worker}

/-- Time passes only while the worker in this place can make no step. -/
def Prompt (k : Nat) : System → List Action → Prop
  | _, [] => True
  | s, action :: rest => (0 < action.elapsed → s.work? k = none) ∧ Prompt k (s.act action) rest

/-- The worker has ended with this result: its stream was shut down, and it is a member of no room. -/
structure Released (s : System) (v : Worker) (result : Result) : Prop where
  result : v.result? = some result
  shutdowns : v.connection.stream.shutdowns = 1
  absent : ∀ room id, (s.hub.directory.members room).get? id ≠ some v.place

/-- The flag is set and stays so by this action. -/
theorem closing_act (hclosing : s.hub.closing = true) {action : Action} {rest : List Action}
    (hstays : .setClosing false ∉ action :: rest) :
    (s.act action).hub.closing = true ∧ .setClosing false ∉ rest := by
  rw [List.mem_cons, not_or] at hstays
  have hnext : (s.run [action]).hub.closing = true := closing_run hclosing (by simpa using hstays.1)
  exact ⟨hnext, hstays.2⟩

/-- Whatever happens while the flag is set, a worker that departs goes on departing. -/
theorem departing_run (hmail : s.Mail (·.tag = .delivery)) (hclosing : s.hub.closing = true)
    {actions : List Action} (hstays : .setClosing false ∉ actions) (hv : s.workers[k]? = some v)
    (h : Worker.Departing w v) :
    ∃ u, (s.run actions).workers[k]? = some u ∧ Worker.Departing w u := by
  induction actions generalizing s v with
  | nil => exact ⟨v, hv, h⟩
  | cons action rest ih =>
      obtain ⟨hclosing', hrest⟩ := closing_act hclosing hstays
      have hmail' := hmail.run [action]
      obtain ⟨v', hv', rfl | ⟨cue, rfl⟩ | ⟨-, hstep⟩⟩ := exists_next hv action
      · exact ih hmail' hclosing' hrest hv' h
      · exact ih hmail' hclosing' hrest hv' (h.cue cue)
      · exact ih hmail' hclosing' hrest hv'
          (hstep.departing hclosing (hmail.holds k v hv) h)

/-- Whatever happens while the flag is set, a subscriber that was let in is confirmed and leaves again,
unless a send of its fails. -/
theorem admitted_run {failed : Prop} (hplaced : s.Placed) (hlawful : s.Everywhere Worker.Lawful)
    (hclosing : s.hub.closing = true) {actions : List Action}
    (hstays : .setClosing false ∉ actions) (hv : s.workers[k]? = some v) (h : v.Admitted failed) :
    ∃ u, (s.run actions).workers[k]? = some u ∧
      u.Admitted (failed ∨ Happens Worker.SendFails k s actions) := by
  induction actions generalizing s v failed with
  | nil => exact ⟨v, hv, h.mono .inl⟩
  | cons action rest ih =>
      obtain ⟨hclosing', hrest⟩ := closing_act hclosing hstays
      have hplaced' := hplaced.act action
      have hlawful' := lasting_lawful.act hplaced hlawful action
      have hnow (hfailed : failed ∨ Happens Worker.SendFails k (s.act action) rest) :
          failed ∨ Happens Worker.SendFails k s (action :: rest) := hfailed.imp_right .inr
      obtain ⟨v', hv', rfl | ⟨cue, rfl⟩ | ⟨hwork, hstep⟩⟩ := exists_next hv action
      · obtain ⟨u, hu, hafter⟩ := ih hplaced' hlawful' hclosing' hrest hv' h
        exact ⟨u, hu, hafter.mono hnow⟩
      · obtain ⟨u, hu, hafter⟩ := ih hplaced' hlawful' hclosing' hrest hv' (h.cue cue)
        exact ⟨u, hu, hafter.mono hnow⟩
      · obtain ⟨u, hu, hafter⟩ :=
          ih hplaced' hlawful' hclosing' hrest hv' (hstep.admitted hclosing (hlawful k v hv) h)
        refine ⟨u, hu, hafter.mono fun hfailed ↦ ?_⟩
        rcases hfailed with (hbefore | hfails) | hlater
        · exact .inl hbefore
        · exact .inr (.inl ⟨hwork, v, hv, hfails⟩)
        · exact .inr (.inr hlater)

/-- If time passes only while the worker can make no step, no dequeue is put off while the flag is
set. -/
theorem dueBy_run (h : s.Seated) (hclosing : s.hub.closing = true) {actions : List Action}
    (hstays : .setClosing false ∉ actions) (hprompt : Prompt k s actions)
    (hv : s.workers[k]? = some v) (hdue : v.DueBy s.hub limit) :
    ∃ u, (s.run actions).workers[k]? = some u ∧ u.DueBy (s.run actions).hub limit := by
  induction actions generalizing s v with
  | nil => exact ⟨v, hv, hdue⟩
  | cons action rest ih =>
      obtain ⟨hclosing', hrest⟩ := closing_act hclosing hstays
      obtain ⟨hpass, hprompt'⟩ := hprompt
      have hseated := h.act action
      -- a worker that is about to begin a dequeue can make a step, so no time passes
      have hclock (room : Nat) (hcontrol : v.control = .dequeue room) :
          s.hub.now + action.elapsed + s.hub.dequeueTimeout ≤ limit := by
        have hnone : action.elapsed = 0 := by
          by_contra hpos
          have hstuck := (work?_eq_none_iff hv).mp (hpass (Nat.pos_of_ne_zero hpos))
          simp [Worker.step, hcontrol] at hstuck
        simp only [Worker.DueBy, hcontrol] at hdue
        rw [hnone]
        exact hdue
      cases fate hv action with
      | kept hwork _ hsame =>
          exact ih hseated hclosing' hrest hprompt' hsame
            (dueBy_act h hv hdue hwork hclock)
      | cued cue haction hcue =>
          have hkept : v.DueBy (s.act action).hub limit :=
            dueBy_act h hv hdue (by simp [haction]) hclock
          exact ih hseated hclosing' hrest hprompt' hcue hkept
      | stuck _ _ hsame =>
          refine ih (v := v) hseated hclosing' hrest hprompt' ?_ ?_ <;> rw [hsame]
          · exact hv
          · exact hdue
      | stepped hub v' _ hstep hafter =>
          refine ih (v := v') hseated hclosing' hrest hprompt' ?_ ?_ <;> rw [hafter]
          · exact getElem?_set_self hv v'
          · refine (Worker.step_sound hstep).dueBy (h.lawful k v hv) (fun hopen ↦ ?_) hdue
            exact absurd (hopen.symm.trans hclosing) Bool.false_ne_true

/-- With the flag set, a subscriber that was let in comes to rest by its own steps. -/
theorem exists_standstill {s : System} {v : Worker} (hv : s.workers[k]? = some v)
    (hclosing : s.hub.closing = true) (h : v.control.IsHearing ∨ v.control.IsAdmitted) :
    ∃ n, (s.run (List.replicate n (.work k))).work? k = none := by
  cases hstep : v.step s.hub with
  | none => exact ⟨0, (work?_eq_none_iff hv).mpr hstep⟩
  | some next =>
      obtain ⟨hub, v'⟩ := next
      have hact := act_of_step hv hstep
      have hv' : (s.act (.work k)).workers[k]? = some v' := by
        rw [hact]
        exact getElem?_set_self hv v'
      have hclosing' : (s.run [.work k]).hub.closing = true := closing_run hclosing (by simp)
      obtain ⟨hless, hafter⟩ := (Worker.step_sound hstep).wayOut_lt hclosing h
      obtain ⟨n, hrest⟩ := exists_standstill hv' hclosing' hafter
      exact ⟨n + 1, hrest⟩
termination_by v.wayOut
decreasing_by exact hless

/-- A subscriber whose join is confirmed stays one. -/
theorem joined_run {name : String} (hw : s.workers[k]? = some w) (h : w.Joined name)
    (hhearing : w.control.IsHearing) (actions : List Action) :
    ∃ v, (s.run actions).workers[k]? = some v ∧ v.Joined name ∧ v.control.IsHearing := by
  refine exists_worker_of_steps (P := fun v ↦ v.Joined name ∧ v.control.IsHearing) ?_ ?_ hw
    ⟨h, hhearing⟩ actions
  · intro hub v hub' v' hstep ⟨hjoined, hhearing⟩
    have hon := hstep.hearsOn hhearing
    exact ⟨⟨hon.role.trans hjoined.role, hon.room.trans hjoined.room,
      Nat.le_trans hjoined.sent hon.sent⟩, hon.hearing⟩
  · exact fun cue ⟨hjoined, hhearing⟩ ↦ ⟨⟨hjoined.role, hjoined.room, hjoined.sent⟩, hhearing⟩

/-- Whoever has ended has shut its stream down and is a member of no room. -/
theorem Seated.released (h : s.Seated) (htended : s.Everywhere Worker.Tended)
    (hv : s.workers[k]? = some v) {result : Result} (hresult : v.result? = some result) :
    s.Released v result := by
  have hshut := htended k v hv
  simp only [Worker.Tended, hresult] at hshut
  refine ⟨hresult, hshut, fun room id hmember ↦ ?_⟩
  obtain ⟨u, hu, -, hseat⟩ := h.members room id v.place hmember
  rw [h.placed k v hv, hv] at hu
  obtain rfl := Option.some.inj hu
  rw [Worker.seat?_of_result? hresult] at hseat
  cases hseat

/-- A subscriber whose join was confirmed when the flag was set departs, and whenever it can make no
step, it has ended in good order and left its room, or it waits as `Departing.atRest` says. -/
theorem Initial.departing (h : s.Initial) (before : List Action) {after : List Action}
    (hclosing : (s.run before).hub.closing = true) (hstays : .setClosing false ∉ after)
    (hw : (s.run before).workers[k]? = some w) {name : String} (hjoined : w.Joined name) :
    let t := (s.run before).run after
    ∃ v, t.workers[k]? = some v ∧ v.Joined name ∧ v.control.IsHearing ∧ w.Departing v ∧
      (t.work? k = none → t.Released v (.ok ()) ∨ w.Lingers v ∨ w.HeldUp v) := by
  intro t
  have hseated : (s.run before).Seated := h.seated.run before
  have hseated' : t.Seated := hseated.run after
  have htended : t.Everywhere Worker.Tended := by
    have hall := lasting_tended.run h (before ++ after)
    rwa [run_append] at hall
  have hmail : (s.run before).Mail (·.tag = .delivery) := h.mail.run before
  have hhearing := hjoined.isHearing (hseated.lawful k w hw)
  obtain ⟨v, hv, hdeparting⟩ := departing_run hmail hclosing hstays hw
    (Worker.departing_self hhearing (hmail.carries k w hw))
  obtain ⟨u, hu, hstill, hhears⟩ := joined_run hw hjoined hhearing after
  obtain rfl := Option.some.inj (hu.symm.trans hv)
  refine ⟨u, hv, hstill, hhears, hdeparting, fun hnone ↦ ?_⟩
  refine (hdeparting.atRest ((work?_eq_none_iff hv).mp hnone)).imp_left fun ⟨result, hresult⟩ ↦ ?_
  obtain rfl := (hseated'.lawful k u hv).result_eq_ok hresult hstill
  exact hseated'.released htended hv hresult

/-- From when it is past its dequeue and its delivery, such a subscriber waits for nothing any more. -/
theorem Initial.released_of_past (h : s.Initial) (before : List Action) {first second : List Action}
    (hclosing : (s.run before).hub.closing = true) (hstays : .setClosing false ∉ first ++ second)
    (hw : (s.run before).workers[k]? = some w) {name : String} (hjoined : w.Joined name)
    (hv : ((s.run before).run first).workers[k]? = some v)
    (hpast : ∀ room, ¬v.control.Dequeues room ∧ ¬v.control.Delivers room) :
    let t := (s.run before).run (first ++ second)
    ∃ u, t.workers[k]? = some u ∧ (t.work? k = none → t.Released u (.ok ())) := by
  intro t
  have hfirst : s.run (before ++ first) = (s.run before).run first := run_append s before first
  have hsecond : (s.run (before ++ first)).run second = t := by
    rw [hfirst, ← run_append]
  rw [List.mem_append, not_or] at hstays
  obtain ⟨x, hx, hstill, -⟩ := h.departing before hclosing hstays.1 hw hjoined
  obtain rfl := Option.some.inj (hv.symm.trans hx)
  rw [← hfirst] at hv
  have hset : (s.run (before ++ first)).hub.closing = true := by
    rw [hfirst]
    exact closing_run hclosing hstays.1
  obtain ⟨u, hu, -, -, -, hwaits⟩ := h.departing (before ++ first) hset hstays.2 hv hstill
  rw [hsecond] at hu hwaits
  refine ⟨u, hu, fun hnone ↦ ?_⟩
  rcases hwaits hnone with hreleased | ⟨room, hdequeues, -⟩ | ⟨room, hfrom, -⟩
  · exact hreleased
  · exact absurd hdequeues (hpast room).1
  · exact absurd hfrom (not_or.mpr (hpast room))

/-- From a time at which the flag is set, by any later run that does not take it back, whatever is
broadcast and whatever is in the mailboxes. A subscriber whose join was confirmed writes part of one
delivery at most. Whenever it can make no step, it has ended in good order and left its room, or it
still waits in the dequeue in which it was and has written nothing, or it is held up by a peer that does
not take that one delivery. From when it is out of the dequeue and the delivery, if there is one, has
gone out or failed, it waits no more. If time passes only while it can make no step, it no longer waits
in its dequeue once a dequeue's time has passed. A subscriber that has been let in and not been confirmed
writes its confirmation and nothing else. It waits only for its peer to take this, and has otherwise
ended and left its room whenever it can make no step: in good order, or with a failure if a send failed.
Both come to rest by finitely many steps of their own. And whoever is no subscriber is in the same state
as in every run that differs from this one only in when the flag is set. -/
theorem shutdown_releases (h : s.Initial) (before : List Action) {after : List Action}
    (hclosing : (s.run before).hub.closing = true) (hstays : .setClosing false ∉ after)
    (hw : (s.run before).workers[k]? = some w) :
    let flagged := s.run before
    let t := flagged.run after
    ∃ v, t.workers[k]? = some v ∧
      (∀ name, w.Joined name →
        (∃ extra, IsPart extra ∧ v.written = w.written ++ extra ∧
          v.session.sent ≤ w.session.sent + 1) ∧
        (t.work? k = none → t.Released v (.ok ()) ∨ w.Lingers v ∨ w.HeldUp v) ∧
        (∀ first second u, after = first ++ second → (flagged.run first).workers[k]? = some u →
          (∀ room, ¬u.control.Dequeues room ∧ ¬u.control.Delivers room) →
            t.work? k = none → t.Released v (.ok ())) ∧
        (t.work? k = none → Prompt k flagged after →
          flagged.hub.now + flagged.hub.dequeueTimeout ≤ t.hub.now →
            t.Released v (.ok ()) ∨ w.HeldUp v) ∧
        ∃ n, (t.run (List.replicate n (.work k))).work? k = none) ∧
      (w.control.IsAdmitted →
        v.written <+: confirmations ∧
        (t.work? k = none →
          (∃ result, t.Released v result ∧
            (v.written = confirmations ∧ result = .ok () ∨
              (∃ failure, result = .error failure) ∧
                Happens Worker.SendFails k flagged after)) ∨
          v.control.IsAdmitted ∧ v.isStalled = true) ∧
        ∃ n, (t.run (List.replicate n (.work k))).work? k = none) ∧
      (v.session.role ≠ some .subscriber → ∀ other : List Action,
        other.filter (·.flag?.isNone) = (before ++ after).filter (·.flag?.isNone) →
          (s.run other).workers[k]? = some v) := by
  intro flagged t
  have hrun : s.run (before ++ after) = t := run_append s before after
  have hseated : flagged.Seated := h.seated.run before
  have hseated' : t.Seated := hseated.run after
  have htended : t.Everywhere Worker.Tended := hrun ▸ lasting_tended.run h (before ++ after)
  have hset : t.hub.closing = true := closing_run hclosing hstays
  obtain ⟨v, hv, -⟩ := exists_worker_run hw after
  have hrest : t.work? k = none ↔ v.step t.hub = none := work?_eq_none_iff hv
  refine ⟨v, hv, fun name hjoined ↦ ?_, fun hadmitted ↦ ?_, fun hrole other hother ↦ ?_⟩
  · obtain ⟨u, hu, -, hhears, hdeparting, hwaits⟩ := h.departing before hclosing hstays hw hjoined
    obtain rfl := Option.some.inj (hu.symm.trans hv)
    refine ⟨hdeparting.written, hwaits, fun first second x hafter hx hpast hnone ↦ ?_,
      fun hnone hprompt hnow ↦ ?_, exists_standstill hv hset (.inl hhears)⟩
    · subst hafter
      obtain ⟨y, hy, hreleased⟩ := h.released_of_past before hclosing hstays hw hjoined hx hpast
      obtain rfl := Option.some.inj (hy.symm.trans hv)
      exact hreleased hnone
    · refine (hwaits hnone).imp_right fun hwaiting ↦ hwaiting.resolve_left ?_
      -- the dequeue would have ended by now
      rintro ⟨room, -, hcontrol, -⟩
      obtain ⟨y, hy, hdue⟩ := dueBy_run hseated hclosing hstays hprompt hw
        ((h.dated before).due k w hw)
      obtain rfl := Option.some.inj (hy.symm.trans hv)
      exact absurd (hrest.mp hnone) (hdue.step_ne_none hcontrol hnow)
  · have hstart : w.Admitted False := Worker.admitted_of_isAdmitted hadmitted
    obtain ⟨u, hu, hafter⟩ :=
      admitted_run hseated.placed hseated.lawful hclosing hstays hw hstart
    obtain rfl := Option.some.inj (hu.symm.trans hv)
    refine ⟨hafter.written (hseated'.lawful k u hv), fun hnone ↦ ?_,
      exists_standstill hv hset hafter.isOnWay⟩
    refine (hafter.atRest (hrest.mp hnone)).imp_left fun ⟨result, hresult, hcase⟩ ↦ ?_
    exact ⟨result, hseated'.released htended hv hresult,
      hcase.imp_right (And.imp_right fun hfailed ↦ hfailed.resolve_left id)⟩
  · have hv' : (s.run (before ++ after)).workers[k]? = some v := by
      rw [hrun]
      exact hv
    exact unaffected_by_flag h hother.symm hv' fun hstrays ↦ hrole hstrays.role

/-- The flag is set while a subscriber waits in its room. -/
def flagging : List Action :=
  listening ++ [.setClosing true]

/-- The time of a dequeue passes, and then the subscriber has its turns. -/
def lapsing : List Action :=
  .pass 1000 :: List.replicate 4 (.work 0)

/-- A subscriber that waits while the flag is set has left its room after a dequeue's time. -/
theorem shutdown_releases_listening :
    ∃ w v, (run {} flagging).workers[0]? = some w ∧ w.Joined "den" ∧
      ((run {} flagging).run lapsing).workers[0]? = some v ∧
      ((run {} flagging).run lapsing).Released v (.ok ()) := by
  have hclosing : (run {} flagging).hub.closing = true := by decide +kernel
  have hstays : .setClosing false ∉ lapsing := by simp [lapsing]
  have hmember : (run {} flagging).workers[0]?.map (decide <| ·.Joined "den") = some true := by
    decide +kernel
  obtain ⟨w, hw, hdecided⟩ := Option.map_eq_some_iff.mp hmember
  have hjoined : w.Joined "den" := of_decide_eq_true hdecided
  have hwaits : (run {} flagging).work? 0 = none := by
    rw [← Option.not_isSome_iff_eq_none]
    decide +kernel
  have hprompt : Prompt 0 (run {} flagging) lapsing := by
    simpa [lapsing, Prompt, Action.elapsed, List.replicate] using hwaits
  have hrest : ((run {} flagging).run lapsing).work? 0 = none := by
    rw [← Option.not_isSome_iff_eq_none]
    decide +kernel
  have hnow : (run {} flagging).hub.now + (run {} flagging).hub.dequeueTimeout ≤
      ((run {} flagging).run lapsing).hub.now := by
    decide +kernel
  have hflows : ((run {} flagging).run lapsing).workers[0]?.map (·.isStalled) = some false := by
    decide +kernel
  obtain ⟨v, hv, hreleases, -⟩ := shutdown_releases initial_empty flagging hclosing hstays hw
  obtain ⟨-, -, -, hintime, -⟩ := hreleases "den" hjoined
  refine ⟨w, v, hw, hjoined, hv, (hintime hrest hprompt hnow).resolve_right ?_⟩
  rintro ⟨-, -, -, hstalled, -⟩
  rw [hv, Option.map_some, hstalled] at hflows
  cases hflows

/-- The peer of a waiting subscriber takes no more bytes. A text comes in, the worker begins to deliver
it, and the flag is set. -/
def stalling : List Action :=
  listening ++ [.cue 0 (.block ⟨0, some .wait⟩), .broadcast "den" "amy" "hi", .work 0,
    .setClosing true]

/-- While the flag is set, a subscriber logs in and asks for a room, and its stream accepts no more than
the confirmation of its login. -/
def entering : List Action :=
  [.setClosing true, .connect (fun _ ↦ none) true,
    .cue 0 (.block ⟨confirmation.length, some (.fault .brokenPipe)⟩),
    .cue 0 (.arrive (.chunk (Message.bytes ⟨.rlogin, "bob"⟩ ++ Message.bytes ⟨.join, "den"⟩)))] ++
    List.replicate 5 (.work 0)

/-- The first subscriber has not left its room a dequeue's time after the flag was set, nor shut its
stream down, and it can make no step: its peer does not take the delivery. The second one's join is
accepted while the flag is set, and it ends with a failure, without having written the confirmation. -/
theorem unreleased_while_stalled :
    (∃ w v, (run {} stalling).hub.closing = true ∧ (run {} stalling).workers[0]? = some w ∧
      w.Joined "den" ∧
      ((run {} stalling).run lapsing).hub.now =
        (run {} stalling).hub.now + (run {} stalling).hub.dequeueTimeout ∧
      ((run {} stalling).run lapsing).work? 0 = none ∧
      ((run {} stalling).run lapsing).workers[0]? = some v ∧ v.result? = none ∧
      v.connection.stream.shutdowns = 0 ∧
      (((run {} stalling).run lapsing).hub.directory.members 0).get? 1 = some 0) ∧
    ∃ w v, (run {} entering).hub.closing = true ∧ (run {} entering).workers[0]? = some w ∧
      w.control.IsAdmitted ∧
      ((run {} entering).run (List.replicate 5 (.work 0))).workers[0]? = some v ∧
      v.written = confirmation ∧ v.result? = some (.error (.io .brokenPipe)) := by
  constructor
  · have hmember : (run {} stalling).workers[0]?.map (decide <| ·.Joined "den") = some true := by
      decide +kernel
    have hstays : ((run {} stalling).run lapsing).workers[0]?.map
        (fun v ↦ (v.result?.isNone, v.connection.stream.shutdowns)) = some (true, 0) := by
      decide +kernel
    obtain ⟨w, hw, hjoined⟩ := Option.map_eq_some_iff.mp hmember
    obtain ⟨v, hv, hopen⟩ := Option.map_eq_some_iff.mp hstays
    simp only [Prod.mk.injEq, Option.isNone_iff_eq_none] at hopen
    refine ⟨w, v, by decide +kernel, hw, of_decide_eq_true hjoined, by decide +kernel, ?_, hv,
      hopen.1, hopen.2, by decide +kernel⟩
    rw [← Option.not_isSome_iff_eq_none]
    decide +kernel
  · have haccepted : (run {} entering).workers[0]?.map (decide ·.control.IsAdmitted) = some true := by
      decide +kernel
    have hends : ((run {} entering).run (List.replicate 5 (.work 0))).workers[0]?.map
        (fun v ↦ (v.written, v.result?)) =
          some (confirmation, some (.error (.io .brokenPipe))) := by
      decide +kernel
    obtain ⟨w, hw, hadmitted⟩ := Option.map_eq_some_iff.mp haccepted
    obtain ⟨v, hv, hresult⟩ := Option.map_eq_some_iff.mp hends
    simp only [Prod.mk.injEq] at hresult
    exact ⟨w, v, by decide +kernel, hw, of_decide_eq_true hadmitted, hv, hresult.1, hresult.2⟩

end System

end ChatRelay.Server
