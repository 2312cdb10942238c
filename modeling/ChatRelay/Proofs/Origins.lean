import ChatRelay.Proofs.Refusals
import Mathlib.Data.List.Induction

/-!
# Where rooms come from

A room is made by a worker at a control point that `Control.opens?` names, and a worker comes there
only by taking a join: `Step.opens` for the step, `exists_join` for the run. `exists_founding` puts
this together for every room of a run. `nothing_before_admission` states it beside what becomes of the
sessions that are turned away.
-/

namespace ChatRelay.Server

open Transport Wire Text

/-- The room that a worker finds or makes at this control point. -/
def Control.opens? : Control → Option String
  | .openRoom name | .enterRoom name => some name
  | _ => none

/-- Only a message that a line can carry is received. -/
theorem valid_of_receiveStep {c after : Connection} {m : Message}
    (h : c.receiveStep = (after, .done (.ok m))) : m.Valid := by
  cases hcut : Line.cut? c.buffer with
  | some split =>
      obtain ⟨line, rest⟩ := split
      rw [Connection.receiveStep_of_line hcut] at h
      simp only [Prod.mk.injEq, Receiving.done.injEq] at h
      obtain ⟨-, hresult⟩ := h
      split at hresult
      · cases hresult
      · unfold Connection.judge Line.read at hresult
        split at hresult
        · cases hresult
        · split at hresult
          · cases hresult
          · split at hresult
            · cases hresult
            · rename_i hvalid
              cases hresult
              exact Message.validate_eq_ok_iff.mp hvalid
  | none =>
      -- without a line in the buffer the step reads, waits or fails
      unfold Connection.receiveStep at h
      simp only [hcut] at h
      split at h
      · cases h
      · split at h
        · cases h
        · split at h <;> cases h

namespace Worker

variable {hub hub' : Hub} {w w' : Worker} {name : String}

/-- The worker is logged in, and the message that it receives next is a join of this room, which it
accepts. -/
structure TakesJoin (w : Worker) (name : String) : Prop where
  loggedIn : ∃ role, w.session.role = some role
  awaits : w.control = .receive .join ∨ ∃ room, w.control = .receive (.command room)
  receives : ∃ connection, w.connection.receiveStep = (connection, .done (.ok ⟨.join, name⟩))
  nonempty : name ≠ ""
  colonless : ':' ∉ name.toList

/-- A room name that is not refused. -/
theorem name_of_roomRefusal? (h : roomRefusal? name = none) : name ≠ "" ∧ ':' ∉ name.toList := by
  rw [roomRefusal?_eq] at h
  constructor
  · intro hempty
    simp [hempty] at h
  · intro hcolon
    by_cases hempty : name = "" <;> simp [hempty, hcolon] at h

/-- A step that leads to where a room is made takes a join of it. -/
theorem Step.opens (h : Step hub w hub' w') (hw : w.Lawful hub.directory)
    (hopens : w'.control.opens? = some name) : w.TakesJoin name := by
  cases h with
  | joinAccepted connection m hcontrol hstep hnone =>
      obtain ⟨tag, payload⟩ := m
      simp only [Lawful, hcontrol] at hw
      cases tag with
      | join =>
          cases hopens
          obtain ⟨hempty, hcolon⟩ := name_of_roomRefusal? hnone
          exact ⟨⟨_, hw.role⟩, .inl hcontrol, ⟨connection, hstep⟩, hempty, hcolon⟩
      | _ => cases hnone
  | joinCommand room connection other hcontrol hstep hnone =>
      simp only [Lawful, hcontrol] at hw
      cases hopens
      obtain ⟨hempty, hcolon⟩ := name_of_roomRefusal? hnone
      exact ⟨⟨_, hw.role⟩, .inr ⟨room, hcontrol⟩, ⟨connection, hstep⟩, hempty, hcolon⟩
  | input await connection hcontrol =>
      rw [hcontrol] at hopens
      cases hopens
  | sent rest after =>
      cases after with
      | loggedIn role => cases role <;> cases hopens
      | _ => cases hopens
  | unsent rest after => cases after <;> cases hopens
  | _ => cases hopens

/-- A step makes no room, or it makes the one named at the control point, at the end of the list. -/
theorem Step.rooms (h : Step hub w hub' w') :
    hub'.directory.rooms.length = hub.directory.rooms.length ∨
      ∃ name, w.control.opens? = some name ∧
        hub'.directory.rooms = hub.directory.rooms ++ [⟨name, {}⟩] := by
  cases h with
  | openRoom name directory room hcontrol hfind | enterRoom name directory room hcontrol hfind =>
      unfold Directory.findOrCreate at hfind
      split at hfind
      · cases hfind
        exact .inl rfl
      · cases hfind
        exact .inr ⟨name, by rw [hcontrol]; rfl, rfl⟩
  | addMember room directory hcontrol hd =>
      left
      subst hd
      unfold Directory.addMember
      split
      · rfl
      · simp [Directory.updateMembers]
  | removeMember room result directory hcontrol hd =>
      left
      subst hd
      unfold Directory.removeMember
      split
      · rfl
      · simp [Directory.updateMembers]
  | broadcast room text directory hcontrol hd =>
      left
      subst hd
      exact congrArg List.length (Directory.rooms_deliver _ _ _)
  | sent rest after =>
      left
      cases after with
      | loggedIn role => cases role <;> rfl
      | _ => rfl
  | dequeue _ _ _ hd | collected _ _ _ _ _ _ hd | missed _ _ _ _ _ hd | lapsed _ _ _ _ _ hd =>
      subst hd
      exact .inl rfl
  | close =>
      rw [Hub.directory_closed]
      exact .inl rfl
  | _ => exact .inl rfl

end Worker

namespace System

variable {s : System} {k : Nat} {name : String}

/-- An action makes no room, or it is the step of a worker that makes the one it names. -/
theorem rooms_act (s : System) (action : Action) :
    (s.act action).hub.directory.rooms.length = s.hub.directory.rooms.length ∨
      ∃ k w name, action = .work k ∧ s.workers[k]? = some w ∧ w.control.opens? = some name ∧
        (s.act action).hub.directory.rooms = s.hub.directory.rooms ++ [⟨name, {}⟩] := by
  cases action with
  | work k =>
      cases hwork : s.work? k with
      | none => exact .inl (by simp [act, hwork])
      | some t =>
          obtain ⟨w, hub, w', hw, hstep, rfl⟩ := work?_eq_some hwork
          rw [act_of_step hw hstep]
          rcases (Worker.step_sound hstep).rooms with hsame | ⟨name, hopens, hrooms⟩
          · exact .inl hsame
          · exact .inr ⟨k, w, name, rfl, hw, hopens, hrooms⟩
  | connect pace counted =>
      left
      simp only [act, connect]
      split <;> rfl
  | broadcast room sender text =>
      left
      simp only [act, broadcast]
      split
      · rfl
      · exact congrArg List.length (Directory.rooms_deliver _ _ _)
  | cue | setClosing | pass => exact .inl rfl

/-- A worker that is about to make a room took a join of it in its last step. -/
theorem exists_join (h : s.Initial) (actions : List Action) {w : Worker}
    (hw : (s.run actions).workers[k]? = some w) (hopens : w.control.opens? = some name) :
    ∃ before between v, actions = before ++ .work k :: between ∧ .work k ∉ between ∧
      (s.run before).workers[k]? = some v ∧ v.TakesJoin name := by
  induction actions using List.reverseRecOn generalizing w with
  | nil =>
      rw [(h.fresh k w hw).control] at hopens
      cases hopens
  | append_singleton init action ih =>
      have hrun : s.run (init ++ [action]) = (s.run init).act action := run_append s init [action]
      rw [hrun] at hw
      -- an action that is no step of the worker leaves it at its control point
      have hearlier (v : Worker) (hv : (s.run init).workers[k]? = some v)
          (hsame : v.control.opens? = some name) (hother : action ≠ .work k) :
          ∃ before between v, init ++ [action] = before ++ .work k :: between ∧
            .work k ∉ between ∧ (s.run before).workers[k]? = some v ∧ v.TakesJoin name := by
        obtain ⟨before, between, u, rfl, hnone, hu, hjoin⟩ := ih hv hsame
        refine ⟨before, between ++ [action], u, by simp, ?_, hu, hjoin⟩
        simp [hnone, Ne.symm hother]
      rcases exists_worker_before hw with ⟨v, hv⟩ | ⟨hnew, -⟩
      · cases fate hv action with
        | kept hother _ hsame =>
            obtain rfl := Option.some.inj (hw.symm.trans hsame)
            exact hearlier w hv hopens hother
        | cued cue haction hcue =>
            obtain rfl := Option.some.inj (hw.symm.trans hcue)
            exact hearlier v hv hopens (by simp [haction])
        | stuck haction hstep hsame =>
            rw [hsame] at hw
            obtain rfl := Option.some.inj (hw.symm.trans hv)
            cases hcontrol : w.control <;> simp [Control.opens?, hcontrol] at hopens
            · simp [Worker.step, hcontrol] at hstep
            · simp [Worker.step, hcontrol] at hstep
        | stepped hub w' haction hstep hafter =>
            subst haction
            rw [hafter] at hw
            obtain rfl := Option.some.inj (hw.symm.trans (getElem?_set_self hv w'))
            have hlawful := lasting_lawful.run h init k v hv
            exact ⟨init, [], v, rfl, List.not_mem_nil, hv, (Worker.step_sound hstep).opens hlawful hopens⟩
      · rw [hnew.control] at hopens
        cases hopens

/-- Every room that was not there at the start was made by a worker in the step after it took a join
of it. -/
theorem exists_founding (h : s.Initial) (actions : List Action) {room : Nat}
    (hnew : s.hub.directory.rooms.length ≤ room)
    (hroom : room < (s.run actions).hub.directory.rooms.length) :
    ∃ before between after k v, actions = before ++ .work k :: between ++ .work k :: after ∧
      .work k ∉ between ∧ (s.run before).workers[k]? = some v ∧
      v.TakesJoin ((s.run actions).hub.directory.name room) ∧
      (s.run (before ++ .work k :: between)).hub.directory.rooms.length = room ∧
      room < (s.run (before ++ .work k :: between ++ [.work k])).hub.directory.rooms.length := by
  induction actions using List.reverseRecOn with
  | nil => exact absurd hroom (Nat.not_lt.mpr hnew)
  | append_singleton init action ih =>
      have hrun : s.run (init ++ [action]) = (s.run init).act action := run_append s init [action]
      rw [hrun] at hroom ⊢
      by_cases hbefore : room < (s.run init).hub.directory.rooms.length
      · obtain ⟨before, between, after, k, v, rfl, hrest⟩ := ih hbefore
        rw [((s.run _).grows_act action).name room hbefore]
        exact ⟨before, between, after ++ [action], k, v, by simp, hrest⟩
      · rcases (s.run init).rooms_act action with hsame | ⟨k, w, name, rfl, hw, hopens, hrooms⟩
        · exact absurd (hsame ▸ hroom) hbefore
        · have hlast : (s.run init).hub.directory.rooms.length = room := by
            rw [hrooms, List.length_append, List.length_singleton] at hroom
            omega
          have hname : ((s.run init).act (.work k)).hub.directory.name room = name := by
            subst hlast
            simp [Directory.name, hrooms]
          obtain ⟨before, between, v, rfl, hnone, hv, hjoin⟩ := exists_join h init hw hopens
          refine ⟨before, between, [], k, v, by simp, hnone, hv, hname ▸ hjoin, hlast, ?_⟩
          rw [run_append]
          exact hroom

/-- A name that was taken with a join can stand in a line and in a delivery. -/
theorem name_of_takesJoin {w : Worker} (h : w.TakesJoin name) :
    name ≠ "" ∧ size name ≤ 255 ∧ ofUtf8? (utf8 name) = some name ∧
      ':' ∉ name.toList ∧ '\r' ∉ name.toList ∧ '\n' ∉ name.toList := by
  obtain ⟨connection, hstep⟩ := h.receives
  obtain ⟨hterminator, hsize⟩ := valid_of_receiveStep hstep
  have hfree (c : Char) (hc : isTerminator c = true) : c ∉ name.toList := by
    intro hmem
    have hnot := List.any_eq_false.mp hterminator c hmem
    exact hnot hc
  exact ⟨h.nonempty, hsize, ofUtf8?_eq_some_iff.mpr rfl, h.colonless, hfree _ rfl, hfree _ rfl⟩

/-- Nothing comes of a session that the protocol turns away at its login or at a subscriber's join,
whatever else happens in the run and on its stream: no step of its worker makes a room, a member or a
broadcast, or counts a login that was refused. It writes no more than its lines, the confirmation of
a subscriber's login and one refusal. It comes to its end, unless its peer does not take what it sends,
and ends as the protocol says, unless the confirmation could not be sent; where sends succeed all the
lines go out. And in every run from a fresh start
each new room was made by a worker that was logged in and took a join of it before, so that its name
is one that lines and deliveries can carry. -/
theorem nothing_before_admission (s : System) (actions : List Action) :
    (∀ (k : Nat) (w : Worker) (replies : List Message) (result : Result),
      s.workers[k]? = some w → w.Fresh →
      turnedAway? (w.connection.feed (actions.flatMap (·.arrivals k))).transcript =
        some (replies, result) →
      (∀ before after, actions = before ++ .work k :: after →
        Spares replies (s.run before).hub ((s.run before).act (.work k)).hub ∧
          (s.run before).broadcastOf? (.work k) = none) ∧
      (∃ v, (s.run actions).workers[k]? = some v ∧ v.written <+: replies.flatMap Message.bytes ∧
        ∀ given, v.result? = some given →
          v.Parted (WritesSucceed k s actions) replies result given) ∧
      ∃ n v, (s.run (actions ++ List.replicate n (.work k))).workers[k]? = some v ∧
        (v.isStalled = true ∨ ∃ given, v.result? = some given)) ∧
    (s.Initial → ∀ room, s.hub.directory.rooms.length ≤ room →
      room < (s.run actions).hub.directory.rooms.length →
      let name := (s.run actions).hub.directory.name room
      (name ≠ "" ∧ size name ≤ 255 ∧ ofUtf8? (utf8 name) = some name ∧
        ':' ∉ name.toList ∧ '\r' ∉ name.toList ∧ '\n' ∉ name.toList) ∧
      ∃ before between after k v, actions = before ++ .work k :: between ++ .work k :: after ∧
        .work k ∉ between ∧ (s.run before).workers[k]? = some v ∧ v.TakesJoin name ∧
        (s.run (before ++ .work k :: between)).hub.directory.rooms.length = room ∧
        room < (s.run (before ++ .work k :: between ++ [.work k])).hub.directory.rooms.length) := by
  constructor
  · intro k w replies result hw hfresh hinput
    refine ⟨?_, ?_, ?_⟩
    · rintro before after rfl
      rw [List.flatMap_append] at hinput
      obtain ⟨v, hv, hdismissed⟩ :=
        dismissed_run hw before False.elim (hfresh.dismissed hinput)
      exact spares_act hv False.elim hdismissed
    · rw [← List.append_nil (actions.flatMap _)] at hinput
      obtain ⟨v, hv, hdismissed⟩ := dismissed_run hw actions id (hfresh.dismissed hinput)
      exact ⟨v, hv, hdismissed.outcome⟩
    · rw [← List.append_nil (actions.flatMap _)] at hinput
      obtain ⟨v, hv, hdismissed⟩ :=
        dismissed_run hw actions False.elim (hfresh.dismissed hinput)
      obtain ⟨n, u, hu⟩ := exists_ended hv hdismissed
      exact ⟨n, u, by rwa [run_append]⟩
  · intro h room hnew hroom name
    obtain ⟨before, between, after, k, v, hactions, hnone, hv, hjoin, hrest⟩ :=
      exists_founding h actions hnew hroom
    exact ⟨name_of_takesJoin hjoin, before, between, after, k, v, hactions, hnone, hv, hjoin, hrest⟩

/-- A connection whose first message is a join. -/
def trespassing : List Action :=
  .cue 0 (.arrive (.chunk (Message.bytes ⟨.join, "den"⟩))) :: List.replicate 8 (.work 0)

/-- A join without a login is answered by a refusal, and one after a login makes the room. -/
theorem nothing_before_admission_trespassing :
    (turnedAway? (({ stream := {} } : Connection).feed
        (trespassing.flatMap (·.arrivals 0))).transcript =
          some ([.err "Expected slogin or rlogin"], .ok ()) ∧
      ∃ v, ((connect {} (fun _ ↦ none) true).run trespassing).workers[0]? = some v ∧
        v.written <+: (Message.err "Expected slogin or rlogin").bytes) ∧
    0 < (run {} listening).hub.directory.rooms.length ∧
      ∃ before between after k v, listening = before ++ .work k :: between ++ .work k :: after ∧
        (run {} before).workers[k]? = some v ∧ v.TakesJoin "den" := by
  have hinput : turnedAway? (({ stream := {} } : Connection).feed
      (trespassing.flatMap (·.arrivals 0))).transcript =
        some ([.err "Expected slogin or rlogin"], .ok ()) := by
    decide +kernel
  have hroom : 0 < (run {} listening).hub.directory.rooms.length := by
    decide +kernel
  have hname : (run {} listening).hub.directory.name 0 = "den" := by
    decide +kernel
  constructor
  · let w : Worker :=
      { place := 0, session := { id := 1 }, connection := { stream := {} }, counted := true }
    have hfresh : w.Fresh := ⟨rfl, rfl, rfl, rfl, rfl, rfl⟩
    obtain ⟨hturned, -⟩ := nothing_before_admission (connect {} (fun _ ↦ none) true) trespassing
    obtain ⟨-, ⟨v, hv, hwritten, -⟩, -⟩ := hturned 0 w _ _ rfl hfresh hinput
    exact ⟨hinput, v, hv, by simpa using hwritten⟩
  · obtain ⟨-, hrooms⟩ := nothing_before_admission {} listening
    obtain ⟨-, before, between, after, k, v, hactions, -, hv, hjoin, -⟩ :=
      hrooms initial_empty 0 (Nat.le_refl 0) hroom
    exact ⟨hroom, before, between, after, k, v, hactions, hv, hname ▸ hjoin⟩

end System

end ChatRelay.Server
