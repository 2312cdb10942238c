import ChatRelay.Proofs.Dequeues
import ChatRelay.Proofs.Phases

/-!
# Who takes no notice of the shutdown flag

Only a subscriber that was let into a room looks at the flag, and by what it then does it changes
nothing that any other worker looks at: of the directory these read nothing but the names of the rooms.
So two runs that differ only in when the flag is set go on side by side (`Parallel.run`), and everybody
but the subscribers in rooms is in the same state in both (`unaffected_by_flag`).
-/

namespace ChatRelay

open Transport Wire

namespace Directory

variable {d d' : Directory}

/-- Of what a directory holds, the names of the rooms decide which room has a name. -/
theorem findOrCreate_of_roomNames (h : d'.roomNames = d.roomNames) (name : String) :
    (d'.findOrCreate name).2 = (d.findOrCreate name).2 ∧
      (d'.findOrCreate name).1.roomNames = (d.findOrCreate name).1.roomNames := by
  have hfind : d'.find? name = d.find? name := by rw [find?_eq, find?_eq, h]
  have hlength : d'.rooms.length = d.rooms.length := by
    simpa [roomNames] using congrArg List.length h
  unfold findOrCreate
  rw [hfind]
  cases d.find? name with
  | some room => exact ⟨rfl, h⟩
  | none =>
      refine ⟨hlength, ?_⟩
      unfold roomNames at h ⊢
      rw [List.map_append, List.map_append, h]

end Directory

namespace Server

namespace Worker

variable {hub hub' hub₁ : Hub} {w w₁ : Worker}

/-- Which way the worker goes may depend on the flag. -/
structure Strays (w : Worker) : Prop where
  role : w.session.role = some .subscriber
  hearing : w.control.IsHearing

/-- What a step leaves alone of the worker of a subscriber whose join is confirmed. -/
structure HearsOn (hub : Hub) (w : Worker) (hub₁ : Hub) (w₁ : Worker) : Prop where
  hearing : w₁.control.IsHearing
  role : w₁.session.role = w.session.role
  room : w₁.session.room = w.session.room
  sent : w.session.sent ≤ w₁.session.sent
  names : hub₁.directory.roomNames = hub.directory.roomNames

theorem Step.hearsOn (h : Step hub w hub₁ w₁) (hhearing : w.control.IsHearing) :
    HearsOn hub w hub₁ w₁ := by
  cases h with
  | output rest after connection _ hcontrol | unsent rest after connection _ hcontrol =>
      rw [hcontrol] at hhearing
      cases after with
      | delivered room => exact ⟨trivial, rfl, rfl, Nat.le_refl _, rfl⟩
      | _ => exact hhearing.elim
  | sent rest after connection hcontrol =>
      rw [hcontrol] at hhearing
      cases after with
      | delivered room => exact ⟨trivial, rfl, rfl, Nat.le_succ _, rfl⟩
      | _ => exact hhearing.elim
  | parting room | staying room | missed room | collected room | lapsed room | dequeue room =>
      subst_vars
      exact ⟨trivial, rfl, rfl, Nat.le_refl _, rfl⟩
  | removeMember room result directory hcontrol hd =>
      subst hd
      exact ⟨trivial, rfl, rfl, Nat.le_refl _, Directory.roomNames_removeMember _ _ _⟩
  | close result =>
      refine ⟨trivial, rfl, rfl, Nat.le_refl _, ?_⟩
      rw [Hub.directory_closed]
  | _ => simp only [Control.IsHearing, *] at hhearing

theorem tooLong_of_roomNames (h : hub'.directory.roomNames = hub.directory.roomNames) (w : Worker)
    (room : Nat) (text : String) : tooLong hub' w room text = tooLong hub w room text := by
  simp only [tooLong, Directory.name_eq, h]

theorem commandRefusal?_of_roomNames (h : hub'.directory.roomNames = hub.directory.roomNames)
    (w : Worker) (room : Option Nat) (m : Message) :
    commandRefusal? hub' w room m = commandRefusal? hub w room m := by
  unfold commandRefusal?
  split
  · rfl
  · cases room with
    | none => rfl
    | some target => simp only [tooLong_of_roomNames h]
  all_goals rfl

/-- A worker that neither looks at the flag nor into its mailbox makes the same step wherever the rooms
have the same names. -/
theorem Step.parallel (h : Step hub w hub₁ w₁)
    (hnames : hub'.directory.roomNames = hub.directory.roomNames)
    (htest : ∀ room, w.control ≠ .testFlag room) (hcollect : ∀ room, w.control ≠ .collect room) :
    ∃ hub₂, Step hub' w hub₂ w₁ ∧ hub₂.directory.roomNames = hub₁.directory.roomNames := by
  cases h with
  | input await connection hcontrol hstep =>
      exact ⟨hub', .input await connection hcontrol hstep, hnames⟩
  | loginFailed connection failure hcontrol hstep =>
      exact ⟨hub', .loginFailed connection failure hcontrol hstep, hnames⟩
  | loginRefused connection m refusal hcontrol hstep hrefusal =>
      exact ⟨hub', .loginRefused connection m refusal hcontrol hstep hrefusal, hnames⟩
  | loginAccepted connection m role hcontrol hstep hrole hname =>
      exact ⟨_, .loginAccepted connection m role hcontrol hstep hrole hname, hnames⟩
  | joinFailed connection failure hcontrol hstep =>
      exact ⟨hub', .joinFailed connection failure hcontrol hstep, hnames⟩
  | joinRefused connection m refusal hcontrol hstep hrefusal =>
      exact ⟨hub', .joinRefused connection m refusal hcontrol hstep hrefusal, hnames⟩
  | joinAccepted connection m hcontrol hstep haccepted =>
      exact ⟨hub', .joinAccepted connection m hcontrol hstep haccepted, hnames⟩
  | commandFailed room connection failure hcontrol hstep =>
      exact ⟨hub', .commandFailed room connection failure hcontrol hstep, hnames⟩
  | commandRefused room connection m refusal hcontrol hstep hrefusal =>
      rw [← commandRefusal?_of_roomNames hnames] at hrefusal
      exact ⟨hub', .commandRefused room connection m refusal hcontrol hstep hrefusal, hnames⟩
  | joinCommand room connection name hcontrol hstep haccepted =>
      exact ⟨hub', .joinCommand room connection name hcontrol hstep haccepted, hnames⟩
  | sendCommand target connection text hcontrol hstep hshort =>
      rw [← tooLong_of_roomNames hnames] at hshort
      exact ⟨hub', .sendCommand target connection text hcontrol hstep hshort, hnames⟩
  | leaveCommand room connection payload hcontrol hstep =>
      exact ⟨hub', .leaveCommand room connection payload hcontrol hstep, hnames⟩
  | quitCommand room connection payload hcontrol hstep =>
      exact ⟨hub', .quitCommand room connection payload hcontrol hstep, hnames⟩
  | openRoom name directory room hcontrol hfind =>
      obtain ⟨hroom, hmade⟩ := Directory.findOrCreate_of_roomNames hnames name
      rw [hfind] at hroom hmade
      have hstep : Step hub' w _ _ := .openRoom name _ room hcontrol (Prod.ext rfl hroom)
      rw [Directory.name_eq, hmade, ← Directory.name_eq] at hstep
      exact ⟨_, hstep, hmade⟩
  | enterRoom name directory room hcontrol hfind =>
      obtain ⟨hroom, hmade⟩ := Directory.findOrCreate_of_roomNames hnames name
      rw [hfind] at hroom hmade
      exact ⟨_, .enterRoom name _ room hcontrol (Prod.ext rfl hroom), hmade⟩
  | addMember room directory hcontrol hd =>
      subst hd
      have hadded : (hub'.directory.addMember room w.place).1.roomNames =
          (hub.directory.addMember room w.place).1.roomNames := by
        rw [Directory.roomNames_addMember, Directory.roomNames_addMember, hnames]
      have hstep : Step hub' w _ _ := .addMember room _ hcontrol rfl
      rw [Directory.name_eq, hadded, ← Directory.name_eq] at hstep
      exact ⟨_, hstep, hadded⟩
  | broadcast room text directory hcontrol hd =>
      subst hd
      refine ⟨_, .broadcast room text _ hcontrol rfl, ?_⟩
      simp only [Hub.directory_count, Directory.roomNames_broadcast, hnames]
  | output rest after connection left hcontrol hstep =>
      exact ⟨hub', .output rest after connection left hcontrol hstep, hnames⟩
  | sent rest after connection hcontrol hstep =>
      have hsame : Step hub' w _ _ := .sent rest after connection hcontrol hstep
      cases after with
      | loggedIn role => cases role <;> exact ⟨_, hsame, hnames⟩
      | _ => exact ⟨_, hsame, hnames⟩
  | unsent rest after connection failure hcontrol hstep =>
      exact ⟨hub', .unsent rest after connection failure hcontrol hstep, hnames⟩
  | parting room hcontrol | staying room hcontrol => exact absurd hcontrol (htest room)
  | dequeue room directory hcontrol hd =>
      subst hd
      exact ⟨_, .dequeue room _ hcontrol rfl, hnames⟩
  | collected room _ _ hcontrol | missed room _ hcontrol | lapsed room _ hcontrol =>
      exact absurd hcontrol (hcollect room)
  | removeMember room result directory hcontrol hd =>
      subst hd
      refine ⟨_, .removeMember room result _ hcontrol rfl, ?_⟩
      simp only [Directory.roomNames_removeMember, hnames]
  | close result hcontrol =>
      refine ⟨_, .close result hcontrol, ?_⟩
      rw [Hub.directory_closed, Hub.directory_closed, hnames]

/-- What becomes of a worker and of what it shares when it has its turn. -/
def turn (hub : Hub) (w : Worker) : Hub × Worker :=
  (w.step hub).getD (hub, w)

theorem turn_strays (hub : Hub) (hw : w.Strays) :
    (w.turn hub).2.Strays ∧ (w.turn hub).1.directory.roomNames = hub.directory.roomNames := by
  cases hstep : w.step hub with
  | none =>
      rw [turn, hstep]
      exact ⟨hw, rfl⟩
  | some next =>
      have hnext := (step_sound hstep).hearsOn hw.hearing
      rw [turn, hstep]
      exact ⟨⟨hnext.role.trans hw.role, hnext.hearing⟩, hnext.names⟩

/-- Whose way does not depend on the flag has the same turn wherever the rooms have the same names. -/
theorem turn_parallel (hnames : hub'.directory.roomNames = hub.directory.roomNames)
    (hw : w.Lawful hub.directory) (hstays : ¬w.Strays) :
    (w.turn hub').2 = (w.turn hub).2 ∧
      (w.turn hub').1.directory.roomNames = (w.turn hub).1.directory.roomNames := by
  have htest : ∀ room, w.control ≠ .testFlag room := by
    intro room hcontrol
    have hseated : w.Seated hub.directory room := hw.seated (by rw [hcontrol]; rfl)
    exact hstays ⟨hseated.role, by rw [hcontrol]; trivial⟩
  have hcollect : ∀ room, w.control ≠ .collect room := by
    intro room hcontrol
    have hseated : w.Seated hub.directory room := hw.seated (by rw [hcontrol]; rfl)
    exact hstays ⟨hseated.role, by rw [hcontrol]; trivial⟩
  cases hstep : w.step hub with
  | some next =>
      obtain ⟨hub₂, hsame, hafter⟩ := (step_sound hstep).parallel hnames htest hcollect
      rw [turn, turn, hstep, hsame.step_eq]
      exact ⟨rfl, hafter⟩
  | none =>
      cases hstep' : w.step hub' with
      | some next =>
          -- the step would have been made on the other side as well
          obtain ⟨hub₂, hsame, -⟩ := (step_sound hstep').parallel hnames.symm htest hcollect
          exact nomatch hstep.symm.trans hsame.step_eq
      | none =>
          rw [turn, turn, hstep, hstep']
          exact ⟨rfl, hnames⟩

end Worker

namespace System

variable {s s' : System}

theorem act_work (s : System) {k : Nat} {w : Worker} (hw : s.workers[k]? = some w) :
    s.act (.work k) =
      { hub := (w.turn s.hub).1, workers := s.workers.set k (w.turn s.hub).2 } := by
  cases hstep : w.step s.hub with
  | none =>
      obtain ⟨hlt, rfl⟩ := List.getElem?_eq_some_iff.mp hw
      rw [act_of_stuck hw hstep, Worker.turn, hstep, Option.getD_none, List.set_getElem_self]
  | some next => rw [act_of_step hw hstep, Worker.turn, hstep, Option.getD_some]

/-- A turn of nobody comes to nothing. -/
theorem act_work_of_none (s : System) {k : Nat} (hw : s.workers[k]? = none) :
    s.act (.work k) = s := by
  simp [act, work?, hw]

/-- The workers are in the same states on both sides, but for those on ways that depend on the flag,
and the rooms have the same names. -/
structure Parallel (s s' : System) : Prop where
  placed : s.Placed
  lawful : s.Everywhere Worker.Lawful
  length_eq : s'.workers.length = s.workers.length
  names : s'.hub.directory.roomNames = s.hub.directory.roomNames
  same : ∀ (k : Nat) (w w' : Worker), s.workers[k]? = some w → s'.workers[k]? = some w' →
    w' = w ∨ w.Strays ∧ w'.Strays

theorem Parallel.exists_worker (h : s.Parallel s') {k : Nat} {w : Worker}
    (hw : s.workers[k]? = some w) : ∃ w', s'.workers[k]? = some w' := by
  have hlt := (List.getElem?_eq_some_iff.mp hw).1
  exact ⟨_, List.getElem?_eq_getElem (h.length_eq ▸ hlt)⟩

/-- The same worker has its turn on both sides. -/
theorem Parallel.work (h : s.Parallel s') (k : Nat) :
    (s.act (.work k)).Parallel (s'.act (.work k)) := by
  cases hw : s.workers[k]? with
  | none =>
      have hw' : s'.workers[k]? = none := by
        rw [List.getElem?_eq_none_iff] at hw ⊢
        rwa [h.length_eq]
      rw [act_work_of_none s hw, act_work_of_none s' hw']
      exact h
  | some w =>
      obtain ⟨w', hw'⟩ := h.exists_worker hw
      have hturn : ((w'.turn s'.hub).1.directory.roomNames = (w.turn s.hub).1.directory.roomNames) ∧
          ((w'.turn s'.hub).2 = (w.turn s.hub).2 ∨
            (w.turn s.hub).2.Strays ∧ (w'.turn s'.hub).2.Strays) := by
        by_cases hstrays : w.Strays ∧ w'.Strays
        · obtain ⟨hafter, hkept⟩ := Worker.turn_strays s.hub hstrays.1
          obtain ⟨hafter', hkept'⟩ := Worker.turn_strays s'.hub hstrays.2
          exact ⟨by rw [hkept, hkept', h.names], .inr ⟨hafter, hafter'⟩⟩
        · obtain rfl := (h.same k w w' hw hw').resolve_right hstrays
          obtain ⟨hafter, hnames⟩ := Worker.turn_parallel h.names (h.lawful k w' hw)
            fun hself ↦ hstrays ⟨hself, hself⟩
          exact ⟨hnames, .inl hafter⟩
      have hplaced := h.placed.act (.work k)
      have hlawful := lasting_lawful.act h.placed h.lawful (.work k)
      rw [act_work s hw] at hplaced hlawful ⊢
      rw [act_work s' hw']
      refine ⟨hplaced, hlawful, by simpa using h.length_eq, hturn.1, fun j v v' hv hv' ↦ ?_⟩
      by_cases hjk : k = j
      · subst hjk
        obtain rfl := Option.some.inj (hv.symm.trans (getElem?_set_self hw _))
        obtain rfl := Option.some.inj (hv'.symm.trans (getElem?_set_self hw' _))
        exact hturn.2
      · rw [List.getElem?_set_ne hjk] at hv hv'
        exact h.same j v v' hv hv'

/-- The same happens on both sides. -/
theorem Parallel.act (h : s.Parallel s') (action : Action) :
    (s.act action).Parallel (s'.act action) := by
  have hplaced := h.placed.act action
  have hlawful := lasting_lawful.act h.placed h.lawful action
  cases action with
  | work k => exact h.work k
  | connect pace counted =>
      refine ⟨hplaced, hlawful, ?_, ?_, fun k v v' hv hv' ↦ ?_⟩
      · rw [length_connect, length_connect, h.length_eq]
      · simp only [System.act, connect]
        split <;> exact h.names
      · simp only [System.act, connect, h.length_eq, List.getElem?_append] at hv hv'
        split at hv
        · rename_i hlt
          rw [if_pos hlt] at hv'
          exact h.same k v v' hv hv'
        · rename_i hlt
          rw [if_neg hlt] at hv'
          exact .inl (Option.some.inj (hv'.symm.trans hv))
  | cue j cue =>
      refine ⟨hplaced, hlawful, ?_, h.names, fun k v v' hv hv' ↦ ?_⟩
      · simpa [System.act, updateStream] using h.length_eq
      · rw [workers_cue] at hv hv'
        split at hv
        · rename_i hkj
          rw [if_pos hkj] at hv'
          obtain ⟨w, hw, rfl⟩ := Option.map_eq_some_iff.mp hv
          obtain ⟨w', hw', rfl⟩ := Option.map_eq_some_iff.mp hv'
          rcases h.same k w w' hw hw' with rfl | ⟨hstrays, hstrays'⟩
          · exact .inl rfl
          · exact .inr ⟨⟨hstrays.role, hstrays.hearing⟩, ⟨hstrays'.role, hstrays'.hearing⟩⟩
        · rename_i hkj
          rw [if_neg hkj] at hv'
          exact h.same k v v' hv hv'
  | broadcast name sender text =>
      have hfind : s'.hub.directory.find? name = s.hub.directory.find? name := by
        rw [Directory.find?_eq, Directory.find?_eq, h.names]
      simp only [System.act, broadcast, hfind] at hplaced hlawful ⊢
      cases hroom : s.hub.directory.find? name with
      | none => exact h
      | some room =>
          rw [hroom] at hplaced hlawful
          refine ⟨hplaced, hlawful, h.length_eq, ?_, h.same⟩
          simp only [Directory.roomNames_broadcast, h.names]
  | setClosing | pass => exact ⟨hplaced, hlawful, h.length_eq, h.names, h.same⟩

/-- Two runs that differ only in when the flag is set go on side by side. -/
theorem Parallel.run (h : s.Parallel s') (actions : List Action) :
    (s.run actions).Parallel (s'.run (actions.filter (·.flag?.isNone))) := by
  induction actions generalizing s s' with
  | nil => exact h
  | cons action rest ih =>
      cases hflag : action.flag? with
      | none =>
          rw [List.filter_cons_of_pos (by simp [hflag])]
          exact ih (h.act action)
      | some value =>
          rw [List.filter_cons_of_neg (by simp [hflag])]
          refine ih ?_
          cases action with
          | setClosing => exact ⟨h.placed, h.lawful, h.length_eq, h.names, h.same⟩
          | _ => cases hflag

/-- Whoever has not been let into a room as a subscriber is in the same state whenever the flag is set
and taken back. -/
theorem unaffected_by_flag (h : s.Initial) {actions other : List Action}
    (hsame : actions.filter (·.flag?.isNone) = other.filter (·.flag?.isNone)) {k : Nat} {v : Worker}
    (hv : (s.run actions).workers[k]? = some v) (hrole : ¬v.Strays) :
    (s.run other).workers[k]? = some v := by
  have hself : s.Parallel s := ⟨h.placed, lasting_lawful.run h [], rfl, rfl,
    fun k w w' hw hw' ↦ .inl (Option.some.inj (hw'.symm.trans hw))⟩
  have hfirst := hself.run actions
  have hsecond := hself.run other
  rw [hsame] at hfirst
  obtain ⟨u, hu⟩ := hfirst.exists_worker hv
  obtain rfl := (hfirst.same k v u hv hu).resolve_right fun hstrays ↦ hrole hstrays.1
  have hlt := (List.getElem?_eq_some_iff.mp hu).1
  rw [hsecond.length_eq] at hlt
  have hw := List.getElem?_eq_getElem hlt
  rcases hsecond.same k _ u hw hu with heq | hstrays
  · rw [hw, heq]
  · exact absurd hstrays.2 hrole

end System

end Server

end ChatRelay
