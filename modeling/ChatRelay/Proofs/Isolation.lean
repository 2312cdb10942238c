import ChatRelay.Proofs.PublisherRuns
import ChatRelay.Proofs.Twins
import Mathlib.Algebra.Order.BigOperators.Group.List
import Mathlib.Algebra.Order.Group.Nat

/-!
# What a client cannot do to the others

Two runs in which the clients do the same, but for one of them, are compared action by action.
`System.Apart` says that all workers but the one are twins. Whatever the one does keeps this
(`Apart.own`), and so does whatever the others do in both runs (`Apart.act`). So whatever one client
sends, and however its stream fails, the others notice nothing as long as it broadcasts nothing:
`System.others_unaffected`.
-/

namespace ChatRelay.Server

open Directory (SameRoom)
open Transport Wire

/-- The action is a step of the worker in this place, or happens to its stream. -/
def Action.isOf (k : Nat) : Action → Bool
  | .work j => j == k
  | .cue j _ => j == k
  | _ => false

namespace System

variable {k id : Nat} {s t : System}

/-- What the others do in a run that starts with `n` workers: the actions without the steps of the
client in place `k`, without what happens to its stream, and with no limit on how fast its stream takes
bytes. -/
def others (k : Nat) : Nat → List Action → List Action
  | _, [] => []
  | n, .connect pace counted :: rest =>
      .connect (if n = k then fun _ ↦ none else pace) counted :: others k (n + 1) rest
  | n, action :: rest =>
      if action.isOf k then others k n rest else action :: others k n rest

theorem others_cons {action : Action} (h : ∀ pace counted, action ≠ .connect pace counted)
    (n : Nat) (rest : List Action) :
    others k n (action :: rest) =
      if action.isOf k then others k n rest else action :: others k n rest := by
  cases action with
  | connect pace counted => exact absurd rfl (h pace counted)
  | _ => rfl

/-- Whoever connects gets the same id whatever the one client does. -/
theorem ids_run_others (h : t.ids = s.ids) (k : Nat) (actions : List Action) :
    (t.run (others k s.workers.length actions)).ids = (s.run actions).ids := by
  induction actions generalizing s t with
  | nil => exact h
  | cons action rest ih =>
      by_cases hconnect : ∃ pace counted, action = .connect pace counted
      · obtain ⟨pace, counted, rfl⟩ := hconnect
        have hrest := @ih (s.act (.connect pace counted))
        rw [length_connect] at hrest
        apply hrest
        rw [ids_connect, ids_connect, h, length_of_ids h]
      · have hother : ∀ pace counted, action ≠ .connect pace counted := by simpa using hconnect
        have hrest := @ih (s.act action)
        rw [length_of_ids (ids_act hother)] at hrest
        rw [others_cons hother]
        split
        · exact hrest (h.trans (ids_act hother).symm)
        · apply hrest
          rw [ids_act hother, ids_act hother, h]

/-- Only the worker in this place has the id. -/
def OnlyAt (s : System) (k id : Nat) : Prop :=
  ∀ (j : Nat) (w : Worker), s.workers[j]? = some w → (w.session.id = id ↔ j = k)

/-- Where no two workers have one id, some id belongs to no other place. -/
theorem DistinctIds.exists_onlyAt (h : s.DistinctIds) (k : Nat) : ∃ id, s.OnlyAt k id := by
  cases hk : s.workers[k]? with
  | some x =>
      refine ⟨x.session.id, fun j w hw ↦ ⟨fun heq ↦ h j k w x hw hk heq, ?_⟩⟩
      rintro rfl
      rw [Option.some.inj (hw.symm.trans hk)]
  | none =>
      -- nobody is in the place, so any id will do that nobody has
      refine ⟨(s.workers.map (·.session.id)).sum + 1, fun j w hw ↦ ⟨fun heq ↦ ?_, ?_⟩⟩
      · have hmem := List.mem_map_of_mem (f := (·.session.id)) (List.mem_of_getElem? hw)
        have hle := List.le_sum_of_mem hmem
        omega
      · rintro rfl
        rw [hk] at hw
        cases hw

theorem OnlyAt.of_ids (h : s.OnlyAt k id) (hids : t.ids = s.ids) : t.OnlyAt k id := by
  intro j w hw
  obtain ⟨v, hv, hid⟩ := exists_worker_of_ids hids.symm hw
  rw [← hid]
  exact h j v hv

theorem OnlyAt.of_run (actions : List Action) (h : (s.run actions).OnlyAt k id) :
    s.OnlyAt k id := by
  intro j w hw
  obtain ⟨v, hv, hid⟩ := exists_worker_run hw actions
  rw [← hid]
  exact h j v hv

/-- Where nobody else has the id of the worker in this place, it is kept for that worker's subscriber. -/
theorem Seated.orderly (h : s.Seated) (honly : s.OnlyAt k id) : s.hub.directory.Orderly k id where
  distinct := h.distinct
  keyed := h.keyed
  held room place hmember := by
    obtain ⟨w, hw, hid, -⟩ := h.members room id place hmember
    exact (honly place w hw).mp hid

/-- The two systems are the same but for the worker in this place and for the numbers of rooms. -/
structure Apart (k id : Nat) (s t : System) : Prop where
  hub : s.hub.SameBut k id t.hub
  ids : t.ids = s.ids
  twin : ∀ (j : Nat) (v w : Worker), j ≠ k → s.workers[j]? = some v → t.workers[j]? = some w →
    Worker.Twin s.hub.directory t.hub.directory v w

/-- What happens to the one stream, happens to nobody else. -/
theorem Apart.own_cue (h : Apart k id s t) (cue : Cue) :
    Apart k id (s.act (.cue k cue)) t where
  hub := h.hub
  ids := h.ids.trans (ids_act (by simp)).symm
  twin j v w hne hv hw := by
    rw [workers_cue, if_neg hne] at hv
    exact h.twin j v w hne hv hw

/-- What the one worker does, the others do not notice. -/
theorem Apart.own_work (h : Apart k id s t) (hs : s.Seated) (honly : s.OnlyAt k id)
    (hquiet : s.airs k (.work k) = []) : Apart k id (s.act (.work k)) t := by
  have hids : t.ids = (s.act (.work k)).ids := h.ids.trans (ids_act (by simp)).symm
  cases hwork : s.work? k with
  | none =>
      rw [act, hwork]
      exact h
  | some next =>
      obtain ⟨x, hub, x', hx, hstep, rfl⟩ := work?_eq_some hwork
      have hstepped := Worker.step_sound hstep
      have hsilent (room : Nat) (text : String) : x.control ≠ .broadcast room text := by
        intro hcontrol
        simp [airs, broadcastOf?, hx, hcontrol] at hquiet
      have hsame := hstepped.sameBut (hs.lawful k x hx) hs.distinct hsilent
      rw [hs.placed k x hx, (honly k x hx).mpr rfl] at hsame
      rw [act_of_step hx hstep] at hids ⊢
      refine ⟨hsame.symm.trans h.hub, hids, fun j v w hne hv hw ↦ ?_⟩
      rw [List.getElem?_set_ne (Ne.symm hne)] at hv
      exact (h.twin j v w hne hv hw).mono hstepped.grows (.refl _)

/-- What happens to another stream, happens to it in both runs. -/
theorem Apart.cue (h : Apart k id s t) (i : Nat) (cue : Cue) :
    Apart k id (s.act (.cue i cue)) (t.act (.cue i cue)) where
  hub := h.hub
  ids := by rw [ids_act (by simp), ids_act (by simp), h.ids]
  twin j v w hne hv hw := by
    rw [workers_cue] at hv hw
    split at hv
    · rw [if_pos ‹_›] at hw
      obtain ⟨v', hv', rfl⟩ := Option.map_eq_some_iff.mp hv
      obtain ⟨w', hw', rfl⟩ := Option.map_eq_some_iff.mp hw
      obtain ⟨hplace, hsession, hconnection, hcounted, hcontrol⟩ := h.twin j v' w' hne hv' hw'
      refine ⟨hplace, hsession, ?_, hcounted, hcontrol⟩
      simp only [Worker.cue, hconnection]
    · rw [if_neg ‹_›] at hw
      exact h.twin j v w hne hv hw

/-- A step of another worker goes the same way in both runs, or in neither. -/
theorem Apart.work (h : Apart k id s t) (hs : s.Seated) (ht : t.Seated) (honly : s.OnlyAt k id)
    (honly' : t.OnlyAt k id) {i : Nat} (hik : i ≠ k) :
    Apart k id (s.act (.work i)) (t.act (.work i)) := by
  have hids : (t.act (.work i)).ids = (s.act (.work i)).ids := by
    rw [ids_act (by simp), ids_act (by simp), h.ids]
  cases hv : s.workers[i]? with
  | none =>
      have hw : t.workers[i]? = none := by
        rw [List.getElem?_eq_none_iff] at hv ⊢
        rwa [length_of_ids h.ids]
      have hidle : s.work? i = none := by simp [work?, hv]
      have hidle' : t.work? i = none := by simp [work?, hw]
      rw [act, act, hidle, hidle']
      exact h
  | some v =>
      obtain ⟨w, hw, -⟩ := exists_worker_of_ids h.ids hv
      have htwin := h.twin i v w hik hv hw
      have hne : v.place ≠ k := by rwa [hs.placed i v hv]
      have horderly := hs.orderly honly
      have horderly' := ht.orderly honly'
      cases hstep : v.step s.hub with
      | none =>
          -- a step in the other run would have one to match it in this
          have hstuck : w.step t.hub = none := by
            cases hother : w.step t.hub with
            | none => rfl
            | some next =>
                obtain ⟨_, _, hmatch, -⟩ := (Worker.step_sound hother).twin h.hub.symm htwin.symm
                  horderly' horderly (htwin.place ▸ hne)
                rw [hmatch.step_eq] at hstep
                cases hstep
          rw [act_of_stuck hv hstep, act_of_stuck hw hstuck]
          exact h
      | some next =>
          obtain ⟨hub, v'⟩ := next
          have hstepped := Worker.step_sound hstep
          obtain ⟨hub', w', hmatch, hhub, hafter⟩ :=
            hstepped.twin h.hub htwin horderly horderly' hne
          rw [act_of_step hv hstep, act_of_step hw hmatch.step_eq] at hids ⊢
          refine ⟨hhub, hids, fun j x y hjk hx hy ↦ ?_⟩
          by_cases hij : i = j
          · subst hij
            rw [getElem?_set_self hv, Option.some.injEq] at hx
            rw [getElem?_set_self hw, Option.some.injEq] at hy
            rw [← hx, ← hy]
            exact hafter
          · rw [List.getElem?_set_ne hij] at hx hy
            exact (h.twin j x y hjk hx hy).mono hstepped.grows hmatch.grows

/-- The next connection gets the same worker in both runs, but for the pace of the one stream. -/
theorem Apart.connect (h : Apart k id s t) {pace pace' : Nat → Option Nat} (counted : Bool)
    (hpace : s.workers.length ≠ k → pace' = pace) :
    Apart k id (s.act (.connect pace counted)) (t.act (.connect pace' counted)) := by
  have hlength := length_of_ids h.ids
  have hgrows := s.grows_act (.connect pace counted)
  have hgrows' := t.grows_act (.connect pace' counted)
  refine ⟨?_, by rw [ids_connect, ids_connect, h.ids, hlength], fun j v w hne hv hw ↦ ?_⟩
  · simp only [act, System.connect]
    cases counted with
    | true => exact h.hub.count _
    | false => exact h.hub
  · simp only [act, System.connect, List.getElem?_append, List.getElem?_singleton, hlength] at hv hw
    split at hv
    · rw [if_pos ‹_›] at hw
      exact (h.twin j v w hne hv hw).mono hgrows hgrows'
    · rename_i hout
      rw [if_neg hout] at hw
      split at hv
      · rename_i hlast
        have hother : s.workers.length ≠ k := by omega
        rw [if_pos hlast, hpace hother] at hw
        cases hv
        cases hw
        exact ⟨rfl, rfl, rfl, rfl, .receive .login⟩
      · cases hv

/-- What only changes the hub in the same way in both runs keeps them apart by the one client. -/
theorem Apart.of_hub (h : Apart k id s t) {hub hub' : Hub} (hsame : hub.SameBut k id hub')
    (hgrows : s.hub.directory.Grows hub.directory) (hgrows' : t.hub.directory.Grows hub'.directory) :
    Apart k id { s with hub } { t with hub := hub' } :=
  ⟨hsame, h.ids, fun j v w hne hv hw ↦ (h.twin j v w hne hv hw).mono hgrows hgrows'⟩

/-- A direct broadcast reaches the same members in both runs. -/
theorem Apart.broadcast (h : Apart k id s t) (hs : s.Seated) (ht : t.Seated)
    (honly : s.OnlyAt k id) (honly' : t.OnlyAt k id) (room sender text : String) :
    Apart k id (s.act (.broadcast room sender text)) (t.act (.broadcast room sender text)) := by
  have horderly := hs.orderly honly
  have horderly' := ht.orderly honly'
  simp only [act, System.broadcast]
  cases hfind : s.hub.directory.find? room with
  | none =>
      cases hfind' : t.hub.directory.find? room with
      | none => exact h
      | some number' =>
          obtain ⟨hlt', hname'⟩ := Directory.find?_eq_some hfind'
          -- nobody but the one client can be in a room that the other run has not
          have hempty (other : Nat) (hne : other ≠ id) :
              t.hub.directory.holder? (t.hub.directory.name number') other = none := by
            rw [hname', h.hub.directory.holder? room other hne, Directory.holder?, hfind]
            rfl
          have hheard := Directory.sameBut_broadcast horderly' hlt' hempty sender text
          exact h.of_hub (h.hub.trans ((Hub.SameBut.refl k id _).change hheard)) (.refl _)
            (Directory.grows_broadcast _ _ _ _)
  | some number =>
      obtain ⟨hlt, hname⟩ := Directory.find?_eq_some hfind
      cases hfind' : t.hub.directory.find? room with
      | none =>
          have hempty (other : Nat) (hne : other ≠ id) :
              s.hub.directory.holder? (s.hub.directory.name number) other = none := by
            rw [hname, ← h.hub.directory.holder? room other hne, Directory.holder?, hfind']
            rfl
          have hheard := Directory.sameBut_broadcast horderly hlt hempty sender text
          exact h.of_hub (((Hub.SameBut.refl k id _).change hheard).symm.trans h.hub)
            (Directory.grows_broadcast _ _ _ _) (.refl _)
      | some number' =>
          obtain ⟨hlt', hname'⟩ := Directory.find?_eq_some hfind'
          have hsame : SameRoom s.hub.directory t.hub.directory number number' :=
            ⟨hlt, hlt', hname'.trans hname.symm⟩
          have hheard := h.hub.directory.broadcast horderly horderly' hsame sender text
          exact h.of_hub (h.hub.change hheard) (Directory.grows_broadcast _ _ _ _)
            (Directory.grows_broadcast _ _ _ _)

/-- Every action of the others keeps the two systems apart by the one client only. -/
theorem Apart.act (h : Apart k id s t) (hs : s.Seated) (ht : t.Seated) (honly : s.OnlyAt k id)
    (honly' : t.OnlyAt k id) {action : Action} (hother : action.isOf k = false) :
    Apart k id (s.act action) (t.act action) := by
  cases action with
  | connect pace counted => exact h.connect counted fun _ ↦ rfl
  | work i => exact h.work hs ht honly honly' (by simpa [Action.isOf] using hother)
  | cue i cue => exact h.cue i cue
  | broadcast room sender text => exact h.broadcast hs ht honly honly' room sender text
  | setClosing value =>
      exact h.of_hub ⟨h.hub.directory, rfl, h.hub.now, h.hub.dequeueTimeout⟩ (.refl _) (.refl _)
  | pass ms =>
      exact h.of_hub ⟨h.hub.directory, h.hub.closing, congrArg (· + ms) h.hub.now,
        h.hub.dequeueTimeout⟩ (.refl _) (.refl _)

/-- What the one client does keeps them apart by nothing else. -/
theorem Apart.own (h : Apart k id s t) (hs : s.Seated) (honly : s.OnlyAt k id) {action : Action}
    (hown : action.isOf k = true) (hquiet : s.airs k action = []) :
    Apart k id (s.act action) t := by
  cases action with
  | work i =>
      obtain rfl : i = k := by simpa [Action.isOf] using hown
      exact h.own_work hs honly hquiet
  | cue i cue =>
      obtain rfl : i = k := by simpa [Action.isOf] using hown
      exact h.own_cue cue
  | _ => cases hown

/-- A run and what the others do in it end apart by the one client only, if it broadcasts nothing. -/
theorem Apart.run (h : Apart k id s t) (hs : s.Seated) (ht : t.Seated) (actions : List Action)
    (honly : (s.run actions).OnlyAt k id)
    (hquiet : aired k s actions = []) :
    Apart k id (s.run actions) (t.run (others k s.workers.length actions)) := by
  induction actions generalizing s t with
  | nil => exact h
  | cons action rest ih =>
      have hnow : s.OnlyAt k id := OnlyAt.of_run (action :: rest) honly
      have hnow' : t.OnlyAt k id := hnow.of_ids h.ids
      have hs' := hs.act action
      obtain ⟨hairs, hrest⟩ := List.append_eq_nil_iff.mp hquiet
      -- both systems make the action, or only the first one does
      have hboth {action' : Action} (hafter : Apart k id (s.act action) (t.act action')) :=
        ih hafter hs' (ht.act action') honly hrest
      have halone (hafter : Apart k id (s.act action) t) := ih hafter hs' ht honly hrest
      by_cases hconnect : ∃ pace counted, action = .connect pace counted
      · obtain ⟨pace, counted, rfl⟩ := hconnect
        rw [length_connect] at hboth
        exact hboth (h.connect counted fun hne ↦ if_neg hne)
      · have hother : ∀ pace counted, action ≠ .connect pace counted := by simpa using hconnect
        rw [length_of_ids (ids_act hother)] at hboth halone
        rw [others_cons hother]
        by_cases hown : action.isOf k = true
        · rw [if_pos hown]
          exact halone (h.own hs hnow hown hairs)
        · rw [if_neg hown]
          exact hboth (h.act hs ht hnow hnow' (by simpa using hown))

/-- The two systems look the same to everybody but the client in this place: the same workers are
there, and each of the others has the same session with the same counts, the same connection with the
same bytes written to it, and the same result. The same messages are in its mailbox, and it is a
member of the same rooms. -/
structure AlikeBut (k : Nat) (s t : System) : Prop where
  ids : t.ids = s.ids
  worker : ∀ (j : Nat) (v w : Worker), j ≠ k → s.workers[j]? = some v → t.workers[j]? = some w →
    w.place = v.place ∧ w.session = v.session ∧ w.connection = v.connection ∧
      w.result? = v.result?
  mailbox : ∀ (j : Nat) (v : Worker), j ≠ k → s.workers[j]? = some v →
    t.hub.directory.mailbox v.place = s.hub.directory.mailbox v.place
  holder? : ∀ (j : Nat) (v : Worker), j ≠ k → s.workers[j]? = some v → ∀ name,
    t.hub.directory.holder? name v.session.id = s.hub.directory.holder? name v.session.id

theorem Apart.alikeBut (h : Apart k id s t) (hs : s.Placed) (honly : s.OnlyAt k id) :
    AlikeBut k s t where
  ids := h.ids
  worker j v w hne hv hw := by
    have htwin := h.twin j v w hne hv hw
    exact ⟨htwin.place, htwin.session, htwin.connection, htwin.result?⟩
  mailbox j v hne hv := h.hub.directory.mailbox (by rwa [hs j v hv])
  holder? j v hne hv name :=
    h.hub.directory.holder? name _ fun heq ↦ hne ((honly j v hv).mp heq)

/-- Two systems that look the same as a third look the same. -/
theorem AlikeBut.of_common {u : System} (h : AlikeBut k s u) (h' : AlikeBut k t u) :
    AlikeBut k s t where
  ids := h'.ids.symm.trans h.ids
  worker j v w hne hv hw := by
    obtain ⟨x, hx, -⟩ := exists_worker_of_ids h.ids hv
    obtain ⟨hplace, hsession, hconnection, hresult⟩ := h.worker j v x hne hv hx
    obtain ⟨hplace', hsession', hconnection', hresult'⟩ := h'.worker j w x hne hw hx
    exact ⟨hplace'.symm.trans hplace, hsession'.symm.trans hsession,
      hconnection'.symm.trans hconnection, hresult'.symm.trans hresult⟩
  mailbox j v hne hv := by
    obtain ⟨w, hw, -⟩ := exists_worker_of_ids (h'.ids.symm.trans h.ids) hv
    obtain ⟨x, hx, -⟩ := exists_worker_of_ids h.ids hv
    have hplace := (h.worker j v x hne hv hx).1
    have hplace' := (h'.worker j w x hne hw hx).1
    have hsame := h'.mailbox j w hne hw
    rw [← hplace', hplace] at hsame
    rw [← hsame]
    exact h.mailbox j v hne hv
  holder? j v hne hv name := by
    obtain ⟨w, hw, hid⟩ := exists_worker_of_ids (h'.ids.symm.trans h.ids) hv
    have hsame := h'.holder? j w hne hw name
    rw [hid] at hsame
    rw [← hsame]
    exact h.holder? j v hne hv name

/-- A run looks the same as what the others do in it. The other system may start with another stream in
the one place. -/
theorem alikeBut_others (hs : s.Initial) (ht : t.Initial) (hids : t.ids = s.ids)
    (hhub : t.hub = s.hub)
    (hworkers : ∀ j, j ≠ k → t.workers[j]? = s.workers[j]?) (actions : List Action)
    (hdistinct : (s.run actions).DistinctIds) (hquiet : aired k s actions = []) :
    AlikeBut k (s.run actions) (t.run (others k s.workers.length actions)) := by
  obtain ⟨id, honly⟩ := hdistinct.exists_onlyAt k
  have hstart : Apart k id s t := by
    refine ⟨hhub ▸ .refl k id _, hids, fun j v w hne hv hw ↦ ?_⟩
    rw [hworkers j hne, hv, Option.some.injEq] at hw
    subst hw
    refine ⟨rfl, rfl, rfl, rfl, ?_⟩
    rw [(hs.fresh j v hv).control]
    exact .receive .login
  have hend := hstart.run hs.seated ht.seated actions honly hquiet
  exact hend.alikeBut (hs.seated.run actions).placed honly

/-- A client cannot affect the others but by broadcasting. Two runs start from the same system but for
the stream of the client in one place, and in both the others do the same; what happens to the stream
of the one client, how fast it takes bytes, and when its worker makes a step may differ. If it
broadcasts in neither, then the two runs look the same to everybody else. -/
theorem others_unaffected (h : s.Initial) {stream : Stream}
    (h' : (s.updateStream k fun _ ↦ stream).Initial) {first second : List Action}
    (hids : (s.run first).DistinctIds)
    (hsame : others k s.workers.length first = others k s.workers.length second)
    (hquiet : aired k s first = [])
    (hquiet' : aired k (s.updateStream k fun _ ↦ stream) second = []) :
    AlikeBut k (s.run first) ((s.updateStream k fun _ ↦ stream).run second) := by
  have hworkers (j : Nat) (hne : j ≠ k) :
      (s.updateStream k fun _ ↦ stream).workers[j]? = s.workers[j]? := by
    simp only [updateStream, List.getElem?_modify]
    cases s.workers[j]? with
    | none => rfl
    | some w => simp [Ne.symm hne]
  have hstart : (s.updateStream k fun _ ↦ stream).ids = s.ids := by
    apply List.ext_getElem?
    intro j
    simp only [ids, updateStream, List.getElem?_map, List.getElem?_modify]
    cases s.workers[j]? with
    | none => rfl
    | some w => by_cases hkj : k = j <;> simp [hkj]
  have hlength := length_of_ids hstart
  have hids' : ((s.updateStream k fun _ ↦ stream).run second).DistinctIds := by
    refine hids.of_ids ?_
    rw [← ids_run_others hstart.symm k second, hlength, ← hsame]
    exact ids_run_others rfl k first
  have hfirst := alikeBut_others h h rfl rfl (fun _ _ ↦ rfl) first hids hquiet
  have hsecond := alikeBut_others h' h hstart.symm rfl (fun j hne ↦ (hworkers j hne).symm) second hids'
    hquiet'
  rw [hlength, ← hsame] at hsecond
  exact hfirst.of_common hsecond

/-- What a subscriber does who joins a room and hears one broadcast there. -/
def hearing : List Action :=
  .cue 1 (.arrive (.chunk (Message.bytes ⟨.rlogin, "bob"⟩ ++ Message.bytes ⟨.join, "den"⟩))) ::
    List.replicate 12 (.work 1) ++ .broadcast "den" "alice" "hi" :: List.replicate 4 (.work 1)

/-- A client that makes a room of its own, joins it, and is cut off. -/
def trampling : List Action :=
  .connect (fun _ ↦ some 3) true :: .connect (fun _ ↦ none) true ::
    .cue 0 (.arrive (.chunk (Message.bytes ⟨.rlogin, "eve"⟩ ++ Message.bytes ⟨.join, "attic"⟩))) ::
    List.replicate 8 (.work 0) ++ .cue 0 (.block ⟨0, none⟩) :: List.replicate 8 (.work 0) ++ hearing

/-- A client that says nothing and is gone. -/
def vanishing : List Action :=
  .connect (fun _ ↦ none) true :: .connect (fun _ ↦ none) true :: .cue 0 .drop :: .work 0 :: hearing

/-- The subscriber gets the same bytes next to either of the two, and its room has another number. -/
theorem others_unaffected_hearing :
    AlikeBut 0 (run {} trampling) (run {} vanishing) ∧
      (run {} trampling).hub.directory.find? "den" = some 1 ∧
      (run {} vanishing).hub.directory.find? "den" = some 0 ∧
      (run {} vanishing).workers[1]?.map (·.written) =
        some (confirmations ++ Message.bytes ⟨.delivery, "den:alice:hi"⟩) := by
  have hids : (run {} trampling).DistinctIds := (numbered_empty.run trampling).distinctIds
  have hsame : others 0 0 trampling = others 0 0 vanishing := rfl
  have hquiet : aired 0 {} trampling = [] := by
    decide +kernel
  have hquiet' : aired 0 {} vanishing = [] := by
    decide +kernel
  have halike := @others_unaffected 0 {} initial_empty {} initial_empty trampling vanishing hids
    hsame hquiet hquiet'
  exact ⟨halike, by decide +kernel, by decide +kernel, by decide +kernel⟩

end System

end ChatRelay.Server
