import ChatRelay.Proofs.Runs
import Mathlib.Logic.Relation

/-!
# The life of a session

Logins, joins, leaves and closes may come to a session in any order and number, and those that its
phase does not allow change nothing. `Session.Consistent` is what phase, role, username and room say of
each other in every state that can be reached, `Session.firstLogin?` reads the role and the username
off the events alone, and `Session.life` puts together what becomes of a new session: its phase only
goes forward, its login and a subscriber's room are settled once, and after a close nothing changes.
-/

namespace ChatRelay

namespace Phase

/-- The one phase comes right after the other in the life of some session. -/
inductive Next : Phase → Phase → Prop where
  | publisher : Next .awaitLogin .publisherLoop
  | subscriber : Next .awaitLogin .awaitJoin
  | joined : Next .awaitJoin .subscriberLoop
  | closed (phase : Phase) : phase ≠ .closed → Next phase .closed

/-- The one phase is the other or comes after it. -/
abbrev Leads : Phase → Phase → Prop :=
  Relation.ReflTransGen Next

/-- How far along a phase is. -/
def rank : Phase → Nat
  | .awaitLogin => 0
  | .publisherLoop | .awaitJoin => 1
  | .subscriberLoop => 2
  | .closed => 3

theorem Next.rank_lt {p q : Phase} (h : Next p q) : p.rank < q.rank := by
  cases h with
  | publisher | subscriber | joined => decide
  | closed _ hopen =>
      cases p with
      | closed => exact absurd rfl hopen
      | _ => decide

theorem Leads.rank_le {p q : Phase} (h : Leads p q) : p.rank ≤ q.rank := by
  induction h with
  | refl => exact Nat.le_refl _
  | tail _ hnext ih =>
      have hlt := hnext.rank_lt
      omega

/-- A phase that was left does not come back. -/
theorem Leads.eq_of_leads {p q : Phase} (h : Leads p q) (hback : Leads q p) : p = q := by
  cases h with
  | refl => rfl
  | tail hfirst hnext =>
      have hle := Leads.rank_le hfirst
      have hlt := hnext.rank_lt
      have hback' := Leads.rank_le hback
      omega

end Phase

namespace Session

open Phase

/-- What can come to a session. -/
inductive Event where
  | login (role : Role) (username : String)
  | join (room : String)
  | leave
  | close
  deriving DecidableEq, Repr

/-- The session after this event. -/
def act (s : Session) : Event → Session
  | .login role username => s.login role username
  | .join room => s.join room
  | .leave => s.leave
  | .close => s.close

/-- One event after the other. -/
def run (s : Session) (events : List Event) : Session :=
  events.foldl act s

@[simp] theorem run_nil (s : Session) : s.run [] = s :=
  rfl

@[simp] theorem run_cons (s : Session) (event : Event) (rest : List Event) :
    s.run (event :: rest) = (s.act event).run rest :=
  rfl

theorem run_append (s : Session) (first second : List Event) :
    s.run (first ++ second) = (s.run first).run second :=
  List.foldl_append

variable {s t : Session} {event : Event}

/-! ## One event -/

/-- What an event can do to a session: nothing, or what the phase allows. -/
inductive Effect (s : Session) : Event → Session → Prop where
  | ignored (event : Event) : Effect s event s
  | loggedIn (role : Role) (username : String) (hphase : s.phase = .awaitLogin) :
      Effect s (.login role username)
        { s with role := some role, username := some username, phase := firstPhase role }
  | entered (room : String) (hphase : s.phase = .publisherLoop) :
      Effect s (.join room) { s with room := some room }
  | joined (room : String) (hphase : s.phase = .awaitJoin) :
      Effect s (.join room) { s with room := some room, phase := .subscriberLoop }
  | left (hphase : s.phase = .publisherLoop) : Effect s .leave { s with room := none }
  | closed : Effect s .close { s with phase := .closed }

/-- Every event does one of these. -/
theorem effect_act (s : Session) (event : Event) : Effect s event (s.act event) := by
  cases event with
  | login role username =>
      simp only [act, login]
      split
      · exact .loggedIn role username ‹_›
      · exact .ignored _
  | join room =>
      simp only [act, join]
      split
      · exact .entered room ‹_›
      · exact .joined room ‹_›
      · exact .ignored _
  | leave =>
      simp only [act, leave]
      split
      · exact .left ‹_›
      · exact .ignored _
  | close => exact .closed

/-- An event leaves the phase as it is or takes it one arrow on. -/
theorem Effect.leads (h : Effect s event t) : Leads s.phase t.phase := by
  cases h with
  | ignored | entered | left => exact .refl
  | loggedIn role username hphase =>
      rw [hphase]
      cases role with
      | publisher => exact .single .publisher
      | subscriber => exact .single .subscriber
  | joined room hphase =>
      rw [hphase]
      exact .single .joined
  | closed =>
      by_cases hclosed : s.phase = .closed
      · rw [hclosed]
      · exact .single (.closed _ hclosed)

/-- The phase only goes forward. -/
theorem leads_run (s : Session) (events : List Event) : Leads s.phase (s.run events).phase := by
  induction events generalizing s with
  | nil => exact .refl
  | cons event rest ih => exact (s.effect_act event).leads.trans (ih _)

/-! ## What a state says -/

/-- What phase, role, username and room say of each other. -/
structure Consistent (s : Session) : Prop where
  named : s.role.isSome = s.username.isSome
  anonymous : s.phase = .awaitLogin → s.role = none
  publisher : s.phase = .publisherLoop → s.role = some .publisher
  subscriber : s.phase = .awaitJoin ∨ s.phase = .subscriberLoop → s.role = some .subscriber
  roomless : s.phase = .awaitLogin ∨ s.phase = .awaitJoin → s.room = none
  joined : s.phase = .subscriberLoop → s.room.isSome = true

/-- A new session. -/
theorem consistent_new (id : Nat) : Consistent { id } :=
  ⟨rfl, fun _ ↦ rfl, nofun, nofun, fun _ ↦ rfl, nofun⟩

/-- Every event keeps a session consistent. -/
theorem Effect.consistent (heffect : Effect s event t) (h : s.Consistent) : t.Consistent := by
  cases heffect with
  | ignored => exact h
  | loggedIn role username hphase =>
      have hroom := h.roomless (.inl hphase)
      cases role with
      | publisher => exact ⟨rfl, nofun, fun _ ↦ rfl, nofun, fun _ ↦ hroom, nofun⟩
      | subscriber => exact ⟨rfl, nofun, nofun, fun _ ↦ rfl, fun _ ↦ hroom, nofun⟩
  | entered room hphase =>
      have hother {p : Phase} (hp : s.phase = p) (hne : p ≠ .publisherLoop) : False :=
        hne (hp.symm.trans hphase)
      refine ⟨h.named, h.anonymous, h.publisher, h.subscriber, fun hp ↦ ?_, fun _ ↦ rfl⟩
      exact (hp.elim (hother · (by simp)) (hother · (by simp))).elim
  | joined room hphase =>
      exact ⟨h.named, nofun, nofun, fun _ ↦ h.subscriber (.inl hphase), nofun, fun _ ↦ rfl⟩
  | left hphase =>
      refine ⟨h.named, h.anonymous, h.publisher, h.subscriber, fun _ ↦ rfl, fun hp ↦ ?_⟩
      cases hphase.symm.trans hp
  | closed => exact ⟨h.named, nofun, nofun, nofun, nofun, nofun⟩

/-- What holds of each other is kept by every list of events. -/
theorem Consistent.run (h : s.Consistent) (events : List Event) : (s.run events).Consistent := by
  induction events generalizing s with
  | nil => exact h
  | cons event rest ih => exact ih ((s.effect_act event).consistent h)

/-! ## The login -/

/-- The first login, if no close comes before it. -/
def firstLogin? : List Event → Option (Role × String)
  | .login role username :: _ => some (role, username)
  | .close :: _ | [] => none
  | .join _ :: rest | .leave :: rest => firstLogin? rest

/-- A session that does not await a login any more keeps its role and username. -/
theorem Effect.login_kept (heffect : Effect s event t) (h : s.phase ≠ .awaitLogin) :
    t.phase ≠ .awaitLogin ∧ t.role = s.role ∧ t.username = s.username := by
  cases heffect with
  | ignored | entered | left => exact ⟨h, rfl, rfl⟩
  | loggedIn role username hphase => exact absurd hphase h
  | joined | closed => exact ⟨by simp, rfl, rfl⟩

/-- They stay whatever comes. -/
theorem login_kept (h : s.phase ≠ .awaitLogin) (events : List Event) :
    (s.run events).role = s.role ∧ (s.run events).username = s.username := by
  induction events generalizing s with
  | nil => exact ⟨rfl, rfl⟩
  | cons event rest ih =>
      obtain ⟨hphase, hrole, hname⟩ := (s.effect_act event).login_kept h
      obtain ⟨hrole', hname'⟩ := ih hphase
      exact ⟨hrole'.trans hrole, hname'.trans hname⟩

/-- A session that awaits a login gets its role and username from the first login before a close. -/
theorem login_run (hphase : s.phase = .awaitLogin) (hrole : s.role = none)
    (hname : s.username = none) (events : List Event) :
    (s.run events).role = (firstLogin? events).map Prod.fst ∧
      (s.run events).username = (firstLogin? events).map Prod.snd := by
  induction events with
  | nil => exact ⟨hrole, hname⟩
  | cons event rest ih =>
      cases event with
      | login role username =>
          have hafter : (s.act (.login role username)) = _ := login_eq hphase role username
          have hgone : firstPhase role ≠ .awaitLogin := by cases role <;> simp [firstPhase]
          rw [run_cons, hafter]
          exact login_kept hgone rest
      | join room =>
          have hsame : s.act (.join room) = s := by simp [act, join, hphase]
          rw [run_cons, hsame]
          exact ih
      | leave =>
          have hsame : s.act .leave = s := by simp [act, leave, hphase]
          rw [run_cons, hsame]
          exact ih
      | close =>
          obtain ⟨hrole', hname'⟩ := login_kept (s := s.act .close) (by simp [act, close]) rest
          exact ⟨hrole'.trans hrole, hname'.trans hname⟩

/-! ## The join of a subscriber -/

/-- A subscriber that has joined can only be closed. -/
theorem Effect.room_kept (heffect : Effect s event t)
    (h : s.phase = .subscriberLoop ∨ s.phase = .closed) :
    (t.phase = .subscriberLoop ∨ t.phase = .closed) ∧ t.room = s.room := by
  have hother {p : Phase} (hp : s.phase = p) (hne : p ≠ .subscriberLoop ∧ p ≠ .closed) : False :=
    h.elim (fun hs ↦ hne.1 (hp.symm.trans hs)) fun hs ↦ hne.2 (hp.symm.trans hs)
  cases heffect with
  | ignored => exact ⟨h, rfl⟩
  | loggedIn _ _ hphase | entered _ hphase | joined _ hphase | left hphase =>
      exact (hother hphase (by simp)).elim
  | closed => exact ⟨.inr rfl, rfl⟩

/-- Once a subscriber has joined, its room stays. -/
theorem room_kept (h : s.phase = .subscriberLoop ∨ s.phase = .closed) (events : List Event) :
    (s.run events).room = s.room := by
  induction events generalizing s with
  | nil => rfl
  | cons event rest ih =>
      obtain ⟨hphase, hroom⟩ := (s.effect_act event).room_kept h
      exact (ih hphase).trans hroom

/-- After a close nothing changes. -/
theorem run_of_closed (h : s.phase = .closed) (events : List Event) : s.run events = s := by
  induction events with
  | nil => rfl
  | cons event rest ih =>
      have hsame : s.act event = s := by
        cases event with
        | login | join | leave => simp [act, login, join, leave, h]
        | close => simp [act, close, ← h]
      rw [run_cons, hsame]
      exact ih

/-- The join in this place is the one that takes the session into its room. -/
def JoinsAt (s : Session) (events before : List Event) (room : String) : Prop :=
  (s.run before).phase = .awaitJoin ∧ ∃ after, events = before ++ .join room :: after

/-- Only a join that was awaited leads into the loop of a subscriber. -/
theorem Effect.joins (heffect : Effect s event t) (hstart : s.phase ≠ .subscriberLoop)
    (h : t.phase = .subscriberLoop) :
    ∃ room, event = .join room ∧ s.phase = .awaitJoin ∧ t.room = some room := by
  cases heffect with
  | ignored | entered | left => exact absurd h hstart
  | loggedIn role => cases role <;> cases h
  | joined room hphase => exact ⟨room, rfl, hphase, rfl⟩
  | closed => cases h

/-- A subscriber in its loop got there by a join, whose argument is its room. -/
theorem exists_join (hstart : s.phase ≠ .subscriberLoop) (events : List Event)
    (h : (s.run events).phase = .subscriberLoop) :
    ∃ before room, s.JoinsAt events before room ∧ (s.run events).room = some room := by
  induction events generalizing s with
  | nil => exact absurd h hstart
  | cons event rest ih =>
      by_cases hjoined : (s.act event).phase = .subscriberLoop
      · -- this very event led into the loop
        obtain ⟨room, rfl, hphase, hroom⟩ := (s.effect_act event).joins hstart hjoined
        refine ⟨[], room, ⟨hphase, rest, rfl⟩, ?_⟩
        rw [run_cons, room_kept (.inl hjoined), hroom]
      · obtain ⟨before, room, ⟨hphase, after, rfl⟩, hroom⟩ := ih hjoined h
        exact ⟨event :: before, room, ⟨hphase, after, rfl⟩, hroom⟩

/-- There is one such join at most. -/
theorem JoinsAt.unique {events before before' : List Event} {room room' : String}
    (h : s.JoinsAt events before room) (h' : s.JoinsAt events before' room') :
    before = before' ∧ room = room' := by
  -- of two such places the later would be reached through the loop
  have hlater {first second mid : List Event} {name : String}
      (hfirst : (s.run first).phase = .awaitJoin) (hsecond : (s.run second).phase = .awaitJoin)
      (hsplit : second = first ++ .join name :: mid) : False := by
    have hloop : ((s.run first).act (.join name)).phase = .subscriberLoop := by
      simp [act, join_eq_of_subscriber hfirst]
    have hleads := leads_run ((s.run first).act (.join name)) mid
    rw [hloop] at hleads
    rw [hsplit, run_append, run_cons] at hsecond
    rw [hsecond] at hleads
    have hle := Leads.rank_le hleads
    simp [rank] at hle
  obtain ⟨hphase, after, rfl⟩ := h
  obtain ⟨hphase', after', hsame⟩ := h'
  rcases List.append_eq_append_iff.mp hsame with ⟨mid, hmid, hrest⟩ | ⟨mid, hmid, hrest⟩
  · cases mid with
    | nil =>
        rw [List.append_nil] at hmid
        cases hrest
        exact ⟨hmid.symm, rfl⟩
    | cons event mid =>
        cases hrest
        exact (hlater hphase hphase' hmid).elim
  · cases mid with
    | nil =>
        rw [List.append_nil] at hmid
        cases hrest
        exact ⟨hmid, rfl⟩
    | cons event mid =>
        cases hrest
        exact (hlater hphase' hphase hmid).elim

/-! ## The whole life -/

/-- What becomes of a new session with this id by the events of `before` and those of `later` behind
them. -/
structure Life (id : Nat) (before later : List Event) : Prop where
  /-- The phase goes along the arrows. -/
  forward : Leads (run { id } before).phase (run { id } (before ++ later)).phase
  /-- A phase that was left does not come back. -/
  settled : ∀ between, between <+: later →
    (run { id } (before ++ later)).phase = (run { id } before).phase →
    (run { id } (before ++ between)).phase = (run { id } before).phase
  /-- Phase, role, username and room fit together. -/
  consistent : Consistent (run { id } before)
  /-- The role and the username are those of the first login before a close. -/
  login : (run { id } before).role = (firstLogin? before).map Prod.fst ∧
    (run { id } before).username = (firstLogin? before).map Prod.snd
  /-- Once there, they stay. -/
  login_kept : (run { id } before).role ≠ none →
    (run { id } (before ++ later)).role = (run { id } before).role ∧
      (run { id } (before ++ later)).username = (run { id } before).username
  /-- A subscriber's room is the argument of its one effective join, and stays. -/
  join : (run { id } before).phase = .subscriberLoop →
    (run { id } (before ++ later)).room = (run { id } before).room ∧
      ∃ first room, (run { id } before).room = some room ∧
        ∀ first' room', JoinsAt { id } before first' room' ↔ first' = first ∧ room' = room
  /-- A close ends the session, whatever its phase, and after it nothing changes. -/
  closed : .close ∈ before →
    (run { id } before).phase = .closed ∧ run { id } (before ++ later) = run { id } before

theorem closed_of_mem (s : Session) {events : List Event} (h : .close ∈ events) :
    (s.run events).phase = .closed := by
  obtain ⟨first, second, rfl⟩ := List.append_of_mem h
  rw [run_append, run_cons, run_of_closed (by rfl)]
  rfl

/-- This is the life of every session. -/
theorem life (id : Nat) (before later : List Event) : Life id before later where
  forward := by
    rw [run_append]
    exact leads_run _ later
  settled between hbetween hsame := by
    obtain ⟨rest, rfl⟩ := hbetween
    have hthere := leads_run (run { id } before) between
    have hback := leads_run (run { id } (before ++ between)) rest
    rw [← run_append, List.append_assoc, hsame] at hback
    rw [← run_append] at hthere
    exact Leads.eq_of_leads hback hthere
  consistent := (consistent_new id).run before
  login := login_run rfl rfl rfl before
  login_kept hrole := by
    rw [run_append]
    refine Session.login_kept (fun hphase ↦ hrole ?_) later
    exact ((consistent_new id).run before).anonymous hphase
  join hphase := by
    obtain ⟨first, room, hjoins, hroom⟩ := exists_join (by simp) before hphase
    rw [run_append]
    refine ⟨room_kept (.inl hphase) later, first, room, hroom, fun first' room' ↦ ⟨fun h ↦ ?_, ?_⟩⟩
    · exact h.unique hjoins
    · rintro ⟨rfl, rfl⟩
      exact hjoins
  closed hclose := by
    have hphase := closed_of_mem { id } hclose
    rw [run_append]
    exact ⟨hphase, run_of_closed hphase later⟩

end Session

end ChatRelay
