import ChatRelay.Proofs.DeliveryLog
import ChatRelay.Proofs.Origins
import ChatRelay.Proofs.RoundTrip

/-!
# What is broadcast, and what the mailboxes hold

A publisher's worker checks names where it takes them and lengths where it broadcasts.
`Worker.Named` says what is known from this at each control point, and `sendable_of_action` that every
broadcast that the workers make can be sent as a delivery. `Mail.act` says that the mailboxes of the
subscribers hold nothing but what is broadcast, and that nothing else is sent on from them.
-/

namespace ChatRelay

open Text Transport Wire

namespace Wire

/-- A name that lines and deliveries can carry. -/
structure IsName (name : String) : Prop where
  nonempty : name ≠ ""
  undelimited : delimiter ∉ name.toList
  unterminated : hasTerminator name = false

/-- A name that is not refused, received in a line. -/
theorem isName_of_nameRefusal? {missing invalid : Refusal} {name : String}
    (h : nameRefusal? missing invalid name = none) (hline : hasTerminator name = false) :
    IsName name := by
  unfold nameRefusal? at h
  split at h
  · cases h
  · rename_i hempty
    split at h
    · cases h
    · rename_i hcolon
      exact ⟨by simpa using hempty, by simpa using hcolon, hline⟩

theorem Delivery.Sendable.isName {d : Delivery} (h : d.Sendable) :
    IsName d.room ∧ IsName d.sender :=
  ⟨⟨h.room_ne, h.room_undelimited, h.unterminated.1⟩,
    ⟨h.sender_ne, h.sender_undelimited, h.unterminated.2.1⟩⟩

end Wire

namespace Session

@[simp] theorem name_join (s : Session) (room : String) : (s.join room).name = s.name := by
  unfold join
  split <;> rfl

@[simp] theorem name_leave (s : Session) : s.leave.name = s.name := by
  unfold leave
  split <;> rfl

end Session

namespace Server

/-! ## What publishers broadcast -/

namespace Worker

variable {d d' : Directory} {hub hub' : Hub} {w w' : Worker}

/-- A publisher whose current room is this has a name, and so has the room. -/
def NamedIn (d : Directory) (w : Worker) (room : Option Nat) : Prop :=
  IsName w.session.name ∧
    ∀ number, room = some number → number < d.rooms.length ∧ IsName (d.name number)

/-- What is known of the names that a publisher uses at its control point. -/
def Named (d : Directory) (w : Worker) : Prop :=
  match w.control with
  | .send _ (.loggedIn _) => IsName w.session.name
  | .openRoom name => IsName w.session.name ∧ IsName name
  | .receive (.command room) | .send _ (.replied room) => w.NamedIn d room
  | .broadcast room text =>
      room < d.rooms.length ∧ Delivery.Sendable ⟨d.name room, w.session.name, text⟩
  | _ => True

theorem NamedIn.mono (hgrows : d.Grows d') {room : Option Nat} (h : w.NamedIn d room) :
    w.NamedIn d' room := by
  refine ⟨h.1, fun number hnumber ↦ ?_⟩
  obtain ⟨hlt, hname⟩ := h.2 number hnumber
  exact ⟨Nat.lt_of_lt_of_le hlt hgrows.length_le, by rwa [hgrows.name number hlt]⟩

/-- Names stay what they are while the directory grows. -/
theorem Named.mono (hgrows : d.Grows d') (h : w.Named d) : w.Named d' := by
  revert h
  unfold Named
  cases w.control with
  | receive await =>
      cases await with
      | command => exact fun h ↦ h.mono hgrows
      | _ => exact id
  | send rest after =>
      cases after with
      | replied => exact fun h ↦ h.mono hgrows
      | _ => exact id
  | broadcast room text =>
      intro ⟨hlt, hsendable⟩
      exact ⟨Nat.lt_of_lt_of_le hlt hgrows.length_le, by rwa [hgrows.name room hlt]⟩
  | _ => exact id

/-- What comes after a publisher's confirmation or reply is named as before. -/
theorem Named.onSent {rest : List UInt8} {after : After} {connection : Connection}
    (h : w.Named hub.directory) (hcontrol : w.control = .send rest after) :
    let sent := Worker.onSent hub { w with connection, session := w.session.countSent } after
    sent.2.Named sent.1.directory := by
  simp only [Named, hcontrol] at h
  cases after with
  | loggedIn role =>
      cases role with
      | publisher => exact ⟨h, nofun⟩
      | subscriber => trivial
  | replied room => exact h
  | part | quit | joined | delivered => trivial

/-- A step keeps what is known of the names. -/
theorem Step.named (h : Step hub w hub' w') (hw : w.Lawful hub.directory)
    (hnamed : w.Named hub.directory) : w'.Named hub'.directory := by
  have hgrows := h.grows
  cases h with
  | input await connection hcontrol => simpa only [Named, NamedIn, hcontrol] using hnamed
  | loginAccepted connection m role hcontrol hstep hrole hname =>
      simp only [Lawful, hcontrol] at hw
      have hphase : w.session.countReceived.phase = .awaitLogin := hw.phase
      rw [Session.login_eq hphase]
      exact isName_of_nameRefusal? hname (valid_of_receiveStep hstep).1
  | commandRefused room connection m refusal hcontrol =>
      simp only [Named, hcontrol] at hnamed
      exact hnamed
  | joinCommand room connection name hcontrol hstep hname =>
      simp only [Named, hcontrol] at hnamed
      exact ⟨hnamed.1, isName_of_nameRefusal? hname (valid_of_receiveStep hstep).1⟩
  | sendCommand target connection text hcontrol hstep hshort =>
      simp only [Named, hcontrol] at hnamed
      obtain ⟨hsender, hrooms⟩ := hnamed
      obtain ⟨hlt, hroom⟩ := hrooms target rfl
      have htext : hasTerminator text = false := (valid_of_receiveStep hstep).1
      have hsize : Delivery.payloadSize ⟨hub.directory.name target, w.session.name, text⟩ ≤
          maxPayload := by
        simpa [tooLong] using hshort
      exact ⟨hlt, hroom.nonempty, hroom.undelimited, hsender.nonempty, hsender.undelimited,
        ⟨hroom.unterminated, hsender.unterminated, htext⟩, hsize⟩
  | leaveCommand room connection payload hcontrol =>
      simp only [Named, hcontrol] at hnamed
      refine ⟨?_, by simp⟩
      rw [session_say, Session.name_leave]
      exact hnamed.1
  | openRoom name directory room hcontrol hfind =>
      simp only [Named, hcontrol] at hnamed
      have hlt := hub.directory.findOrCreate_lt name
      have hname := hub.directory.name_findOrCreate name
      rw [hfind] at hlt hname
      refine ⟨?_, fun number hnumber ↦ ?_⟩
      · rw [session_say, Session.name_join]
        exact hnamed.1
      · obtain rfl := Option.some.inj hnumber
        exact ⟨hlt, hname ▸ hnamed.2⟩
  | broadcast room text directory hcontrol =>
      simp only [Named, hcontrol] at hnamed
      obtain ⟨hlt, hsendable⟩ := hnamed
      refine ⟨hsendable.isName.2, fun number hnumber ↦ ?_⟩
      obtain rfl := Option.some.inj hnumber
      refine ⟨Nat.lt_of_lt_of_le hlt hgrows.length_le, ?_⟩
      rw [hgrows.name room hlt]
      exact hsendable.isName.1
  | output rest after connection left hcontrol =>
      simp only [Named, hcontrol] at hnamed
      cases after with
      | loggedIn | replied => exact hnamed
      | part | quit | joined | delivered => trivial
  | sent rest after connection hcontrol => exact hnamed.onSent hcontrol
  | unsent rest after connection failure hcontrol => cases after <;> trivial
  | _ => trivial

end Worker

namespace System

variable {s : System} {k : Nat}

/-- That each worker is lawful and named lasts. -/
theorem lasting_named : Lasting fun d w ↦ w.Lawful d ∧ w.Named d where
  fresh hfresh := ⟨hfresh.lawful, by simp only [Worker.Named, hfresh.control]⟩
  step hstep hw := ⟨hstep.lawful hw.1, hstep.named hw.1 hw.2⟩
  cue cue hw := ⟨hw.1.cue cue, hw.2⟩
  keeps hkeeps hw := ⟨hw.1.mono hkeeps, hw.2.mono hkeeps.grows⟩

/-- Nothing is broadcast but by the workers. -/
def NoDirect (actions : List Action) : Prop :=
  ∀ room sender text, .broadcast room sender text ∉ actions

theorem NoDirect.tail {action : Action} {rest : List Action} (h : NoDirect (action :: rest)) :
    NoDirect rest :=
  fun room sender text hmem ↦ h room sender text (List.mem_cons_of_mem _ hmem)

/-- What a worker broadcasts can be sent, and the room is one of those there are. -/
theorem sendable_of_broadcastOf? (hnamed : s.Everywhere fun d w ↦ w.Lawful d ∧ w.Named d)
    {room : Nat} {delivery : Delivery} (h : s.broadcastOf? (.work k) = some (room, delivery)) :
    room < s.hub.directory.rooms.length ∧ delivery.Sendable := by
  simp only [broadcastOf?] at h
  split at h
  · cases h
  · rename_i w hw
    split at h
    · rename_i target text hcontrol
      cases h
      obtain ⟨-, hknown⟩ := hnamed k w hw
      simpa only [Worker.Named, hcontrol] using hknown
    · cases h

/-- What the workers broadcast by an action can be sent. -/
theorem sendable_of_action (hnamed : s.Everywhere fun d w ↦ w.Lawful d ∧ w.Named d)
    {action : Action} (hsource : NoDirect [action]) {room : Nat} {delivery : Delivery}
    (h : s.broadcastOf? action = some (room, delivery)) :
    room < s.hub.directory.rooms.length ∧ delivery.Sendable := by
  cases action with
  | work k => exact sendable_of_broadcastOf? hnamed h
  | broadcast room sender text => exact absurd List.mem_cons_self (hsource room sender text)
  | _ => cases h

theorem NoDirect.head {action : Action} {rest : List Action} (h : NoDirect (action :: rest)) :
    NoDirect [action] := by
  intro room sender text hmem
  obtain rfl := List.mem_singleton.mp hmem
  exact h room sender text List.mem_cons_self

end System

/-! ## What the mailboxes hold -/

/-- The mailbox of this subscriber holds only messages of this kind. -/
def Holds (P : Message → Prop) (d : Directory) (number : Nat) : Prop :=
  ∀ m ∈ (d.mailbox number).messages, P m

section
variable {P : Message → Prop} {d : Directory} {number : Nat}

theorem Holds.updateMailbox (h : Holds P d number) {change : Mailbox → Mailbox}
    (hchange : ∀ b : Mailbox, ∀ m ∈ (change b).messages, m ∈ b.messages ∨ P m) (other : Nat) :
    Holds P (d.updateMailbox other change) number := by
  intro m hm
  by_cases hsome : (d.subscribers.get? other).isSome
  · rw [Directory.mailbox_updateMailbox d other number change hsome] at hm
    split at hm
    · exact (hchange _ m hm).elim (h m) fun hp ↦ hp
    · exact h m hm
  · -- there is no mailbox to change
    have hnone : d.subscribers.get? other = none := by simpa using hsome
    refine h m ?_
    by_cases hnumber : number = other
    · subst hnumber
      simp [Directory.mailbox, Directory.updateMailbox, hnone] at hm
    · rwa [Directory.mailbox_updateMailbox_of_ne d hnumber] at hm

theorem Holds.deliver (h : Holds P d number) {m : Message} (hm : P m) (numbers : List Nat) :
    Holds P (d.deliver m numbers) number := by
  unfold Directory.deliver
  induction numbers generalizing d with
  | nil => exact h
  | cons first rest ih =>
      refine ih (h.updateMailbox (fun b other hother ↦ ?_) first)
      rw [Mailbox.messages_enqueue, List.mem_append, List.mem_singleton] at hother
      exact hother.imp_right fun (heq : other = m) ↦ heq ▸ hm

theorem Holds.of_subscribers {d' : Directory} (h : Holds P d number)
    (hsame : d'.subscribers = d.subscribers) : Holds P d' number := by
  unfold Holds Directory.mailbox
  rw [hsame]
  exact h

end

/-- The worker has a mailbox in which it may find what it writes. -/
def Control.IsListening (control : Control) : Prop :=
  control.IsJoining ∨ ∃ room, control.seat? = some room

namespace Worker

variable {P : Message → Prop} {hub hub' : Hub} {w w' : Worker}

/-- A step puts nothing into a mailbox but what it broadcasts. -/
theorem Step.holds (h : Step hub w hub' w') {number : Nat}
    (hholds : Holds P hub.directory number)
    (hbroadcast : ∀ room text, w.control = .broadcast room text →
      P (Delivery.message ⟨hub.directory.name room, w.session.name, text⟩)) :
    Holds P hub'.directory number := by
  cases h with
  | openRoom name directory room _ hfind | enterRoom name directory room _ hfind =>
      have hsame := hub.directory.subscribers_findOrCreate name
      rw [hfind] at hsame
      exact hholds.of_subscribers hsame
  | addMember room directory _ hd =>
      exact hholds.of_subscribers (by rw [hd]; exact Directory.subscribers_addMember _ _ _)
  | removeMember room result directory _ hd =>
      exact hholds.of_subscribers (by rw [hd]; exact Directory.subscribers_removeMember _ _ _)
  | broadcast room text directory hcontrol hd =>
      subst hd
      exact hholds.deliver (hbroadcast room text hcontrol) _
  | sent rest after connection =>
      cases after with
      | loggedIn role =>
          cases role with
          | publisher => exact hholds
          | subscriber =>
              intro m hm
              rw [onSent, Directory.mailbox_subscribe] at hm
              split at hm
              · cases hm
              · exact hholds m hm
      | _ => exact hholds
  | dequeue room directory _ hd =>
      subst hd
      refine hholds.updateMailbox (fun b m hm ↦ .inl ?_) _
      rwa [Mailbox.messages_ask] at hm
  | collected room directory m _ _ _ hd | missed room directory _ _ _ hd =>
      subst hd
      exact hholds.updateMailbox (fun b m hm ↦ .inl (List.mem_of_mem_tail hm)) _
  | lapsed room directory _ _ _ hd =>
      subst hd
      have hkept (b : Mailbox) : ∀ m ∈ (b.giveUp ticket).messages, m ∈ b.messages ∨ P m :=
        fun m hm ↦ .inl hm
      exact hholds.updateMailbox hkept _
  | close =>
      rw [Hub.directory_closed]
      exact hholds
  | _ => exact hholds

/-- A worker has its mailbox from before the step, or it gets an empty one. -/
theorem Step.isListening (h : Step hub w hub' w') (hafter : w'.control.IsListening) :
    w.control.IsListening ∨ (hub'.directory.mailbox w'.place).messages = [] := by
  cases h with
  | input await connection hcontrol => exact .inl hafter
  | joinAccepted _ _ hcontrol | enterRoom _ _ _ hcontrol | addMember _ _ hcontrol =>
      exact .inl (.inl (by rw [hcontrol]; trivial))
  | output rest after connection left hcontrol =>
      refine .inl ?_
      rw [hcontrol]
      cases after <;> exact hafter
  | sent rest after connection hcontrol =>
      rw [hcontrol]
      cases after with
      | loggedIn role =>
          cases role with
          | publisher => exact hafter.elim False.elim (fun h ↦ nomatch h.choose_spec)
          | subscriber =>
              right
              have hempty :=
                hub.directory.mailbox_subscribe w.place w.session.id w.place w.session.name
              rw [if_pos rfl] at hempty
              exact congrArg Mailbox.messages hempty
      | joined room | delivered room => exact .inl (.inr ⟨room, rfl⟩)
      | part | replied | quit => exact hafter.elim False.elim (fun h ↦ nomatch h.choose_spec)
  | unsent rest after connection failure hcontrol =>
      rw [hcontrol]
      cases after with
      | joined room | delivered room => exact .inl (.inr ⟨room, rfl⟩)
      | part | loggedIn | replied | quit =>
          exact hafter.elim False.elim (fun h ↦ nomatch h.choose_spec)
  | parting room hcontrol | staying room hcontrol | dequeue room _ hcontrol
  | collected room _ _ hcontrol | missed room _ hcontrol | lapsed room _ hcontrol =>
      exact .inl (.inr ⟨room, by rw [hcontrol]; rfl⟩)
  | _ => exact hafter.elim False.elim (fun h ↦ nomatch h.choose_spec)

/-- A delivery that the worker is sending came out of a mailbox that holds messages of this kind. -/
def Carries (P : Message → Prop) (w : Worker) : Prop :=
  match w.control with
  | .send rest (.delivered _) => ∃ m, P m ∧ rest <:+ m.bytes
  | _ => True

/-- What a worker sends on from its mailbox is what it found there. -/
theorem Step.carries (h : Step hub w hub' w')
    (hmail : w.control.IsListening → Holds P hub.directory w.place) (hw : w.Carries P) :
    w'.Carries P := by
  cases h with
  | collected room directory m hcontrol _ hhead =>
      exact ⟨m, hmail (.inr ⟨room, by rw [hcontrol]; rfl⟩) m (List.mem_of_head? hhead),
        List.suffix_rfl⟩
  | output rest after connection left hcontrol hstep =>
      obtain ⟨taken, -, rfl, -⟩ := Connection.written_of_more hstep
      simp only [Carries, hcontrol] at hw ⊢
      cases after with
      | delivered room =>
          obtain ⟨m, hm, hrest⟩ := hw
          exact ⟨m, hm, (List.suffix_append taken left).trans hrest⟩
      | _ => trivial
  | input await connection hcontrol => simp only [Carries, hcontrol]
  | sent rest after =>
      cases after with
      | loggedIn role => cases role <;> trivial
      | _ => trivial
  | unsent rest after => cases after <;> trivial
  | _ => trivial

end Worker

namespace System

variable {P : Message → Prop} {s : System} {k : Nat} {w : Worker}

/-- What becomes of a worker by one action: nothing, something at its stream, or a step of its own. -/
theorem exists_next (hw : s.workers[k]? = some w) (action : Action) :
    ∃ w', (s.act action).workers[k]? = some w' ∧
      (w' = w ∨ (∃ cue, w' = w.cue cue) ∨
        action = .work k ∧ Worker.Step s.hub w (s.act action).hub w') := by
  cases fate hw action with
  | kept _ _ hsame => exact ⟨w, hsame, .inl rfl⟩
  | cued cue _ hcue => exact ⟨w.cue cue, hcue, .inr (.inl ⟨cue, rfl⟩)⟩
  | stuck _ _ hsame => exact ⟨w, by rw [hsame]; exact hw, .inl rfl⟩
  | stepped hub w' hwork hstep hafter =>
      refine ⟨w', by rw [hafter]; exact getElem?_set_self hw w', .inr (.inr ⟨hwork, ?_⟩)⟩
      rw [hafter]
      exact Worker.step_sound hstep

/-- Where a worker comes from: it has just been connected, or it was there and nothing, something at its
stream, or a step of its own has happened to it. -/
theorem exists_previous {action : Action} {w' : Worker}
    (hw' : (s.act action).workers[k]? = some w') :
    w'.Fresh ∨ ∃ w, s.workers[k]? = some w ∧
      (w' = w ∨ (∃ cue, w' = w.cue cue) ∨
        action = .work k ∧ Worker.Step s.hub w (s.act action).hub w') := by
  rcases exists_worker_before hw' with ⟨w, hw⟩ | ⟨hnew, -⟩
  · obtain ⟨v, hv, hcase⟩ := exists_next hw action
    obtain rfl := Option.some.inj (hw'.symm.trans hv)
    exact .inr ⟨w, hw, hcase⟩
  · exact .inl hnew

/-- Each subscriber finds only messages of this kind in its mailbox, and sends on no others. -/
structure Mail (P : Message → Prop) (s : System) : Prop where
  holds : ∀ (k : Nat) (w : Worker), s.workers[k]? = some w → w.control.IsListening →
    Holds P s.hub.directory w.place
  carries : ∀ (k : Nat) (w : Worker), s.workers[k]? = some w → w.Carries P

/-- An action puts nothing into a mailbox but what it broadcasts. -/
theorem holds_act {action : Action} {number : Nat} (h : Holds P s.hub.directory number)
    (hbroadcast : ∀ room delivery, s.broadcastOf? action = some (room, delivery) →
      P delivery.message) : Holds P (s.act action).hub.directory number := by
  cases action with
  | work k =>
      cases hwork : s.work? k with
      | none => rwa [act, hwork]
      | some t =>
          obtain ⟨w, hub, w', hw, hstep, rfl⟩ := work?_eq_some hwork
          rw [act, hwork]
          refine (Worker.step_sound hstep).holds h fun room text hcontrol ↦ ?_
          exact hbroadcast room ⟨s.hub.directory.name room, w.session.name, text⟩
            (by simp [broadcastOf?, hw, hcontrol])
  | broadcast name sender text =>
      cases hfind : s.hub.directory.find? name with
      | none => simpa only [act, broadcast, hfind] using h
      | some target =>
          simp only [act, broadcast, hfind]
          exact h.deliver (hbroadcast target _ (by simp [broadcastOf?, hfind])) _
  | connect pace counted =>
      simp only [act, connect]
      split <;> exact h
  | cue | setClosing | pass => exact h

/-- What is broadcast by an action may come into the mailboxes. -/
theorem Mail.act (h : s.Mail P) (action : Action)
    (hbroadcast : ∀ room delivery, s.broadcastOf? action = some (room, delivery) →
      P delivery.message) : (s.act action).Mail P where
  holds := by
    intro k w' hw' hlistening
    rcases exists_previous hw' with hnew | ⟨w, hw, rfl | ⟨cue, rfl⟩ | ⟨-, hstep⟩⟩
    · rw [hnew.control] at hlistening
      exact hlistening.elim False.elim (fun h ↦ nomatch h.choose_spec)
    · exact holds_act (h.holds k w' hw hlistening) hbroadcast
    · exact holds_act (h.holds k w hw hlistening) hbroadcast
    · rcases hstep.isListening hlistening with hbefore | hempty
      · rw [hstep.place_eq]
        exact holds_act (h.holds k w hw hbefore) hbroadcast
      · intro m hm
        rw [hempty] at hm
        cases hm
  carries := by
    intro k w' hw'
    rcases exists_previous hw' with hnew | ⟨w, hw, rfl | ⟨cue, rfl⟩ | ⟨-, hstep⟩⟩
    · simp only [Worker.Carries, hnew.control]
    · exact h.carries k w' hw
    · exact h.carries k w hw
    · exact hstep.carries (h.holds k w hw) (h.carries k w hw)

theorem Initial.mail (h : s.Initial) : s.Mail P where
  holds := by
    intro k w hw hlistening
    rw [(h.fresh k w hw).control] at hlistening
    exact hlistening.elim False.elim (fun h ↦ nomatch h.choose_spec)
  carries := by
    intro k w hw
    simp only [Worker.Carries, (h.fresh k w hw).control]

/-- Whatever is broadcast comes into the mailboxes as deliveries, and nothing else does. -/
theorem Mail.run (h : s.Mail (·.tag = .delivery)) (actions : List Action) :
    (s.run actions).Mail (·.tag = .delivery) := by
  induction actions generalizing s with
  | nil => exact h
  | cons action rest ih => exact ih (h.act action fun _ _ _ ↦ rfl)

end System

end Server

end ChatRelay
