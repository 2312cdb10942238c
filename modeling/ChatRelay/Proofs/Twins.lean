import ChatRelay.Proofs.Phases
import ChatRelay.Proofs.RoomNames

/-!
# One worker in two runs

Two runs may number their rooms differently. `Twin` says that a worker is in the same state in both, up
to these numbers, and `Hub.SameBut` that what the workers share is the same but for the holder of one
id. A step of that one changes nothing about the others (`Step.sameBut`), and a step of another one goes
the same way in both runs (`Step.twin`).
-/

namespace ChatRelay.Server

open Directory (SameRoom)

/-! ## One worker in two runs -/

variable {same same' : Nat → Nat → Prop}

/-- The same is received next, in rooms that are the same. -/
inductive Await.Matches (same : Nat → Nat → Prop) : Await → Await → Prop where
  | login : Matches same .login .login
  | join : Matches same .join .join
  | command {room room'} : Option.Rel same room room' →
      Matches same (.command room) (.command room')

/-- The same follows a send, in rooms that are the same. -/
inductive After.Matches (same : Nat → Nat → Prop) : After → After → Prop where
  | part (result) : Matches same (.part result) (.part result)
  | loggedIn (role) : Matches same (.loggedIn role) (.loggedIn role)
  | replied {room room'} : Option.Rel same room room' →
      Matches same (.replied room) (.replied room')
  | quit : Matches same .quit .quit
  | joined {room room'} : same room room' → Matches same (.joined room) (.joined room')
  | delivered {room room'} : same room room' → Matches same (.delivered room) (.delivered room')

/-- The same is done next, in rooms that are the same. -/
inductive Control.Matches (same : Nat → Nat → Prop) : Control → Control → Prop where
  | receive {await await'} : Await.Matches same await await' →
      Matches same (.receive await) (.receive await')
  | openRoom (name) : Matches same (.openRoom name) (.openRoom name)
  | enterRoom (name) : Matches same (.enterRoom name) (.enterRoom name)
  | addMember {room room'} : same room room' → Matches same (.addMember room) (.addMember room')
  | broadcast {room room'} (text) : same room room' →
      Matches same (.broadcast room text) (.broadcast room' text)
  | send {after after'} (rest) : After.Matches same after after' →
      Matches same (.send rest after) (.send rest after')
  | testFlag {room room'} : same room room' → Matches same (.testFlag room) (.testFlag room')
  | dequeue {room room'} : same room room' → Matches same (.dequeue room) (.dequeue room')
  | collect {room room'} : same room room' → Matches same (.collect room) (.collect room')
  | removeMember {room room'} (result) : same room room' →
      Matches same (.removeMember room result) (.removeMember room' result)
  | close (result) : Matches same (.close result) (.close result)
  | ended (result) : Matches same (.ended result) (.ended result)

/-- The other way round, the same rooms are the same. -/
theorem Await.Matches.flip {await await' : Await} (h : await.Matches same await')
    (hflip : ∀ room room', same room room' → same' room' room) : await'.Matches same' await := by
  cases h with
  | login => exact .login
  | join => exact .join
  | command hroom =>
      cases hroom with
      | none => exact .command .none
      | some hsame => exact .command (.some (hflip _ _ hsame))

theorem After.Matches.flip {after after' : After} (h : after.Matches same after')
    (hflip : ∀ room room', same room room' → same' room' room) : after'.Matches same' after := by
  cases h with
  | part result => exact .part result
  | loggedIn role => exact .loggedIn role
  | replied hroom =>
      cases hroom with
      | none => exact .replied .none
      | some hsame => exact .replied (.some (hflip _ _ hsame))
  | quit => exact .quit
  | joined hsame => exact .joined (hflip _ _ hsame)
  | delivered hsame => exact .delivered (hflip _ _ hsame)

theorem Control.Matches.flip {control control' : Control} (h : control.Matches same control')
    (hflip : ∀ room room', same room room' → same' room' room) :
    control'.Matches same' control := by
  cases h with
  | receive hawait => exact .receive (hawait.flip hflip)
  | openRoom name => exact .openRoom name
  | enterRoom name => exact .enterRoom name
  | addMember hsame => exact .addMember (hflip _ _ hsame)
  | broadcast text hsame => exact .broadcast text (hflip _ _ hsame)
  | send rest hafter => exact .send rest (hafter.flip hflip)
  | testFlag hsame => exact .testFlag (hflip _ _ hsame)
  | dequeue hsame => exact .dequeue (hflip _ _ hsame)
  | collect hsame => exact .collect (hflip _ _ hsame)
  | removeMember result hsame => exact .removeMember result (hflip _ _ hsame)
  | close result => exact .close result
  | ended result => exact .ended result

theorem Control.Matches.imp {control control' : Control} (h : control.Matches same control')
    (himp : ∀ room room', same room room' → same' room room') :
    control.Matches same' control' := by
  have hflip : control'.Matches (fun room' room ↦ same room room') control :=
    h.flip fun _ _ hsame ↦ hsame
  exact hflip.flip fun room' room ↦ himp room room'

theorem Control.Matches.of_login {control : Control}
    (h : Control.Matches same (.receive .login) control) : control = .receive .login := by
  cases h with
  | receive hawait => cases hawait with | login => rfl

theorem Control.Matches.of_join {control : Control}
    (h : Control.Matches same (.receive .join) control) : control = .receive .join := by
  cases h with
  | receive hawait => cases hawait with | join => rfl

theorem Control.Matches.of_command {control : Control} {room : Option Nat}
    (h : Control.Matches same (.receive (.command room)) control) :
    ∃ room', control = .receive (.command room') ∧ Option.Rel same room room' := by
  cases h with
  | receive hawait => cases hawait with | command hroom => exact ⟨_, rfl, hroom⟩

/-- What the workers share is the same but for the subscriber with this number, who holds this id. The
counters may differ. -/
structure Hub.SameBut (number id : Nat) (hub hub' : Hub) : Prop where
  directory : Directory.SameBut number id hub.directory hub'.directory
  closing : hub'.closing = hub.closing
  now : hub'.now = hub.now
  dequeueTimeout : hub'.dequeueTimeout = hub.dequeueTimeout

variable {number id : Nat} {hub hub' hub'' : Hub}

theorem Hub.SameBut.refl (number id : Nat) (hub : Hub) : hub.SameBut number id hub :=
  ⟨.refl _ _ _, rfl, rfl, rfl⟩

theorem Hub.SameBut.symm (h : hub.SameBut number id hub') : hub'.SameBut number id hub :=
  ⟨h.directory.symm, h.closing.symm, h.now.symm, h.dequeueTimeout.symm⟩

theorem Hub.SameBut.trans (h : hub.SameBut number id hub') (h' : hub'.SameBut number id hub'') :
    hub.SameBut number id hub'' :=
  ⟨h.directory.trans h'.directory, h'.closing.trans h.closing, h'.now.trans h.now,
    h'.dequeueTimeout.trans h.dequeueTimeout⟩

/-- Nobody but the counters notices an event. -/
theorem Hub.sameBut_count (number id : Nat) (hub : Hub) (event : CountedEvent) :
    hub.SameBut number id (hub.count event) :=
  ⟨.refl _ _ _, rfl, rfl, rfl⟩

theorem Hub.SameBut.count (h : hub.SameBut number id hub') (event : CountedEvent) :
    (hub.count event).SameBut number id (hub'.count event) :=
  ⟨h.directory, h.closing, h.now, h.dequeueTimeout⟩

/-- The directories are changed on both sides. -/
theorem Hub.SameBut.change {directory directory' : Directory} (h : hub.SameBut number id hub')
    (hd : Directory.SameBut number id directory directory') :
    Hub.SameBut number id { hub with directory } { hub' with directory := directory' } :=
  ⟨hd, h.closing, h.now, h.dequeueTimeout⟩

namespace Worker

/-- The worker is in the same state in both runs, up to the numbers of rooms. -/
structure Twin (d d' : Directory) (w w' : Worker) : Prop where
  place : w'.place = w.place
  session : w'.session = w.session
  connection : w'.connection = w.connection
  counted : w'.counted = w.counted
  control : Control.Matches (SameRoom d d') w.control w'.control

variable {d d' e e' : Directory} {w w' : Worker}

theorem Twin.symm (h : Twin d d' w w') : Twin d' d w' w :=
  ⟨h.place.symm, h.session.symm, h.connection.symm, h.counted.symm,
    h.control.flip fun _ _ hsame ↦ hsame.symm⟩

theorem Twin.mono (h : Twin d d' w w') (hgrows : d.Grows e) (hgrows' : d'.Grows e') :
    Twin e e' w w' :=
  { h with control := h.control.imp fun _ _ hsame ↦ hsame.mono hgrows hgrows' }

/-- Both runs come to the same end. -/
theorem Twin.result? (h : Twin d d' w w') : w'.result? = w.result? := by
  obtain ⟨-, -, -, -, hcontrol⟩ := h
  unfold Worker.result?
  generalize w.control = control at hcontrol
  generalize w'.control = control' at hcontrol
  cases hcontrol <;> rfl

/-- A step that is no broadcast changes nothing about the others. -/
theorem Step.sameBut (h : Step hub w hub' w') (hw : w.Lawful hub.directory)
    (hd : hub.directory.DistinctNames)
    (hquiet : ∀ room text, w.control ≠ .broadcast room text) :
    hub.SameBut w.place w.session.id hub' := by
  have hself : hub.SameBut w.place w.session.id hub := .refl _ _ _
  cases h with
  | loginAccepted => exact Hub.sameBut_count _ _ _ _
  | openRoom name directory room hcontrol hfind | enterRoom name directory room hcontrol hfind =>
      have hmade := Directory.sameBut_findOrCreate w.place w.session.id hub.directory name
      rw [hfind] at hmade
      exact hself.change hmade
  | addMember room directory hcontrol hadded =>
      simp only [Lawful, hcontrol] at hw
      rw [Directory.addMember_eq hw.1.enrolled] at hadded
      subst hadded
      refine hself.change (Directory.sameBut_updateMembers hd hw.2 fun t other hne ↦ ?_)
      simp [hne]
  | removeMember room result directory hcontrol hremoved =>
      simp only [Lawful, hcontrol] at hw
      rw [Directory.removeMember_eq hw.1.enrolled] at hremoved
      subst hremoved
      refine hself.change (Directory.sameBut_updateMembers hd hw.1.lt fun t other hne ↦ ?_)
      simp [hne]
  | broadcast room text directory hcontrol => exact absurd hcontrol (hquiet room text)
  | sent rest after connection hcontrol =>
      cases after with
      | loggedIn role =>
          cases role with
          | publisher => exact hself
          | subscriber => exact hself.change (Directory.sameBut_subscribe _ _ _ _)
      | delivered room => exact Hub.sameBut_count _ _ _ _
      | _ => exact hself
  | dequeue room directory hcontrol hd | collected room directory m hcontrol _ _ hd
  | missed room directory hcontrol _ _ hd | lapsed room directory hcontrol _ _ hd =>
      subst hd
      exact hself.change (Directory.sameBut_updateMailbox _ _ _ _)
  | close result hcontrol =>
      split
      · exact Hub.sameBut_count _ _ _ _
      · exact hself
  | _ => exact hself

/-- The same text is too long in both runs. -/
theorem Twin.tooLong (h : Twin hub.directory hub'.directory w w') {room room' : Nat}
    (hsame : SameRoom hub.directory hub'.directory room room') (text : String) :
    tooLong hub' w' room' text = tooLong hub w room text := by
  rw [Worker.tooLong, Worker.tooLong, h.session, hsame.name]

/-- The same command is refused in both runs, for the same reason. -/
theorem Twin.commandRefusal? (h : Twin hub.directory hub'.directory w w') {room room' : Option Nat}
    (hsame : Option.Rel (SameRoom hub.directory hub'.directory) room room') (m : Wire.Message) :
    commandRefusal? hub' w' room' m = commandRefusal? hub w room m := by
  unfold Server.commandRefusal?
  cases hsame with
  | none => rfl
  | some hroom => simp only [h.tooLong hroom]

/-- A twin differs in nothing but the numbers of rooms at its control point. -/
theorem Twin.exists_control (h : Twin d d' w w') :
    ∃ control, w' = { w with control } ∧ Control.Matches (SameRoom d d') w.control control := by
  obtain ⟨place, session, connection, counted, control⟩ := w'
  obtain ⟨rfl, rfl, rfl, rfl, hcontrol⟩ := h
  exact ⟨control, rfl, hcontrol⟩

/-- The twin can make a step that leads to this as well. -/
def Mirrored (number id : Nat) (hub' : Hub) (w' : Worker) (hub₁ : Hub) (w₁ : Worker) : Prop :=
  ∃ hub₁' w₁', Step hub' w' hub₁' w₁' ∧ hub₁.SameBut number id hub₁' ∧
    Twin hub₁.directory hub₁'.directory w₁ w₁'

section

variable {hub₁ : Hub} {w₁ : Worker} (h : Step hub w hub₁ w₁) (hhub : hub.SameBut number id hub')
  (hw : Twin hub.directory hub'.directory w w')

include h hhub hw

/-- A first message is taken the same way in both runs. -/
theorem Step.twin_login (hcontrol : w.control = .receive .login) :
    Mirrored number id hub' w' hub₁ w₁ := by
  obtain ⟨control, rfl, hmatch⟩ := hw.exists_control
  rw [hcontrol] at hmatch
  obtain rfl := hmatch.of_login
  cases h with
  | input await connection _ hstep =>
      refine ⟨_, _, .input _ connection rfl hstep, hhub, rfl, rfl, rfl, rfl, ?_⟩
      rw [hcontrol]
      exact .receive .login
  | loginFailed connection failure _ hstep =>
      exact ⟨_, _, .loginFailed connection failure rfl hstep, hhub, rfl, rfl, rfl, rfl,
        .send _ (.part _)⟩
  | loginRefused connection m refusal _ hstep hrefused =>
      exact ⟨_, _, .loginRefused connection m refusal rfl hstep hrefused, hhub, rfl, rfl, rfl, rfl,
        .send _ (.part _)⟩
  | loginAccepted connection m role _ hstep hrole hname =>
      exact ⟨_, _, .loginAccepted connection m role rfl hstep hrole hname, hhub.count _, rfl, rfl,
        rfl, rfl, .send _ (.loggedIn role)⟩
  | _ => simp [*] at hcontrol

/-- So is a subscriber's second message. -/
theorem Step.twin_join (hcontrol : w.control = .receive .join) :
    Mirrored number id hub' w' hub₁ w₁ := by
  obtain ⟨control, rfl, hmatch⟩ := hw.exists_control
  rw [hcontrol] at hmatch
  obtain rfl := hmatch.of_join
  cases h with
  | input await connection _ hstep =>
      refine ⟨_, _, .input _ connection rfl hstep, hhub, rfl, rfl, rfl, rfl, ?_⟩
      rw [hcontrol]
      exact .receive .join
  | joinFailed connection failure _ hstep =>
      exact ⟨_, _, .joinFailed connection failure rfl hstep, hhub, rfl, rfl, rfl, rfl,
        .send _ (.part _)⟩
  | joinRefused connection m refusal _ hstep hrefused =>
      exact ⟨_, _, .joinRefused connection m refusal rfl hstep hrefused, hhub, rfl, rfl, rfl, rfl,
        .send _ (.part _)⟩
  | joinAccepted connection m _ hstep haccepted =>
      exact ⟨_, _, .joinAccepted connection m rfl hstep haccepted, hhub, rfl, rfl, rfl, rfl,
        .enterRoom _⟩
  | _ => simp [*] at hcontrol

/-- So is a command, from a room that is the same. -/
theorem Step.twin_command {room : Option Nat} (hcontrol : w.control = .receive (.command room)) :
    Mirrored number id hub' w' hub₁ w₁ := by
  have hrefusal := @Twin.commandRefusal? hub hub' w w' hw
  have htooLong := @Twin.tooLong hub hub' w w' hw
  obtain ⟨control, rfl, hmatch⟩ := hw.exists_control
  rw [hcontrol] at hmatch
  obtain ⟨room', rfl, hroom⟩ := hmatch.of_command
  cases h with
  | input await connection _ hstep =>
      refine ⟨_, _, .input _ connection rfl hstep, hhub, rfl, rfl, rfl, rfl, ?_⟩
      rw [hcontrol]
      exact .receive (.command hroom)
  | commandFailed _ connection failure _ hstep =>
      exact ⟨_, _, .commandFailed _ connection failure rfl hstep, hhub, rfl, rfl, rfl, rfl,
        .close _⟩
  | commandRefused _ connection m refusal hreceives hstep hrefused =>
      cases hcontrol.symm.trans hreceives
      exact ⟨_, _, .commandRefused _ connection m refusal rfl hstep
        ((hrefusal hroom m).trans hrefused), hhub, rfl, rfl, rfl, rfl, .send _ (.replied hroom)⟩
  | joinCommand _ connection name _ hstep haccepted =>
      exact ⟨_, _, .joinCommand _ connection name rfl hstep haccepted, hhub, rfl, rfl, rfl, rfl,
        .openRoom name⟩
  | sendCommand target connection text hreceives hstep hshort =>
      cases hcontrol.symm.trans hreceives
      cases hroom with
      | some hsame =>
          exact ⟨_, _, .sendCommand _ connection text rfl hstep ((htooLong hsame text).trans hshort),
            hhub, rfl, rfl, rfl, rfl, .broadcast text hsame⟩
  | leaveCommand _ connection payload _ hstep =>
      exact ⟨_, _, .leaveCommand _ connection payload rfl hstep, hhub, rfl, rfl, rfl, rfl,
        .send _ (.replied .none)⟩
  | quitCommand _ connection payload _ hstep =>
      exact ⟨_, _, .quitCommand _ connection payload rfl hstep, hhub, rfl, rfl, rfl, rfl,
        .send _ .quit⟩
  | _ => simp [*] at hcontrol

/-- What is sent, and what comes of it, is the same in both runs. -/
theorem Step.twin_send {rest : List UInt8} {after : After} (hcontrol : w.control = .send rest after) :
    Mirrored number id hub' w' hub₁ w₁ := by
  obtain ⟨control, rfl, hmatch⟩ := hw.exists_control
  rw [hcontrol] at hmatch
  cases hmatch with
  | send _ hafter =>
      cases h with
      | output _ _ connection left hsend hstep =>
          cases hcontrol.symm.trans hsend
          exact ⟨_, _, .output rest _ connection left rfl hstep, hhub, rfl, rfl, rfl, rfl,
            .send left hafter⟩
      | sent _ _ connection hsend hstep =>
          cases hcontrol.symm.trans hsend
          refine ⟨_, _, .sent rest _ connection rfl hstep, ?_⟩
          cases hafter with
          | part result => exact ⟨hhub, rfl, rfl, rfl, rfl, .close result⟩
          | loggedIn role =>
              cases role with
              | publisher => exact ⟨hhub, rfl, rfl, rfl, rfl, .receive (.command .none)⟩
              | subscriber =>
                  exact ⟨hhub.change (hhub.directory.subscribe _ _ _), rfl, rfl, rfl, rfl,
                    .receive .join⟩
          | replied hroom => exact ⟨hhub, rfl, rfl, rfl, rfl, .receive (.command hroom)⟩
          | quit => exact ⟨hhub, rfl, rfl, rfl, rfl, .close _⟩
          | joined hroom => exact ⟨hhub, rfl, rfl, rfl, rfl, .testFlag hroom⟩
          | delivered hroom => exact ⟨hhub.count _, rfl, rfl, rfl, rfl, .testFlag hroom⟩
      | unsent _ _ connection failure hsend hstep =>
          cases hcontrol.symm.trans hsend
          refine ⟨_, _, .unsent rest _ connection failure rfl hstep, hhub, ?_⟩
          cases hafter with
          | part result => exact ⟨rfl, rfl, rfl, rfl, .close result⟩
          | loggedIn | replied | quit => exact ⟨rfl, rfl, rfl, rfl, .close _⟩
          | joined hroom | delivered hroom => exact ⟨rfl, rfl, rfl, rfl, .removeMember _ hroom⟩
      | _ => simp [*] at hcontrol

/-- A room is found or made under the same name in both runs. -/
theorem Step.twin_findOrCreate {name : String}
    (hcontrol : w.control = .openRoom name ∨ w.control = .enterRoom name) :
    Mirrored number id hub' w' hub₁ w₁ := by
  have hmade := hhub.directory.findOrCreate name
  have hsame := Directory.sameRoom_findOrCreate hub.directory hub'.directory name
  obtain ⟨control, rfl, hmatch⟩ := hw.exists_control
  cases h with
  | openRoom other directory room hopen hfind =>
      obtain rfl : name = other := by simpa [hopen, eq_comm] using hcontrol
      rw [hopen] at hmatch
      rw [hfind] at hmade hsame
      cases hmatch with
      | openRoom =>
          exact ⟨_, _, .openRoom name _ _ rfl rfl, hhub.change hmade, rfl,
            congrArg w.session.join hsame.name, rfl, rfl, .send _ (.replied (.some hsame))⟩
  | enterRoom other directory room henter hfind =>
      obtain rfl : name = other := by simpa [henter, eq_comm] using hcontrol
      rw [henter] at hmatch
      rw [hfind] at hmade hsame
      cases hmatch with
      | enterRoom =>
          exact ⟨_, _, .enterRoom name _ _ rfl rfl, hhub.change hmade, rfl, rfl, rfl, rfl,
            .addMember hsame⟩
  | _ => simp [*] at hcontrol

variable (hd : hub.directory.Orderly number id) (hd' : hub'.directory.Orderly number id)
  (hne : w.place ≠ number)

include hd hd' hne

/-- Whoever comes into a room, leaves it or broadcasts on it does so in both runs. -/
theorem Step.twin_room {room : Nat}
    (hcontrol : w.control = .addMember room ∨ (∃ text, w.control = .broadcast room text) ∨
      ∃ result, w.control = .removeMember room result) :
    Mirrored number id hub' w' hub₁ w₁ := by
  obtain ⟨control, rfl, hmatch⟩ := hw.exists_control
  cases h with
  | addMember entered directory hadd hadded =>
      rw [hadd] at hmatch
      subst hadded
      cases hmatch with
      | @addMember _ room' hroom =>
          have hsame := hroom.mono (hub.directory.grows_addMember entered w.place)
            (hub'.directory.grows_addMember room' w.place)
          exact ⟨_, _, .addMember _ _ rfl rfl,
            hhub.change (hhub.directory.addMember hd.distinct hd'.distinct hroom hne), rfl,
            congrArg w.session.join hsame.name, rfl, rfl, .send _ (.joined hsame)⟩
  | broadcast target text directory hair haired =>
      rw [hair] at hmatch
      subst haired
      cases hmatch with
      | @broadcast _ room' _ hroom =>
          have hheard := hhub.directory.broadcast hd hd' hroom w.session.name text
          have hsame := hroom.mono (hub.directory.grows_broadcast target w.session.name text)
            (hub'.directory.grows_broadcast room' w.session.name text)
          exact ⟨_, _, .broadcast _ text _ rfl rfl, (hhub.change hheard).count _, rfl, rfl, rfl, rfl,
            .send _ (.replied (.some hsame))⟩
  | removeMember left result directory hremove hremoved =>
      rw [hremove] at hmatch
      subst hremoved
      cases hmatch with
      | removeMember _ hroom =>
          exact ⟨_, _, .removeMember _ result _ rfl rfl,
            hhub.change (hhub.directory.removeMember hd.distinct hd'.distinct hroom hne), rfl, rfl,
            rfl, rfl, .close result⟩
  | _ => simp [*] at hcontrol

omit hd hd'

/-- Both runs look at the same flag, and a subscriber finds the same in its mailbox. -/
theorem Step.twin_wait {room : Nat}
    (hcontrol : w.control = .testFlag room ∨ w.control = .dequeue room ∨
      w.control = .collect room) : Mirrored number id hub' w' hub₁ w₁ := by
  have hmailbox := hhub.directory.mailbox hne
  obtain ⟨control, rfl, hmatch⟩ := hw.exists_control
  have hupdate (change : Mailbox → Mailbox) :=
    hhub.change (hhub.directory.updateMailbox w.place change)
  cases h with
  | parting tested htest hclosing =>
      rw [htest] at hmatch
      cases hmatch with
      | testFlag hroom =>
          exact ⟨_, _, .parting _ rfl (hhub.closing.trans hclosing), hhub, rfl, rfl, rfl, rfl,
            .removeMember _ hroom⟩
  | staying tested htest hclosing =>
      rw [htest] at hmatch
      cases hmatch with
      | testFlag hroom =>
          exact ⟨_, _, .staying _ rfl (hhub.closing.trans hclosing), hhub, rfl, rfl, rfl, rfl,
            .dequeue hroom⟩
  | dequeue asked directory hask hasked =>
      rw [hask] at hmatch
      subst hasked
      cases hmatch with
      | dequeue hroom =>
          refine ⟨_, _, .dequeue _ _ rfl ?_, hupdate _, rfl, rfl, rfl, rfl,
            .collect { hroom with }⟩
          rw [hhub.now, hhub.dequeueTimeout]
  | collected waited directory m hwait hholds hhead htaken =>
      rw [hwait] at hmatch
      rw [← hmailbox] at hholds hhead
      subst htaken
      cases hmatch with
      | collect hroom =>
          exact ⟨_, _, .collected _ _ m rfl hholds hhead rfl, hupdate _, rfl, rfl, rfl, rfl,
            .send _ (.delivered { hroom with })⟩
  | missed waited directory hwait hholds hhead htaken =>
      rw [hwait] at hmatch
      rw [← hmailbox] at hholds hhead
      subst htaken
      cases hmatch with
      | collect hroom =>
          exact ⟨_, _, .missed _ _ rfl hholds hhead rfl, hupdate _, rfl, rfl, rfl, rfl,
            .testFlag { hroom with }⟩
  | lapsed waited directory hwait hholds hdue hleft =>
      rw [hwait] at hmatch
      rw [← hmailbox] at hholds hdue
      rw [← hhub.now] at hdue
      subst hleft
      cases hmatch with
      | collect hroom =>
          exact ⟨_, _, .lapsed _ _ rfl hholds hdue rfl, hupdate _, rfl, rfl, rfl, rfl,
            .testFlag { hroom with }⟩
  | _ => simp [*] at hcontrol

omit hne

/-- A worker that closes its connection closes it in both runs. -/
theorem Step.twin_close {result : Result} (hcontrol : w.control = .close result) :
    Mirrored number id hub' w' hub₁ w₁ := by
  obtain ⟨control, rfl, hmatch⟩ := hw.exists_control
  rw [hcontrol] at hmatch
  cases hmatch with
  | close =>
      cases h with
      | close other hclose =>
          cases hcontrol.symm.trans hclose
          refine ⟨_, _, .close result rfl, ?_, rfl, rfl, rfl, rfl, .ended result⟩
          cases w.counted with
          | true => exact hhub.count _
          | false => exact hhub
      | _ => simp [*] at hcontrol

/-- A step goes the same way in both runs. -/
theorem Step.twin (hd : hub.directory.Orderly number id) (hd' : hub'.directory.Orderly number id)
    (hne : w.place ≠ number) : Mirrored number id hub' w' hub₁ w₁ := by
  cases hcontrol : w.control with
  | receive await =>
      cases await with
      | login => exact h.twin_login hhub hw hcontrol
      | join => exact h.twin_join hhub hw hcontrol
      | command room => exact h.twin_command hhub hw hcontrol
  | openRoom name => exact h.twin_findOrCreate hhub hw (.inl hcontrol)
  | enterRoom name => exact h.twin_findOrCreate hhub hw (.inr hcontrol)
  | addMember room => exact h.twin_room hhub hw hd hd' hne (.inl hcontrol)
  | broadcast room text => exact h.twin_room hhub hw hd hd' hne (.inr (.inl ⟨text, hcontrol⟩))
  | removeMember room result =>
      exact h.twin_room hhub hw hd hd' hne (.inr (.inr ⟨result, hcontrol⟩))
  | send rest after => exact h.twin_send hhub hw hcontrol
  | testFlag room => exact h.twin_wait hhub hw hne (.inl hcontrol)
  | dequeue room => exact h.twin_wait hhub hw hne (.inr (.inl hcontrol))
  | collect room => exact h.twin_wait hhub hw hne (.inr (.inr hcontrol))
  | close result => exact h.twin_close hhub hw hcontrol
  | ended result => cases h <;> simp [*] at hcontrol

end

end Worker

end ChatRelay.Server
