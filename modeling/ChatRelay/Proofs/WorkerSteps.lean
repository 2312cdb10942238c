import ChatRelay.Server.Worker

/-!
# The steps of a worker

`Worker.Step` lists what a step of a worker can do, one constructor for each outcome. `step_sound`
says that `Worker.step` does nothing else, and `Step.step_eq` that it does each of these. What is
proved of all steps is proved by cases on `Step`, so that the control points and the handlers are
opened here only.
-/

namespace ChatRelay.Server

open Wire

/-- Why a first message is no login, if it is none. -/
def loginRefusal? (m : Message) : Option Refusal :=
  match Worker.roleOf? m.tag with
  | none => some .expectedLogin
  | some _ => usernameRefusal? m.payload

/-- Why a subscriber's second message is no join, if it is none. -/
def joinRefusal? (m : Message) : Option Refusal :=
  match m.tag with
  | .join => roomRefusal? m.payload
  | _ => some .expectedJoin

/-- Why a command is refused to a publisher whose current room is this, if it is. -/
def commandRefusal? (hub : Hub) (w : Worker) (room : Option Nat) (m : Message) : Option Refusal :=
  match m.tag with
  | .join => roomRefusal? m.payload
  | .sendall =>
      match room with
      | none => some .notInRoom
      | some target => if Worker.tooLong hub w target m.payload then some .messageTooLong else none
  | .leave | .quit => none
  | .slogin | .rlogin | .ok | .err | .delivery => some .invalidCommand

namespace Worker

/-- `Step hub w hub' w'` says that a step of the worker `w` with this hub can lead to `hub'` and
`w'`. -/
inductive Step (hub : Hub) (w : Worker) : Hub → Worker → Prop where
  | input (await connection) :
      w.control = .receive await → w.connection.receiveStep = (connection, .more) →
      Step hub w hub { w with connection }
  | loginFailed (connection failure) :
      w.control = .receive .login →
      w.connection.receiveStep = (connection, .done (.error failure)) →
      Step hub w hub
        ({ w with connection }.say (Refusal.reply .invalidLogin) (.part (.error failure)))
  | loginRefused (connection m refusal) :
      w.control = .receive .login → w.connection.receiveStep = (connection, .done (.ok m)) →
      loginRefusal? m = some refusal →
      Step hub w hub
        ({ w with connection, session := w.session.countReceived }.say refusal.reply
          (.part (.ok ())))
  | loginAccepted (connection m role) :
      w.control = .receive .login → w.connection.receiveStep = (connection, .done (.ok m)) →
      roleOf? m.tag = some role → usernameRefusal? m.payload = none →
      Step hub w (hub.count (loginEvent role))
        ({ w with connection, session := w.session.countReceived.login role m.payload }.say .ok
          (.loggedIn role))
  | joinFailed (connection failure) :
      w.control = .receive .join →
      w.connection.receiveStep = (connection, .done (.error failure)) →
      Step hub w hub
        ({ w with connection }.say (Refusal.reply .expectedJoin) (.part (.error failure)))
  | joinRefused (connection m refusal) :
      w.control = .receive .join → w.connection.receiveStep = (connection, .done (.ok m)) →
      joinRefusal? m = some refusal →
      Step hub w hub
        ({ w with connection, session := w.session.countReceived }.say refusal.reply
          (.part (.ok ())))
  | joinAccepted (connection m) :
      w.control = .receive .join → w.connection.receiveStep = (connection, .done (.ok m)) →
      joinRefusal? m = none →
      Step hub w hub
        ({ w with connection, session := w.session.countReceived }.goTo (.enterRoom m.payload))
  | commandFailed (room connection failure) :
      w.control = .receive (.command room) →
      w.connection.receiveStep = (connection, .done (.error failure)) →
      Step hub w hub
        ({ w with connection }.goTo
          (.close (if failure.isDisconnect then .ok () else .error failure)))
  | commandRefused (room connection m refusal) :
      w.control = .receive (.command room) →
      w.connection.receiveStep = (connection, .done (.ok m)) →
      commandRefusal? hub w room m = some refusal →
      Step hub w hub
        ({ w with connection, session := w.session.countReceived }.say refusal.reply
          (.replied room))
  | joinCommand (room connection name) :
      w.control = .receive (.command room) →
      w.connection.receiveStep = (connection, .done (.ok ⟨.join, name⟩)) →
      roomRefusal? name = none →
      Step hub w hub
        ({ w with connection, session := w.session.countReceived }.goTo (.openRoom name))
  | sendCommand (target connection text) :
      w.control = .receive (.command (some target)) →
      w.connection.receiveStep = (connection, .done (.ok ⟨.sendall, text⟩)) →
      tooLong hub w target text = false →
      Step hub w hub
        ({ w with connection, session := w.session.countReceived }.goTo (.broadcast target text))
  | leaveCommand (room connection payload) :
      w.control = .receive (.command room) →
      w.connection.receiveStep = (connection, .done (.ok ⟨.leave, payload⟩)) →
      Step hub w hub
        ({ w with connection, session := w.session.countReceived.leave }.say .ok (.replied none))
  | quitCommand (room connection payload) :
      w.control = .receive (.command room) →
      w.connection.receiveStep = (connection, .done (.ok ⟨.quit, payload⟩)) →
      Step hub w hub
        ({ w with connection, session := w.session.countReceived }.say .ok .quit)
  | openRoom (name directory room) :
      w.control = .openRoom name → hub.directory.findOrCreate name = (directory, room) →
      Step hub w { hub with directory }
        ({ w with session := w.session.join (directory.name room) }.say .ok (.replied (some room)))
  | enterRoom (name directory room) :
      w.control = .enterRoom name → hub.directory.findOrCreate name = (directory, room) →
      Step hub w { hub with directory } (w.goTo (.addMember room))
  | addMember (room directory) :
      w.control = .addMember room → directory = (hub.directory.addMember room w.place).1 →
      Step hub w { hub with directory }
        ({ w with session := w.session.join (directory.name room) }.say .ok (.joined room))
  | broadcast (room text directory) :
      w.control = .broadcast room text →
      directory = (hub.directory.broadcast room w.session.name text).1 →
      Step hub w ({ hub with directory }.count .broadcast) (w.say .ok (.replied (some room)))
  | output (rest after connection left) :
      w.control = .send rest after → w.connection.sendStep rest = (connection, .more left) →
      Step hub w hub { w with connection, control := .send left after }
  | sent (rest after connection) :
      w.control = .send rest after → w.connection.sendStep rest = (connection, .done (.ok ())) →
      Step hub w (onSent hub { w with connection, session := w.session.countSent } after).1
        (onSent hub { w with connection, session := w.session.countSent } after).2
  | unsent (rest after connection failure) :
      w.control = .send rest after →
      w.connection.sendStep rest = (connection, .done (.error failure)) →
      Step hub w hub (onUnsent { w with connection } failure after)
  | parting (room) :
      w.control = .testFlag room → hub.closing = true →
      Step hub w hub (w.goTo (.removeMember room (.ok ())))
  | staying (room) :
      w.control = .testFlag room → hub.closing = false →
      Step hub w hub (w.goTo (.dequeue room))
  | dequeue (room directory) :
      w.control = .dequeue room →
      directory = hub.directory.updateMailbox w.place
        (·.ask ticket (hub.now + hub.dequeueTimeout)) →
      Step hub w { hub with directory } (w.goTo (.collect room))
  | collected (room directory m) :
      w.control = .collect room → (hub.directory.mailbox w.place).holds ticket = true →
      (hub.directory.mailbox w.place).messages.head? = some m →
      directory = hub.directory.updateMailbox w.place (fun b ↦ (b.take ticket).1) →
      Step hub w { hub with directory } (w.say m (.delivered room))
  | missed (room directory) :
      w.control = .collect room → (hub.directory.mailbox w.place).holds ticket = true →
      (hub.directory.mailbox w.place).messages.head? = none →
      directory = hub.directory.updateMailbox w.place (fun b ↦ (b.take ticket).1) →
      Step hub w { hub with directory } (w.goTo (.testFlag room))
  | lapsed (room directory) :
      w.control = .collect room → (hub.directory.mailbox w.place).holds ticket = false →
      (hub.directory.mailbox w.place).isDue ticket hub.now = true →
      directory = hub.directory.updateMailbox w.place (·.giveUp ticket) →
      Step hub w { hub with directory } (w.goTo (.testFlag room))
  | removeMember (room result directory) :
      w.control = .removeMember room result →
      directory = (hub.directory.removeMember room w.place).1 →
      Step hub w { hub with directory } (w.goTo (.close result))
  | close (result) :
      w.control = .close result →
      Step hub w (if w.counted then hub.count .closed else hub)
        { w with
          session := w.session.close
          connection := w.connection.close
          control := .ended result }

variable {hub hub' : Hub} {w w' : Worker}

/-- A first message is taken as a login in one of these ways. -/
theorem onLogin_sound {connection : Connection} {result : Except Failure Message}
    (hcontrol : w.control = .receive .login)
    (hstep : w.connection.receiveStep = (connection, .done result))
    (h : onLogin hub { w with connection } result = (hub', w')) : Step hub w hub' w' := by
  unfold onLogin at h
  split at h
  · cases h
    exact .loginFailed _ _ hcontrol hstep
  · rename_i m
    dsimp only at h
    split at h
    · rename_i hrole
      cases h
      exact .loginRefused _ m _ hcontrol hstep (by simp [loginRefusal?, hrole])
    · rename_i role hrole
      split at h
      · rename_i refusal hrefusal
        cases h
        exact .loginRefused _ m _ hcontrol hstep (by simp [loginRefusal?, hrole, hrefusal])
      · rename_i hnone
        cases h
        exact .loginAccepted _ m _ hcontrol hstep hrole hnone

/-- A subscriber's second message is taken as a join in one of these ways. -/
theorem onJoin_sound {connection : Connection} {result : Except Failure Message}
    (hcontrol : w.control = .receive .join)
    (hstep : w.connection.receiveStep = (connection, .done result))
    (h : onJoin { w with connection } result = w') : Step hub w hub w' := by
  subst h
  unfold onJoin
  split
  · exact .joinFailed _ _ hcontrol hstep
  · rename_i m
    dsimp only
    split
    · rename_i htag
      split
      · rename_i refusal hrefusal
        exact .joinRefused _ m _ hcontrol hstep (by simp [joinRefusal?, htag, hrefusal])
      · rename_i hnone
        exact .joinAccepted _ m hcontrol hstep (by simp [joinRefusal?, htag, hnone])
    · rename_i htag
      exact .joinRefused _ m _ hcontrol hstep (by simp [joinRefusal?])

/-- A publisher's command is taken in one of these ways. -/
theorem onCommand_sound {room : Option Nat} {connection : Connection}
    {result : Except Failure Message} (hcontrol : w.control = .receive (.command room))
    (hstep : w.connection.receiveStep = (connection, .done result))
    (h : onCommand hub { w with connection } room result = w') : Step hub w hub w' := by
  subst h
  unfold onCommand
  cases result with
  | error failure => exact .commandFailed room _ _ hcontrol hstep
  | ok m =>
      obtain ⟨tag, payload⟩ := m
      cases tag with
      | join =>
          dsimp only
          split
          · rename_i refusal hrefusal
            exact .commandRefused room _ _ _ hcontrol hstep (by simp [commandRefusal?, hrefusal])
          · rename_i hnone
            exact .joinCommand room _ _ hcontrol hstep hnone
      | sendall =>
          cases room with
          | none => exact .commandRefused none _ _ _ hcontrol hstep (by simp [commandRefusal?])
          | some target =>
              dsimp only
              split
              · rename_i hlong
                exact .commandRefused _ _ _ _ hcontrol hstep
                  (by simpa [commandRefusal?, tooLong, Session.name, Session.countReceived]
                    using hlong)
              · rename_i hshort
                exact .sendCommand _ _ _ hcontrol hstep
                  (by simpa [tooLong, Session.name, Session.countReceived] using hshort)
      | leave => exact .leaveCommand room _ payload hcontrol hstep
      | quit => exact .quitCommand room _ payload hcontrol hstep
      | slogin | rlogin | ok | err | delivery =>
          exact .commandRefused room _ _ _ hcontrol hstep (by simp [commandRefusal?])

/-- What a worker that waits for a delivery can do. -/
theorem collect_sound {room : Nat} (hcontrol : w.control = .collect room)
    (h : collect hub w room = some (hub', w')) : Step hub w hub' w' := by
  unfold collect at h
  dsimp only at h
  split at h
  · rename_i hholds
    cases htake : ((hub.directory.mailbox w.place).take ticket).2 with
    | none =>
        rw [htake] at h
        cases h
        exact .missed room _ hcontrol hholds htake rfl
    | some m =>
        rw [htake] at h
        cases h
        exact .collected room _ m hcontrol hholds htake rfl
  · rename_i hholds
    split at h
    · rename_i hdue
      cases h
      exact .lapsed room _ hcontrol (by simpa using hholds) hdue rfl
    · cases h

/-- Every step of a worker is one of those listed. -/
theorem step_sound (h : w.step hub = some (hub', w')) : Step hub w hub' w' := by
  unfold step at h
  split at h
  · rename_i await hcontrol
    split at h
    · cases h
    · rename_i connection hstep
      cases h
      exact .input await _ hcontrol hstep
    · rename_i connection result hstep
      simp only [Option.some.injEq] at h
      cases await with
      | login => exact onLogin_sound hcontrol hstep h
      | join =>
          cases h
          exact onJoin_sound hcontrol hstep rfl
      | command room =>
          cases h
          exact onCommand_sound hcontrol hstep rfl
  · rename_i name hcontrol
    cases h
    exact .openRoom name _ _ hcontrol rfl
  · rename_i name hcontrol
    cases h
    exact .enterRoom name _ _ hcontrol rfl
  · rename_i room hcontrol
    cases h
    exact .addMember room _ hcontrol rfl
  · rename_i room text hcontrol
    cases h
    exact .broadcast room text _ hcontrol rfl
  · rename_i rest after hcontrol
    split at h
    · cases h
    · rename_i connection left hstep
      cases h
      exact .output rest after _ left hcontrol hstep
    · rename_i connection hstep
      have hsent : Step hub w _ _ := .sent rest after _ hcontrol hstep
      rwa [Option.some.inj h] at hsent
    · rename_i connection failure hstep
      cases h
      exact .unsent rest after _ failure hcontrol hstep
  · rename_i room hcontrol
    split at h
    · rename_i hclosing
      cases h
      exact .parting room hcontrol hclosing
    · rename_i hclosing
      cases h
      exact .staying room hcontrol (by simpa using hclosing)
  · rename_i room hcontrol
    cases h
    exact .dequeue room _ hcontrol rfl
  · rename_i room hcontrol
    exact collect_sound hcontrol h
  · rename_i room result hcontrol
    cases h
    exact .removeMember room result _ hcontrol rfl
  · rename_i result hcontrol
    cases h
    exact .close result hcontrol
  · cases h

/-- Every step listed is one that the worker makes. -/
theorem Step.step_eq (h : Step hub w hub' w') : w.step hub = some (hub', w') := by
  cases h with
  | input await connection hcontrol hstep => simp [step, hcontrol, hstep]
  | loginFailed connection failure hcontrol hstep =>
      simp [step, hcontrol, hstep, onReceived, onLogin]
  | loginRefused connection m refusal hcontrol hstep hrefusal =>
      cases hrole : roleOf? m.tag with
      | none =>
          simp only [loginRefusal?, hrole, Option.some.injEq] at hrefusal
          simp [step, hcontrol, hstep, onReceived, onLogin, hrole, ← hrefusal]
      | some role =>
          simp only [loginRefusal?, hrole] at hrefusal
          simp [step, hcontrol, hstep, onReceived, onLogin, hrole, hrefusal]
  | loginAccepted connection m role hcontrol hstep hrole hname =>
      simp [step, hcontrol, hstep, onReceived, onLogin, hrole, hname]
  | joinFailed connection failure hcontrol hstep =>
      simp [step, hcontrol, hstep, onReceived, onJoin]
  | joinRefused connection m refusal hcontrol hstep hrefusal =>
      obtain ⟨tag, payload⟩ := m
      cases tag with
      | join =>
          simp only [joinRefusal?] at hrefusal
          simp [step, hcontrol, hstep, onReceived, onJoin, hrefusal]
      | _ =>
          simp only [joinRefusal?, Option.some.injEq] at hrefusal
          simp [step, hcontrol, hstep, onReceived, onJoin, ← hrefusal]
  | joinAccepted connection m hcontrol hstep haccepted =>
      obtain ⟨tag, payload⟩ := m
      cases tag with
      | join =>
          simp only [joinRefusal?] at haccepted
          simp [step, hcontrol, hstep, onReceived, onJoin, haccepted]
      | _ => cases haccepted
  | commandFailed room connection failure hcontrol hstep =>
      simp [step, hcontrol, hstep, onReceived, onCommand]
  | commandRefused room connection m refusal hcontrol hstep hrefusal =>
      obtain ⟨tag, payload⟩ := m
      cases tag with
      | join =>
          simp only [commandRefusal?] at hrefusal
          simp [step, hcontrol, hstep, onReceived, onCommand, hrefusal]
      | sendall =>
          cases room with
          | none =>
              simp only [commandRefusal?, Option.some.injEq] at hrefusal
              simp [step, hcontrol, hstep, onReceived, onCommand, ← hrefusal]
          | some target =>
              cases hlong : tooLong hub w target payload with
              | false => simp [commandRefusal?, hlong] at hrefusal
              | true =>
                  have hreason : refusal = .messageTooLong := by
                    simpa [commandRefusal?, hlong, eq_comm] using hrefusal
                  have hlong' (control : Control) : tooLong hub
                      { w with connection, session := w.session.countReceived, control } target
                      payload = true := hlong
                  simp [step, hcontrol, hstep, onReceived, onCommand, hlong', hreason]
      | leave | quit => cases hrefusal
      | slogin | rlogin | ok | err | delivery =>
          simp only [commandRefusal?, Option.some.injEq] at hrefusal
          simp [step, hcontrol, hstep, onReceived, onCommand, ← hrefusal]
  | joinCommand room connection name hcontrol hstep haccepted =>
      simp [step, hcontrol, hstep, onReceived, onCommand, haccepted]
  | sendCommand target connection text hcontrol hstep hshort =>
      have hshort' (control : Control) : tooLong hub
          { w with connection, session := w.session.countReceived, control } target text = false :=
        hshort
      simp [step, hcontrol, hstep, onReceived, onCommand, hshort']
  | leaveCommand room connection payload hcontrol hstep
  | quitCommand room connection payload hcontrol hstep =>
      simp [step, hcontrol, hstep, onReceived, onCommand]
  | openRoom name directory room hcontrol hfind | enterRoom name directory room hcontrol hfind =>
      simp [step, hcontrol, hfind]
  | addMember room directory hcontrol hd | dequeue room directory hcontrol hd
  | broadcast room text directory hcontrol hd | removeMember room result directory hcontrol hd =>
      simp [step, hcontrol, hd]
  | output rest after connection left hcontrol hstep
  | sent rest after connection hcontrol hstep
  | unsent rest after connection failure hcontrol hstep =>
      simp [step, hcontrol, hstep]
  | parting room hcontrol hclosing | staying room hcontrol hclosing =>
      simp [step, hcontrol, hclosing]
  | collected room directory m hcontrol hholds hhead hd
  | missed room directory hcontrol hholds hhead hd =>
      simp [step, hcontrol, collect, hholds, Mailbox.take, hhead, hd]
  | lapsed room directory hcontrol hholds hdue hd =>
      simp [step, hcontrol, collect, hholds, hdue, hd]
  | close result hcontrol => simp [step, hcontrol]
end Worker

end ChatRelay.Server
