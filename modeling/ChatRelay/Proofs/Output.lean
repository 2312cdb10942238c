import ChatRelay.Proofs.Correspondence
import ChatRelay.Proofs.Mail

/-!
# What the workers write

Every worker stops at the first send that fails. `Worker.Voice` says, control point by control point,
which messages a worker has said and how far it is with the next one, and `Step.voice` that its steps
keep to this. The main statement is `System.output_well_formed`: what is written is lines that are read
as replies and deliveries, and at most a first part of one line more, behind which nothing follows.
-/

namespace ChatRelay

open Text Transport Wire

namespace Session

@[simp] theorem sent_login (s : Session) (role : Role) (username : String) :
    (s.login role username).sent = s.sent := by
  unfold login
  split <;> rfl

@[simp] theorem sent_join (s : Session) (room : String) : (s.join room).sent = s.sent := by
  unfold join
  split <;> rfl

@[simp] theorem sent_leave (s : Session) : s.leave.sent = s.sent := by
  unfold leave
  split <;> rfl

end Session

namespace Server

/-! ## What may be said -/

/-- A reply: a confirmation, or the reason of a refusal. -/
def IsReply (m : Message) : Prop :=
  m = .ok ∨ ∃ refusal : Refusal, m = refusal.reply

/-- A delivery of which the names and the length were checked. -/
def IsDelivery (m : Message) : Prop :=
  ∃ d : Delivery, d.Sendable ∧ m = d.message

/-- A subscriber's login and join are confirmed, and all that follows is deliveries. -/
def Subscription (session : Session) (said : List Message) : Prop :=
  session.role = some .subscriber ∧
    ∃ deliveries, said = .ok :: .ok :: deliveries ∧ ∀ m ∈ deliveries, IsDelivery m

/-- What may be said in this session: replies, or what is said to a subscriber that is let into a
room. -/
def Speech (session : Session) (said : List Message) : Prop :=
  ((∀ m ∈ said, IsReply m) ∧ (session.role = some .subscriber → session.room = none)) ∨
    Subscription session said

theorem isReply_ok : IsReply .ok :=
  .inl rfl

theorem isReply_reply (refusal : Refusal) : IsReply refusal.reply :=
  .inr ⟨refusal, rfl⟩

theorem IsReply.valid {m : Message} (h : IsReply m) : m.Valid ∧ (m.tag = .ok ∨ m.tag = .err) := by
  rcases h with rfl | ⟨refusal, rfl⟩
  · exact ⟨by decide, .inl rfl⟩
  · exact ⟨refusal.reply_valid, .inr rfl⟩

theorem IsDelivery.valid {m : Message} (h : IsDelivery m) : m.Valid ∧ m.tag = .delivery := by
  obtain ⟨d, hd, rfl⟩ := h
  exact ⟨hd.valid, rfl⟩

theorem isReply_append {said : List Message} {m : Message} (hsaid : ∀ other ∈ said, IsReply other)
    (hm : IsReply m) : ∀ other ∈ said ++ [m], IsReply other := by
  simpa [or_imp, forall_and] using ⟨hsaid, hm⟩

/-- All that may be said is valid, and is a reply or a delivery. -/
theorem Speech.valid {session : Session} {said : List Message} (h : Speech session said)
    {m : Message} (hm : m ∈ said) :
    m.Valid ∧ (m.tag = .ok ∨ m.tag = .err ∨ m.tag = .delivery) := by
  rcases h with ⟨hreplies, -⟩ | ⟨-, deliveries, rfl, hdeliveries⟩
  · obtain ⟨hvalid, htag⟩ := (hreplies m hm).valid
    exact ⟨hvalid, htag.imp_right .inl⟩
  · rcases List.mem_cons.mp hm with rfl | hm
    · exact ⟨by decide, .inl rfl⟩
    · rcases List.mem_cons.mp hm with rfl | hm
      · exact ⟨by decide, .inl rfl⟩
      · obtain ⟨hvalid, htag⟩ := (hdeliveries m hm).valid
        exact ⟨hvalid, .inr (.inr htag)⟩

theorem Subscription.delivered {session : Session} {said : List Message}
    (h : Subscription session said) {m : Message} (hm : IsDelivery m) :
    Subscription session (said ++ [m]) := by
  obtain ⟨hrole, deliveries, rfl, hdeliveries⟩ := h
  refine ⟨hrole, deliveries ++ [m], rfl, fun other hother ↦ ?_⟩
  rcases List.mem_append.mp hother with hbefore | hlast
  · exact hdeliveries other hbefore
  · rwa [List.mem_singleton.mp hlast]

theorem lines_append (first second : List Message) :
    lines (first ++ second) = lines first ++ lines second :=
  List.flatMap_append

@[simp] theorem lines_singleton (m : Message) : lines [m] = m.bytes :=
  List.flatMap_singleton _ _

/-! ## What is said at each control point -/

namespace Worker

variable {hub hub' : Hub} {w w' : Worker} {said : List Message} {m : Message}
  {failed failed' : Prop}

/-- The worker has said these messages. -/
structure Said (w : Worker) (said : List Message) : Prop where
  written : w.written = lines said
  sent : w.session.sent = said.length

/-- The worker has said these messages and is saying one more, of which these bytes are left. -/
structure Saying (w : Worker) (said : List Message) (m : Message) (rest : List UInt8) : Prop where
  written : ∃ torn, torn ++ rest = m.bytes ∧ w.written = lines said ++ torn
  sent : w.session.sent = said.length

/-- The worker has said these messages, and of the current one it has written this first part, which
is the whole line only if this is so. -/
structure Told (failed : Prop) (w : Worker) (said : List Message) (current : Option Message)
    (torn : List UInt8) : Prop where
  speech : Speech w.session (said ++ current.toList)
  written : w.written = lines said ++ torn
  beginning : torn <+: lines current.toList
  sent : w.session.sent = said.length
  whole : ∀ m, current = some m → torn = m.bytes → failed

/-- What a worker has said at its control point, if the flush behind the last line failed only if this
is so. -/
def Voice (failed : Prop) (w : Worker) : Prop :=
  match w.control with
  | .receive .login => w.Said []
  | .receive .join | .enterRoom _ | .addMember _ => w.Said [.ok]
  | .receive (.command _) | .openRoom _ | .broadcast _ _ =>
      ∃ said, (∀ m ∈ said, IsReply m) ∧ w.Said said
  | .send rest (.loggedIn _) => w.Saying [] .ok rest
  | .send rest (.joined _) => w.Saying [.ok] .ok rest
  | .send rest (.delivered _) =>
      ∃ said m, Subscription w.session said ∧ IsDelivery m ∧ w.Saying said m rest
  | .send rest (.part _) | .send rest (.replied _) | .send rest .quit =>
      ∃ said m, (∀ m ∈ said, IsReply m) ∧ IsReply m ∧ w.Saying said m rest
  | .testFlag _ | .dequeue _ | .collect _ => ∃ said, Subscription w.session said ∧ w.Said said
  | .removeMember _ _ | .close _ | .ended _ => ∃ said current torn, w.Told failed said current torn

/-- All is written, and the flush fails. -/
def FlushFails (w : Worker) : Prop :=
  ∃ after cause, w.control = .send [] after ∧ w.connection.stream.flush = some (.fault cause)

/-- The worker is at a send, and it fails. -/
def SendFails (w : Worker) : Prop :=
  ∃ rest after connection failure, w.control = .send rest after ∧
    w.connection.sendStep rest = (connection, .done (.error failure))

/-- Whether the worker is at a send that fails. -/
def sendFails (w : Worker) : Bool :=
  match w.control with
  | .send rest _ =>
      match (w.connection.sendStep rest).2 with
      | .done (.error _) => true
      | _ => false
  | _ => false

theorem sendFails_of_eq_true (h : w.sendFails = true) : w.SendFails := by
  unfold sendFails at h
  split at h
  · rename_i rest after hcontrol
    split at h
    · rename_i failure hstep
      exact ⟨rest, after, _, failure, hcontrol, Prod.ext rfl hstep⟩
    · cases h
  · cases h

theorem Said.of_eq (h : w.Said said) (hwritten : w'.written = w.written)
    (hsent : w'.session.sent = w.session.sent) : w'.Said said :=
  ⟨hwritten.trans h.written, hsent.trans h.sent⟩

theorem Told.of_eq {current : Option Message} {torn : List UInt8}
    (h : w.Told failed said current torn) (hwritten : w'.written = w.written)
    (hsent : w'.session.sent = w.session.sent) (hrole : w'.session.role = w.session.role)
    (hroom : w'.session.room = w.session.room) : w'.Told failed said current torn where
  speech := by
    have hspeech := h.speech
    unfold Speech Subscription at hspeech ⊢
    rwa [hrole, hroom]
  written := hwritten.trans h.written
  beginning := h.beginning
  sent := hsent.trans h.sent
  whole := h.whole

/-- Of a message that the worker begins to say, all is left. -/
theorem Said.saying (h : w.Said said) (m : Message) (hwritten : w'.written = w.written)
    (hsent : w'.session.sent = w.session.sent) : w'.Saying said m m.bytes :=
  ⟨⟨[], rfl, by rw [hwritten, h.written, List.append_nil]⟩, hsent.trans h.sent⟩

/-- Bytes that are accepted are no longer left. -/
theorem Saying.more {rest left : List UInt8} {connection : Connection}
    (h : w.Saying said m rest) (hstep : w.connection.sendStep rest = (connection, .more left))
    (hwritten : w'.written = connection.stream.written)
    (hsent : w'.session.sent = w.session.sent) : w'.Saying said m left := by
  obtain ⟨taken, -, rfl, haccepted⟩ := Connection.written_of_more hstep
  obtain ⟨⟨torn, hline, hlines⟩, hcount⟩ := h
  refine ⟨⟨torn ++ taken, by rwa [List.append_assoc], ?_⟩, hsent.trans hcount⟩
  rw [hwritten, haccepted, ← List.append_assoc, ← hlines]
  rfl

/-- A message that went out is said. -/
theorem Saying.complete {rest : List UInt8} {connection : Connection} (h : w.Saying said m rest)
    (hstep : w.connection.sendStep rest = (connection, .done (.ok ())))
    (hwritten : w'.written = connection.stream.written)
    (hsent : w'.session.sent = w.session.sent + 1) : w'.Said (said ++ [m]) := by
  obtain ⟨rfl, hstream⟩ := Connection.written_of_ok hstep
  obtain ⟨⟨torn, hline, hlines⟩, hcount⟩ := h
  rw [List.append_nil] at hline
  refine ⟨?_, by rw [hsent, hcount, List.length_append, List.length_singleton]⟩
  rw [hwritten, hstream, lines_append, lines_singleton, ← hline, ← hlines]
  rfl

/-- A worker between two messages has told what it has said. -/
theorem Said.told (h : w.Said said) (hspeech : Speech w.session said) :
    w.Told failed said none [] where
  speech := by rwa [Option.toList_none, List.append_nil]
  written := by rw [h.written, List.append_nil]
  beginning := List.nil_prefix
  sent := h.sent
  whole := nofun

/-- A worker that is saying a message has told a first part of it, all of it if nothing is left. -/
theorem Saying.told {rest : List UInt8} (h : w.Saying said m rest)
    (hspeech : Speech w.session (said ++ [m])) (hfailed : rest = [] → failed) :
    ∃ torn, w.Told failed said (some m) torn := by
  obtain ⟨⟨torn, hline, hlines⟩, hcount⟩ := h
  refine ⟨torn, hspeech, hlines, ⟨rest, by simpa using hline⟩, hcount, fun other hother hwhole ↦ ?_⟩
  obtain rfl := Option.some.inj hother
  rw [hwhole] at hline
  exact hfailed (List.append_right_eq_self.mp hline)

theorem Told.mono {current : Option Message} {torn : List UInt8} (himp : failed → failed')
    (h : w.Told failed said current torn) : w.Told failed' said current torn :=
  { h with whole := fun m hm htorn ↦ himp (h.whole m hm htorn) }

/-- A worker at its control point has told complete lines, and of the current one a first part that is
the whole line only if its flush is still to be made or has failed. -/
theorem Voice.told {d : Directory} (h : w.Voice failed) (hw : w.Lawful d) :
    ∃ said current torn,
      w.Told ((∃ after, w.control = .send [] after) ∨ failed) said current torn := by
  have hreplies (said : List Message) (hsaid : ∀ m ∈ said, IsReply m)
      (hrole : w.session.role = some .subscriber → w.session.room = none) :
      Speech w.session said := .inl ⟨hsaid, hrole⟩
  have hpublisher (hrole : w.session.role = some .publisher) :
      w.session.role = some .subscriber → w.session.room = none :=
    fun hother ↦ absurd (hrole.symm.trans hother) (by decide)
  have hone : ∀ m ∈ [Message.ok], IsReply m := by
    simpa using isReply_ok
  have hpending (rest : List UInt8) (after : After) (hcontrol : w.control = .send rest after) :
      rest = [] → (∃ after, w.control = .send [] after) ∨ failed :=
    fun hrest ↦ .inl ⟨after, by rw [hcontrol, hrest]⟩
  cases hcontrol : w.control with
  | receive await =>
      simp only [Voice, Lawful, hcontrol] at h hw
      cases await with
      | login => exact ⟨_, _, _, h.told (hreplies _ (by simp) fun _ ↦ hw.room)⟩
      | join => exact ⟨_, _, _, h.told (hreplies _ hone fun _ ↦ hw.room)⟩
      | command =>
          obtain ⟨said, hsaid, h⟩ := h
          exact ⟨_, _, _, h.told (hreplies _ hsaid (hpublisher hw.role))⟩
  | enterRoom =>
      simp only [Voice, Lawful, hcontrol] at h hw
      exact ⟨_, _, _, h.told (hreplies _ hone fun _ ↦ hw.room)⟩
  | addMember =>
      simp only [Voice, Lawful, hcontrol] at h hw
      exact ⟨_, _, _, h.told (hreplies _ hone fun _ ↦ hw.1.room)⟩
  | openRoom | broadcast =>
      simp only [Voice, Lawful, hcontrol] at h hw
      obtain ⟨said, hsaid, h⟩ := h
      exact ⟨_, _, _, h.told (hreplies _ hsaid (hpublisher hw.role))⟩
  | testFlag | dequeue | collect =>
      simp only [Voice, hcontrol] at h
      obtain ⟨said, hsaid, h⟩ := h
      exact ⟨_, _, _, h.told (.inr hsaid)⟩
  | removeMember | close | ended =>
      simp only [Voice, hcontrol] at h
      obtain ⟨said, current, torn, h⟩ := h
      exact ⟨_, _, _, h.mono .inr⟩
  | send rest after =>
      rw [← hcontrol]
      have hpending := hpending rest after hcontrol
      cases after with
      | part =>
          simp only [Voice, Lawful, hcontrol] at h hw
          obtain ⟨said, m, hsaid, hm, h⟩ := h
          exact ⟨_, _, h.told (hreplies _ (isReply_append hsaid hm) fun _ ↦ hw) hpending⟩
      | replied | quit =>
          simp only [Voice, Lawful, hcontrol] at h hw
          obtain ⟨said, m, hsaid, hm, h⟩ := h
          exact ⟨_, _, h.told (hreplies _ (isReply_append hsaid hm) (hpublisher hw.role)) hpending⟩
      | loggedIn =>
          simp only [Voice, Lawful, hcontrol] at h hw
          exact ⟨_, _, h.told (hreplies _ hone fun _ ↦ hw.room) hpending⟩
      | joined =>
          simp only [Voice, Lawful, hcontrol] at h hw
          exact ⟨_, _, h.told (.inr ⟨hw.1.role, [], rfl, by simp⟩) hpending⟩
      | delivered =>
          simp only [Voice, hcontrol] at h
          obtain ⟨said, m, hsaid, hm, h⟩ := h
          exact ⟨_, _, h.told (.inr (hsaid.delivered hm)) hpending⟩

/-- A flush that is left over from a send on an open connection fails if the send does. -/
theorem flushFails_of_unsent {after : After} {connection : Connection} {failure : Failure}
    (hopen : w.connection.isOpen = true) (hcontrol : w.control = .send [] after)
    (hstep : w.connection.sendStep [] = (connection, .done (.error failure))) : w.FlushFails := by
  cases hflush : w.connection.stream.flush with
  | none => simp [Connection.sendStep, hopen, hflush] at hstep
  | some halt =>
      cases halt with
      | wait => simp [Connection.sendStep, hopen, hflush] at hstep
      | fault cause => exact ⟨after, cause, hcontrol, hflush⟩

/-- What comes after a message that went out. -/
theorem Voice.onSent {rest : List UInt8} {after : After} {connection : Connection}
    (h : w.Voice failed) (hw : w.Lawful hub.directory) (hcontrol : w.control = .send rest after)
    (hstep : w.connection.sendStep rest = (connection, .done (.ok ()))) :
    (Worker.onSent hub { w with connection, session := w.session.countSent } after).2.Voice
      failed := by
  simp only [Voice, Lawful, hcontrol] at h hw
  cases after with
  | loggedIn role => cases role with
    | publisher => exact ⟨[.ok], by simpa using isReply_ok, h.complete hstep rfl rfl⟩
    | subscriber => exact h.complete hstep rfl rfl
  | joined room => exact ⟨[.ok, .ok], ⟨hw.1.role, [], rfl, by simp⟩, h.complete hstep rfl rfl⟩
  | delivered room =>
      obtain ⟨said, m, hsaid, hm, h⟩ := h
      exact ⟨said ++ [m], hsaid.delivered hm, h.complete hstep rfl rfl⟩
  | part result =>
      obtain ⟨said, m, hsaid, hm, h⟩ := h
      have hspeech : Speech w.session (said ++ [m]) := .inl ⟨isReply_append hsaid hm, fun _ ↦ hw⟩
      exact ⟨_, _, _, (h.complete hstep rfl rfl).told hspeech⟩
  | quit =>
      obtain ⟨said, m, hsaid, hm, h⟩ := h
      have hspeech : Speech w.session (said ++ [m]) :=
        .inl ⟨isReply_append hsaid hm, by simp [hw.role]⟩
      exact ⟨_, _, _, (h.complete hstep rfl rfl).told hspeech⟩
  | replied room =>
      obtain ⟨said, m, hsaid, hm, h⟩ := h
      exact ⟨said ++ [m], isReply_append hsaid hm, h.complete hstep rfl rfl⟩

/-- A worker that goes on to its end without another word has told what it had told before. -/
theorem Voice.ceased {d : Directory} (h : w.Voice failed) (hw : w.Lawful d)
    (hpending : (∃ after, w.control = .send [] after) ∨ failed → failed')
    (hwritten : w'.written = w.written) (hsession : w'.session = w.session) :
    ∃ said current torn, w'.Told failed' said current torn := by
  obtain ⟨said, current, torn, htold⟩ := h.told hw
  exact ⟨said, current, torn, (htold.mono hpending).of_eq hwritten (by rw [hsession])
    (by rw [hsession]) (by rw [hsession])⟩

theorem Voice.mono (himp : failed → failed') (h : w.Voice failed) : w.Voice failed' := by
  revert h
  unfold Voice
  cases w.control with
  | receive await => cases await <;> exact id
  | send rest after => cases after <;> exact id
  | removeMember | close | ended =>
      exact fun ⟨said, current, torn, h⟩ ↦ ⟨said, current, torn, h.mono himp⟩
  | _ => exact id

/-- What happens to the stream says nothing. -/
theorem Voice.cue (h : w.Voice failed) (cue : Cue) : (w.cue cue).Voice failed := by
  have hwritten : (w.cue cue).written = w.written := by
    cases cue <;> rfl
  have hsaid (said : List Message) (h : w.Said said) : (w.cue cue).Said said :=
    h.of_eq hwritten rfl
  have hsaying (said : List Message) (m : Message) (rest : List UInt8) (h : w.Saying said m rest) :
      (w.cue cue).Saying said m rest := ⟨by rw [hwritten]; exact h.written, h.sent⟩
  revert h
  unfold Voice
  rw [control_cue]
  cases w.control with
  | receive await =>
      cases await with
      | login | join => exact hsaid _
      | command => exact fun ⟨said, hreplies, h⟩ ↦ ⟨said, hreplies, hsaid said h⟩
  | enterRoom | addMember => exact hsaid _
  | openRoom | broadcast | testFlag | dequeue | collect =>
      exact fun ⟨said, hspeech, h⟩ ↦ ⟨said, hspeech, hsaid said h⟩
  | send rest after =>
      cases after with
      | loggedIn | joined => exact hsaying _ _ _
      | delivered | part | replied | quit =>
          exact fun ⟨said, m, hspeech, hm, h⟩ ↦ ⟨said, m, hspeech, hm, hsaying said m rest h⟩
  | removeMember | close | ended =>
      exact fun ⟨said, current, torn, h⟩ ↦
        ⟨said, current, torn, h.of_eq hwritten rfl rfl rfl⟩

/-- A step of a worker writes of the message it says, or begins to say one that may come next. A
worker whose send fails is on the way to its end. -/
theorem Step.voice (h : Step hub w hub' w') (hw : w.Lawful hub.directory)
    (hopen : w.connection.isOpen = true)
    (hmail : w.control.IsListening → Holds IsDelivery hub.directory w.place)
    (hvoice : w.Voice failed) : w'.Voice (failed ∨ w.FlushFails) := by
  have hreceived {connection : Connection} {went : Receiving}
      (hstep : w.connection.receiveStep = (connection, went)) :
      connection.stream.written = w.written := written_of_receiveStep hstep
  cases h with
  | input await connection hcontrol hstep =>
      have hwritten := hreceived hstep
      simp only [Voice, hcontrol] at hvoice ⊢
      cases await with
      | login | join => exact hvoice.of_eq hwritten rfl
      | command =>
          obtain ⟨said, hreplies, hsaid⟩ := hvoice
          exact ⟨said, hreplies, hsaid.of_eq hwritten rfl⟩
  | loginFailed connection failure hcontrol hstep
  | loginRefused connection m refusal hcontrol hstep =>
      simp only [Voice, hcontrol] at hvoice
      exact ⟨[], _, nofun, isReply_reply _, hvoice.saying _ (hreceived hstep) rfl⟩
  | loginAccepted connection m role hcontrol hstep =>
      simp only [Voice, hcontrol] at hvoice
      exact hvoice.saying _ (hreceived hstep) (Session.sent_login _ _ _)
  | joinFailed connection failure hcontrol hstep
  | joinRefused connection m refusal hcontrol hstep =>
      simp only [Voice, hcontrol] at hvoice
      exact ⟨[.ok], _, by simpa using isReply_ok, isReply_reply _,
        hvoice.saying _ (hreceived hstep) rfl⟩
  | joinAccepted connection m hcontrol hstep =>
      simp only [Voice, hcontrol] at hvoice
      exact hvoice.of_eq (hreceived hstep) rfl
  | commandFailed room connection failure hcontrol hstep =>
      exact hvoice.ceased hw (by simpa [hcontrol] using .inl) (hreceived hstep) rfl
  | commandRefused room connection m refusal hcontrol hstep =>
      simp only [Voice, hcontrol] at hvoice
      obtain ⟨said, hreplies, hsaid⟩ := hvoice
      exact ⟨said, _, hreplies, isReply_reply _, hsaid.saying _ (hreceived hstep) rfl⟩
  | joinCommand room connection name hcontrol hstep
  | sendCommand target connection text hcontrol hstep =>
      simp only [Voice, hcontrol] at hvoice
      obtain ⟨said, hreplies, hsaid⟩ := hvoice
      exact ⟨said, hreplies, hsaid.of_eq (hreceived hstep) rfl⟩
  | leaveCommand room connection payload hcontrol hstep =>
      simp only [Voice, hcontrol] at hvoice
      obtain ⟨said, hreplies, hsaid⟩ := hvoice
      exact ⟨said, _, hreplies, isReply_ok,
        hsaid.saying _ (hreceived hstep) (Session.sent_leave _)⟩
  | quitCommand room connection payload hcontrol hstep =>
      simp only [Voice, hcontrol] at hvoice
      obtain ⟨said, hreplies, hsaid⟩ := hvoice
      exact ⟨said, _, hreplies, isReply_ok, hsaid.saying _ (hreceived hstep) rfl⟩
  | openRoom name directory room hcontrol =>
      simp only [Voice, hcontrol] at hvoice
      obtain ⟨said, hreplies, hsaid⟩ := hvoice
      exact ⟨said, _, hreplies, isReply_ok, hsaid.saying _ rfl (Session.sent_join _ _)⟩
  | broadcast room text directory hcontrol =>
      simp only [Voice, hcontrol] at hvoice
      obtain ⟨said, hreplies, hsaid⟩ := hvoice
      exact ⟨said, _, hreplies, isReply_ok, hsaid.saying _ rfl rfl⟩
  | enterRoom name directory room hcontrol =>
      simp only [Voice, hcontrol] at hvoice
      exact hvoice.of_eq rfl rfl
  | addMember room directory hcontrol =>
      simp only [Voice, hcontrol] at hvoice
      exact hvoice.saying _ rfl (Session.sent_join _ _)
  | output rest after connection left hcontrol hstep =>
      simp only [Voice, hcontrol] at hvoice ⊢
      cases after with
      | loggedIn | joined => exact hvoice.more hstep rfl rfl
      | delivered | part | replied | quit =>
          obtain ⟨said, m, hspeech, hm, hsaying⟩ := hvoice
          exact ⟨said, m, hspeech, hm, hsaying.more hstep rfl rfl⟩
  | sent rest after connection hcontrol hstep =>
      exact (hvoice.onSent hw hcontrol hstep).mono .inl
  | unsent rest after connection failure hcontrol hstep =>
      -- if nothing was left to be written, it is the flush that failed
      have hpending : (∃ after, w.control = .send [] after) ∨ failed → failed ∨ w.FlushFails := by
        intro hcase
        rcases hcase with ⟨other, hnone⟩ | hfailed
        · rw [hcontrol] at hnone
          obtain ⟨rfl, rfl⟩ := Control.send.inj hnone
          exact .inr (flushFails_of_unsent hopen hcontrol hstep)
        · exact .inl hfailed
      have hwritten : (Worker.onUnsent { w with connection } failure after).written = w.written := by
        rw [Worker.written, connection_onUnsent]
        exact (Connection.written_of_error hstep).1
      have hceased := hvoice.ceased hw hpending hwritten (session_onUnsent _ _ _)
      cases after <;> exact hceased
  | parting room hcontrol =>
      exact hvoice.ceased hw (by simpa [hcontrol] using .inl) rfl rfl
  | removeMember room result directory hcontrol =>
      exact hvoice.ceased hw (by simpa [hcontrol] using .inl) rfl rfl
  | close result hcontrol =>
      simp only [Voice, hcontrol] at hvoice
      obtain ⟨said, current, torn, htold⟩ := hvoice
      exact ⟨said, current, torn, (htold.mono .inl).of_eq (written_close _) rfl rfl rfl⟩
  | staying room hcontrol | dequeue room directory hcontrol | missed room directory hcontrol
  | lapsed room directory hcontrol =>
      simp only [Voice, hcontrol] at hvoice
      obtain ⟨said, hspeech, hsaid⟩ := hvoice
      exact ⟨said, hspeech, hsaid.of_eq rfl rfl⟩
  | collected room directory m hcontrol _ hhead =>
      -- what is in the mailbox was broadcast, and can be sent
      have hm : IsDelivery m :=
        hmail (.inr ⟨room, by rw [hcontrol]; rfl⟩) m (List.mem_of_head? hhead)
      simp only [Voice, hcontrol] at hvoice
      obtain ⟨said, hspeech, hsaid⟩ := hvoice
      exact ⟨said, m, hspeech, hm, hsaid.saying m rfl rfl⟩

/-- What a worker has told is complete lines, all of them read as what they were, and behind them at
most a first part of one more. There is one line more than messages counted only if all of the current
one is written. -/
theorem Told.wellFormed {current : Option Message} {torn : List UInt8}
    (h : w.Told failed said current torn) :
    ∃ (complete : List Message) (current : Option Message) (torn : List UInt8),
      w.written = lines complete ++ torn ∧ torn <+: lines current.toList ∧ lineFeed ∉ torn ∧
      Speech w.session (complete ++ current.toList) ∧ Connection.ReadAs w.written complete ∧
      (complete.length = w.session.sent ∨ complete.length = w.session.sent + 1 ∧ failed) := by
  have hread (complete : List Message) (torn : List UInt8)
      (hvalid : ∀ m ∈ complete, m.Valid) (hwritten : w.written = lines complete ++ torn)
      (hrest : Connection.NoVerdict torn) : Connection.ReadAs w.written complete := by
    rw [hwritten]
    exact Connection.readAs_lines hvalid hrest
  have hempty : Connection.NoVerdict [] := ⟨List.not_mem_nil, by decide⟩
  have hvalid (m : Message) (hm : m ∈ said) : m.Valid :=
    (h.speech.valid (List.mem_append_left _ hm)).1
  cases current with
  | none =>
      obtain rfl : torn = [] := List.prefix_nil.mp h.beginning
      exact ⟨said, none, [], h.written, List.nil_prefix, List.not_mem_nil, h.speech,
        hread said [] hvalid h.written hempty, .inl h.sent.symm⟩
  | some m =>
      have hlast : m.Valid := (h.speech.valid (by simp)).1
      obtain ⟨rest, hrest⟩ := h.beginning
      rw [Option.toList_some, lines_singleton] at hrest
      by_cases hnone : rest = []
      · -- the line is whole, but its flush is still to be made or has failed
        subst hnone
        rw [List.append_nil] at hrest
        have hwritten : w.written = lines (said ++ [m]) ++ [] := by
          rw [lines_append, lines_singleton, ← hrest, List.append_nil, h.written]
        have hall : ∀ other ∈ said ++ [m], other.Valid :=
          fun other hother ↦ (h.speech.valid hother).1
        refine ⟨said ++ [m], none, [], hwritten, List.nil_prefix, List.not_mem_nil, ?_,
          hread _ [] hall hwritten hempty, .inr ⟨?_, h.whole m rfl hrest⟩⟩
        · rw [Option.toList_none, List.append_nil]
          exact h.speech
        · rw [List.length_append, List.length_singleton, h.sent]
      · have hfeed : lineFeed ∉ torn := Message.lineFeed_not_mem_of_append hlast.1 hrest hnone
        have hshort : torn.length < maxLine := by
          have hlength := congrArg List.length hrest
          rw [List.length_append] at hlength
          have hpos := List.length_pos_iff.mpr hnone
          have hle := Message.length_bytes_le hlast
          omega
        exact ⟨said, some m, torn, h.written, h.beginning, hfeed, h.speech,
          hread said torn hvalid h.written ⟨hfeed, hshort⟩, .inl h.sent.symm⟩

end Worker

/-! ## In every run -/

/-- The worker leaves its room, closes its connection or has ended. -/
def Control.IsOver : Control → Prop
  | .removeMember _ _ | .close _ | .ended _ => True
  | _ => False

/-- A worker on the way to its end writes nothing. -/
theorem Worker.Step.isOver {hub hub' : Hub} {w w' : Worker} (h : Worker.Step hub w hub' w')
    (hover : w.control.IsOver) : w'.control.IsOver ∧ w'.written = w.written := by
  cases h with
  | removeMember => exact ⟨trivial, rfl⟩
  | close => exact ⟨trivial, written_close _⟩
  | _ => simp only [Control.IsOver, *] at hover

/-- A worker whose send fails has written nothing by this step, and is on the way to its end. -/
theorem Worker.Step.isOver_of_sendFails {hub hub' : Hub} {w w' : Worker}
    (h : Worker.Step hub w hub' w') (hfails : w.SendFails) :
    w'.control.IsOver ∧ w'.written = w.written := by
  obtain ⟨rest, after, connection, failure, hcontrol, hstep⟩ := hfails
  have heq := h.step_eq
  simp only [Worker.step, hcontrol, hstep, Option.some.injEq, Prod.mk.injEq] at heq
  obtain ⟨-, rfl⟩ := heq
  have hwritten := (Connection.written_of_error hstep).1
  cases after <;> exact ⟨trivial, hwritten⟩

namespace System

variable {s : System} {k : Nat} {w : Worker} {failed : Nat → Prop}

/-- In the run the worker in this place has a turn at which this is so of it. -/
def Happens (P : Worker → Prop) (k : Nat) : System → List Action → Prop
  | _, [] => False
  | s, action :: rest =>
      (action = .work k ∧ ∃ w, s.workers[k]? = some w ∧ P w) ∨ Happens P k (s.act action) rest

/-- What its own steps and the cues to its stream keep of a worker is kept in every run. -/
theorem exists_worker_of_steps {P : Worker → Prop}
    (hstep : ∀ {hub w hub' w'}, Worker.Step hub w hub' w' → P w → P w')
    (hcue : ∀ {w} (cue : Cue), P w → P (w.cue cue)) (hw : s.workers[k]? = some w) (h : P w)
    (actions : List Action) : ∃ v, (s.run actions).workers[k]? = some v ∧ P v := by
  induction actions generalizing s w with
  | nil => exact ⟨w, hw, h⟩
  | cons action rest ih =>
      obtain ⟨w', hw', rfl | ⟨cue, rfl⟩ | ⟨-, hnext⟩⟩ := exists_next hw action
      · exact ih hw' h
      · exact ih hw' (hcue cue h)
      · exact ih hw' (hstep hnext h)

/-- A worker on the way to its end writes nothing more, whatever happens. -/
theorem written_of_isOver (hw : s.workers[k]? = some w) (hover : w.control.IsOver)
    (actions : List Action) : ∃ v, (s.run actions).workers[k]? = some v ∧ v.written = w.written := by
  have hcue {v : Worker} (cue : Cue) (h : v.control.IsOver ∧ v.written = w.written) :
      (v.cue cue).control.IsOver ∧ (v.cue cue).written = w.written :=
    ⟨h.1, by rw [← h.2]; cases cue <;> rfl⟩
  obtain ⟨v, hv, -, hwritten⟩ := exists_worker_of_steps
    (P := fun v ↦ v.control.IsOver ∧ v.written = w.written)
    (fun hstep h ↦ ⟨(hstep.isOver h.1).1, (hstep.isOver h.1).2.trans h.2⟩) hcue hw ⟨hover, rfl⟩
    actions
  exact ⟨v, hv, hwritten⟩

/-- What is known of what the workers say, if the flushes of those in these places alone have failed.
-/
structure Voiced (failed : Nat → Prop) (s : System) : Prop where
  placed : s.Placed
  named : s.Everywhere fun d w ↦ w.Lawful d ∧ w.Named d
  tended : s.Everywhere Worker.Tended
  mail : s.Mail IsDelivery
  voice : ∀ (k : Nat) (w : Worker), s.workers[k]? = some w → w.Voice (failed k)

theorem Voiced.act (h : s.Voiced failed) {action : Action} (hsource : NoDirect [action]) :
    (s.act action).Voiced fun k ↦
      failed k ∨ (action = .work k ∧ ∃ w, s.workers[k]? = some w ∧ w.FlushFails) where
  placed := h.placed.act action
  named := lasting_named.act h.placed h.named action
  tended := lasting_tended.act h.placed h.tended action
  mail := h.mail.act action fun room delivery hbroadcast ↦
    ⟨delivery, (sendable_of_action h.named hsource hbroadcast).2, rfl⟩
  voice := by
    intro k w' hw'
    rcases exists_previous hw' with hnew | ⟨w, hw, rfl | ⟨cue, rfl⟩ | ⟨haction, hstep⟩⟩
    · simp only [Worker.Voice, hnew.control]
      exact ⟨hnew.written, by rw [hnew.session]; rfl⟩
    · exact (h.voice k w' hw).mono .inl
    · exact ((h.voice k w hw).cue cue).mono .inl
    · have htended := h.tended k w hw
      simp only [Worker.Tended, hstep.result?_eq_none] at htended
      exact (hstep.voice (h.named k w hw).1 htended.1 (h.mail.holds k w hw)
        (h.voice k w hw)).mono (.imp_right fun hfails ↦ ⟨haction, w, hw, hfails⟩)

theorem Voiced.run (h : s.Voiced failed) {actions : List Action} (hsource : NoDirect actions) :
    (s.run actions).Voiced fun k ↦ failed k ∨ Happens Worker.FlushFails k s actions := by
  induction actions generalizing s failed with
  | nil => exact { h with voice := fun k w hw ↦ (h.voice k w hw).mono .inl }
  | cons action rest ih =>
      have hrun := ih (h.act hsource.head) hsource.tail
      exact { hrun with voice := fun k w hw ↦ (hrun.voice k w hw).mono or_assoc.mp }

theorem Initial.voiced (h : s.Initial) : s.Voiced fun _ ↦ False where
  placed := h.placed
  named := lasting_named.run h []
  tended := lasting_tended.run h []
  mail := h.mail
  voice := by
    intro k w hw
    have hfresh := h.fresh k w hw
    simp only [Worker.Voice, hfresh.control]
    exact ⟨hfresh.written, by rw [hfresh.session]; rfl⟩

/-- In every run in which nothing is broadcast but by the workers, whatever the streams do: what a
worker has written is complete lines and at most a first part of one line more. A peer that gets these
bytes receives the messages of the complete lines and nothing else. They are valid replies, or, in the
session of a subscriber that is let into a room, two confirmations and then deliveries, and the line
that is not complete would go on in the same way. The session counts as many messages as there are
lines, but for one of which the flush is still to be made or has failed. And once a send has failed, the
worker writes nothing more. -/
theorem output_well_formed (h : s.Initial) {actions : List Action} (hsource : NoDirect actions)
    {v : Worker} (hv : (s.run actions).workers[k]? = some v) :
    (∃ (complete : List Message) (current : Option Message) (torn : List UInt8),
      v.written = lines complete ++ torn ∧ torn <+: lines current.toList ∧ lineFeed ∉ torn ∧
      Speech v.session (complete ++ current.toList) ∧
      (∀ m ∈ complete, m.validate = .ok () ∧
        (m.tag = .ok ∨ m.tag = .err ∨ m.tag = .delivery)) ∧
      Connection.ReadAs v.written complete ∧
      (complete.length = v.session.sent ∨
        complete.length = v.session.sent + 1 ∧
          ((∃ after, v.control = .send [] after) ∨ Happens Worker.FlushFails k s actions))) ∧
    ∀ before after w, actions = before ++ .work k :: after →
      (s.run before).workers[k]? = some w → w.SendFails → v.written = w.written := by
  have hvoiced := h.voiced.run hsource
  obtain ⟨said, current, torn, htold⟩ := (hvoiced.voice k v hv).told (hvoiced.named k v hv).1
  refine ⟨?_, fun before after w hactions hw hfails ↦ ?_⟩
  · obtain ⟨complete, current, torn, hwritten, hbeginning, hfeed, hspeech, hread, hcount⟩ :=
      htold.wellFormed
    refine ⟨complete, current, torn, hwritten, hbeginning, hfeed, hspeech, fun m hm ↦ ?_, hread,
      hcount.imp_right (And.imp_right (Or.imp_right fun hfailed ↦ hfailed.resolve_left id))⟩
    obtain ⟨hvalid, htag⟩ := hspeech.valid (List.mem_append_left _ hm)
    exact ⟨Message.validate_eq_ok_iff.mpr hvalid, htag⟩
  · rw [hactions, run_append, run_cons] at hv
    cases fate hw (.work k) with
    | kept hwork => exact absurd rfl hwork
    | cued _ haction => cases haction
    | stuck _ hnone =>
        obtain ⟨rest, next, connection, failure, hcontrol, hstep⟩ := hfails
        simp [Worker.step, hcontrol, hstep] at hnone
    | stepped hub w' _ hstep hafter =>
        obtain ⟨hover, hwritten⟩ := (Worker.step_sound hstep).isOver_of_sendFails hfails
        have hw' : ((s.run before).act (.work k)).workers[k]? = some w' := by
          rw [hafter]
          exact getElem?_set_self hw w'
        obtain ⟨u, hu, hsame⟩ := written_of_isOver hw' hover after
        rw [Option.some.inj (hv.symm.trans hu), hsame, hwritten]

/-- A subscriber logs in and joins a room, and its stream accepts five bytes. -/
def tearing : List Action :=
  [.connect (fun _ ↦ none) true, .cue 0 (.block ⟨5, some (.fault .brokenPipe)⟩),
    .cue 0 (.arrive (.chunk (Message.bytes ⟨.rlogin, "bob"⟩ ++ Message.bytes ⟨.join, "den"⟩)))] ++
    List.replicate 8 (.work 0)

/-- The second confirmation is torn, and nothing follows it although the stream heals. -/
theorem output_well_formed_tearing :
    let after := [.cue 0 .heal, .work 0, .work 0]
    ∃ v w, (run {} (tearing ++ .work 0 :: after)).workers[0]? = some v ∧
      (run {} tearing).workers[0]? = some w ∧ w.SendFails ∧
      v.written = confirmation ++ confirmation.take 1 ∧ v.written = w.written ∧
      ∃ (complete : List Message) (current : Option Message) (torn : List UInt8),
        v.written = lines complete ++ torn ∧ torn <+: lines current.toList ∧ lineFeed ∉ torn ∧
        Connection.ReadAs v.written complete := by
  intro after
  have hfinal : (run {} (tearing ++ .work 0 :: after)).workers[0]?.map Worker.written =
      some (confirmation ++ confirmation.take 1) := by
    decide +kernel
  have hfailing : (run {} tearing).workers[0]?.map Worker.sendFails = some true := by
    decide +kernel
  obtain ⟨v, hv, hwritten⟩ := Option.map_eq_some_iff.mp hfinal
  obtain ⟨w, hw, hsend⟩ := Option.map_eq_some_iff.mp hfailing
  have hfails : w.SendFails := Worker.sendFails_of_eq_true hsend
  have hsource : NoDirect (tearing ++ .work 0 :: after) := by
    intro room sender text
    simp [tearing, after]
  obtain ⟨⟨complete, current, torn, hlines, hbeginning, hfeed, -, -, hread, -⟩, hsilent⟩ :=
    output_well_formed initial_empty hsource hv
  exact ⟨v, w, hv, hw, hfails, hwritten, hsilent tearing after w rfl hw hfails, complete, current,
    torn, hlines, hbeginning, hfeed, hread⟩

end System

end Server

end ChatRelay
