import ChatRelay.Proofs.Agreement
import ChatRelay.Proofs.Links
import ChatRelay.Proofs.Unread

/-!
# Talks over the link that calls run on

A call that has an answer keeps it when more comes in behind (`request_feed`, `execute_feed`), and what
it writes does not depend on what comes in. So the link runs logins and commands as exchanges do
(`Opening.converse_login`, `Conversation.converse_execute`), and what it answers tells what the worker
wrote: `Conversation.converse_tells`.
-/

namespace ChatRelay

open Client Connection Text Transport Wire

/-! ## What comes in behind -/

namespace Connection

/-- A step of a send is the same when more comes in behind. -/
theorem sendStep_feed (c : Connection) (rest : List UInt8) (more : List Arrival) :
    (c.feed more).sendStep rest = ((c.sendStep rest).1.feed more, (c.sendStep rest).2) := by
  obtain ⟨written, writes, barrier, hstream⟩ := c.stream_sendStep rest
  have harrivals : (c.sendStep rest).1.stream.arrivals = c.stream.arrivals := by
    rw [hstream]
  have hfed : (c.sendStep rest).1.feed more =
      (c.sendStep rest).1.deafen (c.stream.arrivals ++ more) := by
    rw [feed, deafen, harrivals]
  rw [hfed]
  exact sendStep_deafen c (c.stream.arrivals ++ more) rest

/-- A send is the same when more comes in behind. -/
theorem sendBytes_feed (c : Connection) (bytes : List UInt8) (more : List Arrival) :
    (c.feed more).sendBytes bytes = ((c.sendBytes bytes).1.feed more, (c.sendBytes bytes).2) := by
  fun_induction Connection.sendBytes c bytes with
  | case1 c bytes after result hstep =>
      have hfed := sendStep_feed c bytes more
      rw [hstep] at hfed
      exact sendBytes_of_done hfed
  | case2 c bytes after hstep =>
      have hfed := sendStep_feed c bytes more
      rw [hstep] at hfed
      exact sendBytes_of_waiting hfed
  | case3 c bytes after left hstep ih =>
      have hfed := sendStep_feed c bytes more
      rw [hstep] at hfed
      exact (sendBytes_of_more hfed).trans ih

theorem send_feed (c : Connection) (m : Message) (more : List Arrival) :
    (c.feed more).send m = ((c.send m).1.feed more, (c.send m).2) :=
  sendBytes_feed c m.bytes more

theorem close_feed (c : Connection) (more : List Arrival) :
    (c.feed more).close = c.close.feed more := by
  obtain ⟨stream, isOpen, buffer, last⟩ := c
  cases isOpen <;> rfl

theorem shutdowns_close_le (c : Connection) :
    c.stream.shutdowns ≤ c.close.stream.shutdowns := by
  unfold close
  split
  · exact Nat.le_succ _
  · exact Nat.le_refl _

end Connection

namespace Client

variable {c : Connection} {m : Message}

/-- A request that has an answer has the same one when more comes in behind. -/
theorem request_feed {result : Except Failure Unit} (h : (request c m).2 = some result)
    (more : List Arrival) :
    request (c.feed more) m = ((request c m).1.feed more, some result) := by
  have hsent := c.send_feed m more
  unfold request at h ⊢
  rw [hsent]
  rcases hsend : c.send m with ⟨after, _ | failure | value⟩
  · rw [hsend] at h
    cases h
  · rw [hsend] at h
    cases h
    rfl
  · rw [hsend] at h
    dsimp only at h ⊢
    rcases hreceive : after.receive with ⟨last, _ | received⟩
    · rw [hreceive] at h
      cases h
    · rw [receive_feed (congrArg Prod.snd hreceive), hreceive]
      rw [hreceive] at h
      rcases received with failure | reply
      · cases h
        rfl
      · cases h
        rfl

/-- A request opens and closes nothing. -/
theorem isOpen_request (c : Connection) (m : Message) : (request c m).1.isOpen = c.isOpen := by
  have hsend : (c.send m).1.isOpen = c.isOpen := (c.sendBytes_frame m.bytes).1
  unfold request
  rcases hsent : c.send m with ⟨after, _ | failure | value⟩
  · rw [hsent] at hsend
    exact hsend
  · rw [hsent] at hsend
    exact hsend
  · have hreceive := isOpen_receive after
    rw [hsent] at hsend
    dsimp only
    rcases hwent : after.receive with ⟨last, _ | failure | reply⟩ <;>
    · rw [hwent] at hreceive
      exact hreceive.trans hsend

/-- A request does not shut its stream down. -/
theorem shutdowns_request (c : Connection) (m : Message) :
    (request c m).1.stream.shutdowns = c.stream.shutdowns := by
  have hsend : (c.send m).1.stream.shutdowns = c.stream.shutdowns := shutdowns_sendBytes c m.bytes
  unfold request
  rcases hsent : c.send m with ⟨after, _ | failure | value⟩
  · rw [hsent] at hsend
    exact hsend
  · rw [hsent] at hsend
    exact hsend
  · obtain ⟨arrivals, hreceive⟩ := after.stream_receive
    rw [hsent] at hsend
    dsimp only
    rcases hwent : after.receive with ⟨last, _ | failure | reply⟩ <;>
    · rw [hwent] at hreceive
      rw [hreceive]
      exact hsend

namespace Publisher

/-- A login that succeeds gives the publisher its connection. -/
theorem connection_of_login {username : String} {p : Publisher}
    (h : (login c username).2 = some (.ok p)) : (login c username).1 = p.connection := by
  rw [login_eq] at h ⊢
  obtain ⟨result, -, hmap⟩ := Option.map_eq_some_iff.mp h
  rcases result with failure | value
  · cases hmap
  · cases hmap
    rfl

variable {p : Publisher} {command : Command}

/-- A command that has an answer has the same one when more comes in behind. -/
theorem execute_feed (hsendable : command.Sendable) {result : Except Failure Bool}
    (h : (p.execute command).2 = some result) (more : List Arrival) :
    (p.feed more).execute command = ((p.execute command).1.feed more, some result) := by
  cases hheld : command.isHeldBack with
  | true =>
      rw [execute_of_heldBack _ hheld] at h
      rw [execute_of_heldBack _ hheld, execute_of_heldBack _ hheld]
      cases h
      rfl
  | false =>
      rcases hanswer : (request p.connection command.message).2 with _ | failure | value
      · rw [execute_of_none hsendable hheld hanswer] at h
        cases h
      all_goals
        have hfed : request (p.feed more).connection command.message = _ :=
          request_feed hanswer more
        have hanswer' := congrArg Prod.snd hfed
      · rw [execute_of_error hsendable hheld hanswer] at h
        rw [execute_of_error hsendable hheld hanswer, execute_of_error hsendable hheld hanswer', hfed]
        cases h
        rfl
      · rw [execute_of_ok hsendable hheld hanswer] at h
        rw [execute_of_ok hsendable hheld hanswer, execute_of_ok hsendable hheld hanswer', hfed]
        cases h
        split
        · rw [close_feed]
          rfl
        · rfl

/-- A command either shuts nothing down, or it has its answer and closes the connection. -/
theorem shutdowns_execute (p : Publisher) (hsendable : command.Sendable) :
    ((p.execute command).1.connection.stream.shutdowns = p.connection.stream.shutdowns ∧
        (p.execute command).1.connection.isOpen = p.connection.isOpen) ∨
      (p.connection.stream.shutdowns ≤ (p.execute command).1.connection.stream.shutdowns ∧
        (p.execute command).1.connection.isOpen = false ∧ (p.execute command).2 ≠ none) := by
  have hshut := shutdowns_request p.connection command.message
  have hopen := isOpen_request p.connection command.message
  cases hheld : command.isHeldBack with
  | true =>
      rw [execute_of_heldBack _ hheld]
      exact .inl ⟨rfl, rfl⟩
  | false =>
      rcases hanswer : (request p.connection command.message).2 with _ | failure | value
      · rw [execute_of_none hsendable hheld hanswer]
        exact .inl ⟨hshut, hopen⟩
      · rw [execute_of_error hsendable hheld hanswer]
        exact .inl ⟨hshut, hopen⟩
      · rw [execute_of_ok hsendable hheld hanswer]
        by_cases hquit : command = .quit
        · simp only [hquit, if_true]
          rw [hquit] at hshut
          refine .inr ⟨hshut ▸ shutdowns_close_le _, isOpen_close _, nofun⟩
        · simp only [hquit, if_false]
          exact .inl ⟨hshut, hopen⟩

end Publisher

end Client

namespace Server

variable {c : Connection} {s : System} {k : Nat} {w v : Worker} {username : String}
  {cut : List UInt8 → List (List UInt8)}

/-! ## Logging in -/

/-- What a login writes does not depend on what comes in. -/
theorem Opening.steady (h : Opening c s k w) (username : String) :
    Exchange.Steady (loginOut c username) where
  written arrived :=
    (h.written_loginOut username arrived).1.trans (h.written_loginOut username []).1.symm
  shut arrived _ hpos := absurd hpos (by simp [(h.written_loginOut username arrived).2])

/-- A login begins in order. -/
theorem Opening.inOrder (h : Opening c s k w) (username : String) :
    Exchange.InOrder (loginOut c username) { worker := k, system := s } w where
  here := h.here
  tended := h.fresh.tended
  forth := ⟨Nat.zero_le _, nofun⟩
  back := ⟨Nat.zero_le _, nofun⟩

/-- The link runs a login as one of the exchanges. -/
theorem Opening.converse_login (h : Opening c s k w) (username : String)
    (hcut : Link.Faithful cut) (rounds : Nat) :
    ∃ events,
      let y := login c s k username events
      Link.converse (Publisher.login · username) rounds { worker := k, cut } c s =
        (y.1.link cut, y.1.system, y.2) := by
  have hconverse :=
    Exchange.converse_eq (Publisher.login · username) hcut (h.steady username) rounds
      (h.inOrder username)
  obtain ⟨y, ⟨events, rfl⟩, heq⟩ := hconverse
  rw [Connection.feed_nil] at heq
  exact ⟨events, heq⟩

/-! ## Commands -/

/-- A command as a call on the publisher's connection; with the answer comes the publisher that the
command leaves. -/
def onConnection (p : Publisher) (command : Command) (c : Connection) :
    Connection × Answer (Publisher × Except Failure Bool) :=
  let (after, answer) := { p with connection := c }.execute command
  (after.connection, answer.map fun result ↦ .ok (after, result))

namespace Talk

variable {t : Talk} {command : Command}

/-- The two lanes of a talk fit the streams that they carry, and an open connection is not shut
down. -/
structure Linked (t : Talk) (w : Worker) : Prop where
  inOrder : t.begin.InOrder (fun _ ↦ t.publisher.connection.stream) w
  unshut : t.publisher.connection.isOpen = true → t.publisher.connection.stream.shutdowns = 0

/-- A talk is linked again after a call that begins in order. -/
theorem linked_call {β : Type} {f : Publisher → Publisher × β}
    (hsteady : Exchange.Steady (t.out f)) (hbegin : t.begin.InOrder (t.out f) w)
    (hunshut : ∀ arrived, (f (t.publisher.feed arrived)).1.connection.isOpen = true →
      (t.out f arrived).shutdowns = 0) (events : List Event) :
    ∃ v, (t.call f events).1.Linked v := by
  obtain ⟨v, hv⟩ := hbegin.reaches hsteady ⟨events, rfl⟩
  exact ⟨v, ⟨hv.here, hv.tended, hv.forth, hv.back⟩, hunshut _⟩

/-- Between calls, a talk stays linked. -/
theorem Linked.idle (h : t.Linked w) (events : List Event) : ∃ v, (t.idle events).Linked v :=
  linked_call (f := fun p ↦ (p, ())) ⟨fun _ ↦ rfl, fun _ _ hpos ↦ hpos⟩
    ⟨h.inOrder.here, h.inOrder.tended, ⟨h.inOrder.forth.passed_le, h.inOrder.forth.of_ended⟩,
      h.inOrder.back⟩ (fun _ ↦ h.unshut) events

/-- What a command writes does not depend on what comes in, and a quit that is answered stays so. -/
theorem steady_execute (t : Talk) (hsendable : command.Sendable)
    (hhealthy : Healthy t.publisher.connection.stream) :
    Exchange.Steady (t.out (·.execute command)) := by
  obtain ⟨more, hwritten⟩ := t.publisher.exists_written_execute hsendable hhealthy
  refine ⟨fun arrived ↦ (hwritten arrived).trans (hwritten []).symm, fun arrived behind hpos ↦ ?_⟩
  have hfeed : (t.publisher.feed arrived).feed behind = t.publisher.feed (arrived ++ behind) :=
    congrArg (fun c ↦ { t.publisher with connection := c }) (Connection.feed_feed _ _ _)
  cases hanswer : ((t.publisher.feed arrived).execute command).2 with
  | some result =>
      have hfed := Publisher.execute_feed hsendable hanswer behind
      rw [hfeed] at hfed
      rw [Talk.out, hfed]
      exact hpos
  | none =>
      obtain ⟨hshut, -⟩ | ⟨-, -, hsome⟩ := (t.publisher.feed arrived).shutdowns_execute hsendable
      · have hbefore : 0 < (t.publisher.feed (arrived ++ behind)).connection.stream.shutdowns :=
          hshut ▸ hpos
        obtain ⟨hshut', -⟩ | ⟨hle, -⟩ :=
          (t.publisher.feed (arrived ++ behind)).shutdowns_execute hsendable
        · exact hshut' ▸ hbefore
        · exact Nat.lt_of_lt_of_le hbefore hle
      · exact absurd hanswer hsome

/-- A command begins in order. -/
theorem Linked.begin_execute (h : t.Linked w) (hsendable : command.Sendable)
    (hhealthy : Healthy t.publisher.connection.stream) :
    t.begin.InOrder (t.out (·.execute command)) w := by
  obtain ⟨more, hwritten⟩ := t.publisher.exists_written_execute hsendable hhealthy
  refine ⟨h.inOrder.here, h.inOrder.tended, h.inOrder.forth.grow (hwritten []) fun hpos ↦ ?_,
    h.inOrder.back⟩
  -- a stream that is shut down belongs to a connection that is closed
  have hclosed : (t.publisher.feed []).connection.isOpen = false :=
    Bool.eq_false_iff.mpr fun hopen ↦ Nat.ne_of_gt hpos (h.unshut hopen)
  have hstream := Publisher.stream_execute_of_closed hsendable hclosed
  constructor
  · have hsame := hwritten []
    rw [hstream] at hsame
    exact List.self_eq_append_right.mp hsame
  · show 0 < ((t.publisher.feed []).execute command).1.connection.stream.shutdowns
    rw [hstream]
    exact hpos

/-- A command leaves a talk linked. -/
theorem Linked.execute (h : t.Linked w) (hsendable : command.Sendable)
    (hhealthy : Healthy t.publisher.connection.stream) (events : List Event) :
    ∃ v, (t.execute command events).1.Linked v := by
  refine linked_call (t.steady_execute hsendable hhealthy) (h.begin_execute hsendable hhealthy)
    (fun arrived hopen ↦ ?_) events
  obtain ⟨hshut, hsame⟩ | ⟨-, hclosed, -⟩ :=
    (t.publisher.feed arrived).shutdowns_execute hsendable
  · exact hshut.trans (h.unshut (hsame.symm.trans hopen))
  · exact absurd hopen (Bool.eq_false_iff.mp hclosed)

/-- The link runs a command as one of the exchanges. -/
theorem Linked.converse_execute (h : t.Linked w) (hsendable : command.Sendable)
    (hhealthy : Healthy t.publisher.connection.stream) (hcut : Link.Faithful cut) (rounds : Nat) :
    ∃ events,
      let next := (t.execute command events).1
      Link.converse (onConnection t.publisher command) rounds (t.begin.link cut)
          t.publisher.connection t.system =
        (next.begin.link cut, next.system, next.publisher.connection,
          (t.execute command events).2.map fun result ↦ .ok (next.publisher, result)) := by
  have hconverse := Exchange.converse_eq (onConnection t.publisher command) hcut
    (t.steady_execute hsendable hhealthy) rounds (h.begin_execute hsendable hhealthy)
  obtain ⟨y, ⟨events, rfl⟩, heq⟩ := hconverse
  rw [show t.begin.arrived = [] from rfl, Connection.feed_nil] at heq
  exact ⟨events, heq⟩

/-- However the two sides stand, writes of the publisher succeed. -/
theorem Standing.healthy {ended : Prop} (h : Standing username ended t w) :
    Healthy t.publisher.connection.stream := by
  cases h with
  | live _ h => exact h.sound.healthy
  | dead _ h => exact h.sound.healthy

end Talk

/-! ## Line after line -/

variable {lines : List String} {t : Talk}

/-- After whatever lines, the talk is linked. -/
theorem Conversation.linked (hopening : Opening c s k w)
    (hfree : hasTerminator username = false) (h : Conversation c s k username lines t) :
    ∃ v, t.Linked v := by
  induction h with
  | loggedIn events p hanswer =>
      obtain ⟨v, hv⟩ := (hopening.inOrder username).reaches (hopening.steady username) ⟨events, rfl⟩
      have hstream : loginOut c username (login c s k username events).1.arrived =
          p.connection.stream :=
        congrArg Connection.stream (Publisher.connection_of_login hanswer)
      have hshut := (hopening.written_loginOut username (login c s k username events).1.arrived).2
      rw [hstream] at hshut
      exact ⟨v, ⟨hv.here, hv.tended, hstream ▸ hv.forth, hv.back⟩, fun _ ↦ hshut⟩
  | waited h events ih =>
      obtain ⟨v, hv⟩ := ih
      exact hv.idle events
  | misread h line error hparse ih => exact ih
  | answered h line command hparse events result hanswer ih =>
      obtain ⟨v, hv⟩ := ih
      obtain ⟨u, hstanding⟩ := h.standing hopening hfree
      exact hv.execute (Command.parse_sendable hparse) hstanding.healthy events

/-- What the link makes of a command in a conversation is what it leads to in some exchange. -/
theorem Conversation.converse_execute (hopening : Opening c s k w)
    (hfree : hasTerminator username = false) (h : Conversation c s k username lines t)
    {line : String} {command : Command} (hparse : Command.parse line = .ok command)
    (hcut : Link.Faithful cut) (rounds : Nat) :
    ∃ events,
      let next := (t.execute command events).1
      Link.converse (onConnection t.publisher command) rounds (t.begin.link cut)
          t.publisher.connection t.system =
        (next.begin.link cut, next.system, next.publisher.connection,
          (t.execute command events).2.map fun result ↦ .ok (next.publisher, result)) := by
  obtain ⟨v, hlinked⟩ := h.linked hopening hfree
  obtain ⟨u, hstanding⟩ := h.standing hopening hfree
  exact hlinked.converse_execute (Command.parse_sendable hparse) hstanding.healthy hcut rounds

/-- What the link answers to a command tells what the worker wrote meanwhile, and the conversation
goes on from there with the publisher that comes with the answer. -/
theorem Conversation.converse_tells (hopening : Opening c s k w)
    (hfree : hasTerminator username = false) (h : Conversation c s k username lines t)
    {line : String} {command : Command} (hparse : Command.parse line = .ok command)
    (hsends : command.isHeldBack = false) (hcut : Link.Faithful cut) {rounds : Nat}
    {link : Link} {after : System} {connection : Connection} {p : Publisher}
    {result : Except Failure Bool}
    (hresult : Link.converse (onConnection t.publisher command) rounds (t.begin.link cut)
        t.publisher.connection t.system =
      (link, after, connection, some (.ok (p, result)))) :
    ∃ next v v' wrote,
      Conversation c s k username (lines ++ [line]) next ∧
      next.begin.link cut = link ∧ next.system = after ∧ next.publisher = p ∧
      p.connection = connection ∧
      t.system.workers[k]? = some v ∧ after.workers[k]? = some v' ∧ next.InStep v' ∧
      v'.written = v.written ++ wrote ∧ Tells result wrote := by
  obtain ⟨events, hconverse⟩ := h.converse_execute hopening hfree hparse hcut rounds
  rw [hresult] at hconverse
  simp only [Prod.mk.injEq] at hconverse
  obtain ⟨rfl, rfl, rfl, hmap⟩ := hconverse
  obtain ⟨_, hanswer, heq⟩ := Option.map_eq_some_iff.mp hmap.symm
  cases heq
  have hnext := h.answered line command hparse events result hanswer
  obtain ⟨v, hstanding⟩ := h.standing hopening hfree
  obtain ⟨v', hround, hstanding'⟩ :=
    hstanding.round (Command.parse_sendable hparse) hsends hanswer
  obtain ⟨wrote, hwritten, htells, -⟩ := hround.tells
  exact ⟨_, v, v', wrote, hnext, rfl, rfl, rfl, rfl, h.worker_eq ▸ hstanding.here,
    hnext.worker_eq ▸ hstanding'.here, hstanding'.inStep, hwritten, htells⟩

end Server

end ChatRelay
