import ChatRelay.Proofs.Contention
import ChatRelay.Proofs.Settling
import Mathlib.Data.List.Range

/-!
# Waiting under the clock

Messages are enqueued, dequeues begin and time passes, one turn after the other, and the mailbox
comes to rest after each. `Traffic.Calm` says what holds then of everything that has happened so
far: who was served, in which order, and when each dequeue ended. `every_wait_ends_on_time` is the
statement over all sequences of turns.
-/

namespace ChatRelay.Mailbox

open Wire

/-- What is done to a mailbox under the clock. -/
inductive Turn where
  /-- A message is enqueued. -/
  | enqueue (m : Message)
  /-- A dequeue begins beside the others. -/
  | ask (timeout : Nat)
  /-- A dequeue begins, and nothing else is done before it ends. -/
  | dequeue (timeout : Nat)
  /-- Time passes. -/
  | advance (ms : Nat)

/-- The message that a turn enqueues. -/
def Turn.stored? : Turn → Option Message
  | .enqueue m => some m
  | _ => none

/-- How long the dequeue may wait that a turn begins. -/
def Turn.timeout? : Turn → Option Nat
  | .ask timeout | .dequeue timeout => some timeout
  | _ => none

namespace Timed

/-- Take a turn, and let everything come to rest. -/
def turn (t : Timed) : Turn → Timed
  | .enqueue m => t.enqueue m
  | .ask timeout => t.ask timeout
  | .dequeue timeout => (t.dequeue timeout).1
  | .advance ms => t.advance ms

/-- The dequeues that got a message, in the order in which they did. -/
def served (t : Timed) : List Nat :=
  (t.outcomes.filter (·.got.isSome)).map (·.ticket)

/-- Dequeues end on the way from one state to another, and whoever ends without a message does so
when there is none and none comes, and nobody got one who began later. -/
def Ends (t : Timed) (stored? : Option Message) (t' : Timed) : Prop :=
  ∃ ended, t'.outcomes = t.outcomes ++ ended ∧
    ∀ o ∈ ended, o.got = none →
      stored? = none ∧ t.mailbox.messages = [] ∧ ∀ ticket ∈ t.served, ticket < o.ticket

variable {t t' t'' : Timed} {stored? : Option Message}

theorem Ends.of_outcomes_eq (h : t'.outcomes = t.outcomes) : t.Ends stored? t' :=
  ⟨[], by rw [h, List.append_nil], by simp⟩

theorem Ends.of_got {ticket time : Nat} {m : Message}
    (h : t'.outcomes = t.outcomes ++ [⟨ticket, some m, time⟩]) : t.Ends stored? t' :=
  ⟨_, h, by simp⟩

theorem served_append {more : List Outcome} (h : t'.outcomes = t.outcomes ++ more) :
    t'.served = t.served ++ (more.filter (·.got.isSome)).map (·.ticket) := by
  simp [served, h]

/-- Nobody is served by giving up. -/
theorem filter_isSome_lapsed (gone : List Waiting) :
    (gone.map fun w ↦ (⟨w.ticket, none, w.deadline⟩ : Outcome)).filter (·.got.isSome) = [] := by
  simp [List.filter_eq_nil_iff]

theorem Ends.trans (h : t.Ends none t') (h' : t'.Ends none t'')
    (hempty : t.mailbox.messages = []) : t.Ends none t'' := by
  obtain ⟨ended, heq, hended⟩ := h
  obtain ⟨later, heq', hlater⟩ := h'
  refine ⟨ended ++ later, by rw [heq', heq, List.append_assoc], fun o ho hnone ↦ ?_⟩
  rcases List.mem_append.mp ho with ho | ho
  · exact hended o ho hnone
  · refine ⟨rfl, hempty, fun ticket hticket ↦ (hlater o ho hnone).2.2 ticket ?_⟩
    rw [served_append heq]
    exact List.mem_append_left _ hticket

end Timed

namespace Traffic

/-- Take a turn, and note which dequeue it begins. -/
def turn (s : Traffic) (turn : Turn) : Traffic :=
  { timed := s.timed.turn turn
    asked := s.asked ++ (turn.timeout?.map (⟨s.timed.now, ·⟩)).toList }

/-- Take one turn after the other, from the start. -/
def play (turns : List Turn) : Traffic :=
  turns.foldl turn {}

/-- The mailbox is at rest; messages went out in their order to dequeues in theirs; and every
dequeue waits with its deadline to come, or has ended once and in time. -/
structure Calm (s : Traffic) (stored : List Message) : Prop where
  owed : s.timed.owed = 0
  holding : s.timed.mailbox.holding = []
  permits : s.timed.mailbox.permits = s.timed.mailbox.messages.length
  idle : s.timed.mailbox.waiting = [] ∨ s.timed.mailbox.messages = []
  early : ∀ w ∈ s.timed.mailbox.waiting, s.timed.now < w.deadline
  fifo : s.timed.outcomes.filterMap (·.got) ++ s.timed.mailbox.messages = stored
  order : (s.timed.served ++ s.timed.mailbox.waiting.map (·.ticket)).Pairwise (· < ·)
  places : (s.timed.outcomes.map (·.ticket) ++ s.timed.mailbox.waiting.map (·.ticket)).Perm
    (List.range s.timed.begun)
  begun : s.asked.length = s.timed.begun
  waits : ∀ w ∈ s.timed.mailbox.waiting,
    ∃ a, s.asked[w.ticket]? = some a ∧ a.start ≤ s.timed.now ∧ a.deadline = w.deadline
  ends : ∀ o ∈ s.timed.outcomes, ∃ a, s.asked[o.ticket]? = some a ∧
    a.start ≤ o.time ∧ o.time ≤ a.deadline ∧ (o.got = none → o.time = a.deadline)

variable {s : Traffic} {stored : List Message}

theorem calm_empty : Calm {} [] where
  owed := rfl
  holding := rfl
  permits := rfl
  idle := .inl rfl
  early := by simp
  fifo := rfl
  order := .nil
  places := .nil
  begun := rfl
  waits := by simp
  ends := by simp

/-- A ticket that is waiting or was settled is one that was given out. -/
theorem Calm.lt_begun (h : s.Calm stored) {ticket : Nat}
    (hticket : ticket ∈ s.timed.outcomes.map (·.ticket) ++ s.timed.mailbox.waiting.map (·.ticket)) :
    ticket < s.timed.begun :=
  List.mem_range.mp (h.places.mem_iff.mp hticket)

theorem Calm.rested (h : s.Calm stored) : s.timed.Rested where
  owed := h.owed
  holding := h.holding
  permits := h.permits
  idle := h.idle
  early := h.early
  distinct := (h.places.nodup_iff.mpr List.nodup_range).of_append_right
  known _ hw := h.lt_begun (List.mem_append_right _ (List.mem_map_of_mem hw))

/-- Who was served has a ticket that was given out. -/
theorem Calm.served_lt_begun (h : s.Calm stored) : ∀ ticket ∈ s.timed.served,
    ticket < s.timed.begun := by
  intro ticket hticket
  obtain ⟨o, ho, rfl⟩ := List.mem_map.mp hticket
  exact h.lt_begun (List.mem_append_left _ (List.mem_map_of_mem (List.mem_of_mem_filter ho)))

/-- The dequeue that begins is the last in order. -/
theorem Calm.order_begun (h : s.Calm stored) :
    (s.timed.served ++ (s.timed.mailbox.waiting.map (·.ticket) ++ [s.timed.begun])).Pairwise
      (· < ·) := by
  rw [← List.append_assoc, List.pairwise_append]
  refine ⟨h.order, List.pairwise_singleton _ _, fun ticket hticket other hother ↦ ?_⟩
  rw [List.mem_singleton.mp hother]
  rcases List.mem_append.mp hticket with hticket | hticket
  · exact h.served_lt_begun ticket hticket
  · exact h.lt_begun (List.mem_append_right _ hticket)

/-- It has a place that nobody had. -/
theorem Calm.places_begun (h : s.Calm stored) :
    (s.timed.outcomes.map (·.ticket) ++ (s.timed.mailbox.waiting.map (·.ticket) ++
      [s.timed.begun])).Perm (List.range (s.timed.begun + 1)) := by
  rw [← List.append_assoc, List.range_succ]
  exact h.places.append_right _

/-! ## What keeps calm -/

theorem Calm.store (h : s.Calm stored) (m : Message) (hwaiting : s.timed.mailbox.waiting = []) :
    Calm { s with timed := s.timed.enqueue m } (stored ++ [m]) := by
  rw [Timed.enqueue_eq_store h.rested m hwaiting]
  exact { h with
    permits := by simp [h.permits]
    idle := .inl hwaiting
    fifo := by rw [← h.fifo, List.append_assoc] }

theorem Calm.serve (h : s.Calm stored) (m : Message) {first : Waiting} {rest : List Waiting}
    (hwaiting : s.timed.mailbox.waiting = first :: rest) :
    Calm { s with timed := s.timed.enqueue m } (stored ++ [m]) := by
  have hmessages : s.timed.mailbox.messages = [] := h.idle.resolve_left (by simp [hwaiting])
  have hfirst : first ∈ s.timed.mailbox.waiting := by simp [hwaiting]
  have hrest : rest ⊆ s.timed.mailbox.waiting := by simp [hwaiting]
  have horder := h.order
  have hplaces := h.places
  rw [hwaiting, List.map_cons, List.append_cons] at horder hplaces
  rw [Timed.enqueue_eq_serve h.rested m hwaiting]
  exact { h with
    idle := .inr hmessages
    early := fun w hw ↦ h.early w (hrest hw)
    fifo := by simp [← h.fifo, hmessages]
    order := by simpa [Timed.served] using horder
    places := by simpa using hplaces
    waits := fun w hw ↦ h.waits w (hrest hw)
    ends := by
      intro o ho
      rcases List.mem_append.mp ho with ho | ho
      · exact h.ends o ho
      · obtain ⟨a, ha, hstart, hdeadline⟩ := h.waits first hfirst
        rw [List.mem_singleton.mp ho]
        exact ⟨a, ha, hstart, hdeadline ▸ (h.early first hfirst).le, nofun⟩ }

theorem Calm.enqueue (h : s.Calm stored) (m : Message) :
    Calm { s with timed := s.timed.enqueue m } (stored ++ [m]) := by
  cases hwaiting : s.timed.mailbox.waiting with
  | nil => exact h.store m hwaiting
  | cons first rest => exact h.serve m hwaiting

/-- What is known of a dequeue stays known when another one begins. -/
theorem Calm.waits_begun (h : s.Calm stored) (a : Asked) : ∀ w ∈ s.timed.mailbox.waiting,
    ∃ b, (s.asked ++ [a])[w.ticket]? = some b ∧ b.start ≤ s.timed.now ∧
      b.deadline = w.deadline := by
  intro w hw
  obtain ⟨b, hb, hrest⟩ := h.waits w hw
  exact ⟨b, getElem?_append_asked hb _, hrest⟩

theorem Calm.ends_begun (h : s.Calm stored) (a : Asked) : ∀ o ∈ s.timed.outcomes,
    ∃ b, (s.asked ++ [a])[o.ticket]? = some b ∧
      b.start ≤ o.time ∧ o.time ≤ b.deadline ∧ (o.got = none → o.time = b.deadline) := by
  intro o ho
  obtain ⟨b, hb, hrest⟩ := h.ends o ho
  exact ⟨b, getElem?_append_asked hb _, hrest⟩

/-- The dequeue that begins has the next ticket. -/
theorem Calm.getElem?_begun (h : s.Calm stored) (a : Asked) :
    (s.asked ++ [a])[s.timed.begun]? = some a := by
  simp [← h.begun]

theorem Calm.fetch (h : s.Calm stored) (timeout : Nat) {m : Message} {rest : List Message}
    (hmessages : s.timed.mailbox.messages = m :: rest) :
    Calm { timed := s.timed.ask timeout, asked := s.asked ++ [⟨s.timed.now, timeout⟩] } stored := by
  have hwaiting : s.timed.mailbox.waiting = [] := h.idle.resolve_right (by simp [hmessages])
  have horder := h.order_begun
  have hplaces := h.places_begun
  rw [hwaiting, List.map_nil, List.nil_append] at horder hplaces
  rw [Timed.ask_eq_fetch h.rested timeout hmessages]
  exact { h with
    permits := rfl
    idle := .inl hwaiting
    fifo := by simp [← h.fifo, hmessages]
    order := by simpa [Timed.served, hwaiting] using horder
    places := by simpa [hwaiting] using hplaces
    begun := by simp [h.begun]
    waits := h.waits_begun _
    ends := by
      intro o ho
      rcases List.mem_append.mp ho with ho | ho
      · exact h.ends_begun _ o ho
      · rw [List.mem_singleton.mp ho]
        exact ⟨_, h.getElem?_begun _, Nat.le_refl _, Nat.le_add_right _ _, nofun⟩ }

theorem Calm.wait (h : s.Calm stored) {timeout : Nat} (hmessages : s.timed.mailbox.messages = [])
    (hpos : 0 < timeout) :
    Calm { timed := s.timed.ask timeout, asked := s.asked ++ [⟨s.timed.now, timeout⟩] } stored := by
  rw [Timed.ask_eq_wait h.rested hmessages hpos]
  exact { h with
    idle := .inr hmessages
    early := by
      intro w hw
      rcases List.mem_append.mp hw with hw | hw
      · exact h.early w hw
      · rw [List.mem_singleton.mp hw]
        exact Nat.lt_add_of_pos_right hpos
    order := by simpa [Timed.served] using h.order_begun
    places := by simpa using h.places_begun
    begun := by simp [h.begun]
    waits := by
      intro w hw
      rcases List.mem_append.mp hw with hw | hw
      · exact h.waits_begun _ w hw
      · rw [List.mem_singleton.mp hw]
        exact ⟨_, h.getElem?_begun _, Nat.le_refl _, rfl⟩
    ends := h.ends_begun _ }

theorem Calm.refuse (h : s.Calm stored) (hmessages : s.timed.mailbox.messages = []) :
    Calm { timed := s.timed.ask 0, asked := s.asked ++ [⟨s.timed.now, 0⟩] } stored := by
  rw [Timed.ask_eq_refuse h.rested hmessages]
  exact { h with
    fifo := by simpa using h.fifo
    order := by simpa [Timed.served] using h.order
    places := by
      rw [List.map_append, List.append_assoc]
      exact (List.perm_append_comm.append_left _).trans h.places_begun
    begun := by simp [h.begun]
    waits := h.waits_begun _
    ends := by
      intro o ho
      rcases List.mem_append.mp ho with ho | ho
      · exact h.ends_begun _ o ho
      · rw [List.mem_singleton.mp ho]
        exact ⟨_, h.getElem?_begun _, Nat.le_refl _, Nat.le_refl _, fun _ ↦ rfl⟩ }

theorem Calm.ask (h : s.Calm stored) (timeout : Nat) :
    Calm { timed := s.timed.ask timeout, asked := s.asked ++ [⟨s.timed.now, timeout⟩] } stored := by
  cases hmessages : s.timed.mailbox.messages with
  | cons m rest => exact h.fetch timeout hmessages
  | nil =>
      cases timeout with
      | zero => exact h.refuse hmessages
      | succ timeout => exact h.wait hmessages (Nat.succ_pos timeout)

theorem Calm.advance (h : s.Calm stored) (ms : Nat) :
    Calm { s with timed := s.timed.advance ms } stored := by
  obtain ⟨gone, hperm, hadvance⟩ := Timed.advance_eq h.rested ms
  have hstay : (s.timed.mailbox.waiting.filter (s.timed.now + ms < ·.deadline)).Sublist
      s.timed.mailbox.waiting := List.filter_sublist
  rw [hadvance, Timed.passed]
  exact { h with
    idle := h.idle.imp_left fun hwaiting ↦ by simp [hwaiting]
    early := fun w hw ↦ of_decide_eq_true (List.mem_filter.mp hw).2
    fifo := by simpa using h.fifo
    order := by
      rw [Timed.served_append rfl, Timed.filter_isSome_lapsed, List.map_nil, List.append_nil]
      exact h.order.sublist ((List.Sublist.refl _).append (hstay.map _))
    places := by
      have hwaiting := (hperm.append_right _).trans (due_append_late _ (s.timed.now + ms))
      have htickets := (hwaiting.map (·.ticket)).append_left (s.timed.outcomes.map (·.ticket))
      simpa [Function.comp_def] using htickets.trans h.places
    waits := fun w hw ↦ by
      obtain ⟨a, ha, hstart, hdeadline⟩ := h.waits w (hstay.subset hw)
      exact ⟨a, ha, hstart.trans (Nat.le_add_right _ _), hdeadline⟩
    ends := by
      intro o ho
      rcases List.mem_append.mp ho with ho | ho
      · exact h.ends o ho
      · obtain ⟨w, hw, rfl⟩ := List.mem_map.mp ho
        obtain ⟨hmem, -⟩ := mem_due.mp (hperm.mem_iff.mp hw)
        obtain ⟨a, ha, hstart, hdeadline⟩ := h.waits w hmem
        exact ⟨a, ha, hstart.trans (hdeadline ▸ (h.early w hmem).le), hdeadline.ge,
          fun _ ↦ hdeadline.symm⟩ }

/-- A dequeue that is waited for is one that begins, and the time until it has to end. -/
theorem Calm.dequeue (h : s.Calm stored) (timeout : Nat) :
    Calm { timed := (s.timed.dequeue timeout).1
           asked := s.asked ++ [⟨s.timed.now, timeout⟩] } stored := by
  have hasked := h.ask timeout
  simp only [Timed.dequeue]
  split
  · exact hasked
  · exact hasked.advance timeout

/-- Every turn keeps the calm. -/
theorem Calm.turn (h : s.Calm stored) (turn : Turn) :
    (s.turn turn).Calm (stored ++ turn.stored?.toList) := by
  cases turn with
  | enqueue m => simpa [Traffic.turn, Timed.turn, Turn.timeout?, Turn.stored?] using h.enqueue m
  | ask timeout =>
      simp only [Turn.stored?, Option.toList_none, List.append_nil]
      exact h.ask timeout
  | dequeue timeout =>
      simp only [Turn.stored?, Option.toList_none, List.append_nil]
      exact h.dequeue timeout
  | advance ms =>
      simpa [Traffic.turn, Timed.turn, Turn.timeout?, Turn.stored?] using h.advance ms

/-- All is calm after any number of turns. -/
theorem calm_play (turns : List Turn) : (play turns).Calm (turns.filterMap Turn.stored?) := by
  induction turns using List.reverseRecOn with
  | nil => exact calm_empty
  | append_singleton turns turn ih =>
      have hplay : play (turns ++ [turn]) = (play turns).turn turn := by simp [play]
      have hturn := ih.turn turn
      rw [hplay, List.filterMap_append]
      cases hstored : turn.stored? <;> simpa [hstored] using hturn

/-! ## How dequeues end -/

theorem Calm.outcome?_begun (h : s.Calm stored) : s.timed.outcome? s.timed.begun = none := by
  refine List.find?_eq_none.mpr fun o ho ↦ ?_
  simpa using (h.lt_begun (List.mem_append_left _ (List.mem_map_of_mem ho))).ne

/-- A dequeue that finds a message returns it at once. -/
theorem Calm.dequeue_eq_fetch (h : s.Calm stored) (timeout : Nat) {m : Message}
    {rest : List Message} (hmessages : s.timed.mailbox.messages = m :: rest) :
    s.timed.dequeue timeout = (s.timed.ask timeout, some m) := by
  have hended : (s.timed.ask timeout).outcome? s.timed.begun =
      some ⟨s.timed.begun, some m, s.timed.now⟩ := by
    rw [Timed.ask_eq_fetch h.rested timeout hmessages]
    have hnone := h.outcome?_begun
    rw [Timed.outcome?] at hnone ⊢
    simp [List.find?_append, hnone]
  simp [Timed.dequeue, hended]

theorem Calm.ends_enqueue (h : s.Calm stored) (m : Message) :
    s.timed.Ends (some m) (s.timed.enqueue m) := by
  cases hwaiting : s.timed.mailbox.waiting with
  | nil => exact .of_outcomes_eq (by rw [Timed.enqueue_eq_store h.rested m hwaiting])
  | cons first rest => exact .of_got (by rw [Timed.enqueue_eq_serve h.rested m hwaiting])

theorem Calm.ends_ask (h : s.Calm stored) (timeout : Nat) :
    s.timed.Ends none (s.timed.ask timeout) := by
  cases hmessages : s.timed.mailbox.messages with
  | cons m rest => exact .of_got (by rw [Timed.ask_eq_fetch h.rested timeout hmessages])
  | nil =>
      cases timeout with
      | succ timeout =>
          exact .of_outcomes_eq (by
            rw [Timed.ask_eq_wait h.rested hmessages (Nat.succ_pos timeout)])
      | zero =>
          refine ⟨[⟨s.timed.begun, none, s.timed.now⟩], ?_, fun o ho _ ↦ ⟨rfl, hmessages, ?_⟩⟩
          · rw [Timed.ask_eq_refuse h.rested hmessages]
          · rw [List.mem_singleton.mp ho]
            exact h.served_lt_begun

theorem Calm.ends_advance (h : s.Calm stored) (ms : Nat) :
    s.timed.Ends none (s.timed.advance ms) := by
  obtain ⟨gone, hperm, hadvance⟩ := Timed.advance_eq h.rested ms
  refine ⟨_, by rw [hadvance, Timed.passed], fun o ho _ ↦ ?_⟩
  obtain ⟨w, hw, rfl⟩ := List.mem_map.mp ho
  obtain ⟨hmem, -⟩ := mem_due.mp (hperm.mem_iff.mp hw)
  refine ⟨rfl, h.idle.resolve_left (List.ne_nil_of_mem hmem), fun ticket hticket ↦ ?_⟩
  exact (List.pairwise_append.mp h.order).2.2 ticket hticket w.ticket (List.mem_map_of_mem hmem)

theorem Calm.ends_dequeue (h : s.Calm stored) (timeout : Nat) :
    s.timed.Ends none (s.timed.dequeue timeout).1 := by
  cases hmessages : s.timed.mailbox.messages with
  | cons m rest =>
      rw [h.dequeue_eq_fetch timeout hmessages]
      exact h.ends_ask timeout
  | nil =>
      simp only [Timed.dequeue]
      split
      · exact h.ends_ask timeout
      · exact (h.ends_ask timeout).trans ((h.ask timeout).ends_advance timeout) hmessages

/-- Who ends without a message in a turn does so for want of one. -/
theorem Calm.ends_turn (h : s.Calm stored) (turn : Turn) :
    s.timed.Ends turn.stored? (s.turn turn).timed := by
  cases turn with
  | enqueue m => exact h.ends_enqueue m
  | ask timeout => exact h.ends_ask timeout
  | dequeue timeout => exact h.ends_dequeue timeout
  | advance ms => exact h.ends_advance ms

/-- A dequeue that finds no message and is waited for ends without one. -/
theorem Calm.dequeue_snd (h : s.Calm stored) (timeout : Nat)
    (hmessages : s.timed.mailbox.messages = []) : (s.timed.dequeue timeout).2 = none := by
  obtain ⟨ended, heq, -⟩ := h.ends_dequeue timeout
  have hended : ended.filterMap (·.got) = [] := by
    have hfifo := (h.dequeue timeout).fifo
    have hbefore := h.fifo
    rw [hmessages, List.append_nil] at hbefore
    rw [heq, List.filterMap_append, hbefore, List.append_assoc] at hfifo
    exact (List.append_eq_nil_iff.mp (List.append_right_eq_self.mp hfifo)).1
  -- its ticket is one that nobody had before
  refine Option.bind_eq_none_iff.mpr fun o ho ↦ ?_
  have hticket : o.ticket = s.timed.begun := by simpa using List.find?_some ho
  have hmem : o ∈ (s.timed.dequeue timeout).1.outcomes := List.mem_of_find?_eq_some ho
  rw [heq] at hmem
  rcases List.mem_append.mp hmem with hold | hnew
  · exact absurd hticket (h.lt_begun (List.mem_append_left _ (List.mem_map_of_mem hold))).ne
  · exact List.filterMap_eq_nil_iff.mp hended o hnew

/-- It takes exactly as long as it may wait. -/
theorem Calm.now_dequeue (h : s.Calm stored) (timeout : Nat)
    (hmessages : s.timed.mailbox.messages = []) :
    (s.timed.dequeue timeout).1.now = s.timed.now + timeout := by
  have hnone := h.outcome?_begun
  cases timeout with
  | zero =>
      have hended : (s.timed.ask 0).outcome? s.timed.begun =
          some ⟨s.timed.begun, none, s.timed.now⟩ := by
        rw [Timed.outcome?] at hnone ⊢
        simp [Timed.ask_eq_refuse h.rested hmessages, List.find?_append, hnone]
      simp only [Timed.dequeue, hended, Option.isSome_some, if_true]
      rw [Timed.ask_eq_refuse h.rested hmessages]
      rfl
  | succ timeout =>
      have hask := Timed.ask_eq_wait h.rested hmessages (Nat.succ_pos timeout)
      obtain ⟨gone, -, hadvance⟩ := Timed.advance_eq (h.ask (timeout + 1)).rested (timeout + 1)
      have hwaits : (s.timed.ask (timeout + 1)).outcome? s.timed.begun = none := by
        rwa [hask]
      simp only [Timed.dequeue, hwaits, Option.isSome_none, Bool.false_eq_true, if_false]
      rw [hadvance, Timed.passed, hask]

/-- A mailbox that nobody has asked for anything is calm. -/
theorem calm_of_quiet {b : Mailbox} (h : b.Quiet) (now : Nat) :
    Calm { timed := { mailbox := b, now } } b.messages where
  owed := rfl
  holding := h.2.2
  permits := h.1
  idle := .inl h.2.1
  early := by simp [h.2.1]
  fifo := rfl
  order := by simp [Timed.served, h.2.1]
  places := by simp [h.2.1]
  begun := rfl
  waits := by simp [h.2.1]
  ends := by simp

end Traffic

theorem eq_empty_of_quiet {b : Mailbox} (hmessages : b.messages = []) (h : b.Quiet) : b = {} := by
  obtain ⟨messages, permits, waiting, holding⟩ := b
  obtain ⟨hpermits, hwaiting, hholding⟩ := h
  simp_all

/-- The only dequeue on a mailbox is a poll, however long it may wait. -/
theorem dequeue_eq_poll {b : Mailbox} (h : b.Quiet) (now timeout : Nat) :
    ((({ mailbox := b, now } : Timed).dequeue timeout).1.mailbox,
      (({ mailbox := b, now } : Timed).dequeue timeout).2) = b.poll := by
  have hcalm := Traffic.calm_of_quiet h now
  obtain ⟨hpermits, hwaiting, hholding⟩ := h
  cases hmessages : b.messages with
  | cons m rest =>
      rw [hmessages] at hpermits
      rw [hcalm.dequeue_eq_fetch timeout hmessages,
        Timed.ask_eq_fetch hcalm.rested timeout hmessages]
      simp [poll, hpermits, hmessages]
  | nil =>
      have hafter := hcalm.dequeue timeout
      -- time is over for whoever could still be waiting
      have hnobody : (({ mailbox := b, now } : Timed).dequeue timeout).1.mailbox.waiting = [] := by
        refine List.eq_nil_iff_forall_not_mem.mpr fun w hw ↦ ?_
        obtain ⟨a, ha, -, hdeadline⟩ := hafter.waits w hw
        have hearly := hafter.early w hw
        rw [hcalm.now_dequeue timeout hmessages, ← hdeadline,
          List.mem_singleton.mp (List.mem_of_getElem? ha)] at hearly
        exact Nat.lt_irrefl _ hearly
      have hnothing := (List.append_eq_nil_iff.mp (hafter.fifo.trans hmessages)).2
      have hfirst : b = {} := eq_empty_of_quiet hmessages ⟨hpermits, hwaiting, hholding⟩
      have hlast := eq_empty_of_quiet hnothing ⟨hafter.permits, hnobody, hafter.holding⟩
      rw [hcalm.dequeue_snd timeout hmessages, hlast, hfirst]
      rfl

/-- Whatever is enqueued and whoever waits, the mailbox is at rest after each turn, and nobody waits
beside a message. Messages go out in their order, to dequeues in the order in which they began. Who
finds a message has it at once, even without waiting; who is waited for in vain is so for exactly
its timeout. Every dequeue that has begun waits with its deadline to come or has ended once and in
time, without a message exactly at its deadline, when all messages there were had gone to dequeues
that began before it. -/
theorem every_wait_ends_on_time (turns : List Turn) :
    let s := Traffic.play turns
    let t := s.timed
    let stored := turns.filterMap Turn.stored?
    t.Settled ∧ (t.mailbox.waiting ≠ [] → t.mailbox.messages = []) ∧
      t.outcomes.filterMap (·.got) ++ t.mailbox.messages = stored ∧
      (t.served ++ t.mailbox.waiting.map (·.ticket)).Pairwise (· < ·) ∧
      (∀ m rest timeout, t.mailbox.messages = m :: rest →
        t.dequeue timeout = (t.ask timeout, some m) ∧
          (t.ask timeout).mailbox.messages = rest ∧ (t.ask timeout).now = t.now ∧
          (t.ask timeout).outcomes = t.outcomes ++ [⟨t.begun, some m, t.now⟩]) ∧
      (∀ timeout, t.mailbox.messages = [] →
        (t.dequeue timeout).2 = none ∧ (t.dequeue timeout).1.now = t.now + timeout) ∧
      (t.outcomes.map (·.ticket) ++ t.mailbox.waiting.map (·.ticket)).Perm
        (List.range s.asked.length) ∧
      (∀ w ∈ t.mailbox.waiting, ∃ a, s.asked[w.ticket]? = some a ∧ t.now < a.start + a.timeout) ∧
      (∀ o ∈ t.outcomes, ∃ a, s.asked[o.ticket]? = some a ∧
        a.start ≤ o.time ∧ o.time ≤ a.start + a.timeout ∧
        (o.got = none → o.time = a.start + a.timeout)) ∧
      ∀ turn, ∃ ended, (s.turn turn).timed.outcomes = t.outcomes ++ ended ∧
        ∀ o ∈ ended, o.got = none →
          turn.stored? = none ∧ t.outcomes.filterMap (·.got) = stored ∧
            ∀ ticket ∈ t.served, ticket < o.ticket := by
  intro s t stored
  have h : s.Calm stored := Traffic.calm_play turns
  refine ⟨h.rested.settled, h.idle.resolve_left, h.fifo, h.order, fun m rest timeout hmessages ↦ ?_,
    fun timeout hmessages ↦ ⟨h.dequeue_snd timeout hmessages, h.now_dequeue timeout hmessages⟩,
    h.begun ▸ h.places, fun w hw ↦ ?_, h.ends, fun turn ↦ ?_⟩
  · refine ⟨h.dequeue_eq_fetch timeout hmessages, ?_⟩
    rw [Timed.ask_eq_fetch h.rested timeout hmessages]
    exact ⟨rfl, rfl, rfl⟩
  · obtain ⟨a, ha, -, hdeadline⟩ := h.waits w hw
    exact ⟨a, ha, (h.early w hw).trans_eq hdeadline.symm⟩
  · obtain ⟨ended, heq, hended⟩ := h.ends_turn turn
    refine ⟨ended, heq, fun o ho hnone ↦ ?_⟩
    obtain ⟨hstored, hempty, hserved⟩ := hended o ho hnone
    have hfifo := h.fifo
    rw [hempty, List.append_nil] at hfifo
    exact ⟨hstored, hfifo, hserved⟩

/-- The second of three dequeues gives up first, the first is served, and the third gives up in
time. -/
example (m m' : Message) :
    (Traffic.play [.ask 50, .ask 10, .ask 30, .advance 20, .enqueue m, .advance 10, .enqueue m',
      .dequeue 0]).timed.outcomes =
      [⟨1, none, 10⟩, ⟨0, some m, 20⟩, ⟨2, none, 30⟩, ⟨3, some m', 30⟩] := by
  cbv

end ChatRelay.Mailbox
