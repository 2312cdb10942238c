import ChatRelay.Mailbox.Timed
import Mathlib.Data.List.Nodup

/-!
# Any number of dequeues on one mailbox

Enqueues and dequeues share a mailbox in any interleaving of their smallest pieces: a message is
stored and its permit given later, a permit is handed to any of the waiting dequeues, and a timeout
may fire when its dequeue has been handed a permit already, which then goes back. `Traffic.Sound`
says that messages and permits agree all the time, whoever gets a permit and whoever goes on first.
`mailbox_loses_nothing` is the statement over all interleavings; that permits go to waiting dequeues
in order is one way among others in which they happen (`Traffic.Sound.exists_pieces`).
-/

namespace ChatRelay.Mailbox

open Wire

/-! ## Dequeues under way -/

/-- When a dequeue began, and how long it may wait. -/
structure Asked where
  start : Nat
  timeout : Nat
  deriving DecidableEq, Repr

/-- When the dequeue has to give up. -/
def Asked.deadline (a : Asked) : Nat :=
  a.start + a.timeout

/-- What was asked stays known. -/
theorem getElem?_append_asked {asked : List Asked} {ticket : Nat} {a : Asked}
    (h : asked[ticket]? = some a) (more : List Asked) : (asked ++ more)[ticket]? = some a := by
  rw [List.getElem?_append_left (List.getElem?_eq_some_iff.mp h).1, h]

/-- The tickets of the dequeues under way. -/
def tickets (b : Mailbox) : List Nat :=
  b.waiting.map (·.ticket) ++ b.holding

/-- A waiting dequeue is handed a free permit. -/
def grant (b : Mailbox) (ticket : Nat) : Mailbox :=
  { b with
    permits := b.permits - 1
    waiting := b.waiting.filter (·.ticket != ticket)
    holding := b.holding ++ [ticket] }

/-- A dequeue is cancelled: it leaves the queue, and a permit that it was handed is free again. -/
def withdraw (b : Mailbox) (ticket : Nat) : Mailbox :=
  if b.holds ticket then
    { b with permits := b.permits + 1, holding := b.holding.erase ticket }
  else b.giveUp ticket

variable {b : Mailbox} {ticket : Nat}

theorem holds_iff_mem : b.holds ticket = true ↔ ticket ∈ b.holding := by
  simp [holds]

theorem map_ticket_filter (waiting : List Waiting) (ticket : Nat) :
    (waiting.filter (·.ticket != ticket)).map (·.ticket) =
      (waiting.map (·.ticket)).filter (· != ticket) := by
  rw [List.filter_map]
  rfl

/-- Of distinct tickets one leaves. -/
theorem perm_cons_filter {tickets : List Nat} (hnodup : tickets.Nodup) (hmem : ticket ∈ tickets) :
    tickets.Perm (ticket :: tickets.filter (· != ticket)) := by
  rw [← hnodup.erase_eq_filter]
  exact List.perm_cons_erase hmem

/-- A dequeue that takes its message is not under way any longer. -/
theorem tickets_take (h : b.holds ticket = true) :
    b.tickets.Perm (ticket :: (b.take ticket).1.tickets) := by
  have hholding := List.perm_cons_erase (holds_iff_mem.mp h)
  exact (hholding.append_left _).trans List.perm_middle

/-- A permit handed to a dequeue leaves the same dequeues under way. -/
theorem tickets_grant (hnodup : b.tickets.Nodup) (hmem : ticket ∈ b.waiting.map (·.ticket)) :
    b.tickets.Perm (b.grant ticket).tickets := by
  have hwaiting := perm_cons_filter hnodup.of_append_left hmem
  simp only [tickets, grant, map_ticket_filter]
  refine (hwaiting.append_right _).trans ?_
  rw [← List.append_assoc]
  exact (List.perm_append_singleton _ _).symm

/-- A dequeue that is cancelled is not under way any longer. -/
theorem tickets_withdraw (hnodup : b.tickets.Nodup) (hmem : ticket ∈ b.tickets) :
    b.tickets.Perm (ticket :: (b.withdraw ticket).tickets) := by
  unfold withdraw
  by_cases hholds : b.holds ticket = true
  · rw [if_pos hholds]
    exact tickets_take hholds
  · rw [if_neg hholds]
    have hwaiting : ticket ∈ b.waiting.map (·.ticket) :=
      (List.mem_append.mp hmem).resolve_right fun hholding ↦ hholds (holds_iff_mem.mpr hholding)
    simp only [tickets, giveUp, map_ticket_filter]
    exact (perm_cons_filter hnodup.of_append_left hwaiting).append_right _

theorem tickets_withdraw_sublist (b : Mailbox) (ticket : Nat) :
    (b.withdraw ticket).tickets.Sublist b.tickets := by
  unfold withdraw
  split
  · exact (List.Sublist.refl _).append (List.erase_sublist)
  · exact (List.filter_sublist.map _).append (List.Sublist.refl _)

@[simp] theorem messages_withdraw (b : Mailbox) (ticket : Nat) :
    (b.withdraw ticket).messages = b.messages := by
  unfold withdraw
  split <;> rfl

theorem waiting_withdraw_subset (b : Mailbox) (ticket : Nat) :
    (b.withdraw ticket).waiting ⊆ b.waiting := by
  unfold withdraw
  split
  · exact fun _ h ↦ h
  · exact List.filter_subset_self _

/-! ## Messages and permits -/

/-- There are as many permits, free or held, as messages, less those whose enqueue is half done. -/
def Balanced (b : Mailbox) (owed : Nat) : Prop :=
  b.permits + b.holding.length + owed = b.messages.length

namespace Balanced

variable {owed : Nat}

/-- Whoever was handed a permit finds a message, the first one, and takes it. -/
theorem take (h : b.Balanced owed) (hholds : b.holds ticket = true) :
    ∃ m, (b.take ticket).2 = some m ∧ b.messages = m :: (b.take ticket).1.messages ∧
      (b.take ticket).1.Balanced owed := by
  have hmem := holds_iff_mem.mp hholds
  have hpos := List.length_pos_of_mem hmem
  have hlength := List.length_erase_of_mem hmem
  rw [Balanced] at h
  obtain ⟨m, rest, hmessages⟩ := List.exists_cons_of_length_pos
    (show 0 < b.messages.length by omega)
  rw [hmessages, List.length_cons] at h
  simp only [Mailbox.take, hmessages, List.head?_cons, List.tail_cons, Balanced]
  exact ⟨m, rfl, rfl, by omega⟩

theorem push (h : b.Balanced owed) (m : Message) : (b.push m).Balanced (owed + 1) := by
  rw [Balanced] at h
  simp only [Balanced, Mailbox.push, List.length_append, List.length_singleton]
  omega

theorem grant (h : b.Balanced owed) (hpermits : 0 < b.permits) (ticket : Nat) :
    (b.grant ticket).Balanced owed := by
  rw [Balanced] at h
  simp only [Balanced, Mailbox.grant, List.length_append, List.length_singleton]
  omega

/-- No permit is lost with a dequeue that is cancelled. -/
theorem withdraw (h : b.Balanced owed) (ticket : Nat) : (b.withdraw ticket).Balanced owed := by
  unfold Mailbox.withdraw
  split
  · rename_i hholds
    have hmem := holds_iff_mem.mp hholds
    have hpos := List.length_pos_of_mem hmem
    rw [Balanced] at h
    simp only [Balanced, List.length_erase_of_mem hmem]
    omega
  · exact h

end Balanced

/-! ## Tickets -/

/-- These are different tickets, and all of them were given out. -/
structure Issued (begun : Nat) (tickets : List Nat) : Prop where
  nodup : tickets.Nodup
  lt : ∀ ticket ∈ tickets, ticket < begun

namespace Issued

variable {begun : Nat} {old new : List Nat}

theorem perm (h : Issued begun old) (hperm : old.Perm new) : Issued begun new :=
  ⟨hperm.nodup h.nodup, fun ticket hticket ↦ h.lt ticket (hperm.mem_iff.mpr hticket)⟩

theorem sublist (h : Issued begun old) (hsub : new.Sublist old) : Issued begun new :=
  ⟨h.nodup.sublist hsub, fun ticket hticket ↦ h.lt ticket (hsub.subset hticket)⟩

/-- The next ticket is a new one. -/
theorem next (h : Issued begun old) : Issued (begun + 1) (old ++ [begun]) where
  nodup := by
    refine h.nodup.append (List.nodup_singleton _) fun ticket hold hnew ↦ ?_
    exact Nat.ne_of_lt (h.lt ticket hold) (List.mem_singleton.mp hnew)
  lt ticket hticket := by
    rcases List.mem_append.mp hticket with hold | hnew
    · exact Nat.lt_succ_of_lt (h.lt ticket hold)
    · rw [List.mem_singleton.mp hnew]
      exact Nat.lt_succ_self begun

end Issued

/-! ## Pieces -/

/-- The smallest pieces of what can happen to a mailbox. -/
inductive Piece where
  /-- An enqueue stores its message. -/
  | push (m : Message)
  /-- An enqueue that has stored its message gives the permit. -/
  | release
  /-- A dequeue begins, with the next ticket, and waits for a permit. -/
  | ask (timeout : Nat)
  /-- A waiting dequeue, whichever it is, is handed a free permit. -/
  | grant (ticket : Nat)
  /-- A dequeue that was handed a permit takes its message. -/
  | take (ticket : Nat)
  /-- The timeout of a dequeue under way fires; it may have been handed a permit already. -/
  | expire (ticket : Nat)
  /-- The caller of a dequeue does not wait for it any longer. -/
  | abandon (ticket : Nat)
  /-- Time passes. -/
  | pass (ms : Nat)

/-- The message that a piece stores. -/
def Piece.stored? : Piece → Option Message
  | .push m => some m
  | _ => none

/-- The message that a move stores. -/
def Move.stored? : Move → Option Message
  | .push m => some m
  | _ => none

/-- A mailbox in time, and all dequeues that were begun, by their tickets. -/
structure Traffic where
  timed : Timed := {}
  asked : List Asked := []

namespace Traffic

/-- Change the mailbox. -/
def update (s : Traffic) (change : Mailbox → Mailbox) : Traffic :=
  { s with timed := { s.timed with mailbox := change s.timed.mailbox } }

/-- The timeout of this dequeue has run out, and it is still under way. -/
def mayExpire (s : Traffic) (ticket : Nat) : Bool :=
  s.timed.mailbox.tickets.contains ticket &&
    match s.asked[ticket]? with
    | some a => decide (a.deadline ≤ s.timed.now)
    | none => false

theorem mayExpire_iff {s : Traffic} {ticket : Nat} :
    s.mayExpire ticket = true ↔ ticket ∈ s.timed.mailbox.tickets ∧
      ∃ a, s.asked[ticket]? = some a ∧ a.deadline ≤ s.timed.now := by
  rw [mayExpire, Bool.and_eq_true, List.contains_iff_mem]
  cases s.asked[ticket]? <;> simp

/-- The piece happens if it can; otherwise nothing does. -/
def act (s : Traffic) : Piece → Traffic
  | .push m => { s with timed := s.timed.move (.push m) }
  | .release =>
      match s.timed.owed with
      | 0 => s
      | owed + 1 =>
          { s with timed := { s.timed with owed } }.update fun b ↦
            { b with permits := b.permits + 1 }
  | .ask timeout =>
      { timed := { s.timed with
          begun := s.timed.begun + 1
          mailbox := { s.timed.mailbox with
            waiting := s.timed.mailbox.waiting ++ [⟨s.timed.begun, s.timed.now + timeout⟩] } }
        asked := s.asked ++ [⟨s.timed.now, timeout⟩] }
  | .grant ticket =>
      if 0 < s.timed.mailbox.permits ∧ ticket ∈ s.timed.mailbox.waiting.map (·.ticket) then
        s.update (·.grant ticket)
      else s
  | .take ticket => { s with timed := s.timed.move (.take ticket) }
  | .expire ticket =>
      if s.mayExpire ticket then
        { s with timed := { s.timed with
            mailbox := s.timed.mailbox.withdraw ticket
            outcomes := s.timed.outcomes ++ [⟨ticket, none, s.timed.now⟩] } }
      else s
  | .abandon ticket => s.update (·.withdraw ticket)
  | .pass ms => { s with timed := s.timed.move (.pass ms) }

/-- One piece after the other. -/
def run (s : Traffic) (pieces : List Piece) : Traffic :=
  pieces.foldl act s

/-- Messages and permits agree, every dequeue has one place, and none ends without a message before
its time. -/
structure Sound (s : Traffic) (stored : List Message) : Prop where
  fifo : s.timed.outcomes.filterMap (·.got) ++ s.timed.mailbox.messages = stored
  balance : s.timed.mailbox.Balanced s.timed.owed
  issued : Issued s.timed.begun
    (s.timed.outcomes.map (·.ticket) ++ s.timed.mailbox.tickets)
  begun : s.asked.length = s.timed.begun
  waits : ∀ w ∈ s.timed.mailbox.waiting, ∃ a, s.asked[w.ticket]? = some a ∧ a.deadline = w.deadline
  late : ∀ o ∈ s.timed.outcomes, o.got = none →
    ∃ a, s.asked[o.ticket]? = some a ∧ a.deadline ≤ o.time

variable {s : Traffic} {stored : List Message}

theorem sound_empty : Sound {} [] where
  fifo := rfl
  balance := rfl
  issued := ⟨List.nodup_nil, by simp [tickets]⟩
  begun := rfl
  waits := by simp
  late := by simp

theorem Sound.push (h : s.Sound stored) (m : Message) :
    (s.act (.push m)).Sound (stored ++ [m]) where
  fifo := by
    rw [← h.fifo, List.append_assoc]
    rfl
  balance := h.balance.push m
  issued := h.issued
  begun := h.begun
  waits := h.waits
  late := h.late

theorem Sound.release (h : s.Sound stored) : (s.act .release).Sound stored := by
  simp only [Traffic.act]
  split
  · exact h
  · rename_i howed
    refine ⟨h.fifo, ?_, h.issued, h.begun, h.waits, h.late⟩
    have hbalance := h.balance
    simp only [update, Balanced] at hbalance ⊢
    omega

theorem Sound.ask (h : s.Sound stored) (timeout : Nat) :
    (s.act (.ask timeout)).Sound stored := by
  refine ⟨h.fifo, h.balance, ?_, ?_, fun w hw ↦ ?_, fun o ho hnone ↦ ?_⟩
  · refine h.issued.next.perm ?_
    simp only [Traffic.act, tickets, List.map_append, List.map_cons, List.map_nil,
      List.append_assoc]
    have hlast : (s.timed.mailbox.holding ++ [s.timed.begun]).Perm
        ([s.timed.begun] ++ s.timed.mailbox.holding) := List.perm_append_comm
    exact (hlast.append_left _).append_left _
  · simp [Traffic.act, h.begun]
  · rcases List.mem_append.mp hw with hw | hw
    · obtain ⟨a, ha, hdeadline⟩ := h.waits w hw
      exact ⟨a, getElem?_append_asked ha _, hdeadline⟩
    · rw [List.mem_singleton.mp hw]
      exact ⟨⟨s.timed.now, timeout⟩, by simp [Traffic.act, ← h.begun], rfl⟩
  · obtain ⟨a, ha, hdeadline⟩ := h.late o ho hnone
    exact ⟨a, getElem?_append_asked ha _, hdeadline⟩

theorem Sound.grant (h : s.Sound stored) (ticket : Nat) :
    (s.act (.grant ticket)).Sound stored := by
  simp only [Traffic.act]
  split
  · rename_i hcan
    obtain ⟨hpermits, hwaiting⟩ := hcan
    refine ⟨h.fifo, h.balance.grant hpermits ticket, ?_, h.begun,
      fun w hw ↦ h.waits w (List.mem_of_mem_filter hw), h.late⟩
    exact h.issued.perm ((tickets_grant h.issued.nodup.of_append_right hwaiting).append_left _)
  · exact h

theorem Sound.take (h : s.Sound stored) (ticket : Nat) :
    (s.act (.take ticket)).Sound stored := by
  simp only [Traffic.act, Timed.move]
  split
  · rename_i hholds
    obtain ⟨m, hgot, hmessages, hbalance⟩ := h.balance.take hholds
    refine ⟨?_, hbalance, ?_, h.begun, h.waits, fun o ho hnone ↦ ?_⟩
    · simp only [List.filterMap_append, hgot, List.filterMap_cons, List.filterMap_nil]
      rw [List.append_assoc, List.singleton_append, ← hmessages, h.fifo]
    · refine h.issued.perm ?_
      rw [List.map_append, List.append_assoc]
      exact (tickets_take hholds).append_left _
    · rcases List.mem_append.mp ho with ho | ho
      · exact h.late o ho hnone
      · rw [List.mem_singleton.mp ho, hgot] at hnone
        cases hnone
  · exact h

theorem Sound.expire (h : s.Sound stored) (ticket : Nat) :
    (s.act (.expire ticket)).Sound stored := by
  simp only [Traffic.act]
  split
  · rename_i hmay
    obtain ⟨hmem, a, ha, hdeadline⟩ := mayExpire_iff.mp hmay
    refine ⟨?_, h.balance.withdraw ticket, ?_, h.begun,
      fun w hw ↦ h.waits w (waiting_withdraw_subset _ _ hw), fun o ho hnone ↦ ?_⟩
    · rw [List.filterMap_append, messages_withdraw]
      simpa using h.fifo
    · refine h.issued.perm ?_
      rw [List.map_append, List.append_assoc]
      exact (tickets_withdraw h.issued.nodup.of_append_right hmem).append_left _
    · rcases List.mem_append.mp ho with ho | ho
      · exact h.late o ho hnone
      · rw [List.mem_singleton.mp ho]
        exact ⟨a, ha, hdeadline⟩
  · exact h

theorem Sound.abandon (h : s.Sound stored) (ticket : Nat) :
    (s.act (.abandon ticket)).Sound stored where
  fifo := by
    rw [← h.fifo]
    exact congrArg _ (messages_withdraw _ _)
  balance := h.balance.withdraw ticket
  issued := h.issued.sublist ((List.Sublist.refl _).append (tickets_withdraw_sublist _ _))
  begun := h.begun
  waits w hw := h.waits w (waiting_withdraw_subset _ _ hw)
  late := h.late

/-- Every piece keeps messages and permits in agreement. -/
theorem Sound.act (h : s.Sound stored) (piece : Piece) :
    (s.act piece).Sound (stored ++ piece.stored?.toList) := by
  cases piece with
  | push m => exact h.push m
  | release => simpa [Piece.stored?] using h.release
  | ask timeout => simpa [Piece.stored?] using h.ask timeout
  | grant ticket => simpa [Piece.stored?] using h.grant ticket
  | take ticket => simpa [Piece.stored?] using h.take ticket
  | expire ticket => simpa [Piece.stored?] using h.expire ticket
  | abandon ticket => simpa [Piece.stored?] using h.abandon ticket
  | pass ms =>
      simp only [Piece.stored?, Option.toList_none, List.append_nil]
      exact ⟨h.fifo, h.balance, h.issued, h.begun, h.waits, h.late⟩

/-- Messages and permits agree after any interleaving. -/
theorem Sound.run (h : s.Sound stored) (pieces : List Piece) :
    (s.run pieces).Sound (stored ++ pieces.filterMap Piece.stored?) := by
  induction pieces generalizing s stored with
  | nil => simpa [Traffic.run] using h
  | cons piece rest ih =>
      have hrest := ih (h.act piece)
      rw [List.append_assoc] at hrest
      cases hstored : piece.stored? <;> simpa [hstored, Traffic.run] using hrest

/-! ## Permits in the order of waiting -/

/-- The pieces change nothing else than a move of the mailbox does. -/
def Matches (s : Traffic) (pieces : List Piece) (move : Move) : Prop :=
  (s.run pieces).timed = s.timed.move move ∧
    pieces.filterMap Piece.stored? = move.stored?.toList

theorem Sound.matches_release (h : s.Sound stored) : ∃ pieces, s.Matches pieces .release := by
  cases howed : s.timed.owed with
  | zero => exact ⟨[], by simp [Traffic.run, Timed.move, howed], rfl⟩
  | succ owed =>
      cases hwaiting : s.timed.mailbox.waiting with
      | nil =>
          refine ⟨[.release], ?_, rfl⟩
          simp [Traffic.run, Traffic.act, update, Timed.move, Mailbox.release, howed, hwaiting]
      | cons first rest =>
          refine ⟨[.release, .grant first.ticket], ?_, rfl⟩
          have hnodup := h.issued.nodup.of_append_right.of_append_left
          rw [hwaiting, List.map_cons, List.nodup_cons] at hnodup
          have hrest : rest.filter (·.ticket != first.ticket) = rest := by
            rw [List.filter_eq_self]
            intro w hw
            simpa using fun heq ↦ hnodup.1 (List.mem_map.mpr ⟨w, hw, heq⟩)
          simp [Traffic.run, Traffic.act, update, Timed.move, Mailbox.release, Mailbox.grant, howed,
            hwaiting, hrest]

theorem Sound.matches_ask (h : s.Sound stored) (timeout : Nat) :
    ∃ pieces, s.Matches pieces (.ask timeout) := by
  cases hpermits : s.timed.mailbox.permits with
  | zero =>
      exact ⟨[.ask timeout], by
        simp [Traffic.run, Traffic.act, Timed.move, Mailbox.ask, hpermits], rfl⟩
  | succ permits =>
      refine ⟨[.ask timeout, .grant s.timed.begun], ?_, rfl⟩
      have hold : s.timed.mailbox.waiting.filter (·.ticket != s.timed.begun) =
          s.timed.mailbox.waiting := by
        rw [List.filter_eq_self]
        intro w hw
        have hlt := h.issued.lt w.ticket (List.mem_append_right _
          (List.mem_append_left _ (List.mem_map_of_mem hw)))
        simpa using Nat.ne_of_lt hlt
      simp [Traffic.run, Traffic.act, update, Timed.move, Mailbox.ask, Mailbox.grant, hpermits,
        hold]

theorem Sound.matches_lapse (h : s.Sound stored) (ticket : Nat) :
    ∃ pieces, s.Matches pieces (.lapse ticket) := by
  cases hdue : s.timed.mailbox.isDue ticket s.timed.now with
  | false => exact ⟨[], by simp [Traffic.run, Timed.move, hdue], rfl⟩
  | true =>
      refine ⟨[.expire ticket], ?_, rfl⟩
      obtain ⟨w, hw, heq⟩ := List.any_eq_true.mp hdue
      obtain ⟨hwaiting, hdeadline⟩ := List.mem_filter.mp hw
      have hticket := beq_iff_eq.mp heq
      have hplace : ticket ∈ s.timed.mailbox.waiting.map (·.ticket) :=
        List.mem_map.mpr ⟨w, hwaiting, hticket⟩
      obtain ⟨a, ha, hlate⟩ := h.waits w hwaiting
      have hmay : s.mayExpire ticket = true := mayExpire_iff.mpr
        ⟨List.mem_append_left _ hplace, a, hticket ▸ ha, hlate ▸ of_decide_eq_true hdeadline⟩
      have hholds : s.timed.mailbox.holds ticket = false := by
        have hdisjoint := List.disjoint_of_nodup_append h.issued.nodup.of_append_right
        exact Bool.eq_false_iff.mpr fun hholds ↦ hdisjoint hplace (holds_iff_mem.mp hholds)
      simp [Traffic.run, Traffic.act, Timed.move, hdue, hmay, withdraw, hholds]

/-- What the mailbox does in one move happens piece by piece. -/
theorem Sound.matches (h : s.Sound stored) (move : Move) : ∃ pieces, s.Matches pieces move := by
  cases move with
  | push m => exact ⟨[.push m], rfl, rfl⟩
  | release => exact h.matches_release
  | ask timeout => exact h.matches_ask timeout
  | take ticket => exact ⟨[.take ticket], rfl, rfl⟩
  | lapse ticket => exact h.matches_lapse ticket
  | pass ms => exact ⟨[.pass ms], rfl, rfl⟩

/-- Every run of moves is an interleaving of pieces. -/
theorem Sound.exists_pieces (h : s.Sound stored) (moves : List Move) :
    ∃ pieces, (s.run pieces).timed = moves.foldl Timed.move s.timed ∧
      pieces.filterMap Piece.stored? = moves.filterMap Move.stored? := by
  induction moves generalizing s stored with
  | nil => exact ⟨[], rfl, rfl⟩
  | cons move rest ih =>
      obtain ⟨first, hfirst, hstored⟩ := h.matches move
      obtain ⟨pieces, hpieces, hrest⟩ := ih (h.run first)
      refine ⟨first ++ pieces, ?_, ?_⟩
      · rw [Traffic.run, List.foldl_append]
        exact hpieces.trans (by rw [hfirst]; rfl)
      · rw [List.filterMap_append, hstored, hrest]
        cases hmove : move.stored? <;> simp [hmove]

end Traffic

/-- Whatever any number of enqueues and dequeues do at the same time, the messages returned so far,
in the order in which they were removed, and those still stored are the messages enqueued, in order;
the permits that are free or handed to somebody are as many as there are messages, those apart whose
enqueue is half done; whoever was handed one finds a message; and a dequeue without a message ended
after its timeout and removed nothing. Every run of moves is among these. -/
theorem mailbox_loses_nothing (pieces : List Piece) :
    let s := Traffic.run {} pieces
    let b := s.timed.mailbox
    s.timed.outcomes.filterMap (·.got) ++ b.messages = pieces.filterMap Piece.stored? ∧
      b.permits + b.holding.length + s.timed.owed = b.messages.length ∧
      (∀ ticket, b.holds ticket = true → ∃ m, (b.take ticket).2 = some m ∧
        b.messages = m :: (b.take ticket).1.messages) ∧
      (∀ o ∈ s.timed.outcomes, o.got = none →
        ∃ a, s.asked[o.ticket]? = some a ∧ a.start + a.timeout ≤ o.time) ∧
      (∀ piece o, (s.act piece).timed.outcomes = s.timed.outcomes ++ [o] → o.got = none →
        (s.act piece).timed.mailbox.messages = b.messages) ∧
      (s.timed.outcomes.map (·.ticket)).Nodup ∧
      ∀ moves : List Move, ∃ pieces,
        (Traffic.run {} pieces).timed = moves.foldl Timed.move {} ∧
          pieces.filterMap Piece.stored? = moves.filterMap Move.stored? := by
  intro s b
  have h : s.Sound (pieces.filterMap Piece.stored?) := Traffic.sound_empty.run pieces
  refine ⟨h.fifo, h.balance, fun ticket hholds ↦ ?_, h.late, fun piece o hended hnone ↦ ?_,
    h.issued.nodup.of_append_left, Traffic.sound_empty.exists_pieces⟩
  · obtain ⟨m, hgot, hmessages, -⟩ := h.balance.take hholds
    exact ⟨m, hgot, hmessages⟩
  · have hstored : piece.stored? = none := by
      cases piece with
      | push m => exact absurd hended (by simp [Traffic.act, Timed.move])
      | _ => rfl
    -- no message is returned or stored, so the same messages are left
    have hfifo := (h.act piece).fifo
    rw [hended, List.filterMap_append, hstored, ← h.fifo] at hfifo
    simpa [hnone] using hfifo

/-- A timeout that fires when its dequeue has a permit already leaves the message to the next. -/
example (m : Message) :
    let s := Traffic.run {}
      [.ask 5, .push m, .release, .grant 0, .pass 5, .expire 0, .ask 0, .grant 1, .take 1]
    s.timed.outcomes = [⟨0, none, 5⟩, ⟨1, some m, 5⟩] :=
  rfl

end ChatRelay.Mailbox
