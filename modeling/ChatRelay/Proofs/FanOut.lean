import ChatRelay.Proofs.Rooms
import ChatRelay.Proofs.Timeouts

/-!
# Who hears what is broadcast

A history of requests to one directory: rooms are found or made, subscribers are taken up, added to
rooms and taken out, texts are broadcast to rooms, and dequeues draw from the mailboxes.
The members of rooms stand at their own ids throughout (`Keyed.handle`), and `hears` is what was
broadcast in rooms while a subscriber was a member. In which order a broadcast goes through the members
makes no difference (`deliver_perm`).
`mailboxes_hold_what_was_heard` is the statement over all histories.
-/

namespace ChatRelay

open Wire

namespace Table

variable {α : Type}

theorem ext_entries {t t' : Table α} (h : t.entries = t'.entries) : t = t' := by
  cases t
  cases t'
  simpa using h

/-- One change at two keys can be made in either order. -/
theorem modify_comm (t : Table α) (key other : Nat) (change : α → α) :
    (t.modify key change).modify other change = (t.modify other change).modify key change := by
  refine ext_entries ?_
  simp only [modify, List.map_map]
  refine List.map_congr_left fun entry _ ↦ ?_
  simp only [Function.comp_apply]
  split_ifs <;> rfl

end Table

/-! ## Drawing from a mailbox -/

namespace Mailbox

/-- A dequeue that does not wait, or a piece of one that does. -/
inductive Draw where
  | poll
  | ask (ticket deadline : Nat)
  | take (ticket : Nat)
  | giveUp (ticket : Nat)

/-- The mailbox afterwards, and the message that came out of it. -/
def draw (b : Mailbox) : Draw → Mailbox × Option Message
  | .poll => b.poll
  | .ask ticket deadline => (b.ask ticket deadline, none)
  | .take ticket => if b.holds ticket then b.take ticket else (b, none)
  | .giveUp ticket => (b.giveUp ticket, none)

variable {b : Mailbox}

theorem Balanced.enqueue (h : b.Balanced 0) (m : Message) : (b.enqueue m).Balanced 0 := by
  rw [Balanced, Nat.add_zero] at h ⊢
  rw [permits_enqueue, messages_enqueue, List.length_append, h]
  rfl

theorem Balanced.ask (h : b.Balanced 0) (ticket deadline : Nat) :
    (b.ask ticket deadline).Balanced 0 := by
  rw [Balanced, Nat.add_zero] at h ⊢
  rw [permits_ask, messages_ask, h]

theorem Balanced.poll (h : b.Balanced 0) :
    b.poll.1.Balanced 0 ∧ b.poll.2.toList ++ b.poll.1.messages = b.messages := by
  cases hpermits : b.permits with
  | zero => simpa [Mailbox.poll, hpermits] using h
  | succ permits =>
      rw [Balanced, hpermits] at h
      obtain ⟨m, rest, hmessages⟩ := List.exists_cons_of_length_pos
        (show 0 < b.messages.length by omega)
      rw [hmessages, List.length_cons] at h
      simp only [Mailbox.poll, hpermits, hmessages, Balanced, List.tail_cons, List.head?_cons]
      exact ⟨by omega, rfl⟩

/-- What is drawn is the first message, and it is not there any longer; nothing else changes. -/
theorem Balanced.draw (h : b.Balanced 0) (draw : Draw) :
    (b.draw draw).1.Balanced 0 ∧
      (b.draw draw).2.toList ++ (b.draw draw).1.messages = b.messages := by
  cases draw with
  | poll => exact h.poll
  | ask ticket deadline => exact ⟨h.ask ticket deadline, messages_ask b ticket deadline⟩
  | take ticket =>
      rw [Mailbox.draw]
      split
      · obtain ⟨m, hgot, hmessages, hbalance⟩ := h.take ‹_›
        refine ⟨hbalance, ?_⟩
        rw [hgot, hmessages]
        rfl
      · exact ⟨h, rfl⟩
  | giveUp ticket => exact ⟨h, rfl⟩

end Mailbox

namespace Directory

/-! ## Members at their own ids -/

variable {d : Directory}

theorem Keyed.of_members {d' : Directory} (h : d.Keyed)
    (hmembers : ∀ room, d'.members room = d.members room)
    (hid : ∀ number key, d.id? number = some key → d'.id? number = some key) : d'.Keyed :=
  fun room key number hkey ↦ hid _ _ (h room key number (by rw [← hmembers]; exact hkey))

theorem Keyed.updateMembers (h : d.Keyed) (room : Nat) {change : Table Nat → Table Nat}
    (hchange : ∀ key number, (change (d.members room)).get? key = some number →
      d.id? number = some key) : (d.updateMembers room change).Keyed := by
  intro other key number hkey
  by_cases hroom : room < d.rooms.length
  · rw [members_updateMembers d room other change hroom] at hkey
    split at hkey
    · exact hchange key number hkey
    · exact h other key number hkey
  · have hsame : d.updateMembers room change = d := by
      rw [Directory.updateMembers, List.modify_eq_self (Nat.le_of_not_lt hroom)]
    rw [hsame] at hkey
    exact h other key number hkey

/-- A subscriber takes the place of whoever is a member under its id. -/
theorem addMember_eq_insert {number : Nat} {s : Subscriber}
    (hs : d.subscribers.get? number = some s) (room : Nat) :
    d.addMember room number =
      (d.updateMembers room (·.insert s.id number), ((d.members room).get? s.id).isNone) := by
  simp [addMember, hs, Table.contains_eq_isSome]

/-- Whoever is a member under the subscriber's id is taken out. -/
theorem removeMember_eq_erase {number : Nat} {s : Subscriber}
    (hs : d.subscribers.get? number = some s) (room : Nat) :
    d.removeMember room number =
      (d.updateMembers room (·.erase s.id), ((d.members room).get? s.id).isSome) := by
  simp [removeMember, hs, Table.contains_eq_isSome]

/-! ## The order of a broadcast -/

theorem updateMailbox_comm (d : Directory) (number other : Nat) (change : Mailbox → Mailbox) :
    (d.updateMailbox number change).updateMailbox other change =
      (d.updateMailbox other change).updateMailbox number change := by
  simp only [updateMailbox, Table.modify_comm]

/-- In which order a message is delivered makes no difference. -/
theorem deliver_perm (d : Directory) (m : Message) {numbers numbers' : List Nat}
    (h : numbers.Perm numbers') : d.deliver m numbers = d.deliver m numbers' :=
  h.foldl_eq' (fun number _ other _ d ↦ updateMailbox_comm d number other _) d

/-- An order in which a broadcast may go through the members. -/
abbrev Enumeration :=
  { order : List Nat → List Nat // ∀ numbers, (order numbers).Perm numbers }

/-! ## Histories -/

/-- What can be asked of a directory. -/
inductive Request where
  /-- The room with this name, made if there is none. -/
  | findOrCreate (name : String)
  /-- A new subscriber under a number that nobody has; others may have its id. -/
  | enroll (number id : Nat) (username : String)
  | add (room number : Nat)
  | remove (room number : Nat)
  /-- A broadcast, and the order in which it goes through the members. -/
  | broadcast (room : Nat) (sender text : String) (order : Enumeration)
  /-- A dequeue on the mailbox of a subscriber, or a piece of one. -/
  | draw (number : Nat) (draw : Mailbox.Draw)

/-- What comes back. -/
inductive Result where
  | room (found : Nat)
  | flag (answer : Bool)
  | count (members : Nat)
  | message (got : Option Message)
  | done

/-- Do what is asked. -/
def handle (d : Directory) : Request → Directory × Result
  | .findOrCreate name => ((d.findOrCreate name).1, .room (d.findOrCreate name).2)
  | .enroll number id username =>
      (if d.subscribers.contains number then d else d.subscribe number id username, .done)
  | .add room number => ((d.addMember room number).1, .flag (d.addMember room number).2)
  | .remove room number => ((d.removeMember room number).1, .flag (d.removeMember room number).2)
  | .broadcast room sender text order =>
      (d.deliver (Delivery.message ⟨d.name room, sender, text⟩)
        (order.1 (d.members room).values), .count (d.members room).size)
  | .draw number draw =>
      (d.updateMailbox number fun b ↦ (b.draw draw).1,
        .message ((d.mailbox number).draw draw).2)

/-- Do one thing after the other. -/
def handleAll (d : Directory) (requests : List Request) : Directory :=
  requests.foldl (fun d request ↦ (d.handle request).1) d

/-- What each request adds to a list, one after the other. -/
def gather {α : Type} (f : Directory → Request → List α) : Directory → List Request → List α
  | _, [] => []
  | d, request :: rest => f d request ++ gather f (d.handle request).1 rest

/-- What comes back, one after the other. -/
def results (d : Directory) (requests : List Request) : List Result :=
  gather (fun d request ↦ [(d.handle request).2]) d requests

/-- What a subscriber hears of a request: a broadcast to a room that it is a member of. -/
def hears (number : Nat) (d : Directory) : Request → List Message
  | .broadcast room sender text _ =>
      if number ∈ (d.members room).values then
        [Delivery.message ⟨d.name room, sender, text⟩]
      else []
  | _ => []

/-- What a request draws from the mailbox of a subscriber. -/
def draws (number : Nat) (d : Directory) : Request → List Message
  | .draw other draw => if other = number then ((d.mailbox other).draw draw).2.toList else []
  | _ => []

/-- The request with its broadcast in the order in which members are listed. -/
def Request.inOrder : Request → Request
  | .broadcast room sender text _ => .broadcast room sender text ⟨id, fun _ ↦ .refl _⟩
  | request => request

theorem handle_broadcast (d : Directory) (room : Nat) (sender text : String)
    (order : Enumeration) :
    d.handle (.broadcast room sender text order) =
      ((d.broadcast room sender text).1, .count (d.broadcast room sender text).2) := by
  simp only [handle, broadcast, deliver_perm d _ (order.2 _)]

/-- The order of a broadcast makes no difference. -/
theorem handle_inOrder (d : Directory) (request : Request) :
    d.handle request.inOrder = d.handle request := by
  cases request with
  | broadcast room sender text order => rw [Request.inOrder, handle_broadcast, handle_broadcast]
  | _ => rfl

theorem handleAll_inOrder (d : Directory) (requests : List Request) :
    d.handleAll (requests.map Request.inOrder) = d.handleAll requests := by
  simp only [handleAll, List.foldl_map, handle_inOrder]

theorem results_inOrder (d : Directory) (requests : List Request) :
    d.results (requests.map Request.inOrder) = d.results requests := by
  induction requests generalizing d with
  | nil => rfl
  | cons request rest ih =>
      simp only [results, List.map_cons, gather, handle_inOrder] at ih ⊢
      rw [ih]

/-- Members stand at their ids, and permits and messages agree everywhere. -/
structure Kept (d : Directory) : Prop where
  keyed : d.Keyed
  balanced : ∀ number, (d.mailbox number).Balanced 0

theorem kept_empty : Kept {} where
  keyed room key number h := by simp [members] at h
  balanced number := rfl

theorem Keyed.handle (h : d.Keyed) (request : Request) : (d.handle request).1.Keyed := by
  cases request with
  | findOrCreate name =>
      refine h.of_members (members_findOrCreate d name) fun number key hid ↦ ?_
      rwa [id?, Directory.handle, subscribers_findOrCreate]
  | enroll number id username =>
      simp only [Directory.handle]
      split
      · exact h
      · rename_i hnew
        refine h.of_members (fun _ ↦ rfl) fun other key hid ↦ ?_
        have hne : other ≠ number := by
          rintro rfl
          obtain ⟨s, hs, -⟩ := Option.map_eq_some_iff.mp hid
          simp [Table.contains_eq_isSome, hs] at hnew
        simpa [id?, subscribe, hne] using hid
  | add room number =>
      simp only [Directory.handle, addMember]
      split
      · exact h
      · rename_i s hs
        refine h.updateMembers room fun key other hkey ↦ ?_
        rw [Table.get?_insert] at hkey
        split at hkey
        · rename_i heq
          cases hkey
          rw [heq, id?, hs]
          rfl
        · exact h room key other hkey
  | remove room number =>
      simp only [Directory.handle, removeMember]
      split
      · exact h
      · refine h.updateMembers room fun key other hkey ↦ ?_
        rw [Table.get?_erase] at hkey
        split at hkey
        · cases hkey
        · exact h room key other hkey
  | broadcast room sender text order =>
      exact h.of_members (members_deliver d _ _) fun number key hid ↦
        (id?_deliver d _ _ _).trans hid
  | draw number draw =>
      exact h.of_members (fun _ ↦ rfl) fun other key hid ↦ (id?_updateMailbox d _ _ _).trans hid

/-- A subscriber's mailbox after a request: what is drawn comes from its front, and what is heard
goes to its end. -/
theorem Kept.mailbox_handle (h : d.Kept) (request : Request) (number : Nat) :
    ((d.handle request).1.mailbox number).Balanced 0 ∧
      draws number d request ++ ((d.handle request).1.mailbox number).messages =
        (d.mailbox number).messages ++ hears number d request := by
  have of_same : ∀ {d' : Directory}, d'.mailbox number = d.mailbox number →
      (d'.mailbox number).Balanced 0 ∧
        [] ++ (d'.mailbox number).messages = (d.mailbox number).messages ++ [] := by
    intro d' hsame
    rw [hsame, List.append_nil]
    exact ⟨h.balanced number, rfl⟩
  cases request with
  | findOrCreate name =>
      exact of_same (by rw [mailbox, handle, subscribers_findOrCreate, mailbox])
  | enroll other id username =>
      refine of_same ?_
      simp only [handle]
      split
      · rfl
      · rename_i hnew
        have hnone : d.subscribers.get? other = none := by
          simpa [Table.contains_eq_isSome] using hnew
        by_cases heq : number = other
        · simp [mailbox, subscribe, heq, hnone]
        · simp [mailbox, subscribe, heq]
  | add room other => exact of_same (by rw [mailbox, handle, subscribers_addMember, mailbox])
  | remove room other =>
      exact of_same (by rw [mailbox, handle, subscribers_removeMember, mailbox])
  | broadcast room sender text order =>
      rw [handle_broadcast, h.keyed.mailbox_broadcast]
      simp only [draws, hears, List.nil_append]
      split
      · exact ⟨(h.balanced number).enqueue _, Mailbox.messages_enqueue _ _⟩
      · exact ⟨h.balanced number, (List.append_nil _).symm⟩
  | draw other draw =>
      simp only [handle, draws, hears, List.append_nil]
      by_cases heq : other = number
      · subst heq
        rw [if_pos rfl]
        cases hs : d.subscribers.get? other with
        | some s =>
            rw [mailbox_updateMailbox d other other _ (by rw [hs]; rfl), if_pos rfl]
            exact (h.balanced other).draw draw
        | none =>
            -- nothing can be drawn where there is no mailbox
            have hempty : d.mailbox other = {} := by simp [mailbox, hs]
            have hafter : (d.updateMailbox other fun b ↦ (b.draw draw).1).mailbox other = {} := by
              simp [mailbox, updateMailbox, hs]
            have hdrawn := ((h.balanced other).draw draw).2
            rw [hempty] at hdrawn ⊢
            rw [hafter, (List.append_eq_nil_iff.mp hdrawn).1]
            exact ⟨rfl, rfl⟩
      · rw [mailbox_updateMailbox_of_ne d (Ne.symm heq), if_neg heq]
        exact ⟨h.balanced number, rfl⟩

theorem Kept.handle (h : d.Kept) (request : Request) : (d.handle request).1.Kept where
  keyed := h.keyed.handle request
  balanced number := (h.mailbox_handle request number).1

theorem Kept.handleAll (h : d.Kept) (requests : List Request) : (d.handleAll requests).Kept := by
  induction requests generalizing d with
  | nil => exact h
  | cons request rest ih => exact ih (h.handle request)

/-- What was drawn from a mailbox and what is in it is what was in it before and what was heard. -/
theorem Kept.mailbox_handleAll (h : d.Kept) (requests : List Request) (number : Nat) :
    gather (draws number) d requests ++ ((d.handleAll requests).mailbox number).messages =
      (d.mailbox number).messages ++ gather (hears number) d requests := by
  induction requests generalizing d with
  | nil => exact (List.append_nil _).symm
  | cons request rest ih =>
      have hfirst := (h.mailbox_handle request number).2
      rw [gather, gather, ← List.append_assoc, ← hfirst, List.append_assoc, List.append_assoc,
        ← ih (h.handle request)]
      rfl

/-- In every history the members of a room are a finite map from ids to subscribers, where adding
replaces and removing erases, and the answers tell whether the id was there. A broadcast is enqueued
once for each member and for nobody else, and the answer is how many members there are. So a mailbox
holds what was broadcast in rooms while its subscriber was a member, in order, but for what was
drawn from it; a dequeue that is alone draws what a poll does. In which order broadcasts go through
the members makes no difference. -/
theorem mailboxes_hold_what_was_heard (requests : List Request) :
    let d := handleAll {} requests
    (∀ room key number, (d.members room).get? key = some number →
      ∃ s, d.subscribers.get? number = some s ∧ s.id = key) ∧
      (∀ name room, (d.findOrCreate name).1.members room = d.members room ∧
        (d.findOrCreate name).1.subscribers = d.subscribers) ∧
      (∀ room number s, room < d.rooms.length → d.subscribers.get? number = some s →
        ((d.addMember room number).2 = true ↔ (d.members room).get? s.id = none) ∧
        (∀ other key, ((d.addMember room number).1.members other).get? key =
          if other = room ∧ key = s.id then some number else (d.members other).get? key) ∧
        ((d.removeMember room number).2 = true ↔ (d.members room).get? s.id ≠ none) ∧
        (∀ other key, ((d.removeMember room number).1.members other).get? key =
          if other = room ∧ key = s.id then none else (d.members other).get? key) ∧
        (d.addMember room number).1.subscribers = d.subscribers ∧
        (d.removeMember room number).1.subscribers = d.subscribers) ∧
      (∀ room sender text,
        (d.broadcast room sender text).2 = (d.members room).size ∧
        (d.broadcast room sender text).1.rooms = d.rooms ∧
        (∀ key number, (d.members room).get? key = some number →
          ((d.broadcast room sender text).1.mailbox number).messages =
            (d.mailbox number).messages ++ [Delivery.message ⟨d.name room, sender, text⟩]) ∧
        ∀ number, (∀ key, (d.members room).get? key ≠ some number) →
          (d.broadcast room sender text).1.mailbox number = d.mailbox number) ∧
      (∀ number, gather (draws number) {} requests ++ (d.mailbox number).messages =
        gather (hears number) {} requests) ∧
      (∀ number now timeout, (d.mailbox number).Quiet →
        let ended := ({ mailbox := d.mailbox number, now } : Mailbox.Timed).dequeue timeout
        (ended.1.mailbox, ended.2) = (d.mailbox number).poll) ∧
      (∀ room sender text order, d.handle (.broadcast room sender text order) =
        ((d.broadcast room sender text).1, .count (d.broadcast room sender text).2)) ∧
      ∀ others : List Request, others.map Request.inOrder = requests.map Request.inOrder →
        handleAll {} others = d ∧ results {} others = results {} requests := by
  intro d
  have h : d.Kept := kept_empty.handleAll requests
  refine ⟨fun room key number hkey ↦ ?_, fun name room ↦ ?_, fun room number s hroom hs ↦ ?_,
    fun room sender text ↦ ?_, fun number ↦ ?_, fun number now timeout hquiet ↦ ?_,
    handle_broadcast d, fun others hothers ↦ ?_⟩
  · exact Option.map_eq_some_iff.mp (h.keyed room key number hkey)
  · exact ⟨members_findOrCreate d name room, subscribers_findOrCreate d name⟩
  · refine ⟨?_, fun other key ↦ ?_, ?_, fun other key ↦ ?_, subscribers_addMember d room number,
      subscribers_removeMember d room number⟩
    · rw [addMember_eq_insert hs, Option.isNone_iff_eq_none]
    · rw [addMember_eq_insert hs, members_updateMembers d room other _ hroom]
      by_cases hother : other = room <;> simp [hother]
    · rw [removeMember_eq_erase hs, Option.isSome_iff_ne_none]
    · rw [removeMember_eq_erase hs, members_updateMembers d room other _ hroom]
      by_cases hother : other = room <;> simp [hother]
  · refine ⟨rfl, rooms_deliver _ _ _, fun key number hkey ↦ ?_, fun number hnone ↦ ?_⟩
    · rw [h.keyed.mailbox_broadcast, if_pos (Table.mem_values_iff.mpr ⟨key, hkey⟩),
        Mailbox.messages_enqueue]
    · rw [h.keyed.mailbox_broadcast, if_neg]
      exact fun hmember ↦ (Table.mem_values_iff.mp hmember).elim hnone
  · exact kept_empty.mailbox_handleAll requests number
  · exact Mailbox.dequeue_eq_poll hquiet now timeout
  · rw [← handleAll_inOrder, ← results_inOrder, hothers]
    exact ⟨handleAll_inOrder {} requests, results_inOrder {} requests⟩

/-- Of two subscribers with one id the later one hears what is broadcast, and taking out the earlier
one takes out whoever holds the id. -/
example :
    let d := handleAll {} [.findOrCreate "lobby", .enroll 0 7 "bob", .enroll 1 7 "bob", .add 0 0,
      .add 0 1, .broadcast 0 "alice" "hi" ⟨List.reverse, List.reverse_perm⟩, .remove 0 0]
    ((d.mailbox 0).messages, (d.mailbox 1).messages, (d.members 0).size) =
      ([], [Delivery.message ⟨"lobby", "alice", "hi"⟩], 0) := by
  cbv

end Directory

end ChatRelay
