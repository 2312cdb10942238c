import Mathlib.Data.List.Perm.Subperm
import ChatRelay.Proofs.Attendance
import ChatRelay.Proofs.Counting

/-!
# Every step leaves less to do

A step of a worker pays for all that it causes, in its own mailbox and in those of others
(`Worker.Step.effort_lt`), so that the effort of a system shrinks with every step, whichever worker makes
it (`Attended.effort_lt`). No order of turns therefore has more steps than the effort is
(`Attended.steps_le`), and in whatever order the workers have their turns, after enough rounds no worker
can make a step (`Attended.idle_rounds`). If no write waits for a peer, the system has then settled
(`Responsive.settled`).
-/

namespace ChatRelay

open Transport Wire

namespace Connection

/-- A step of a receive takes nothing but what its read returns, and loses none of that. -/
theorem receiveStep_le (c : Connection) :
    c.receiveStep.1.backlog.length ≤ c.backlog.length ∧
      c.receiveStep.1.stream.unread.length ≤ c.stream.unread.length := by
  have hread := congrArg List.length c.stream.read_unread
  unfold receiveStep
  dsimp only
  split
  · rename_i line rest hcut
    have hlt := Line.length_cut?_lt hcut
    split
    · simp only [backlog, record, List.length_append]
      omega
    · split <;> simp only [backlog, record, List.length_append] <;> omega
  · split
    · simp only [backlog, record, List.length_append, List.length_nil]
      omega
    · split
      · exact ⟨Nat.le_refl _, Nat.le_refl _⟩
      · split <;> rename_i hstream <;> rw [hstream] at hread <;>
          simp only [backlog, record, List.length_append, List.nil_append] at hread ⊢ <;> omega

/-- A step of a send leaves what is still to be read. -/
theorem backlog_sendStep (c : Connection) (rest : List UInt8) :
    (c.sendStep rest).1.backlog = c.backlog ∧
      (c.sendStep rest).1.stream.unread = c.stream.unread := by
  obtain ⟨written, writes, barrier, hstream⟩ := c.stream_sendStep rest
  rw [backlog, (c.sendStep_frame rest).2, hstream]
  exact ⟨rfl, rfl⟩

/-- Closing forgets what was read and nothing else. -/
theorem close_le (c : Connection) :
    c.close.backlog.length ≤ c.backlog.length ∧
      c.close.stream.unread.length ≤ c.stream.unread.length := by
  have hforgets (stream : Stream) (hsame : stream.unread = c.stream.unread) :
      ([] ++ stream.unread).length ≤ (c.buffer ++ c.stream.unread).length := by
    rw [hsame, List.length_append, List.length_append]
    exact Nat.add_le_add_right (Nat.zero_le _) _
  unfold close
  split
  · exact ⟨hforgets c.stream.shutdown.1 rfl, Nat.le_refl _⟩
  · exact ⟨hforgets c.stream rfl, Nat.le_refl _⟩

end Connection

namespace Mailbox

variable {b : Mailbox} {ticket now : Nat}

/-- A message that comes in makes nobody wait. -/
theorem mem_waiting_of_enqueue {m : Message} {entry : Waiting}
    (h : entry ∈ (b.enqueue m).waiting) : entry ∈ b.waiting := by
  unfold enqueue release push at h
  dsimp only at h
  split at h
  · exact h
  · rename_i first rest hwaiting
    rw [hwaiting]
    exact List.mem_cons_of_mem _ h

/-- A message that comes in makes no dequeue give up. -/
theorem isDue_of_enqueue {m : Message} (h : (b.enqueue m).isDue ticket now = true) :
    b.isDue ticket now = true := by
  simp only [isDue, due, List.any_eq_true, List.mem_filter] at h ⊢
  obtain ⟨entry, ⟨hentry, hdue⟩, hticket⟩ := h
  exact ⟨entry, ⟨mem_waiting_of_enqueue hentry, hdue⟩, hticket⟩

/-- Whoever has just asked does not give up before its deadline. -/
theorem Quiet.isDue_ask (h : b.Quiet) {deadline : Nat} (hlater : now < deadline) :
    (b.ask ticket deadline).isDue ticket now = false := by
  obtain ⟨-, hwaiting, -⟩ := h
  unfold Mailbox.ask
  split <;> simp [isDue, due, hwaiting, Nat.not_le_of_lt hlater]

end Mailbox

namespace Server

/-! ## Sums over lists and tables -/

section
variable {α : Type} {q r : α → Nat}

theorem total_le_of_sublist {l l' : List α} (h : l.Sublist l') : total q l ≤ total q l' := by
  induction h with
  | slnil => exact Nat.le_refl _
  | cons a _ ih => exact Nat.le_trans ih (Nat.le_add_left _ _)
  | cons_cons a _ ih => exact Nat.add_le_add_left ih _

theorem total_mono {l : List α} (h : ∀ a ∈ l, r a ≤ q a) : total r l ≤ total q l := by
  induction l with
  | nil => exact Nat.le_refl _
  | cons a rest ih =>
      exact Nat.add_le_add (h a List.mem_cons_self) (ih fun b hb ↦ h b (List.mem_cons_of_mem _ hb))

/-- Where one element is put for another and no other grows, the total grows at most by what the two
differ. -/
theorem total_set_le {l : List α} {k : Nat} {a : α} (h : l[k]? = some a) (b : α)
    (hother : ∀ j c, j ≠ k → l[j]? = some c → r c ≤ q c) :
    total r (l.set k b) + q a ≤ total q l + r b := by
  induction l generalizing k with
  | nil => cases h
  | cons head rest ih =>
      cases k with
      | zero =>
          obtain rfl := Option.some.inj h
          have hrest : total r rest ≤ total q rest := by
            refine total_mono fun c hmem ↦ ?_
            obtain ⟨j, hc⟩ := List.mem_iff_getElem?.mp hmem
            exact hother (j + 1) c (Nat.succ_ne_zero j) hc
          simp only [List.set_cons_zero, total]
          omega
      | succ k =>
          have hhead : r head ≤ q head := hother 0 head (Nat.succ_ne_zero k).symm rfl
          have hrest := ih (k := k) h fun j c hne hc ↦
            hother (j + 1) c (fun heq ↦ hne (Nat.succ.inj heq)) hc
          simp only [List.set_cons_succ, total]
          omega

/-- A change of one value in a table changes the total as it changes the value. -/
theorem total_values_modify {t : Table α} {key : Nat} {a : α} (h : t.get? key = some a)
    (change : α → α) :
    total q (t.modify key change).values + q a = total q t.values + q (change a) := by
  obtain ⟨before, after, hentries⟩ := List.append_of_mem (Table.mem_entries_iff.mpr h)
  have hnodup := t.nodup
  simp only [hentries, List.map_append, List.map_cons, List.nodup_append, List.nodup_cons,
    List.mem_cons, List.mem_map] at hnodup
  have hsame (entries : List (Nat × α)) (hne : ∀ entry ∈ entries, entry.1 ≠ key) :
      (entries.map fun entry ↦
        (entry.1, if entry.1 = key then change entry.2 else entry.2)) = entries := by
    refine (List.map_congr_left fun entry hentry ↦ ?_).trans (List.map_id entries)
    rw [if_neg (hne entry hentry)]
    rfl
  have hbefore := hsame before fun entry hentry heq ↦
    hnodup.2.2 entry.1 ⟨entry, hentry, rfl⟩ key (.inl rfl) heq
  have hafter := hsame after fun entry hentry heq ↦ hnodup.2.1.1 ⟨entry, hentry, heq⟩
  simp only [Table.values, Table.modify, hentries, List.map_append, List.map_cons, hbefore, hafter,
    if_true, total_append, total]
  omega

/-- Where nothing stands there is nothing to change. -/
theorem values_modify_of_none {t : Table α} {key : Nat} (h : t.get? key = none) (change : α → α) :
    (t.modify key change).values = t.values := by
  simp only [Table.values, Table.modify, List.map_map]
  refine List.map_congr_left fun entry hentry ↦ ?_
  have hsome : t.get? entry.1 = some entry.2 := Table.mem_entries_iff.mp hentry
  have hne : entry.1 ≠ key := by
    intro heq
    rw [heq, h] at hsome
    cases hsome
  rw [Function.comp_apply, if_neg hne]

theorem total_values_insert_le (t : Table α) (key : Nat) (a : α) :
    total q (t.insert key a).values ≤ total q t.values + q a := by
  simp only [Table.values, Table.insert, Table.erase, List.map_append, List.map_cons, List.map_nil,
    total_append, total]
  exact Nat.add_le_add_right (total_le_of_sublist (List.filter_sublist.map _)) _

end

/-! ## What a step leaves to do -/

/-- What it takes to write all messages of all mailboxes. -/
def mailEffort (d : Directory) : Nat :=
  total subscriberEffort d.subscribers.values

section
variable {d : Directory} {m : Message}

/-- The mailbox of a subscriber counts with the others. -/
theorem mailEffort_updateMailbox {number id : Nat} (hid : d.Enrolled number id)
    (change : Mailbox → Mailbox) :
    mailEffort (d.updateMailbox number change) + total messageEffort (d.mailbox number).messages =
      mailEffort d + total messageEffort (change (d.mailbox number)).messages := by
  obtain ⟨subscriber, hget, -⟩ := Option.map_eq_some_iff.mp hid
  have hmailbox : d.mailbox number = subscriber.mailbox := by rw [Directory.mailbox, hget]
  rw [hmailbox]
  exact total_values_modify hget fun s ↦ { s with mailbox := change s.mailbox }

theorem mailEffort_of_subscribers {d' : Directory} (h : d'.subscribers = d.subscribers) :
    mailEffort d' = mailEffort d :=
  congrArg (fun subscribers : Table Subscriber ↦ total subscriberEffort subscribers.values) h

theorem mailEffort_enqueue_le (d : Directory) (m : Message) (number : Nat) :
    mailEffort (d.updateMailbox number (·.enqueue m)) ≤ mailEffort d + messageEffort m := by
  cases hget : d.subscribers.get? number with
  | none =>
      have hsame := values_modify_of_none hget fun s ↦ { s with mailbox := s.mailbox.enqueue m }
      simp only [mailEffort, Directory.updateMailbox, hsame]
      exact Nat.le_add_right _ _
  | some subscriber =>
      have hmore := total_values_modify (q := subscriberEffort) hget
        fun s ↦ { s with mailbox := s.mailbox.enqueue m }
      simp only [subscriberEffort, Mailbox.messages_enqueue, total_append, total] at hmore
      simp only [mailEffort, Directory.updateMailbox]
      omega

theorem mailEffort_deliver_le (d : Directory) (m : Message) (numbers : List Nat) :
    mailEffort (d.deliver m numbers) ≤ mailEffort d + numbers.length * messageEffort m := by
  unfold Directory.deliver
  induction numbers generalizing d with
  | nil => exact Nat.le_add_right _ _
  | cons number rest ih =>
      have hfirst := mailEffort_enqueue_le d m number
      have hrest := ih (d.updateMailbox number (·.enqueue m))
      rw [List.foldl_cons, List.length_cons, Nat.succ_mul]
      omega

theorem mailEffort_subscribe_le (d : Directory) (number id : Nat) (username : String) :
    mailEffort (d.subscribe number id username) ≤ mailEffort d :=
  total_values_insert_le d.subscribers number { id, username }

/-- A delivery that can be sent does not take more than 300 steps to each member. -/
theorem mailEffort_broadcast_le {room workers : Nat} {sender text : String}
    (hsendable : Delivery.Sendable ⟨d.name room, sender, text⟩)
    (hmembers : (d.members room).values.length ≤ workers) :
    mailEffort (d.broadcast room sender text).1 ≤ mailEffort d + 300 * workers := by
  have hdeliver := mailEffort_deliver_le d (Delivery.message ⟨d.name room, sender, text⟩)
    (d.members room).values
  have hline := Message.length_bytes_le hsendable.valid
  have hmessage : messageEffort (Delivery.message ⟨d.name room, sender, text⟩) ≤ 300 := by
    have hmax : maxLine = 266 := rfl
    unfold messageEffort
    omega
  have hall := Nat.mul_le_mul hmembers hmessage
  rw [Nat.mul_comm workers 300] at hall
  exact Nat.le_trans hdeliver (Nat.add_le_add_left hall _)

end

/-- What the bytes that a connection has still to read can cause among so many workers. -/
def inputEffort (workers : Nat) (c : Connection) : Nat :=
  byteEffort workers * c.backlog.length + c.stream.unread.length

section
variable (workers : Nat) {c after : Connection}

theorem inputEffort_le (hbacklog : after.backlog.length ≤ c.backlog.length)
    (hunread : after.stream.unread.length ≤ c.stream.unread.length) :
    inputEffort workers after ≤ inputEffort workers c :=
  Nat.add_le_add (Nat.mul_le_mul_left _ hbacklog) hunread

/-- Bytes that come in were still to be read before. -/
theorem inputEffort_of_more (h : c.receiveStep = (after, .more)) :
    inputEffort workers after < inputEffort workers c := by
  have hunread := Connection.unread_lt_of_more h
  unfold inputEffort
  rw [Connection.backlog_of_more h]
  exact Nat.add_lt_add_left hunread _

/-- However a receive ends, it adds nothing to do. -/
theorem inputEffort_of_done {result : Except Failure Message}
    (h : c.receiveStep = (after, .done result)) : inputEffort workers after ≤ inputEffort workers c := by
  have hle := c.receiveStep_le
  rw [h] at hle
  exact inputEffort_le workers hle.1 hle.2

/-- The bytes of a message pay for what it causes. -/
theorem inputEffort_of_ok {m : Message} (h : c.receiveStep = (after, .done (.ok m))) :
    inputEffort workers after + byteEffort workers ≤ inputEffort workers c := by
  have hbacklog := Connection.backlog_lt_of_done h
  have hunread : after.stream.unread.length ≤ c.stream.unread.length := by
    have hle := c.receiveStep_le.2
    rwa [h] at hle
  have hbytes := Nat.mul_le_mul_left (byteEffort workers) hbacklog
  rw [Nat.mul_succ] at hbytes
  unfold inputEffort
  omega

theorem inputEffort_close_le (c : Connection) :
    inputEffort workers c.close ≤ inputEffort workers c :=
  inputEffort_le workers c.close_le.1 c.close_le.2

theorem inputEffort_sendStep {rest : List UInt8} {went : Sending}
    (h : c.sendStep rest = (after, went)) : inputEffort workers after = inputEffort workers c := by
  obtain ⟨hbacklog, hunread⟩ := c.backlog_sendStep rest
  rw [h] at hbacklog hunread
  rw [inputEffort, hbacklog, hunread, inputEffort]

end

namespace Worker

variable {hub hub' : Hub} {w w' : Worker} {workers : Nat}

theorem effort_eq (hub : Hub) (workers : Nat) (w : Worker) :
    w.effort hub workers =
      inputEffort workers w.connection + w.control.effort hub workers w.place := by
  unfold Worker.effort inputEffort Connection.backlog
  rw [List.length_append, Nat.mul_add, Nat.add_mul, Nat.one_mul]
  omega

/-- A refusal is short. -/
theorem length_reply_le (refusal : Refusal) : refusal.reply.bytes.length ≤ 40 := by
  rw [Message.length_bytes]
  cases refusal <;> decide

/-- Going on after a send takes less than was left for it. -/
theorem effort_onSent_le (hub : Hub) (workers : Nat) (w : Worker) (after : After) :
    (onSent hub w after).2.control.effort (onSent hub w after).1 workers
        (onSent hub w after).2.place + mailEffort (onSent hub w after).1.directory ≤
      after.effort + mailEffort hub.directory := by
  cases after with
  | loggedIn role =>
      cases role with
      | publisher => exact Nat.le_refl _
      | subscriber =>
          exact Nat.add_le_add_left
            (mailEffort_subscribe_le hub.directory w.place w.session.id w.session.name) _
  | part | quit => exact Nat.add_le_add_right (Nat.le_succ 1) _
  | joined | delivered => exact Nat.add_le_add_right (Nat.le_succ 7) _
  | replied => exact Nat.le_refl _

/-- A step pays for all that it causes. -/
theorem Step.effort_lt (h : Step hub w hub' w') (hw : w.Lawful hub.directory)
    (hnamed : w.Named hub.directory) (hattends : w.Attends hub.directory)
    (htimeout : 1 ≤ hub.dequeueTimeout)
    (hmembers : ∀ room, (hub.directory.members room).values.length ≤ workers) :
    w'.effort hub' workers + mailEffort hub'.directory <
      w.effort hub workers + mailEffort hub.directory := by
  have hok : Message.ok.bytes.length = 4 := by decide
  have hbyte : byteEffort workers = 300 * workers + 1000 := rfl
  rw [effort_eq, effort_eq]
  cases h with
  | input await connection hcontrol hstep =>
      have hinput := inputEffort_of_more workers hstep
      simp only [hcontrol, Control.effort]
      omega
  | loginFailed connection failure hcontrol hstep | joinFailed connection failure hcontrol hstep =>
      have hinput := inputEffort_of_done workers hstep
      have hreply := length_reply_le .invalidLogin
      have hreply' := length_reply_le .expectedJoin
      simp only [connection_say, control_say, hcontrol, Control.effort, After.effort]
      omega
  | loginRefused connection m refusal hcontrol hstep
  | joinRefused connection m refusal hcontrol hstep
  | commandRefused room connection m refusal hcontrol hstep =>
      have hinput := inputEffort_of_ok workers hstep
      have hreply := length_reply_le refusal
      simp only [connection_say, control_say, hcontrol, Control.effort, After.effort]
      omega
  | loginAccepted connection m role hcontrol hstep | leaveCommand room connection m hcontrol hstep
  | quitCommand room connection m hcontrol hstep =>
      have hinput := inputEffort_of_ok workers hstep
      simp only [connection_say, control_say, hcontrol, Control.effort, After.effort,
        Hub.directory_count]
      omega
  | joinAccepted connection m hcontrol hstep | joinCommand room connection m hcontrol hstep
  | sendCommand target connection m hcontrol hstep =>
      have hinput := inputEffort_of_ok workers hstep
      simp only [connection_goTo, control_goTo, hcontrol, Control.effort]
      omega
  | commandFailed room connection failure hcontrol hstep =>
      have hinput := inputEffort_of_done workers hstep
      simp only [connection_goTo, control_goTo, hcontrol, Control.effort]
      omega
  | openRoom name directory room hcontrol hfind | enterRoom name directory room hcontrol hfind =>
      have hsame := hub.directory.subscribers_findOrCreate name
      rw [hfind] at hsame
      have hmail : mailEffort directory = mailEffort hub.directory := mailEffort_of_subscribers hsame
      simp only [connection_say, control_say, connection_goTo, control_goTo, hcontrol, Control.effort,
        After.effort]
      omega
  | addMember room directory hcontrol hd =>
      have hmail := mailEffort_of_subscribers
        (hub.directory.subscribers_addMember room w.place)
      rw [← hd] at hmail
      simp only [connection_say, control_say, hcontrol, Control.effort, After.effort]
      omega
  | removeMember room result directory hcontrol hd =>
      have hmail := mailEffort_of_subscribers
        (hub.directory.subscribers_removeMember room w.place)
      rw [← hd] at hmail
      simp only [connection_goTo, control_goTo, hcontrol, Control.effort]
      omega
  | broadcast room text directory hcontrol hd =>
      simp only [Named, hcontrol] at hnamed
      have hmail := mailEffort_broadcast_le hnamed.2 (hmembers room)
      rw [← hd] at hmail
      simp only [connection_say, control_say, hcontrol, Control.effort, After.effort,
        Hub.directory_count]
      omega
  | output rest after connection left hcontrol hstep =>
      have hinput := inputEffort_sendStep workers hstep
      have hless := Connection.rest_lt_of_more hstep
      simp only [hcontrol, Control.effort]
      omega
  | sent rest after connection hcontrol hstep =>
      have hinput := inputEffort_sendStep workers hstep
      have hafter := effort_onSent_le hub workers
        { w with connection, session := w.session.countSent } after
      have hbefore : w.control.effort hub workers w.place = rest.length + 1 + after.effort := by
        rw [hcontrol]
        rfl
      rw [connection_onSent]
      dsimp only
      omega
  | unsent rest after connection failure hcontrol hstep =>
      have hinput := inputEffort_sendStep workers hstep
      rw [connection_onUnsent]
      cases after <;> simp only [onUnsent, control_goTo, hcontrol, Control.effort, After.effort] <;>
        omega
  | parting room hcontrol | staying room hcontrol =>
      simp only [connection_goTo, control_goTo, hcontrol, Control.effort]
      omega
  | dequeue room directory hcontrol hd =>
      simp only [Lawful, Attends, hcontrol] at hw hattends
      have hmail := mailEffort_updateMailbox hw.1.enrolled
        (·.ask ticket (hub.now + hub.dequeueTimeout))
      rw [Mailbox.messages_ask, ← hd] at hmail
      have hearly : (directory.mailbox w.place).isDue ticket hub.now = false := by
        rw [hd, Directory.mailbox_updateMailbox_self hw.1.enrolled]
        exact hattends.isDue_ask (Nat.lt_add_of_pos_right htimeout)
      simp only [connection_goTo, control_goTo, place_goTo, hcontrol, Control.effort, hearly,
        Bool.false_eq_true, if_false]
      omega
  | collected room directory m hcontrol hholds hhead hd =>
      simp only [Lawful, hcontrol] at hw
      have hmail := mailEffort_updateMailbox hw.1.enrolled fun b ↦ (b.take ticket).1
      obtain ⟨rest, hmessages⟩ := List.head?_eq_some_iff.mp hhead
      rw [← hd] at hmail
      simp only [Mailbox.take, hmessages, List.tail_cons, total, messageEffort] at hmail
      simp only [connection_say, control_say, hcontrol, Control.effort, After.effort]
      split <;> omega
  | missed room directory hcontrol hholds hhead =>
      simp only [Attends, hcontrol] at hattends
      exact absurd hhead (hattends.head?_ne_none hholds)
  | lapsed room directory hcontrol hholds hdue hd =>
      simp only [Lawful, hcontrol] at hw
      have hmail := mailEffort_updateMailbox hw.1.enrolled (·.giveUp ticket)
      rw [← hd] at hmail
      simp only [Mailbox.giveUp] at hmail
      simp only [connection_goTo, control_goTo, hcontrol, Control.effort, hdue, if_true]
      omega
  | close result hcontrol =>
      have hinput := inputEffort_close_le workers w.connection
      simp only [hcontrol, Control.effort, Hub.directory_closed]
      omega

/-- What others do leaves a worker no more to do. -/
theorem effort_le_of_mailbox (w : Worker) (hnow : hub'.now = hub.now)
    (hmailbox : ∀ room, w.control = .collect room →
      hub'.directory.mailbox w.place = hub.directory.mailbox w.place ∨
        ∃ m, hub'.directory.mailbox w.place =
          (hub.directory.mailbox w.place).enqueue m) :
    w.effort hub' workers ≤ w.effort hub workers := by
  rw [effort_eq, effort_eq]
  refine Nat.add_le_add_left ?_ _
  cases hcontrol : w.control with
  | collect room =>
      have hdue : (hub'.directory.mailbox w.place).isDue ticket hub'.now = true →
          (hub.directory.mailbox w.place).isDue ticket hub.now = true := by
        rw [hnow]
        rcases hmailbox room hcontrol with heq | ⟨m, heq⟩ <;> rw [heq]
        · exact id
        · exact Mailbox.isDue_of_enqueue
      dsimp only [Control.effort]
      by_cases hlate : (hub'.directory.mailbox w.place).isDue ticket hub'.now = true
      · exact Nat.le_of_eq (by rw [if_pos hlate, if_pos (hdue hlate)])
      · rw [if_neg hlate]
        split
        · decide
        · exact Nat.le_refl 5
  | _ => exact Nat.le_refl _

end Worker

namespace System

variable {s t : System} {k : Nat}

/-- The members of a room are workers, each of them one. -/
theorem Seated.length_members_le (h : s.Seated) (room : Nat) :
    (s.hub.directory.members room).values.length ≤ s.workers.length := by
  have hworkers : (s.hub.directory.members room).values ⊆ List.range s.workers.length := by
    intro place hplace
    obtain ⟨id, hid⟩ := Table.mem_values_iff.mp hplace
    obtain ⟨w, hw, -, -⟩ := h.members room id place hid
    exact List.mem_range.mpr (List.getElem?_eq_some_iff.mp hw).1
  simpa using ((h.keyed.nodup_values room).subperm hworkers).length_le

/-- Every step, whichever worker makes it, leaves the system less to do. -/
theorem Attended.effort_lt (h : s.Attended) (htimeout : 1 ≤ s.hub.dequeueTimeout)
    (hwork : s.work? k = some t) : t.effort < s.effort := by
  obtain ⟨w, hub, w', hw, hstep, rfl⟩ := work?_eq_some hwork
  have hsound := Worker.step_sound hstep
  have hactor := hsound.effort_lt (h.lawful k w hw) (h.named k w hw).2 (h.attends k w hw) htimeout
    h.length_members_le
  have hothers := total_set_le (q := Worker.effort s.hub s.workers.length)
    (r := Worker.effort hub s.workers.length) hw w' fun j v hjk hv ↦ by
      refine v.effort_le_of_mailbox hsound.clock.2.1 fun room hcontrol ↦ ?_
      have hseat : v.control.seat? = some room := by rw [hcontrol]; rfl
      have hne : Action.work k ≠ .work j := by simpa using hjk.symm
      have hcases := h.toSeated.mailbox_other hv ((h.lawful j v hv).seated hseat).enrolled hne
      rwa [act_of_step hw hstep] at hcases
  simp only [effort, List.length_set]
  simp only [mailEffort] at hactor
  omega

/-- The action is a step of a worker. -/
def makesStep (s : System) : Action → Bool
  | .work k => (s.work? k).isSome
  | _ => false

/-- In whatever order the workers have their turns, each step is paid for. -/
theorem Attended.steps_le (h : s.Attended) (htimeout : 1 ≤ s.hub.dequeueTimeout) (turns : List Nat) :
    occurrences makesStep s (turns.map .work) + (s.run (turns.map .work)).effort ≤ s.effort := by
  induction turns generalizing s with
  | nil => exact Nat.le_of_eq (Nat.zero_add _)
  | cons k rest ih =>
      have hrest := ih (h.act (.work k)) (by rwa [(s.clock_act (.work k)).2.2])
      simp only [List.map_cons, occurrences, run_cons]
      cases hwork : s.work? k with
      | none =>
          have hsame : s.act (.work k) = s := by rw [System.act, hwork, Option.getD_none]
          rw [hsame] at hrest ⊢
          simp only [makesStep, hwork, Option.isSome_none, Bool.false_eq_true, if_false]
          omega
      | some next =>
          have hnext : s.act (.work k) = next := by rw [System.act, hwork, Option.getD_some]
          have hless := h.effort_lt htimeout hwork
          rw [hnext] at hrest ⊢
          simp only [makesStep, hwork, Option.isSome_some, if_true]
          omega

/-- A system with nothing left to do is idle. -/
theorem Attended.idle_of_effort (h : s.Attended) (htimeout : 1 ≤ s.hub.dequeueTimeout)
    (hnone : s.effort = 0) : s.Idle := by
  intro k
  cases hwork : s.work? k with
  | none => rfl
  | some next =>
      have hless := h.effort_lt htimeout hwork
      omega

/-- After as many steps as there is to do the system is idle. -/
theorem Attended.idle_settleWithin (h : s.Attended) (htimeout : 1 ≤ s.hub.dequeueTimeout)
    {steps : Nat} (henough : s.effort ≤ steps) : (settleWithin steps s).Idle := by
  induction steps generalizing s with
  | zero => exact h.idle_of_effort htimeout (Nat.le_zero.mp henough)
  | succ steps ih =>
      rw [settleWithin]
      split
      · rename_i hnone
        exact next?_eq_none_iff.mp hnone
      · rename_i next hnext
        obtain ⟨k, -, hwork⟩ := List.exists_of_findSome?_eq_some hnext
        have hact : s.act (.work k) = next := by rw [System.act, hwork, Option.getD_some]
        have hless := h.effort_lt htimeout hwork
        have h' := h.act (.work k)
        have htimeout' := (s.clock_act (.work k)).2.2
        rw [hact] at h' htimeout'
        exact ih h' (by rwa [htimeout']) (by omega)

/-- A system that is left to its workers becomes idle. -/
theorem Attended.idle_settle (h : s.Attended) (htimeout : 1 ≤ s.hub.dequeueTimeout) : s.settle.Idle :=
  h.idle_settleWithin htimeout (Nat.le_refl _)

/-- Turns in which nobody makes a step change nothing, and come to those only who can make none. -/
theorem run_of_no_steps {turns : List Nat}
    (hnone : occurrences makesStep s (turns.map .work) = 0) :
    s.run (turns.map .work) = s ∧ ∀ k ∈ turns, s.work? k = none := by
  induction turns with
  | nil => exact ⟨rfl, nofun⟩
  | cons k rest ih =>
      simp only [List.map_cons, occurrences, makesStep, Nat.add_eq_zero_iff] at hnone
      have hwork : s.work? k = none := by
        cases hwork : s.work? k with
        | none => rfl
        | some next => simp [hwork] at hnone
      have hsame : s.act (.work k) = s := by rw [System.act, hwork, Option.getD_none]
      rw [hsame] at hnone
      obtain ⟨hrun, hrest⟩ := ih hnone.2
      refine ⟨by rw [List.map_cons, run_cons, hsame, hrun], fun j hj ↦ ?_⟩
      rcases List.mem_cons.mp hj with rfl | hj
      · exact hwork
      · exact hrest j hj

/-- In an idle system turns come to nothing. -/
theorem Idle.run_turns (h : s.Idle) (turns : List Nat) : s.run (turns.map .work) = s := by
  induction turns with
  | nil => rfl
  | cons k rest ih =>
      have hsame : s.act (.work k) = s := by rw [System.act, h k, Option.getD_none]
      rw [List.map_cons, run_cons, hsame, ih]

/-- Turns keep what is known of the workers, and how many there are. -/
theorem Attended.run_turns (h : s.Attended) (turns : List Nat) :
    let t := s.run (turns.map .work)
    t.Attended ∧ t.hub.dequeueTimeout = s.hub.dequeueTimeout ∧
      t.workers.length = s.workers.length := by
  induction turns generalizing s with
  | nil => exact ⟨h, rfl, rfl⟩
  | cons k rest ih =>
      obtain ⟨hattended, htimeout, hlength⟩ := ih (h.act (.work k))
      exact ⟨hattended, htimeout.trans (s.clock_act (.work k)).2.2,
        hlength.trans (length_of_ids (ids_act (by simp)))⟩

/-- A round in which every worker has a turn, in whatever order, makes a step if one can be made. -/
theorem Attended.round (h : s.Attended) (htimeout : 1 ≤ s.hub.dequeueTimeout) {turns : List Nat}
    (hall : ∀ k < s.workers.length, k ∈ turns) :
    s.Idle ∨ (s.run (turns.map .work)).effort < s.effort := by
  have hpaid := h.steps_le htimeout turns
  by_cases hnone : occurrences makesStep s (turns.map .work) = 0
  · refine .inl fun k ↦ ?_
    by_cases hlt : k < s.workers.length
    · exact (run_of_no_steps hnone).2 k (hall k hlt)
    · simp [work?, List.getElem?_eq_none (Nat.le_of_not_lt hlt)]
  · right
    omega

/-- In whatever order the workers have their turns, the system is idle after enough rounds in which each
of them has one. -/
theorem Attended.idle_rounds (h : s.Attended) (htimeout : 1 ≤ s.hub.dequeueTimeout)
    {rounds : List (List Nat)}
    (hall : ∀ turns ∈ rounds, ∀ k < s.workers.length, k ∈ turns)
    (henough : s.effort ≤ rounds.length) : (s.run (rounds.flatten.map .work)).Idle := by
  induction rounds generalizing s with
  | nil => exact h.idle_of_effort htimeout (Nat.le_zero.mp henough)
  | cons turns rest ih =>
      rw [List.flatten_cons, List.map_append, run_append]
      obtain ⟨h', htimeout', hlength⟩ := h.run_turns turns
      rcases h.round htimeout (hall turns List.mem_cons_self) with hidle | hless
      · rw [hidle.run_turns turns, hidle.run_turns rest.flatten]
        exact hidle
      · refine ih h' (by rwa [htimeout']) (fun later hlater ↦ ?_) ?_
        · rw [hlength]
          exact hall later (List.mem_cons_of_mem _ hlater)
        · rw [List.length_cons] at henough
          omega

/-! ## Where no write waits -/

/-- The streams of all workers are responsive. -/
def Responsive (s : System) : Prop :=
  ∀ (k : Nat) (w : Worker), s.workers[k]? = some w → Connection.Responsive w.connection.stream

theorem Responsive.act (h : s.Responsive) {action : Action} (hinner : action.isInner = true) :
    (s.act action).Responsive := by
  cases action with
  | work j =>
      cases hwork : s.work? j with
      | none =>
          rw [System.act, hwork, Option.getD_none]
          exact h
      | some next =>
          obtain ⟨w, hub, w', hw, hstep, rfl⟩ := work?_eq_some hwork
          rw [System.act, hwork, Option.getD_some]
          intro k v hv
          by_cases hjk : j = k
          · subst hjk
            obtain rfl := Option.some.inj (hv.symm.trans (getElem?_set_self hw w'))
            exact (Worker.step_sound hstep).responsive (h j w hw)
          · rw [List.getElem?_set_ne hjk] at hv
            exact h k v hv
  | pass => exact h
  | _ => cases hinner

/-- What a system does by itself leaves the streams responsive. -/
theorem Responsive.unfolds (h : s.Responsive) (hunfolds : s.Unfolds t) : t.Responsive := by
  obtain ⟨actions, hinner, rfl⟩ := hunfolds
  induction actions generalizing s with
  | nil => exact h
  | cons action rest ih =>
      exact ih (h.act (hinner action List.mem_cons_self))
        fun other hother ↦ hinner other (List.mem_cons_of_mem _ hother)

/-- Turns are what a system does by itself. -/
theorem unfolds_turns (s : System) (turns : List Nat) : s.Unfolds (s.run (turns.map .work)) := by
  refine ⟨_, fun action haction ↦ ?_, rfl⟩
  obtain ⟨k, -, rfl⟩ := List.mem_map.mp haction
  rfl

/-- On responsive streams an idle system has settled. -/
theorem Responsive.settled (h : s.Responsive) (hidle : s.Idle) : s.Settled :=
  ⟨hidle, fun k w hw ↦ Worker.isStalled_eq_false (h k w hw)⟩

end System

end Server

end ChatRelay
