import ChatRelay.Mailbox.Timed
import Mathlib.Data.List.Nodup
import Mathlib.Data.List.Sort

/-!
# A mailbox at rest

Between two things that happen to a mailbox everything that can go on does, and the mailbox comes to
rest (`Timed.Rested`). Here is what each operation then amounts to: a message is stored or served
(`enqueue_eq_store`, `enqueue_eq_serve`), a dequeue fetches a message, waits or is refused
(`ask_eq_fetch`, `ask_eq_wait`, `ask_eq_refuse`), and while time passes dequeues give up, each at
its deadline (`advance_eq`).
-/

namespace ChatRelay.Mailbox

open Wire

/-! ## Who has to give up -/

theorem mem_due {b : Mailbox} {now : Nat} {w : Waiting} :
    w ∈ b.due now ↔ w ∈ b.waiting ∧ w.deadline ≤ now := by
  simp [due]

/-- Whoever does not have to give up waits on. -/
theorem due_append_late (b : Mailbox) (time : Nat) :
    (b.due time ++ b.waiting.filter (time < ·.deadline)).Perm b.waiting := by
  have hlate : b.waiting.filter (time < ·.deadline) =
      b.waiting.filter fun w ↦ !decide (w.deadline ≤ time) := by
    refine List.filter_congr fun w _ ↦ ?_
    rw [← decide_not, decide_eq_decide.mpr Nat.not_le]
  rw [hlate]
  exact List.filter_append_perm _ _

/-- Whoever has to give up until the target has to until the stop, or else after it. -/
theorem due_append_perm {b later : Mailbox} {stop target : Nat} (htarget : stop ≤ target)
    (hlater : later.waiting = b.waiting.filter (stop < ·.deadline)) :
    (b.due stop ++ later.due target).Perm (b.due target) := by
  have hstop : (b.due stop).filter (·.deadline ≤ target) = b.due stop :=
    List.filter_eq_self.mpr fun w hw ↦ decide_eq_true ((mem_due.mp hw).2.trans htarget)
  have hperm := (due_append_late b stop).filter (·.deadline ≤ target)
  rw [List.filter_append, hstop, ← hlater] at hperm
  exact hperm

theorem due_of_early {b : Mailbox} {now : Nat} (hearly : ∀ w ∈ b.waiting, now < w.deadline) :
    b.due now = [] :=
  List.filter_eq_nil_iff.mpr fun w hw ↦ by simpa using hearly w hw

namespace Timed

variable {t : Timed}

/-- Nothing is left to happen, no dequeue waits beside a message, and tickets are given out once. -/
structure Rested (t : Timed) : Prop where
  owed : t.owed = 0
  holding : t.mailbox.holding = []
  permits : t.mailbox.permits = t.mailbox.messages.length
  idle : t.mailbox.waiting = [] ∨ t.mailbox.messages = []
  early : ∀ w ∈ t.mailbox.waiting, t.now < w.deadline
  distinct : (t.mailbox.waiting.map (·.ticket)).Nodup
  known : ∀ w ∈ t.mailbox.waiting, w.ticket < t.begun

theorem Rested.settled (h : t.Rested) : t.Settled :=
  ⟨h.owed, h.holding, due_of_early h.early⟩

/-! ## Settling -/

/-- Dequeues give up one after the other. -/
theorem foldl_lapse (gone : List Waiting)
    (hdue : ∀ w ∈ gone, w ∈ t.mailbox.waiting ∧ w.deadline ≤ t.now)
    (hdistinct : (gone.map (·.ticket)).Nodup) :
    gone.foldl (fun t w ↦ t.move (.lapse w.ticket)) t =
      { t with
        mailbox.waiting := t.mailbox.waiting.filter fun w ↦ w.ticket ∉ gone.map (·.ticket)
        outcomes := t.outcomes ++ gone.map fun w ↦ ⟨w.ticket, none, t.now⟩ } := by
  induction gone generalizing t with
  | nil => simp
  | cons w rest ih =>
      obtain ⟨hw, hrest⟩ := List.nodup_cons.mp hdistinct
      have hisDue : t.mailbox.isDue w.ticket t.now = true := by
        have hmem := hdue w (List.mem_cons_self ..)
        exact List.any_eq_true.mpr
          ⟨w, List.mem_filter.mpr ⟨hmem.1, decide_eq_true hmem.2⟩, beq_self_eq_true _⟩
      have hstays : ∀ other ∈ rest, other ∈ (t.mailbox.giveUp w.ticket).waiting ∧
          other.deadline ≤ t.now := by
        intro other hother
        obtain ⟨hmem, hdeadline⟩ := hdue other (List.mem_cons_of_mem _ hother)
        have hne : other.ticket ≠ w.ticket :=
          fun heq ↦ hw (List.mem_map.mpr ⟨other, hother, heq⟩)
        exact ⟨List.mem_filter.mpr ⟨hmem, by simpa using hne⟩, hdeadline⟩
      have hleft : (t.mailbox.giveUp w.ticket).waiting.filter
            (fun other ↦ other.ticket ∉ rest.map (·.ticket)) =
          t.mailbox.waiting.filter fun other ↦ other.ticket ∉ (w :: rest).map (·.ticket) := by
        rw [giveUp, List.filter_filter]
        refine List.filter_congr fun other _ ↦ ?_
        by_cases heq : other.ticket = w.ticket <;> simp [heq]
      rw [List.foldl_cons, move, if_pos hisDue, ih hstays hrest, hleft, List.append_assoc]
      rfl

/-- Dequeues whose deadline has not come stay. -/
theorem settle_of_early (hholding : t.mailbox.holding = [])
    (hearly : ∀ w ∈ t.mailbox.waiting, t.now < w.deadline) : t.settle = t := by
  rw [settle, hholding, List.foldl_nil, due_of_early hearly, List.foldl_nil]

/-- The dequeue that holds a permit takes its message. -/
theorem settle_of_holding {ticket : Nat} {m : Message} {rest : List Message}
    (hholding : t.mailbox.holding = [ticket]) (hmessages : t.mailbox.messages = m :: rest)
    (hearly : ∀ w ∈ t.mailbox.waiting, t.now < w.deadline) :
    t.settle =
      { t with
        mailbox.messages := rest
        mailbox.holding := []
        outcomes := t.outcomes ++ [⟨ticket, some m, t.now⟩] } := by
  have htake : t.move (.take ticket) =
      { t with
        mailbox.messages := rest
        mailbox.holding := []
        outcomes := t.outcomes ++ [⟨ticket, some m, t.now⟩] } := by
    simp [move, take, holds, hholding, hmessages]
  have hdue : (t.move (.take ticket)).mailbox.due (t.move (.take ticket)).now = [] := by
    rw [htake]
    exact due_of_early hearly
  rw [settle, hholding, List.foldl_cons, List.foldl_nil, hdue, List.foldl_nil, htake]

/-- The dequeues whose deadline has come give up, and the others stay. -/
theorem settle_eq (hholding : t.mailbox.holding = [])
    (hdistinct : (t.mailbox.waiting.map (·.ticket)).Nodup) :
    t.settle =
      { t with
        mailbox.waiting := t.mailbox.waiting.filter (t.now < ·.deadline)
        outcomes := t.outcomes ++ (t.mailbox.due t.now).map fun w ↦ ⟨w.ticket, none, t.now⟩ } := by
  have hleft : t.mailbox.waiting.filter
        (fun w ↦ w.ticket ∉ (t.mailbox.due t.now).map (·.ticket)) =
      t.mailbox.waiting.filter (t.now < ·.deadline) := by
    refine List.filter_congr fun w hw ↦ ?_
    rw [decide_eq_decide, ← Nat.not_le, not_iff_not, List.mem_map]
    constructor
    · rintro ⟨other, hother, hticket⟩
      obtain ⟨hmem, hdeadline⟩ := mem_due.mp hother
      rwa [← List.inj_on_of_nodup_map hdistinct hmem hw hticket]
    · exact fun hdeadline ↦ ⟨w, mem_due.mpr ⟨hw, hdeadline⟩, rfl⟩
  rw [settle, hholding, List.foldl_nil, foldl_lapse, hleft]
  · exact fun w ↦ mem_due.mp
  · exact hdistinct.sublist (List.filter_sublist.map _)

/-! ## Enqueues -/

/-- With nobody waiting the message is stored. -/
theorem enqueue_eq_store (h : t.Rested) (m : Message) (hwaiting : t.mailbox.waiting = []) :
    t.enqueue m =
      { t with
        mailbox.messages := t.mailbox.messages ++ [m]
        mailbox.permits := t.mailbox.permits + 1 } := by
  rw [enqueue, settle_of_early]
  · simp [move, push, release, hwaiting]
  · simp [move, push, release, hwaiting, h.holding]
  · simp [move, push, release, hwaiting]

/-- The dequeue that waits longest gets the message. -/
theorem enqueue_eq_serve (h : t.Rested) (m : Message) {first : Waiting} {rest : List Waiting}
    (hwaiting : t.mailbox.waiting = first :: rest) :
    t.enqueue m =
      { t with
        mailbox.waiting := rest
        outcomes := t.outcomes ++ [⟨first.ticket, some m, t.now⟩] } := by
  have hmessages : t.mailbox.messages = [] := h.idle.resolve_left (by simp [hwaiting])
  have hearly : ∀ w ∈ rest, t.now < w.deadline :=
    fun w hw ↦ h.early w (hwaiting ▸ List.mem_cons_of_mem _ hw)
  have hmove : (t.move (.push m)).move .release =
      { t with
        mailbox.messages := [m]
        mailbox.waiting := rest
        mailbox.holding := [first.ticket] } := by
    simp [move, push, release, hwaiting, hmessages, h.holding]
  rw [enqueue, hmove]
  refine Eq.trans (settle_of_holding rfl rfl hearly) ?_
  simp [hmessages, h.holding]

/-! ## Dequeues -/

/-- A dequeue that finds a message takes it at once. -/
theorem ask_eq_fetch (h : t.Rested) (timeout : Nat) {m : Message} {rest : List Message}
    (hmessages : t.mailbox.messages = m :: rest) :
    t.ask timeout =
      { t with
        mailbox.messages := rest
        mailbox.permits := rest.length
        begun := t.begun + 1
        outcomes := t.outcomes ++ [⟨t.begun, some m, t.now⟩] } := by
  have hpermits : t.mailbox.permits = rest.length + 1 := by rw [h.permits, hmessages]; rfl
  have hmove : t.move (.ask timeout) =
      { t with
        mailbox.permits := rest.length
        mailbox.holding := [t.begun]
        begun := t.begun + 1 } := by
    simp [move, Mailbox.ask, hpermits, h.holding]
  rw [ask, hmove]
  refine Eq.trans (settle_of_holding rfl hmessages h.early) ?_
  simp [h.holding]

/-- A dequeue that finds no message waits, if it may. -/
theorem ask_eq_wait (h : t.Rested) {timeout : Nat} (hmessages : t.mailbox.messages = [])
    (hpos : 0 < timeout) :
    t.ask timeout =
      { t with
        mailbox.waiting := t.mailbox.waiting ++ [⟨t.begun, t.now + timeout⟩]
        begun := t.begun + 1 } := by
  have hpermits : t.mailbox.permits = 0 := by rw [h.permits, hmessages]; rfl
  rw [ask, settle_of_early]
  · simp [move, Mailbox.ask, hpermits]
  · simp [move, Mailbox.ask, hpermits, h.holding]
  · intro w hw
    simp only [move, Mailbox.ask, hpermits, List.mem_append, List.mem_singleton] at hw ⊢
    rcases hw with hw | rfl
    · exact h.early w hw
    · exact Nat.lt_add_of_pos_right hpos

/-- A dequeue that finds no message and may not wait ends without one. -/
theorem ask_eq_refuse (h : t.Rested) (hmessages : t.mailbox.messages = []) :
    t.ask 0 =
      { t with
        begun := t.begun + 1
        outcomes := t.outcomes ++ [⟨t.begun, none, t.now⟩] } := by
  have hpermits : t.mailbox.permits = 0 := by rw [h.permits, hmessages]; rfl
  have hmove : t.move (.ask 0) =
      { t with
        mailbox.waiting := t.mailbox.waiting ++ [⟨t.begun, t.now⟩]
        begun := t.begun + 1 } := by
    simp [move, Mailbox.ask, hpermits]
  have hdistinct :
      ((t.mailbox.waiting ++ [(⟨t.begun, t.now⟩ : Waiting)]).map (·.ticket)).Nodup := by
    rw [List.map_append]
    refine h.distinct.append (List.nodup_singleton _) fun ticket hold hnew ↦ ?_
    obtain ⟨w, hw, rfl⟩ := List.mem_map.mp hold
    exact (h.known w hw).ne (List.mem_singleton.mp hnew)
  have hstay : t.mailbox.waiting.filter (t.now < ·.deadline) = t.mailbox.waiting :=
    List.filter_eq_self.mpr fun w hw ↦ decide_eq_true (h.early w hw)
  have hdue : t.mailbox.waiting.filter (·.deadline ≤ t.now) = [] := due_of_early h.early
  rw [ask, hmove]
  refine Eq.trans (settle_eq h.holding hdistinct) ?_
  simp [due, hstay, hdue]

/-! ## Time -/

/-- The clock stands at this time, and these dequeues have given up, each at its deadline. -/
def passed (t : Timed) (time : Nat) (gone : List Waiting) : Timed :=
  { t with
    mailbox.waiting := t.mailbox.waiting.filter (time < ·.deadline)
    now := time
    outcomes := t.outcomes ++ gone.map fun w ↦ ⟨w.ticket, none, w.deadline⟩ }

theorem passed_passed (t : Timed) {stop target : Nat} (htarget : stop ≤ target)
    (gone later : List Waiting) :
    (t.passed stop gone).passed target later = t.passed target (gone ++ later) := by
  have hwaiting : (t.mailbox.waiting.filter (stop < ·.deadline)).filter (target < ·.deadline) =
      t.mailbox.waiting.filter (target < ·.deadline) := by
    rw [List.filter_filter]
    refine List.filter_congr fun w _ ↦ ?_
    simpa using fun hlate : target < w.deadline ↦ Nat.lt_of_le_of_lt htarget hlate
  simp [passed, hwaiting]

/-- The clock goes on, at most to the next deadline. -/
theorem goTo_eq {time : Nat} (hholding : t.mailbox.holding = [])
    (hdistinct : (t.mailbox.waiting.map (·.ticket)).Nodup) (hnow : t.now ≤ time)
    (hnext : ∀ w ∈ t.mailbox.waiting, time ≤ w.deadline) :
    t.goTo time = t.passed time (t.mailbox.due time) := by
  have hpass : t.move (.pass (time - t.now)) = { t with now := time } := by
    simp [move, Nat.add_sub_cancel' hnow]
  -- no deadline was passed by, so those due at this time are due exactly then
  have hended : (t.mailbox.due time).map (fun w ↦ (⟨w.ticket, none, time⟩ : Outcome)) =
      (t.mailbox.due time).map fun w ↦ ⟨w.ticket, none, w.deadline⟩ := by
    refine List.map_congr_left fun w hw ↦ ?_
    obtain ⟨hmem, hdue⟩ := mem_due.mp hw
    rw [Nat.le_antisymm hdue (hnext w hmem)]
  rw [goTo, hpass, passed, ← hended]
  exact settle_eq hholding hdistinct

/-- On the way to a time the clock stops at every deadline before it. -/
theorem foldl_goTo {target : Nat} (stops : List Nat) (hholding : t.mailbox.holding = [])
    (hdistinct : (t.mailbox.waiting.map (·.ticket)).Nodup)
    (hsorted : (t.now :: (stops ++ [target])).Pairwise (· ≤ ·))
    (hstops : ∀ w ∈ t.mailbox.waiting, w.deadline ∈ stops ∨ target < w.deadline) :
    ∃ gone : List Waiting, gone.Perm (t.mailbox.due target) ∧
      (stops.foldl goTo t).goTo target = t.passed target gone := by
  induction stops generalizing t with
  | nil =>
      have hlate : ∀ w ∈ t.mailbox.waiting, target < w.deadline := by simpa using hstops
      have hnow : t.now ≤ target := List.rel_of_pairwise_cons hsorted (List.mem_singleton_self _)
      exact ⟨_, .refl _, goTo_eq hholding hdistinct hnow fun w hw ↦ (hlate w hw).le⟩
  | cons stop rest ih =>
      have hnow : t.now ≤ stop := List.rel_of_pairwise_cons hsorted (List.mem_cons_self ..)
      have hrest := hsorted.of_cons
      have htarget : stop ≤ target := List.rel_of_pairwise_cons hrest (by simp)
      have hnext : ∀ w ∈ t.mailbox.waiting, stop ≤ w.deadline := by
        intro w hw
        rcases hstops w hw with hstop | hlate
        · rcases List.mem_cons.mp hstop with heq | hstop
          · exact heq.ge
          · exact List.rel_of_pairwise_cons hrest (List.mem_append_left _ hstop)
        · exact htarget.trans hlate.le
      have hlater : ∀ w ∈ (t.passed stop (t.mailbox.due stop)).mailbox.waiting,
          w.deadline ∈ rest ∨ target < w.deadline := by
        intro w hw
        obtain ⟨hmem, hlate⟩ := List.mem_filter.mp hw
        refine (hstops w hmem).imp_left fun hstop ↦ ?_
        exact (List.mem_cons.mp hstop).resolve_left (of_decide_eq_true hlate).ne'
      obtain ⟨gone, hperm, hgone⟩ := ih (t := t.passed stop (t.mailbox.due stop)) hholding
        (hdistinct.sublist (List.filter_sublist.map _)) hrest hlater
      refine ⟨t.mailbox.due stop ++ gone, ?_, ?_⟩
      · exact (hperm.append_left _).trans (due_append_perm htarget rfl)
      · rw [List.foldl_cons, goTo_eq hholding hdistinct hnow hnext, hgone, passed_passed t htarget]

/-- After a while those are gone whose deadline has come. -/
theorem advance_eq (h : t.Rested) (ms : Nat) :
    ∃ gone : List Waiting, gone.Perm (t.mailbox.due (t.now + ms)) ∧
      t.advance ms = t.passed (t.now + ms) gone := by
  refine foldl_goTo _ h.holding h.distinct ?_ fun w hw ↦ ?_
  · have hmem : ∀ stop ∈ ((t.mailbox.due (t.now + ms)).map (·.deadline)).mergeSort (· ≤ ·),
        t.now ≤ stop ∧ stop ≤ t.now + ms := by
      intro stop hstop
      obtain ⟨w, hw, rfl⟩ := List.mem_map.mp (List.mem_mergeSort.mp hstop)
      obtain ⟨hmem, hdue⟩ := mem_due.mp hw
      exact ⟨(h.early w hmem).le, hdue⟩
    rw [List.pairwise_cons, List.pairwise_append]
    refine ⟨fun stop hstop ↦ ?_, List.pairwise_mergeSort' _ _, List.pairwise_singleton _ _,
      fun stop hstop _ htarget ↦ ?_⟩
    · rcases List.mem_append.mp hstop with hstop | hstop
      · exact (hmem stop hstop).1
      · exact List.mem_singleton.mp hstop ▸ Nat.le_add_right _ _
    · exact List.mem_singleton.mp htarget ▸ (hmem stop hstop).2
  · by_cases hdue : w.deadline ≤ t.now + ms
    · exact .inl (List.mem_mergeSort.mpr (List.mem_map_of_mem (mem_due.mpr ⟨hw, hdue⟩)))
    · exact .inr (Nat.lt_of_not_le hdue)

end Timed

end ChatRelay.Mailbox
