import ChatRelay.Connection.Basic

/-!
# What one step of a send does

A step of a send writes a first part of the bytes that are left and touches nothing but the writing
side of the stream; a step of a receive touches nothing but the reading side. A send succeeds only
when nothing is left to be written, and fails only by the stream. On a responsive stream it never waits,
and on a healthy one it does not fail either.
-/

namespace ChatRelay.Connection

open Transport Wire

/-- A read changes nothing but what is still to be read. -/
theorem read_frame (s : Stream) : ∃ arrivals, s.read.1 = { s with arrivals } := by
  unfold Stream.read
  split
  · exact ⟨_, rfl⟩
  · exact ⟨_, rfl⟩
  · exact ⟨_, rfl⟩
  · split <;> exact ⟨_, rfl⟩

/-- A write changes nothing but what was written and how further writes are accepted. -/
theorem write_frame (s : Stream) (bytes : List UInt8) :
    ∃ written writes barrier, (s.write bytes).1 = { s with written, writes, barrier } := by
  unfold Stream.write
  split <;> exact ⟨_, _, _, rfl⟩

/-- A step of a receive leaves the writing side of the stream alone. -/
theorem stream_receiveStep (c : Connection) :
    ∃ arrivals, c.receiveStep.1.stream = { c.stream with arrivals } := by
  obtain ⟨arrivals, hread⟩ := read_frame c.stream
  unfold receiveStep
  dsimp only
  split
  · split
    · exact ⟨_, rfl⟩
    · split <;> exact ⟨_, rfl⟩
  · split
    · exact ⟨_, rfl⟩
    · split
      · exact ⟨_, rfl⟩
      · split <;> rename_i hstep
        · exact ⟨_, rfl⟩
        all_goals
          rw [hstep] at hread
          exact ⟨arrivals, hread⟩

/-- A step of a send leaves the buffer, and whether the connection is open, as they are. -/
theorem sendStep_frame (c : Connection) (rest : List UInt8) :
    (c.sendStep rest).1.isOpen = c.isOpen ∧ (c.sendStep rest).1.buffer = c.buffer := by
  unfold sendStep
  dsimp only
  split
  · exact ⟨rfl, rfl⟩
  · split
    · split <;> exact ⟨rfl, rfl⟩
    · split <;> exact ⟨rfl, rfl⟩

/-- A step of a send leaves the reading side of the stream alone. -/
theorem stream_sendStep (c : Connection) (rest : List UInt8) :
    ∃ written writes barrier,
      (c.sendStep rest).1.stream = { c.stream with written, writes, barrier } := by
  obtain ⟨written, writes, barrier, hwrite⟩ := write_frame c.stream rest
  unfold sendStep
  dsimp only
  split
  · exact ⟨_, _, _, rfl⟩
  · split
    · split <;> exact ⟨_, _, _, rfl⟩
    · split
      · exact ⟨_, _, _, rfl⟩
      all_goals
        rename_i hstep
        rw [hstep] at hwrite
        exact ⟨written, writes, barrier, hwrite⟩

/-- A step that goes on has written a first part of the bytes, and the others are left. -/
theorem written_of_more {c after : Connection} {rest left : List UInt8}
    (h : c.sendStep rest = (after, .more left)) :
    ∃ taken, taken ≠ [] ∧ rest = taken ++ left ∧
      after.stream.written = c.stream.written ++ taken := by
  have hwritten := c.stream.written_write rest
  unfold sendStep at h
  dsimp only at h
  split at h
  · simp at h
  · split at h
    · split at h <;> simp at h
    · rename_i hrest
      split at h
      · simp at h
      · simp at h
      · simp at h
      · rename_i s count hwrite
        simp only [Prod.mk.injEq, Sending.more.injEq] at h
        rw [hwrite] at hwritten
        refine ⟨rest.take (count + 1), ?_, ?_, ?_⟩
        · cases rest with
          | nil => simp at hrest
          | cons byte bytes => simp
        · rw [← h.2, List.take_append_drop]
        · rw [← h.1]
          exact hwritten

/-- A send succeeds with nothing left to be written. -/
theorem written_of_ok {c after : Connection} {rest : List UInt8}
    (h : c.sendStep rest = (after, .done (.ok ()))) :
    rest = [] ∧ after.stream = c.stream := by
  unfold sendStep at h
  dsimp only at h
  split at h
  · simp at h
  · split at h
    · rename_i hrest
      split at h
      · simp only [Prod.mk.injEq, and_true] at h
        exact ⟨by simpa using hrest, by rw [← h]; rfl⟩
      · simp at h
      · simp at h
    · split at h <;> simp at h

/-- A send that fails has written nothing more, and it is the stream that failed. -/
theorem written_of_error {c after : Connection} {rest : List UInt8} {failure : Failure}
    (h : c.sendStep rest = (after, .done (.error failure))) :
    after.stream.written = c.stream.written ∧ failure.isDisconnect = true := by
  have hwritten := c.stream.written_write rest
  unfold sendStep at h
  dsimp only at h
  split at h
  · cases h
    exact ⟨rfl, rfl⟩
  · split at h
    · split at h
      · simp at h
      · cases h
        exact ⟨rfl, rfl⟩
      · simp at h
    · split at h
      · simp at h
      · rename_i hwrite
        cases h
        rw [hwrite] at hwritten
        exact ⟨by simpa [record] using hwritten, rfl⟩
      · rename_i hwrite
        cases h
        rw [hwrite] at hwritten
        exact ⟨by simpa [record] using hwritten, rfl⟩
      · simp at h

/-- A send that waits leaves everything as it is. -/
theorem eq_of_waiting {c after : Connection} {rest : List UInt8}
    (h : c.sendStep rest = (after, .waiting)) : after = c := by
  unfold sendStep at h
  dsimp only at h
  split at h
  · simp at h
  · split at h
    · split at h
      · simp at h
      · simp at h
      · cases h
        rfl
    · split at h
      · cases h
        rfl
      · simp at h
      · simp at h
      · simp at h

/-! ## Responsive streams -/

/-- Every write and every flush succeeds or fails; none waits for the peer. -/
structure Responsive (s : Stream) : Prop where
  barrier : ∀ after, s.barrier ≠ some ⟨after, some .wait⟩
  flushHalt : s.flushHalt ≠ some .wait

theorem Responsive.write_ne_pending {s : Stream} (h : Responsive s) (bytes : List UInt8) :
    (s.write bytes).2 ≠ .pending := by
  unfold Stream.write
  split
  · simp
  · simp
  · simp
  · rename_i hbarrier
    exact absurd hbarrier (h.barrier 0)
  · simp

theorem Responsive.write {s : Stream} (h : Responsive s) (bytes : List UInt8) :
    Responsive (s.write bytes).1 := by
  unfold Stream.write
  split
  · exact ⟨h.barrier, h.flushHalt⟩
  · exact ⟨h.barrier, h.flushHalt⟩
  · exact h
  · exact h
  · rename_i after halt _ _ _ hbarrier
    refine ⟨fun left hleft ↦ h.barrier after ?_, h.flushHalt⟩
    simp only [Option.some.injEq, Barrier.mk.injEq] at hleft
    rw [hbarrier, hleft.2]

/-- A send over a responsive stream does not wait. -/
theorem Responsive.sendStep_ne_waiting {c : Connection} (h : Responsive c.stream)
    (rest : List UInt8) : (c.sendStep rest).2 ≠ .waiting := by
  unfold Connection.sendStep
  dsimp only
  split
  · simp
  · split
    · split
      · simp
      · simp
      · rename_i hflush
        exact absurd hflush h.flushHalt
    · split
      · rename_i hwrite
        exact absurd (congrArg Prod.snd hwrite) (h.write_ne_pending rest)
      · simp
      · simp
      · simp

/-- A step of a send leaves a responsive stream responsive. -/
theorem Responsive.sendStep {c : Connection} (h : Responsive c.stream) (rest : List UInt8) :
    Responsive (c.sendStep rest).1.stream := by
  have hwrite := h.write rest
  unfold Connection.sendStep
  dsimp only
  split
  · exact h
  · split
    · split <;> exact h
    · split
      · exact h
      all_goals
        rename_i hstep
        rw [hstep] at hwrite
        exact hwrite

/-- A step of a receive leaves a responsive stream responsive. -/
theorem Responsive.receiveStep {c : Connection} (h : Responsive c.stream) :
    Responsive c.receiveStep.1.stream := by
  obtain ⟨arrivals, hstream⟩ := c.stream_receiveStep
  rw [hstream]
  exact ⟨h.barrier, h.flushHalt⟩

theorem Responsive.close {c : Connection} (h : Responsive c.stream) : Responsive c.close.stream := by
  unfold Connection.close
  split
  · exact ⟨h.barrier, h.flushHalt⟩
  · exact h

/-! ## Healthy streams -/

/-- Writes and flushes succeed, at whatever pace. -/
structure Healthy (s : Stream) : Prop where
  barrier : s.barrier = none
  flushHalt : s.flushHalt = none
  pace : ∀ n, s.pace n ≠ some 0

theorem Healthy.responsive {s : Stream} (h : Healthy s) : Responsive s :=
  ⟨fun _ ↦ by simp [h.barrier], by simp [h.flushHalt]⟩

/-- A healthy stream accepts something of every write. -/
theorem Healthy.write {s : Stream} (h : Healthy s) {bytes : List UInt8} (hne : bytes ≠ []) :
    ∃ count, s.write bytes = (s.accept bytes (count + 1), .accepted (count + 1)) := by
  have hpos : 0 < s.allowance bytes := by
    have hlength := List.length_pos_iff.mpr hne
    unfold Stream.allowance
    split
    · exact hlength
    · rename_i most hpace
      have hmost : most ≠ 0 := fun hzero ↦ h.pace s.writes (hzero ▸ hpace)
      omega
  refine ⟨s.allowance bytes - 1, ?_⟩
  rw [Nat.sub_add_cancel hpos]
  simp [Stream.write, h.barrier]

/-- A send on an open connection over a healthy stream does not fail and does not wait. -/
theorem Healthy.sendStep_cases {c : Connection} (h : Healthy c.stream) (hopen : c.isOpen = true)
    (rest : List UInt8) :
    (c.sendStep rest).2 = .done (.ok ()) ∨ ∃ left, (c.sendStep rest).2 = .more left := by
  unfold sendStep
  dsimp only
  cases rest with
  | nil => simp [hopen, Stream.flush, h.flushHalt]
  | cons byte bytes =>
      obtain ⟨count, hwrite⟩ := h.write (List.cons_ne_nil byte bytes)
      simp [hopen, hwrite]

theorem Healthy.sendStep_ne_error {c : Connection} (h : Healthy c.stream) (hopen : c.isOpen = true)
    (rest : List UInt8) (failure : Failure) :
    (c.sendStep rest).2 ≠ .done (.error failure) := by
  rcases h.sendStep_cases hopen rest with heq | ⟨left, heq⟩ <;> simp [heq]

/-- A step of a send leaves a healthy stream healthy. -/
theorem Healthy.sendStep {c : Connection} (h : Healthy c.stream) (rest : List UInt8) :
    Healthy (c.sendStep rest).1.stream := by
  unfold Connection.sendStep
  dsimp only
  split
  · exact h
  · split
    · split <;> exact h
    · rename_i hrest
      obtain ⟨count, hwrite⟩ := h.write (by simpa using hrest)
      rw [hwrite]
      exact ⟨h.barrier, h.flushHalt, h.pace⟩

/-- A step of a receive leaves a healthy stream healthy. -/
theorem Healthy.receiveStep {c : Connection} (h : Healthy c.stream) :
    Healthy c.receiveStep.1.stream := by
  obtain ⟨arrivals, hstream⟩ := c.stream_receiveStep
  rw [hstream]
  exact ⟨h.barrier, h.flushHalt, h.pace⟩

theorem Healthy.close {c : Connection} (h : Healthy c.stream) : Healthy c.close.stream := by
  unfold Connection.close
  split
  · exact ⟨h.barrier, h.flushHalt, h.pace⟩
  · exact h

end ChatRelay.Connection
