import ChatRelay.Connection.Basic

/-!
# The backlog of a connection

The backlog is what a connection can still make messages of: its buffer and what its stream still
brings. `receiveStep` keeps it while bytes come in, and `backlog_receive_lt` says that a message
received leaves less of it.
-/

namespace ChatRelay.Connection

open Transport Wire

/-- The bytes in the buffer and those the stream still brings, in order. -/
def backlog (c : Connection) : List UInt8 :=
  c.buffer ++ c.stream.unread

/-- Bytes that come in only move from the stream to the buffer. -/
theorem backlog_of_more {c after : Connection} (h : c.receiveStep = (after, .more)) :
    after.backlog = c.backlog := by
  unfold receiveStep at h
  dsimp only at h
  split at h
  · split at h
    · simp at h
    · split at h <;> simp at h
  · split at h
    · simp at h
    · split at h
      · simp at h
      · have hunread := c.stream.read_unread
        split at h
        · simp at h
        · simp at h
        · simp at h
        · rename_i s byte bytes hread
          simp only [Prod.mk.injEq, and_true] at h
          rw [hread] at hunread
          dsimp only at hunread
          rw [← h]
          simp only [backlog, List.append_assoc, hunread]

/-- A step that yields a message takes its line out of the buffer. -/
theorem backlog_lt_of_done {c after : Connection} {m : Message}
    (h : c.receiveStep = (after, .done (.ok m))) :
    after.backlog.length < c.backlog.length := by
  unfold receiveStep at h
  dsimp only at h
  split at h
  · rename_i line rest hcut
    split at h
    · simp at h
    · split at h
      · simp at h
      · simp only [Prod.mk.injEq] at h
        have hlt := Line.length_cut?_lt hcut
        rw [← h.1]
        simp only [backlog, record, List.length_append]
        omega
  · split at h
    · simp at h
    · split at h
      · simp at h
      · split at h <;> simp at h

/-- A message received leaves a shorter backlog. -/
theorem backlog_receive_lt {c after : Connection} {m : Message}
    (h : c.receive = (after, some (.ok m))) : after.backlog.length < c.backlog.length := by
  fun_induction receive c with
  | case1 c next result hstep =>
      simp only [Prod.mk.injEq, Option.some.injEq] at h
      obtain ⟨rfl, rfl⟩ := h
      exact backlog_lt_of_done hstep
  | case2 => simp at h
  | case3 c next hstep ih =>
      have hkeep := backlog_of_more hstep
      have hlt := ih h
      rw [hkeep] at hlt
      exact hlt

end ChatRelay.Connection
