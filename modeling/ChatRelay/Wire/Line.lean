import ChatRelay.Wire.Message

/-!
# Lines as bytes

A stream of bytes is cut after each LF, and a complete line is judged on its own: its bytes have to be
UTF-8, then a message, then valid. `cut?_append` and `cut?_line` say what a cut is.
-/

namespace ChatRelay.Wire

/-- The byte that ends a line. -/
def lineFeed : UInt8 := 0x0A

namespace Line

/-- The bytes up to and including the first LF, and what follows them; none without an LF. -/
def cut? (bytes : List UInt8) : Option (List UInt8 × List UInt8) :=
  match bytes.dropWhile (· != lineFeed) with
  | [] => none
  | feed :: rest => some (bytes.takeWhile (· != lineFeed) ++ [feed], rest)

/-- Read the bytes of one line, its terminator included. -/
def read (bytes : List UInt8) : Except Violation Message :=
  match Text.ofUtf8? bytes with
  | none => .error .invalidUtf8
  | some text =>
      match Message.decode text with
      | .error violation => .error violation
      | .ok m =>
          match m.validate with
          | .error violation => .error violation
          | .ok () => .ok m

/-- A cut loses no byte. -/
theorem cut?_append {bytes line rest : List UInt8} (h : cut? bytes = some (line, rest)) :
    bytes = line ++ rest := by
  have hsplit : bytes = bytes.takeWhile (· != lineFeed) ++ bytes.dropWhile (· != lineFeed) :=
    List.takeWhile_append_dropWhile.symm
  cases hd : bytes.dropWhile (· != lineFeed) with
  | nil => simp [cut?, hd] at h
  | cons feed tail =>
      simp only [cut?, hd, Option.some.injEq, Prod.mk.injEq] at h
      obtain ⟨rfl, rfl⟩ := h
      rw [List.append_assoc, List.singleton_append, ← hd]
      exact hsplit

/-- The line ends with its only LF. -/
theorem cut?_line {bytes line rest : List UInt8} (h : cut? bytes = some (line, rest)) :
    ∃ body, line = body ++ [lineFeed] ∧ lineFeed ∉ body := by
  cases hd : bytes.dropWhile (· != lineFeed) with
  | nil => simp [cut?, hd] at h
  | cons feed tail =>
      simp only [cut?, hd, Option.some.injEq, Prod.mk.injEq] at h
      obtain ⟨rfl, rfl⟩ := h
      have hfeed : feed = lineFeed := by
        have hnot := List.head?_dropWhile_not (· != lineFeed) bytes
        rw [hd] at hnot
        simpa using hnot
      refine ⟨bytes.takeWhile (· != lineFeed), by rw [hfeed], ?_⟩
      intro hmem
      simpa using List.all_eq_true.mp List.all_takeWhile _ hmem

/-- There is nothing to cut exactly when no LF has come. -/
theorem cut?_eq_none_iff {bytes : List UInt8} : cut? bytes = none ↔ lineFeed ∉ bytes := by
  cases hd : bytes.dropWhile (· != lineFeed) with
  | nil =>
      simp only [cut?, hd, true_iff]
      intro hmem
      have hsplit : bytes.takeWhile (· != lineFeed) ++ bytes.dropWhile (· != lineFeed) = bytes :=
        List.takeWhile_append_dropWhile
      rw [hd, List.append_nil] at hsplit
      rw [← hsplit] at hmem
      simpa using List.all_eq_true.mp List.all_takeWhile _ hmem
  | cons feed tail =>
      have hfeed : feed = lineFeed := by
        have hnot := List.head?_dropWhile_not (· != lineFeed) bytes
        rw [hd] at hnot
        simpa using hnot
      have hmem : feed ∈ bytes :=
        (List.dropWhile_sublist _).subset (hd ▸ List.mem_cons_self)
      simp only [cut?, hd, reduceCtorEq, false_iff]
      exact fun hnot ↦ hnot (hfeed ▸ hmem)

/-- A line of bytes without LF and an LF is cut off as a whole. -/
theorem cut?_line_append {body : List UInt8} (rest : List UInt8) (hbody : lineFeed ∉ body) :
    cut? (body ++ lineFeed :: rest) = some (body ++ [lineFeed], rest) := by
  have hne : ∀ b ∈ body, (b != lineFeed) = true := by
    intro b hb
    simp only [bne_iff_ne, ne_eq]
    rintro rfl
    exact hbody hb
  have hdrop : (body ++ lineFeed :: rest).dropWhile (· != lineFeed) = lineFeed :: rest := by
    rw [List.dropWhile_append_of_pos hne, List.dropWhile_cons_of_neg (by simp)]
  have htake : (body ++ lineFeed :: rest).takeWhile (· != lineFeed) = body := by
    rw [List.takeWhile_append_of_pos hne, List.takeWhile_cons_of_neg (by simp), List.append_nil]
  simp only [cut?, hdrop, htake]

theorem length_cut?_lt {bytes line rest : List UInt8} (h : cut? bytes = some (line, rest)) :
    rest.length < bytes.length := by
  obtain ⟨body, rfl, -⟩ := cut?_line h
  rw [cut?_append h]
  simp
  omega

end Line

end ChatRelay.Wire
