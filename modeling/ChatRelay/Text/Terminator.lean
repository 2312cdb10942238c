/-!
# Line terminators

A line ends with LF, and a CR may stand before it. `trimEnd` takes off every terminator at the end
of a text: `trimEnd_append` says that nothing else is lost, `trimEnd_last` that none is left.
-/

namespace ChatRelay.Text

/-- CR and LF end a line. -/
def isTerminator (c : Char) : Bool :=
  c == '\r' || c == '\n'

/-- The characters without the terminators at their end. -/
def trimEnd (chars : List Char) : List Char :=
  (chars.reverse.dropWhile isTerminator).reverse

/-- Some character of the text ends a line. -/
def hasTerminator (text : String) : Bool :=
  text.toList.any isTerminator

/-- What `trimEnd` takes off is a run of terminators at the end. -/
theorem trimEnd_append (chars : List Char) :
    ∃ tail, chars = trimEnd chars ++ tail ∧ ∀ c ∈ tail, isTerminator c = true := by
  refine ⟨(chars.reverse.takeWhile isTerminator).reverse, ?_, ?_⟩
  · rw [trimEnd, ← List.reverse_append, List.takeWhile_append_dropWhile, List.reverse_reverse]
  · intro c hc
    have hmem := List.mem_reverse.mp hc
    exact List.all_eq_true.mp List.all_takeWhile c hmem

/-- No terminator is left at the end. -/
theorem trimEnd_last (chars : List Char) (c : Char) (hlast : (trimEnd chars).getLast? = some c) :
    isTerminator c = false := by
  rw [trimEnd, List.getLast?_reverse] at hlast
  have h := List.head?_dropWhile_not isTerminator chars.reverse
  rw [hlast] at h
  simpa using h

/-- Characters that do not end with a terminator stay as they are. -/
theorem trimEnd_eq_self (chars : List Char)
    (hlast : ∀ c, chars.getLast? = some c → isTerminator c = false) : trimEnd chars = chars := by
  rw [trimEnd]
  cases hrev : chars.reverse with
  | nil => simpa using hrev.symm
  | cons c rest =>
      have hc : isTerminator c = false := by
        apply hlast
        rw [List.getLast?_eq_head?_reverse, hrev, List.head?_cons]
      rw [List.dropWhile_cons_of_neg (by simp [hc]), ← hrev, List.reverse_reverse]

end ChatRelay.Text
