/-!
# Blanks and words

A blank is a character with the Unicode property White_Space, of which there are 25. A word is a
longest run of characters that are not blank. `firstWord?_append` says how a text is cut at its first
word, `firstWord?_not_blank` that the word is one, `firstWord?_of_word` that a word in front is found.
-/

namespace ChatRelay.Text

/-- The ranges of characters with the property White_Space, both ends included. -/
def blankRanges : List (Nat × Nat) :=
  [(0x0009, 0x000D), (0x0020, 0x0020), (0x0085, 0x0085), (0x00A0, 0x00A0), (0x1680, 0x1680),
    (0x2000, 0x200A), (0x2028, 0x2029), (0x202F, 0x202F), (0x205F, 0x205F), (0x3000, 0x3000)]

/-- The character is in the table. -/
def isBlank (c : Char) : Bool :=
  blankRanges.any fun range ↦ range.1 ≤ c.toNat && c.toNat ≤ range.2

/-- The characters from the first that is not blank on. -/
def skipBlanks (chars : List Char) : List Char :=
  chars.dropWhile isBlank

/-- The first word, and what follows it; none if all is blank. -/
def firstWord? (chars : List Char) : Option (List Char × List Char) :=
  match skipBlanks chars with
  | [] => none
  | c :: rest =>
      some ((c :: rest).takeWhile (!isBlank ·), (c :: rest).dropWhile (!isBlank ·))

/-- The text is its leading blanks, its first word and the rest. -/
theorem firstWord?_append {chars word rest : List Char}
    (h : firstWord? chars = some (word, rest)) :
    chars = chars.takeWhile isBlank ++ word ++ rest := by
  have hsplit : chars = chars.takeWhile isBlank ++ skipBlanks chars :=
    List.takeWhile_append_dropWhile.symm
  cases hs : skipBlanks chars with
  | nil => simp [firstWord?, hs] at h
  | cons c tail =>
      simp only [firstWord?, hs, Option.some.injEq, Prod.mk.injEq] at h
      obtain ⟨rfl, rfl⟩ := h
      rw [List.append_assoc, List.takeWhile_append_dropWhile, ← hs]
      exact hsplit

/-- A word holds no blank. -/
theorem firstWord?_not_blank {chars word rest : List Char}
    (h : firstWord? chars = some (word, rest)) : ∀ c ∈ word, isBlank c = false := by
  intro c hc
  cases hs : skipBlanks chars with
  | nil => simp [firstWord?, hs] at h
  | cons first tail =>
      simp only [firstWord?, hs, Option.some.injEq, Prod.mk.injEq] at h
      obtain ⟨rfl, -⟩ := h
      simpa using List.all_eq_true.mp List.all_takeWhile c hc

/-- What stands before a blank and holds none itself is the first word. -/
theorem firstWord?_of_word {word rest : List Char} (hne : word ≠ [])
    (hword : ∀ c ∈ word, isBlank c = false) (hrest : ∀ c ∈ rest.head?, isBlank c = true) :
    firstWord? (word ++ rest) = some (word, rest) := by
  obtain ⟨first, others, rfl⟩ := List.exists_cons_of_ne_nil hne
  have hskip : skipBlanks (first :: others ++ rest) = first :: others ++ rest := by
    have hfirst := hword first List.mem_cons_self
    exact List.dropWhile_cons_of_neg (by simp [hfirst])
  have htaken : (first :: others ++ rest).takeWhile (!isBlank ·) = first :: others := by
    rw [List.takeWhile_append_of_pos (by simpa using hword)]
    cases rest with
    | nil => simp
    | cons c left => simp [hrest c rfl]
  have hleft : (first :: others ++ rest).dropWhile (!isBlank ·) = rest := by
    rw [List.dropWhile_append_of_pos (by simpa using hword)]
    cases rest with
    | nil => rfl
    | cons c left => simp [hrest c rfl]
  unfold firstWord?
  rw [hskip]
  exact congrArg some (Prod.ext htaken hleft)

example : (blankRanges.map fun range ↦ range.2 + 1 - range.1).sum = 25 := by decide

end ChatRelay.Text
