import ChatRelay.Proofs.Receiving

/-!
# What one message becomes on the wire

A payload without terminators makes one line, whatever else it holds: no byte of a longer character
looks like an LF. `read_bytes` says that the line is read back as the message where the payload keeps
within the limit, and refused by its length otherwise; `isLine_bytes` and `length_bytes` say that the
line is cut off in one piece.
-/

namespace ChatRelay.Wire

open Text

/-- A byte of the lower half stands in a text for its own character only. -/
theorem val_of_mem_utf8EncodeChar {byte : UInt8} {c : Char} (hlow : byte.toNat ≤ 127)
    (h : byte ∈ String.utf8EncodeChar c) : c.val.toNat = byte.toNat := by
  -- the bytes of a longer character are all made by adding 128 or more
  have hhigh : ∀ n, 128 ≤ n → n < 256 → byte ≠ UInt8.ofNat n := by
    intro n hn hsize heq
    have hval : byte.toNat = n % 256 := by rw [heq, UInt8.toNat_ofNat']
    omega
  unfold String.utf8EncodeChar at h
  dsimp only at h
  split at h
  · have heq : byte.toNat = c.val.toNat % 256 := by
      rw [List.mem_singleton.mp h, UInt8.toNat_ofNat']
    omega
  · split at h
    · simp only [List.mem_cons, List.not_mem_nil, or_false] at h
      rcases h with h | h <;> exact absurd h (hhigh _ (by omega) (by omega))
    · split at h
      · simp only [List.mem_cons, List.not_mem_nil, or_false] at h
        rcases h with h | h | h <;> exact absurd h (hhigh _ (by omega) (by omega))
      · simp only [List.mem_cons, List.not_mem_nil, or_false] at h
        rcases h with h | h | h | h <;> exact absurd h (hhigh _ (by omega) (by omega))

/-- Only LF is written with the byte of LF. -/
theorem lineFeed_mem_utf8EncodeChar_iff {c : Char} :
    lineFeed ∈ String.utf8EncodeChar c ↔ c = '\n' := by
  constructor
  · intro hmem
    have hval := val_of_mem_utf8EncodeChar (by decide) hmem
    exact Char.ext (UInt32.toNat_inj.mp hval)
  · rintro rfl
    decide

theorem lineFeed_not_mem_utf8 {text : String} (h : '\n' ∉ text.toList) : lineFeed ∉ utf8 text := by
  rw [utf8_eq_flatMap, List.mem_flatMap]
  rintro ⟨c, hc, hmem⟩
  exact h (lineFeed_mem_utf8EncodeChar_iff.mp hmem ▸ hc)

theorem not_mem_of_hasTerminator {text : String} (h : hasTerminator text = false) :
    '\n' ∉ text.toList := by
  intro hmem
  have hnot := List.any_eq_false.mp h '\n' hmem
  exact hnot (by decide)

namespace Tag

/-- A symbol is shorter than the limit says, and all of it stands before the delimiter. -/
theorem size_symbol_le (tag : Tag) : size tag.symbol ≤ maxSymbol := by
  cases tag <;> decide

/-- A letter is neither a delimiter nor a terminator. -/
theorem symbol_plain (tag : Tag) {c : Char} (hc : c ∈ tag.symbol.toList) :
    c ≠ delimiter ∧ isTerminator c = false := by
  have hlower := List.all_eq_true.mp tag.symbol_letters c hc
  constructor
  · rintro rfl
    exact absurd hlower (by decide)
  · cases hterminator : isTerminator c with
    | false => rfl
    | true =>
        simp only [isTerminator, Bool.or_eq_true, beq_iff_eq] at hterminator
        rcases hterminator with rfl | rfl <;> exact absurd hlower (by decide)

end Tag

namespace Message

/-- What stands before the LF of the line. -/
def body (m : Message) : String :=
  m.tag.symbol ++ ":" ++ m.payload

theorem toList_body (m : Message) :
    m.body.toList = m.tag.symbol.toList ++ delimiter :: m.payload.toList := by
  simp [body, delimiter]

theorem bytes_eq (m : Message) : m.bytes = utf8 m.body ++ [lineFeed] := by
  have hline : m.encode = m.body ++ "\n" := by
    apply String.toList_inj.mp
    rw [toList_encode, line, String.toList_append, toList_body]
    simp
  have hfeed : utf8 "\n" = [lineFeed] := by decide
  rw [bytes, hline, utf8_append, hfeed]

theorem bytes_ne_nil (m : Message) : m.bytes ≠ [] := by
  simp [bytes_eq]

/-- The line is as long as its symbol and its payload, with the colon and the LF. -/
theorem length_bytes (m : Message) :
    m.bytes.length = size m.tag.symbol + size m.payload + 2 := by
  have hcolon : size ":" = 1 := by decide
  rw [bytes_eq, body, utf8_append, utf8_append]
  simp only [List.length_append, length_utf8, List.length_singleton]
  omega

/-- A payload without terminators makes one line. -/
theorem isLine_bytes {m : Message} (h : hasTerminator m.payload = false) :
    Connection.IsLine m.bytes := by
  refine ⟨utf8 m.body, m.bytes_eq, lineFeed_not_mem_utf8 ?_⟩
  rw [toList_body]
  intro hmem
  rcases List.mem_append.mp hmem with hsymbol | htail
  · have hplain := (m.tag.symbol_plain hsymbol).2
    exact absurd hplain (by decide)
  · rcases List.mem_cons.mp htail with hcolon | hpayload
    · exact absurd hcolon (by decide)
    · exact not_mem_of_hasTerminator h hpayload

/-- The line of a valid message keeps within the longest line. -/
theorem length_bytes_le {m : Message} (h : m.Valid) : m.bytes.length ≤ maxLine := by
  have hsymbol := m.tag.size_symbol_le
  have hpayload := h.2
  rw [length_bytes, maxLine]
  omega

/-- Taking the terminators off the line leaves what stands before the LF. -/
theorem trimEnd_line {m : Message} (h : hasTerminator m.payload = false) :
    trimEnd m.line = m.body.toList := by
  have hplain : ∀ c ∈ m.body.toList, isTerminator c = false := by
    intro c hc
    rw [toList_body] at hc
    rcases List.mem_append.mp hc with hsymbol | htail
    · exact (m.tag.symbol_plain hsymbol).2
    · rcases List.mem_cons.mp htail with rfl | hpayload
      · decide
      · simpa using List.any_eq_false.mp h c hpayload
  have hline : m.line = m.body.toList ++ ['\n'] := by
    rw [toList_body, line]
  have hfeed : isTerminator '\n' = true := by decide
  rw [hline, trimEnd, List.reverse_append, List.reverse_singleton, List.singleton_append,
    List.dropWhile_cons_of_pos hfeed]
  exact trimEnd_eq_self _ fun c hlast ↦ hplain c (List.mem_of_getLast? hlast)

/-- The line is taken apart where it was put together. -/
theorem decode_encode {m : Message} (h : hasTerminator m.payload = false) :
    decode m.encode = .ok m := by
  have hsymbol : ∀ c ∈ m.tag.symbol.toList, (c != delimiter) = true := by
    intro c hc
    simpa using (m.tag.symbol_plain hc).1
  have hdrop : m.body.toList.dropWhile (· != delimiter) = delimiter :: m.payload.toList := by
    rw [toList_body, List.dropWhile_append_of_pos hsymbol,
      List.dropWhile_cons_of_neg (by simp)]
  have htake : m.body.toList.takeWhile (· != delimiter) = m.tag.symbol.toList := by
    rw [toList_body, List.takeWhile_append_of_pos hsymbol,
      List.takeWhile_cons_of_neg (by simp), List.append_nil]
  unfold decode
  simp only [toList_encode, trimEnd_line h, hdrop, htake, String.ofList_toList,
    Tag.ofSymbol?_symbol]

/-- The line is read as the message, if the payload keeps within the limit. -/
theorem read_bytes {m : Message} (h : hasTerminator m.payload = false) :
    Line.read m.bytes =
      if size m.payload ≤ maxPayload then .ok m
      else .error (.payloadTooLong (size m.payload) maxPayload) := by
  have htext : ofUtf8? m.bytes = some m.encode := ofUtf8?_eq_some_iff.mpr rfl
  unfold Line.read
  simp only [htext, decode_encode h, validate, h]
  by_cases hsize : size m.payload ≤ maxPayload
  · simp [hsize, Nat.not_lt_of_le hsize]
  · simp [hsize, Nat.lt_of_not_le hsize]

/-- The line of a valid message is judged to be the message. -/
theorem judge_bytes {m : Message} (h : m.Valid) : Connection.judge m.bytes = .ok m := by
  rw [Connection.judge, read_bytes h.1, if_pos h.2]
  rfl

/-- The LF is the last byte, so a first part that lacks some of the line lacks the LF. -/
theorem lineFeed_not_mem_of_append {m : Message} (h : hasTerminator m.payload = false)
    {bytes rest : List UInt8} (hbytes : bytes ++ rest = m.bytes) (hrest : rest ≠ []) :
    lineFeed ∉ bytes := by
  obtain ⟨body, hbody, hnone⟩ := isLine_bytes h
  have hlast := congrArg List.dropLast (hbytes.trans hbody)
  rw [List.dropLast_append_of_ne_nil hrest, List.dropLast_concat] at hlast
  exact fun hmem ↦ hnone (hlast ▸ List.mem_append_left _ hmem)

/-- No two messages have one line, whatever their payloads hold. -/
theorem bytes_injective {m other : Message} (h : m.bytes = other.bytes) : m = other := by
  have hsplit (m : Message) : m.line.takeWhile (· != delimiter) = m.tag.symbol.toList ∧
      m.line.dropWhile (· != delimiter) = delimiter :: m.payload.toList ++ ['\n'] := by
    have hsymbol : ∀ c ∈ m.tag.symbol.toList, (c != delimiter) = true := by
      intro c hc
      simpa using (m.tag.symbol_plain hc).1
    rw [line, List.append_assoc, List.takeWhile_append_of_pos hsymbol,
      List.dropWhile_append_of_pos hsymbol]
    simp
  have hread (m : Message) : ofUtf8? m.bytes = some m.encode := ofUtf8?_eq_some_iff.mpr rfl
  have hencode : m.encode = other.encode := by
    have hsame := hread m
    rw [h, hread other] at hsame
    exact (Option.some.inj hsame).symm
  have hline : m.line = other.line := by
    rw [← toList_encode, hencode, toList_encode]
  obtain ⟨htag, hpayload⟩ := hsplit m
  rw [hline] at htag hpayload
  obtain ⟨htag', hpayload'⟩ := hsplit other
  have hsymbols := String.toList_inj.mp (htag.symm.trans htag')
  have hpayloads := List.append_cancel_right (hpayload.symm.trans hpayload')
  have hsame := String.toList_inj.mp (List.cons.inj hpayloads).2
  obtain ⟨tag, payload⟩ := m
  obtain ⟨tag', payload'⟩ := other
  obtain rfl := Tag.symbol_injective hsymbols
  obtain rfl := hsame
  rfl

end Message

end ChatRelay.Wire
