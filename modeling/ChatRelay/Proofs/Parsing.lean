import ChatRelay.Proofs.Codec
import ChatRelay.Wire.Delivery

/-!
# What a line and a payload are read as

A text is taken apart at its first delimiter in one way only, and there is one way to take the
terminators off its end. From these two facts come `Message.codec_exact`, which says what every line is
read as and which messages their lines tell apart, and `Delivery.parses_uniquely`, which says the same of
the payloads of deliveries.
-/

namespace ChatRelay

namespace Text

/-! ## The first delimiter -/

section
variable {d first : Char} {chars left left' rest right right' : List Char}

/-- Where a character comes for the first time is where a text is cut at it. -/
theorem cut_append (right : List Char) (h : d ∉ left) :
    (left ++ d :: right).takeWhile (· != d) = left ∧
      (left ++ d :: right).dropWhile (· != d) = d :: right := by
  have hleft : ∀ c ∈ left, (c != d) = true := by
    intro c hc
    rw [bne_iff_ne]
    rintro rfl
    exact h hc
  rw [List.takeWhile_append_of_pos hleft, List.dropWhile_append_of_pos hleft]
  simp

/-- A text that is cut at a character has it there for the first time. -/
theorem append_cut (h : chars.dropWhile (· != d) = first :: rest) :
    chars = chars.takeWhile (· != d) ++ d :: rest ∧ d ∉ chars.takeWhile (· != d) := by
  have hfirst : first = d := by
    have hnot := List.head?_dropWhile_not (· != d) chars
    rw [h] at hnot
    simpa using hnot
  constructor
  · rw [← hfirst, ← h, hfirst]
    exact List.takeWhile_append_dropWhile.symm
  · intro hmem
    simpa using List.all_eq_true.mp List.all_takeWhile d hmem

theorem dropWhile_eq_nil_iff : chars.dropWhile (· != d) = [] ↔ d ∉ chars := by
  constructor
  · intro h hmem
    have hall : chars.takeWhile (· != d) = chars := by
      have hsplit := List.takeWhile_append_dropWhile (p := (· != d)) (l := chars)
      rwa [h, List.append_nil] at hsplit
    rw [← hall] at hmem
    simpa using List.all_eq_true.mp List.all_takeWhile d hmem
  · intro h
    cases hdrop : chars.dropWhile (· != d) with
    | nil => rfl
    | cons first rest =>
        rw [(append_cut hdrop).1] at h
        simp at h

/-- A text is cut at a character in one way. -/
theorem append_cons_inj (hleft : d ∉ left) (hleft' : d ∉ left')
    (h : left ++ d :: right = left' ++ d :: right') : left = left' ∧ right = right' := by
  obtain ⟨htake, hdrop⟩ := cut_append right hleft
  obtain ⟨htake', hdrop'⟩ := cut_append right' hleft'
  rw [h] at htake hdrop
  exact ⟨htake.symm.trans htake', (List.cons.inj (hdrop.symm.trans hdrop')).2⟩

end

/-! ## The terminators at the end -/

section
variable {c : Char} {chars body left right tail : List Char}

theorem trimEnd_eq_self_iff :
    trimEnd chars = chars ↔ ∀ c, chars.getLast? = some c → isTerminator c = false := by
  constructor
  · intro h c hlast
    exact trimEnd_last chars c (by rwa [h])
  · exact trimEnd_eq_self chars

/-- Terminators at the end come off, whatever stands before them. -/
theorem trimEnd_append_terminators (h : ∀ c ∈ tail, isTerminator c = true) :
    trimEnd (chars ++ tail) = trimEnd chars := by
  have hreverse : ∀ c ∈ tail.reverse, isTerminator c = true :=
    fun c hc ↦ h c (List.mem_reverse.mp hc)
  rw [trimEnd, List.reverse_append, List.dropWhile_append_of_pos hreverse, trimEnd]

theorem trimEnd_append_newline (chars : List Char) : trimEnd (chars ++ ['\n']) = trimEnd chars :=
  trimEnd_append_terminators fun c hc ↦ by
    rw [List.mem_singleton.mp hc]
    decide

/-- The terminators at the end are what comes off, and all of them do. -/
theorem trimEnd_eq_iff :
    trimEnd chars = body ↔
      (∃ tail, chars = body ++ tail ∧ ∀ c ∈ tail, isTerminator c = true) ∧
        ∀ c, body.getLast? = some c → isTerminator c = false := by
  constructor
  · rintro rfl
    exact ⟨trimEnd_append chars, trimEnd_last chars⟩
  · rintro ⟨⟨tail, rfl, htail⟩, hlast⟩
    rw [trimEnd_append_terminators htail, trimEnd_eq_self body hlast]

/-- Nothing comes off before the last character that is no terminator. -/
theorem trimEnd_append_cons (hc : isTerminator c = false) :
    trimEnd (left ++ c :: right) = left ++ c :: trimEnd right := by
  obtain ⟨tail, hright, htail⟩ := trimEnd_append right
  refine trimEnd_eq_iff.mpr ⟨⟨tail, ?_, htail⟩, fun e hlast ↦ ?_⟩
  · rw [List.append_assoc, List.cons_append, ← hright]
  · cases hrest : (trimEnd right).getLast? with
    | none =>
        rw [List.getLast?_eq_none_iff.mp hrest, List.getLast?_concat] at hlast
        rwa [← Option.some.inj hlast]
    | some last =>
        rw [List.getLast?_append, List.getLast?_cons, hrest] at hlast
        rw [← Option.some.inj hlast]
        exact trimEnd_last right last hrest

end

end Text

namespace Wire

open Text

theorem Tag.delimiter_not_mem (tag : Tag) : delimiter ∉ tag.symbol.toList :=
  fun hmem ↦ (tag.symbol_plain hmem).1 rfl

namespace Message

variable {m other : Message} {text head : String} {v : Violation}

/-- A line is read as the message that it carries before the terminators at its end. -/
theorem decode_eq_ok_iff : decode text = .ok m ↔ trimEnd text.toList = m.body.toList := by
  rw [toList_body]
  unfold decode
  constructor
  · intro h
    dsimp only at h
    split at h
    · cases h
    · rename_i payload hdrop
      split at h
      · cases h
      · rename_i tag htag
        cases h
        have htake := Tag.ofSymbol?_eq_some_iff.mp htag
        rw [← htake, String.toList_ofList, String.toList_ofList]
        exact (append_cut hdrop).1
  · intro h
    obtain ⟨htake, hdrop⟩ := cut_append m.payload.toList m.tag.delimiter_not_mem
    simp only [h, htake, hdrop, String.ofList_toList, Tag.ofSymbol?_symbol]

/-- A line that is read as no message lacks a delimiter, or has no symbol before the first one. -/
theorem decode_eq_error_iff :
    decode text = .error v ↔
      (v = .missingDelimiter ∧ delimiter ∉ trimEnd text.toList) ∨
        ∃ head rest, v = .unknownTag head ∧ (∀ tag, Tag.symbol tag ≠ head) ∧
          delimiter ∉ head.toList ∧ trimEnd text.toList = head.toList ++ delimiter :: rest := by
  constructor
  · intro h
    unfold decode at h
    dsimp only at h
    split at h
    · rename_i hnone
      cases h
      exact .inl ⟨rfl, dropWhile_eq_nil_iff.mp hnone⟩
    · rename_i payload hdrop
      split at h
      · rename_i hnone
        cases h
        obtain ⟨hsplit, hfree⟩ := append_cut hdrop
        refine .inr ⟨_, payload, rfl, fun tag heq ↦ ?_, ?_, ?_⟩
        · rw [← heq, Tag.ofSymbol?_symbol] at hnone
          cases hnone
        · rwa [String.toList_ofList]
        · rwa [String.toList_ofList]
      · cases h
  · rintro (⟨rfl, hnone⟩ | ⟨head, rest, rfl, hnone, hfree, hsplit⟩)
    · simp only [decode, dropWhile_eq_nil_iff.mpr hnone]
    · obtain ⟨htake, hdrop⟩ := cut_append rest hfree
      have hunknown : Tag.ofSymbol? head = none := by
        cases hfound : Tag.ofSymbol? head with
        | none => rfl
        | some tag => exact absurd (Tag.ofSymbol?_eq_some_iff.mp hfound).symm (hnone tag)
      simp only [decode, hsplit, htake, hdrop, String.ofList_toList, hunknown]

/-- The line of a message without its terminators is the message without those at its end. -/
theorem trimEnd_encode (m : Message) :
    trimEnd m.encode.toList = m.tag.symbol.toList ++ delimiter :: trimEnd m.payload.toList := by
  rw [toList_encode, line, List.append_assoc, List.cons_append,
    trimEnd_append_cons (by decide : isTerminator delimiter = false),
    trimEnd_append_newline]

/-- Every message is read back, whatever its payload holds, but for the terminators at its end. -/
theorem decode_encode_trimmed (m : Message) :
    decode m.encode = .ok ⟨m.tag, String.ofList (trimEnd m.payload.toList)⟩ := by
  rw [decode_eq_ok_iff, trimEnd_encode, toList_body, String.toList_ofList]

theorem decode_encode_iff :
    decode m.encode = .ok m ↔ ∀ c, m.payload.toList.getLast? = some c → isTerminator c = false := by
  rw [← trimEnd_eq_self_iff, decode_eq_ok_iff, trimEnd_encode, toList_body]
  simp

/-- The line that carries a message ends at its first LF if the payload has none. -/
theorem line_append_inj {rest rest' : List Char} (hm : '\n' ∉ m.payload.toList)
    (hother : '\n' ∉ other.payload.toList) (h : m.line ++ rest = other.line ++ rest') :
    m = other ∧ rest = rest' := by
  have hfree {m : Message} (hm : '\n' ∉ m.payload.toList) : '\n' ∉ m.body.toList := by
    rw [toList_body]
    intro hmem
    rcases List.mem_append.mp hmem with hsymbol | htail
    · exact absurd (m.tag.symbol_plain hsymbol).2 (by decide)
    · rcases List.mem_cons.mp htail with hcolon | hpayload
      · exact absurd hcolon (by decide)
      · exact hm hpayload
  have hline (m : Message) (rest : List Char) : m.line ++ rest = m.body.toList ++ '\n' :: rest := by
    rw [toList_body, line]
    simp
  rw [hline, hline] at h
  obtain ⟨hbody, hrest⟩ := append_cons_inj (hfree hm) (hfree hother) h
  refine ⟨bytes_injective ?_, hrest⟩
  rw [bytes_eq, bytes_eq, String.toList_inj.mp hbody]

/-- Messages whose payloads have no LF are told apart by their lines one after the other. -/
theorem flatMap_line_inj {messages others : List Message}
    (hmessages : ∀ m ∈ messages, '\n' ∉ m.payload.toList)
    (hothers : ∀ m ∈ others, '\n' ∉ m.payload.toList)
    (h : messages.flatMap line = others.flatMap line) : messages = others := by
  have hsome (m : Message) (rest : List Char) : m.line ++ rest ≠ [] := by simp [line]
  induction messages generalizing others with
  | nil =>
      cases others with
      | nil => rfl
      | cons other rest => exact absurd h.symm (hsome other _)
  | cons m messages ih =>
      cases others with
      | nil => exact absurd h (hsome m _)
      | cons other others =>
          rw [List.forall_mem_cons] at hmessages hothers
          obtain ⟨rfl, hrest⟩ := line_append_inj hmessages.1 hothers.1 h
          rw [ih hmessages.2 hothers.2 hrest]

/-- What `encode` writes and what `decode` reads, for any message and any line. A message is read back
without the terminators at the end of its payload, so as itself exactly if there are none, and if it is
valid in particular. A line is read exactly if it is a symbol, a colon and a text before its terminators,
and is then written as what stands before them, with an LF; without a colon it has no delimiter, with
something else before the first one it has an unknown tag, and nothing else can be wrong. No two messages
have one line, and where payloads have no LF, the lines one after the other tell what the messages are. -/
theorem codec_exact (m : Message) (text : String) :
    decode m.encode = .ok ⟨m.tag, String.ofList (trimEnd m.payload.toList)⟩ ∧
      (decode m.encode = .ok m ↔
        ∀ c, m.payload.toList.getLast? = some c → isTerminator c = false) ∧
      (m.validate = .ok () → decode m.encode = .ok m) ∧
      (decode text = .ok m ↔
        trimEnd text.toList = m.tag.symbol.toList ++ delimiter :: m.payload.toList) ∧
      (decode text = .ok m → m.encode = String.ofList (trimEnd text.toList ++ ['\n'])) ∧
      (decode text = .error .missingDelimiter ↔ delimiter ∉ trimEnd text.toList) ∧
      (∀ head, decode text = .error (.unknownTag head) ↔
        (∀ tag, Tag.symbol tag ≠ head) ∧ delimiter ∉ head.toList ∧
          ∃ rest, trimEnd text.toList = head.toList ++ delimiter :: rest) ∧
      (∀ v, decode text = .error v → v = .missingDelimiter ∨ ∃ head, v = .unknownTag head) ∧
      (∀ other : Message, m.encode = other.encode → m = other) ∧
      ∀ messages others : List Message, (∀ m ∈ messages, '\n' ∉ m.payload.toList) →
        (∀ m ∈ others, '\n' ∉ m.payload.toList) →
        String.join (messages.map encode) = String.join (others.map encode) → messages = others := by
  refine ⟨decode_encode_trimmed m, decode_encode_iff, fun hvalid ↦ ?_, ?_, fun hread ↦ ?_, ?_,
    fun head ↦ ?_, fun v hfails ↦ ?_, fun other hsame ↦ ?_, fun messages others hm hothers hsame ↦ ?_⟩
  · exact decode_encode (validate_eq_ok_iff.mp hvalid).1
  · rw [decode_eq_ok_iff, toList_body]
  · rw [decode_eq_ok_iff.mp hread, toList_body]
    rfl
  · rw [decode_eq_error_iff]
    simp
  · rw [decode_eq_error_iff]
    constructor
    · rintro (⟨hother, -⟩ | ⟨other, rest, heq, hnone, hfree, hsplit⟩)
      · cases hother
      · cases heq
        exact ⟨hnone, hfree, rest, hsplit⟩
    · rintro ⟨hnone, hfree, rest, hsplit⟩
      exact .inr ⟨head, rest, rfl, hnone, hfree, hsplit⟩
  · rcases decode_eq_error_iff.mp hfails with ⟨heq, -⟩ | ⟨head, -, heq, -⟩
    · exact .inl heq
    · exact .inr ⟨head, heq⟩
  · exact bytes_injective (congrArg utf8 hsame)
  · refine flatMap_line_inj hm hothers ?_
    have hchars := congrArg String.toList hsame
    simpa only [String.toList_join, List.flatMap_map, toList_encode] using hchars

/-- A line that ends with CR and LF is written with an LF alone, and a payload keeps its colons. -/
theorem codec_exact_crlf :
    decode "join:den:2\r\n" = .ok ⟨.join, "den:2"⟩ ∧
      (⟨.join, "den:2"⟩ : Message).validate = .ok () ∧
      decode (⟨.join, "den:2"⟩ : Message).encode = .ok ⟨.join, "den:2"⟩ ∧
      (⟨.join, "den:2"⟩ : Message).encode = "join:den:2\n" ∧
      [⟨.join, "den:2"⟩, Message.ok] = [⟨.join, "den:2"⟩, ⟨.ok, ""⟩] := by
  have hread : decode "join:den:2\r\n" = .ok ⟨.join, "den:2"⟩ := by rfl
  have hvalid : (⟨.join, "den:2"⟩ : Message).validate = .ok () := by rfl
  obtain ⟨-, -, hback, -, hwritten, -, -, -, -, htold⟩ :=
    codec_exact ⟨.join, "den:2"⟩ "join:den:2\r\n"
  refine ⟨hread, hvalid, hback hvalid, (hwritten hread).trans (by rfl), ?_⟩
  exact htold _ _ (by decide) (by decide) (by rfl)

end Message

namespace Delivery

variable {text : String} {d : Delivery}

/-- A payload is read as a delivery exactly if it carries it and room and sender hold no colon. -/
theorem ofPayload_eq_ok_iff :
    ofPayload text = .ok d ↔
      delimiter ∉ d.room.toList ∧ delimiter ∉ d.sender.toList ∧ d.payload = text := by
  constructor
  · intro h
    have hpayload := payload_of_ofPayload h
    unfold ofPayload at h
    split at h
    · cases h
    · rename_i tail hroom
      split at h
      · cases h
      · rename_i rest hsender
        cases h
        refine ⟨?_, ?_, hpayload⟩
        · rw [String.toList_ofList]
          exact (append_cut hroom).2
        · rw [String.toList_ofList]
          exact (append_cut hsender).2
  · rintro ⟨hroom, hsender, rfl⟩
    exact ofPayload_payload d hroom hsender

/-- A payload is no delivery exactly if it has fewer than two colons. -/
theorem ofPayload_eq_error_iff {v : Violation} :
    ofPayload text = .error v ↔ v = .malformedDelivery ∧ text.toList.count delimiter < 2 := by
  unfold ofPayload
  split
  · rename_i hnone
    have hcount : text.toList.count delimiter = 0 :=
      List.count_eq_zero.mpr (dropWhile_eq_nil_iff.mp hnone)
    simp [hcount, eq_comm]
  · rename_i tail hroom
    obtain ⟨hsplit, hfree⟩ := append_cut hroom
    have hcount : text.toList.count delimiter = tail.count delimiter + 1 := by
      rw [hsplit, List.count_append, List.count_eq_zero.mpr hfree, Nat.zero_add, List.count_cons_self]
    split
    · rename_i hnone
      have hnone : tail.count delimiter = 0 := List.count_eq_zero.mpr (dropWhile_eq_nil_iff.mp hnone)
      simp [hcount, hnone, eq_comm]
    · rename_i rest hsender
      have hmore : 1 ≤ tail.count delimiter := by
        rw [(append_cut hsender).1]
        exact List.count_pos_iff.mpr (by simp)
      simp only [reduceCtorEq, false_iff]
      omega

/-- For any text and any delivery. A text is read as a delivery exactly if it has two colons, and
otherwise is malformed; it is read as the delivery whose payload it is and whose room and sender hold no
colon, and as no other. So a delivery is read back from its payload exactly if its room and sender hold no
colon. The length of the payload is known without building it. -/
theorem parses_uniquely (text : String) (d : Delivery) :
    ((∃ read, ofPayload text = .ok read) ↔ 2 ≤ text.toList.count delimiter) ∧
      (∀ v, ofPayload text = .error v ↔
        v = .malformedDelivery ∧ text.toList.count delimiter < 2) ∧
      (ofPayload text = .ok d ↔
        delimiter ∉ d.room.toList ∧ delimiter ∉ d.sender.toList ∧ d.payload = text) ∧
      (ofPayload d.payload = .ok d ↔ delimiter ∉ d.room.toList ∧ delimiter ∉ d.sender.toList) ∧
      d.payloadSize = (utf8 d.payload).length := by
  refine ⟨?_, fun v ↦ ofPayload_eq_error_iff, ofPayload_eq_ok_iff, ?_, ?_⟩
  · cases hread : ofPayload text with
    | ok read =>
        have hnot : ¬text.toList.count delimiter < 2 := fun hfew ↦ by
          rw [ofPayload_eq_error_iff.mpr ⟨rfl, hfew⟩] at hread
          cases hread
        simp only [Except.ok.injEq, exists_eq', true_iff]
        omega
    | error v =>
        have hfew := (ofPayload_eq_error_iff.mp hread).2
        simp only [reduceCtorEq, exists_false, false_iff]
        omega
  · rw [ofPayload_eq_ok_iff]
    simp
  · rw [length_utf8, size_payload]

end Delivery

end Wire

end ChatRelay
