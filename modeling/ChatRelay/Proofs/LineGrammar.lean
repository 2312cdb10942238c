import ChatRelay.Proofs.Origins
import ChatRelay.Proofs.Parsing
import ChatRelay.Proofs.Reading

/-!
# The grammar of lines

`Line.Carries` is the grammar: a symbol, a colon, a payload, any number of CRs and the LF. `Line.Objects`
says of each violation, by itself, what is the matter with a line of which it is reported.
`Connection.receives_by_grammar` says that a receive takes exactly the line at the head of its buffer,
that it accepts what the grammar allows, and that it reports the first violation otherwise.
-/

namespace ChatRelay

open Text Wire

namespace Text

variable {text other : String} {byte : UInt8} {c : Char} {front body head payload : List Char}

theorem utf8_injective (h : utf8 text = utf8 other) : text = other := by
  have hread : ofUtf8? (utf8 text) = some other := ofUtf8?_eq_some_iff.mpr h.symm
  rw [ofUtf8?_eq_some_iff.mpr rfl] at hread
  exact Option.some.inj hread

theorem utf8EncodeChar_newline : String.utf8EncodeChar '\n' = [lineFeed] := by decide

/-- A byte of the lower half is in a text exactly if its character is. -/
theorem mem_utf8_iff (hlow : byte.toNat ≤ 127) (hc : String.utf8EncodeChar c = [byte]) :
    byte ∈ utf8 text ↔ c ∈ text.toList := by
  have hval : c.val.toNat = byte.toNat := val_of_mem_utf8EncodeChar hlow (by simp [hc])
  rw [utf8_eq_flatMap, List.mem_flatMap]
  constructor
  · rintro ⟨d, hd, hmem⟩
    have hsame : d.val.toNat = c.val.toNat := (val_of_mem_utf8EncodeChar hlow hmem).trans hval.symm
    rwa [Char.ext (UInt32.toNat_inj.mp hsame)] at hd
  · exact fun hmem ↦ ⟨c, hmem, by simp [hc]⟩

theorem isTerminator_eq_true_iff : isTerminator c = true ↔ c = '\r' ∨ c = '\n' := by
  rw [isTerminator, Bool.or_eq_true, beq_iff_eq, beq_iff_eq]

theorem hasTerminator_eq_true_iff :
    hasTerminator text = true ↔ '\r' ∈ text.toList ∨ '\n' ∈ text.toList := by
  simp only [hasTerminator, List.any_eq_true, isTerminator_eq_true_iff]
  constructor
  · rintro ⟨c, hmem, rfl | rfl⟩
    · exact .inl hmem
    · exact .inr hmem
  · rintro (hmem | hmem)
    · exact ⟨_, hmem, .inl rfl⟩
    · exact ⟨_, hmem, .inr rfl⟩

/-- Of a line with one LF, the LF and the CRs before it come off. -/
theorem trimEnd_line_iff (hfront : '\n' ∉ front) :
    trimEnd (front ++ ['\n']) = body ↔
      (∃ n, front = body ++ List.replicate n '\r') ∧ body.getLast? ≠ some '\r' := by
  rw [trimEnd_append_newline, trimEnd_eq_iff]
  constructor
  · rintro ⟨⟨tail, rfl, htail⟩, hlast⟩
    have hreturns : tail = List.replicate tail.length '\r' := by
      refine List.eq_replicate_iff.mpr ⟨rfl, fun c hc ↦ ?_⟩
      refine (isTerminator_eq_true_iff.mp (htail c hc)).resolve_right ?_
      rintro rfl
      exact hfront (List.mem_append_right _ hc)
    refine ⟨⟨tail.length, by rw [← hreturns]⟩, fun hreturn ↦ ?_⟩
    exact absurd (hlast _ hreturn) (by decide)
  · rintro ⟨⟨n, rfl⟩, hlast⟩
    refine ⟨⟨_, rfl, fun c hc ↦ ?_⟩, fun c hc ↦ ?_⟩
    · rw [List.eq_of_mem_replicate hc]
      decide
    · have hreturn : c ≠ '\r' := fun heq ↦ hlast (heq ▸ hc)
      have hnewline : c ≠ '\n' := fun heq ↦
        hfront (List.mem_append_left _ (List.mem_of_getLast? (heq ▸ hc)))
      rw [← Bool.not_eq_true, isTerminator_eq_true_iff, not_or]
      exact ⟨hreturn, hnewline⟩

/-- A colon does not count as the end of a payload. -/
theorem getLast?_append_delimiter (hc : c ≠ delimiter) :
    (head ++ delimiter :: payload).getLast? = some c ↔ payload.getLast? = some c := by
  rw [List.getLast?_append, List.getLast?_cons]
  cases payload.getLast? with
  | none => simp [hc.symm]
  | some last => simp

end Text

namespace Wire.Line

/-- The byte of CR. -/
def carriageReturn : UInt8 := 0x0D

/-- The byte of the colon. -/
def colon : UInt8 := 0x3A

/-- The bytes of two texts with a colon between them, so many CRs, and an LF. -/
def spell (head payload : String) (returns : Nat) : List UInt8 :=
  utf8 head ++ colon :: utf8 payload ++ List.replicate returns carriageReturn ++ [lineFeed]

/-- The line grammar: a symbol, a colon, a payload without CR and LF of 255 bytes at most, any number of
CRs, and an LF, 266 bytes at most together. -/
structure Carries (line : List UInt8) (m : Message) : Prop where
  form : ∃ returns, line = spell m.tag.symbol m.payload returns
  plain : '\r' ∉ m.payload.toList ∧ '\n' ∉ m.payload.toList
  fits : (utf8 m.payload).length ≤ 255
  short : line.length ≤ 266

/-- What stands before the first colon of a line, and what stands between it and the CRs and the LF at
the end. -/
structure Parts (line : List UInt8) (head payload : String) : Prop where
  form : ∃ returns, line = spell head payload returns
  first : delimiter ∉ head.toList
  last : payload.toList.getLast? ≠ some '\r'

/-- What is the matter with a line, for each violation by itself. -/
inductive Objects (line : List UInt8) : Violation → Prop where
  | lineTooLong : 266 < line.length → Objects line (.lineTooLong 266)
  | invalidUtf8 : (∀ text, utf8 text ≠ line) → Objects line .invalidUtf8
  | missingDelimiter : colon ∉ line → Objects line .missingDelimiter
  | unknownTag (head payload : String) : Parts line head payload →
      (∀ tag, Tag.symbol tag ≠ head) → Objects line (.unknownTag head)
  | embeddedTerminator (head payload : String) : Parts line head payload →
      '\r' ∈ payload.toList ∨ '\n' ∈ payload.toList → Objects line .embeddedTerminator
  | payloadTooLong (head payload : String) : Parts line head payload →
      255 < (utf8 payload).length → Objects line (.payloadTooLong (utf8 payload).length 255)

/-- The order in which violations are looked for. -/
def rank : Violation → Nat
  | .lineTooLong _ => 0
  | .invalidUtf8 => 1
  | .missingDelimiter => 2
  | .unknownTag _ => 3
  | .embeddedTerminator => 4
  | .payloadTooLong _ _ => 5
  | .malformedDelivery => 6

/-- This is the matter with the line, and nothing that is looked for before it is. -/
structure IsFirst (line : List UInt8) (v : Violation) : Prop where
  objects : Objects line v
  first : ∀ u, Objects line u → rank v ≤ rank u

/-- A line as it is taken from the buffer: refused if it is too long, else read. -/
def check (line : List UInt8) : Except Violation Message :=
  if line.length > maxLine then .error (.lineTooLong maxLine) else read line

section
variable {line : List UInt8} {head head' payload payload' text : String} {m : Message}
  {u v : Violation}

/-! ## The parts of a line -/

theorem utf8_eq_spell_iff {returns : Nat} :
    utf8 text = spell head payload returns ↔
      text.toList =
        head.toList ++ delimiter :: payload.toList ++ List.replicate returns '\r' ++ ['\n'] := by
  have hspell : spell head payload returns = utf8 (String.ofList
      (head.toList ++ delimiter :: payload.toList ++ List.replicate returns '\r' ++ ['\n'])) := by
    have hcolon : String.utf8EncodeChar delimiter = [colon] := by decide
    have hreturn : String.utf8EncodeChar '\r' = [carriageReturn] := by decide
    rw [utf8_eq_flatMap (String.ofList _), spell, String.toList_ofList, utf8_eq_flatMap,
      utf8_eq_flatMap]
    simp only [List.flatMap_append, List.flatMap_cons, List.flatMap_nil, List.append_nil, hcolon,
      utf8EncodeChar_newline, List.singleton_append, List.flatMap_replicate, hreturn,
      List.flatten_replicate_singleton]
  rw [hspell]
  constructor
  · intro h
    rw [utf8_injective h, String.toList_ofList]
  · intro h
    rw [← h, String.ofList_toList]

/-- The text of a line ends with its only LF. -/
theorem exists_front (hline : Connection.IsLine line) (htext : utf8 text = line) :
    ∃ front, text.toList = front ++ ['\n'] ∧ '\n' ∉ front := by
  have hmem : '\n' ∈ text.toList :=
    (mem_utf8_iff (by decide) utf8EncodeChar_newline).mp (htext ▸ hline.lineFeed_mem)
  cases hdrop : text.toList.dropWhile (· != '\n') with
  | nil => exact absurd hmem (dropWhile_eq_nil_iff.mp hdrop)
  | cons feed rest =>
      obtain ⟨hsplit, hfree⟩ := append_cut hdrop
      generalize text.toList.takeWhile (· != '\n') = front at hsplit hfree
      have hbytes : line ++ [] =
          utf8 (String.ofList front) ++ [lineFeed] ++ utf8 (String.ofList rest) := by
        simp [← htext, utf8_eq_flatMap, hsplit, utf8EncodeChar_newline]
      have hfirst : Connection.IsLine (utf8 (String.ofList front) ++ [lineFeed]) :=
        ⟨_, rfl, lineFeed_not_mem_utf8 (by rwa [String.toList_ofList])⟩
      have hrest : utf8 "" = utf8 (String.ofList rest) := (hline.head_unique hfirst hbytes).2
      have hnil : rest = [] := by
        rw [← String.toList_ofList (l := rest), ← utf8_injective hrest, String.toList_empty]
      exact ⟨front, by rw [hsplit, hnil], hfree⟩

/-- The parts of a line are those of its text without the terminators at the end. -/
theorem parts_iff (hline : Connection.IsLine line) (htext : utf8 text = line) :
    Parts line head payload ↔
      trimEnd text.toList = head.toList ++ delimiter :: payload.toList ∧ delimiter ∉ head.toList := by
  obtain ⟨front, hfront, hfree⟩ := exists_front hline htext
  have hform (returns : Nat) : line = spell head payload returns ↔
      front = head.toList ++ delimiter :: payload.toList ++ List.replicate returns '\r' := by
    rw [← htext, utf8_eq_spell_iff, hfront, List.append_left_inj]
  have hlast : payload.toList.getLast? ≠ some '\r' ↔
      (head.toList ++ delimiter :: payload.toList).getLast? ≠ some '\r' :=
    not_congr (getLast?_append_delimiter (by decide)).symm
  rw [hfront, trimEnd_line_iff hfree]
  constructor
  · rintro ⟨⟨returns, h⟩, hfirst, hend⟩
    exact ⟨⟨⟨returns, (hform returns).mp h⟩, hlast.mp hend⟩, hfirst⟩
  · rintro ⟨⟨⟨returns, h⟩, hend⟩, hfirst⟩
    exact ⟨⟨returns, (hform returns).mpr h⟩, hfirst, hlast.mpr hend⟩

theorem Parts.exists_text (h : Parts line head payload) : ∃ text, utf8 text = line := by
  obtain ⟨returns, rfl⟩ := h.form
  exact ⟨_, utf8_eq_spell_iff.mpr String.toList_ofList⟩

theorem Parts.colon_mem (h : Parts line head payload) : colon ∈ line := by
  obtain ⟨returns, rfl⟩ := h.form
  simp [spell]

/-- A line has its parts in one way. -/
theorem Parts.unique (hline : Connection.IsLine line) (h : Parts line head payload)
    (h' : Parts line head' payload') : head = head' ∧ payload = payload' := by
  obtain ⟨text, htext⟩ := h.exists_text
  obtain ⟨hsplit, hfirst⟩ := (parts_iff hline htext).mp h
  obtain ⟨hsplit', hfirst'⟩ := (parts_iff hline htext).mp h'
  obtain ⟨hhead, hpayload⟩ := append_cons_inj hfirst hfirst' (hsplit.symm.trans hsplit')
  exact ⟨String.toList_inj.mp hhead, String.toList_inj.mp hpayload⟩

theorem Carries.parts (h : Carries line m) : Parts line m.tag.symbol m.payload where
  form := h.form
  first := m.tag.delimiter_not_mem
  last := fun hlast ↦ h.plain.1 (List.mem_of_getLast? hlast)

/-- A line carries one message. -/
theorem Carries.unique {other : Message} (hline : Connection.IsLine line) (h : Carries line m)
    (h' : Carries line other) : m = other := by
  obtain ⟨htag, hpayload⟩ := h.parts.unique hline h'.parts
  obtain ⟨tag, payload⟩ := m
  obtain ⟨tag', payload'⟩ := other
  obtain rfl := Tag.symbol_injective htag
  obtain rfl := hpayload
  rfl

/-! ## What is the matter with a line -/

/-- One thing of a kind is the matter with a line. -/
theorem Objects.unique (hline : Connection.IsLine line) (h : Objects line u) (h' : Objects line v)
    (hrank : rank u = rank v) : u = v := by
  cases h with
  | lineTooLong | invalidUtf8 | missingDelimiter | embeddedTerminator =>
      cases h' <;> first | rfl | cases hrank
  | unknownTag head payload hparts =>
      cases h' with
      | unknownTag head' payload' hparts' => rw [(hparts.unique hline hparts').1]
      | _ => cases hrank
  | payloadTooLong head payload hparts =>
      cases h' with
      | payloadTooLong head' payload' hparts' => rw [(hparts.unique hline hparts').2]
      | _ => cases hrank

theorem IsFirst.unique (hline : Connection.IsLine line) (h : IsFirst line u) (h' : IsFirst line v) :
    u = v :=
  h.objects.unique hline h'.objects (Nat.le_antisymm (h.first v h'.objects) (h'.first u h.objects))

/-- Nothing is the matter with a line of the grammar. -/
theorem Carries.not_objects (hline : Connection.IsLine line) (h : Carries line m) :
    ¬Objects line v := by
  intro hobjects
  cases hobjects with
  | lineTooLong hlong => exact Nat.not_lt_of_le h.short hlong
  | invalidUtf8 hnone =>
      obtain ⟨text, htext⟩ := h.parts.exists_text
      exact hnone text htext
  | missingDelimiter hnone => exact hnone h.parts.colon_mem
  | unknownTag head payload hparts hnone => exact hnone m.tag (h.parts.unique hline hparts).1
  | embeddedTerminator head payload hparts hmem =>
      rw [← (h.parts.unique hline hparts).2] at hmem
      exact hmem.elim h.plain.1 h.plain.2
  | payloadTooLong head payload hparts hlong =>
      rw [← (h.parts.unique hline hparts).2] at hlong
      exact Nat.not_lt_of_le h.fits hlong

/-!
## What is looked for later

What is the matter with a line that has passed some stages is looked for after them.
-/

theorem Objects.rank_of_short (h : Objects line u) (hshort : line.length ≤ 266) : 1 ≤ rank u := by
  cases h with
  | lineTooLong hlong => exact absurd hlong (Nat.not_lt_of_le hshort)
  | _ => simp [rank]

theorem Objects.rank_of_text (h : Objects line u) (hshort : line.length ≤ 266)
    (htext : utf8 text = line) : 2 ≤ rank u := by
  have hrank := h.rank_of_short hshort
  cases h with
  | lineTooLong => cases hrank
  | invalidUtf8 hnone => exact absurd htext (hnone text)
  | _ => simp [rank]

theorem Objects.rank_of_parts (h : Objects line u) (hshort : line.length ≤ 266)
    (hparts : Parts line head payload) : 3 ≤ rank u := by
  obtain ⟨text, htext⟩ := hparts.exists_text
  have hrank := h.rank_of_text hshort htext
  cases h with
  | lineTooLong | invalidUtf8 => simp [rank] at hrank
  | missingDelimiter hnone => exact absurd hparts.colon_mem hnone
  | _ => simp [rank]

theorem Objects.rank_of_symbol (hline : Connection.IsLine line) (h : Objects line u)
    (hshort : line.length ≤ 266) (hparts : Parts line m.tag.symbol payload) : 4 ≤ rank u := by
  have hrank := h.rank_of_parts hshort hparts
  cases h with
  | lineTooLong | invalidUtf8 | missingDelimiter => simp [rank] at hrank
  | unknownTag head payload hparts' hnone =>
      exact absurd (hparts.unique hline hparts').1 (hnone m.tag)
  | _ => simp [rank]

theorem Objects.rank_of_plain (hline : Connection.IsLine line) (h : Objects line u)
    (hshort : line.length ≤ 266) (hparts : Parts line m.tag.symbol payload)
    (hplain : ¬('\r' ∈ payload.toList ∨ '\n' ∈ payload.toList)) : 5 ≤ rank u := by
  have hrank := h.rank_of_symbol hline hshort hparts
  cases h with
  | lineTooLong | invalidUtf8 | missingDelimiter | unknownTag => simp [rank] at hrank
  | embeddedTerminator head payload hparts' hmem =>
      rw [← (hparts.unique hline hparts').2] at hmem
      exact absurd hmem hplain
  | payloadTooLong => exact Nat.le_refl 5

/-! ## What a line is found to be -/

/-- Of a text that is decoded, the parts are the symbol and the payload. -/
theorem parts_of_decode (hline : Connection.IsLine line) (htext : utf8 text = line)
    (h : Message.decode text = .ok m) : Parts line m.tag.symbol m.payload := by
  refine (parts_iff hline htext).mpr ⟨?_, m.tag.delimiter_not_mem⟩
  rw [Message.decode_eq_ok_iff.mp h, Message.toList_body]

/-- A line that passes is one of the grammar, with the tag and the payload that are read from it. -/
theorem carries_of_check (hline : Connection.IsLine line) (h : check line = .ok m) :
    Carries line m := by
  unfold check at h
  split at h
  · cases h
  · rename_i hshort
    unfold read at h
    split at h
    · cases h
    · rename_i text hread
      split at h
      · cases h
      · rename_i other hdecode
        split at h
        · cases h
        · rename_i hvalid
          cases h
          obtain ⟨hplain, hfits⟩ := Message.validate_eq_ok_iff.mp hvalid
          have hparts := parts_of_decode hline (ofUtf8?_eq_some_iff.mp hread) hdecode
          refine ⟨hparts.form, ?_, hfits, Nat.le_of_not_lt hshort⟩
          rwa [← not_or, ← hasTerminator_eq_true_iff, Bool.not_eq_true]

/-- A text that is not decoded lacks a colon, or has no symbol before the first one. -/
theorem isFirst_of_decode (hline : Connection.IsLine line) (hshort : line.length ≤ 266)
    (htext : utf8 text = line) (h : Message.decode text = .error v) : IsFirst line v := by
  rcases Message.decode_eq_error_iff.mp h with
    ⟨rfl, hnone⟩ | ⟨head, rest, rfl, hunknown, hfirst, hsplit⟩
  · have hcolon : colon ∉ line := by
      obtain ⟨tail, happend, htail⟩ := trimEnd_append text.toList
      rw [← htext, mem_utf8_iff (c := delimiter) (by decide) (by decide), happend, List.mem_append]
      rintro (hmem | hmem)
      · exact hnone hmem
      · exact absurd (htail _ hmem) (by decide)
    exact ⟨.missingDelimiter hcolon, fun u hu ↦ hu.rank_of_text hshort htext⟩
  · have hparts : Parts line head (String.ofList rest) :=
      (parts_iff hline htext).mpr ⟨by rwa [String.toList_ofList], hfirst⟩
    exact ⟨.unknownTag head _ hparts hunknown, fun u hu ↦ hu.rank_of_parts hshort hparts⟩

/-- A message that is not valid holds a terminator, or is too long without one. -/
theorem isFirst_of_validate (hline : Connection.IsLine line) (hshort : line.length ≤ 266)
    (hparts : Parts line m.tag.symbol m.payload) (h : m.validate = .error v) : IsFirst line v := by
  unfold Message.validate at h
  split at h
  · rename_i hterminator
    cases h
    have hmem := hasTerminator_eq_true_iff.mp hterminator
    exact ⟨.embeddedTerminator _ _ hparts hmem, fun u hu ↦ hu.rank_of_symbol hline hshort hparts⟩
  · rename_i hterminator
    split at h
    · rename_i hlong
      cases h
      rw [hasTerminator_eq_true_iff] at hterminator
      exact ⟨.payloadTooLong _ _ hparts hlong,
        fun u hu ↦ hu.rank_of_plain hline hshort hparts hterminator⟩
    · cases h

/-- A line that does not pass is refused for the first thing that is the matter with it. -/
theorem isFirst_of_check (hline : Connection.IsLine line) (h : check line = .error v) :
    IsFirst line v := by
  unfold check at h
  split at h
  · rename_i hlong
    cases h
    exact ⟨.lineTooLong hlong, fun u _ ↦ Nat.zero_le _⟩
  · rename_i hshort
    have hshort : line.length ≤ 266 := Nat.le_of_not_lt hshort
    unfold read at h
    split at h
    · rename_i hnone
      cases h
      have hinvalid (text : String) : utf8 text ≠ line := fun htext ↦ by
        rw [ofUtf8?_eq_some_iff.mpr htext] at hnone
        cases hnone
      exact ⟨.invalidUtf8 hinvalid, fun u hu ↦ hu.rank_of_short hshort⟩
    · rename_i text hread
      have htext := ofUtf8?_eq_some_iff.mp hread
      split at h
      · rename_i hdecode
        cases h
        exact isFirst_of_decode hline hshort htext hdecode
      · rename_i m hdecode
        split at h
        · rename_i hvalid
          cases h
          exact isFirst_of_validate hline hshort (parts_of_decode hline htext hdecode) hvalid
        · cases h

/-- The check of a line accepts the grammar and nothing else. -/
theorem check_eq_ok_iff (hline : Connection.IsLine line) :
    check line = .ok m ↔ Carries line m := by
  refine ⟨carries_of_check hline, fun h ↦ ?_⟩
  cases hcheck : check line with
  | error v => exact absurd (isFirst_of_check hline hcheck).objects (h.not_objects hline)
  | ok other => rw [(carries_of_check hline hcheck).unique hline h]

/-- The check of a line reports what is the matter with it first, and nothing else. -/
theorem check_eq_error_iff (hline : Connection.IsLine line) :
    check line = .error v ↔ IsFirst line v := by
  refine ⟨isFirst_of_check hline, fun h ↦ ?_⟩
  cases hcheck : check line with
  | ok m => exact absurd h.objects ((carries_of_check hline hcheck).not_objects hline)
  | error u => rw [(isFirst_of_check hline hcheck).unique hline h]

end

end Wire.Line

namespace Connection

variable {c after : Connection} {line rest : List UInt8} {m : Message}

/-- A receive that finds a line checks it and takes nothing else. -/
theorem receive_of_line (hcut : Line.cut? c.buffer = some (line, rest)) :
    let result := (Line.check line).mapError Failure.protocol
    c.receive = ({ c with buffer := rest }.record result, some result) := by
  have hcheck : (if line.length > maxLine then tooLong else judge line) =
      (Line.check line).mapError Failure.protocol := by
    unfold Line.check
    split <;> rfl
  have hstep := receiveStep_of_line hcut
  rw [hcheck] at hstep
  exact receive_of_done hstep

/-- Only a message that a line can carry is received, however many steps that takes. -/
theorem valid_of_receive (h : c.receive = (after, some (.ok m))) : m.Valid := by
  fun_induction receive c with
  | case1 c after result hstep =>
      cases h
      exact Server.valid_of_receiveStep hstep
  | case2 => cases h
  | case3 c after hstep ih => exact ih h

/-- Every message that a receive returns is valid. Where there is a line at the head of the buffer, the
receive takes exactly that line. It returns a message exactly if the line carries it by the grammar, and
fails exactly with the first violation that is the matter with the line otherwise. -/
theorem receives_by_grammar (c : Connection) :
    (∀ m, c.receive.2 = some (.ok m) → m.validate = .ok ()) ∧
      ∀ line rest, IsLine line → c.buffer = line ++ rest →
        ∃ result, c.receive = ({ c with buffer := rest }.record result, some result) ∧
          (∀ m, result = .ok m ↔ Line.Carries line m) ∧
          ∀ failure, result = .error failure ↔
            ∃ v, failure = .protocol v ∧ Line.IsFirst line v := by
  refine ⟨fun m h ↦ Message.validate_eq_ok_iff.mpr (valid_of_receive (Prod.ext rfl h)), ?_⟩
  intro line rest hline hbuffer
  have hcut : Line.cut? c.buffer = some (line, rest) := by
    obtain ⟨body, rfl, hbody⟩ := hline
    rw [hbuffer, List.append_assoc, List.singleton_append, Line.cut?_line_append rest hbody]
  refine ⟨_, receive_of_line hcut, fun m ↦ ?_, fun failure ↦ ?_⟩
  · rw [← Line.check_eq_ok_iff hline]
    cases Line.check line <;> simp [Except.mapError]
  · simp only [← Line.check_eq_error_iff hline]
    cases Line.check line <;> simp [Except.mapError, eq_comm]

/-- The CRs before an LF are not of the payload, and the line behind it stays. -/
theorem receives_by_grammar_returns :
    let c : Connection := { stream := {}, buffer := utf8 "join:den\r\r\nno\n" }
    IsLine (utf8 "join:den\r\r\n") ∧ c.buffer = utf8 "join:den\r\r\n" ++ utf8 "no\n" ∧
      c.receive = ({ c with buffer := utf8 "no\n" }, some (.ok ⟨.join, "den"⟩)) ∧
      (⟨.join, "den"⟩ : Message).validate = .ok () := by
  intro c
  have hline : IsLine (utf8 "join:den\r\r\n") := ⟨utf8 "join:den\r\r", by decide, by decide⟩
  have hbuffer : c.buffer = utf8 "join:den\r\r\n" ++ utf8 "no\n" := by decide
  have hcarries : Line.Carries (utf8 "join:den\r\r\n") ⟨.join, "den"⟩ :=
    ⟨⟨2, by decide⟩, by decide, by decide, by decide⟩
  obtain ⟨hvalid, hlines⟩ := receives_by_grammar c
  obtain ⟨result, hreceive, hok, -⟩ := hlines _ _ hline hbuffer
  obtain rfl := (hok _).mpr hcarries
  exact ⟨hline, hbuffer, hreceive, hvalid _ (congrArg Prod.snd hreceive)⟩

end Connection

end ChatRelay
