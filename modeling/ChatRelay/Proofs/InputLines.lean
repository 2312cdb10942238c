import ChatRelay.Proofs.Calls

/-!
# What becomes of an input line

`Command.Carried` says that a command is a request which the other side reads, and
`Command.carried_of_valid` that it is one if its message is valid. `Command.accepted_lines` says what
becomes of every line: a text is refused if it is too long, and what is accepted is carried, except
that a text with a terminator left inside is held back by the publisher, and that of the name of a
room the length is not looked at. `Command.accepted_unreadable` shows both.
-/

namespace ChatRelay.Client

open Connection Text Wire

namespace Command

/-! ## Carrying a command -/

/-- The request of this command gets through to the other side. -/
structure Carried (command : Command) : Prop where
  valid : command.message.validate = .ok ()
  fits : command.message.bytes.length ≤ maxLine
  /-- A publisher writes it as it is. -/
  sent : ∀ p : Publisher, Healthy p.connection.stream → p.connection.isOpen = true →
    (p.execute command).1.connection.stream.written =
      p.connection.stream.written ++ command.message.bytes
  /-- A receive returns it, whatever has come in behind it. -/
  received : ∀ (c : Connection) (rest : List UInt8), Readable c →
    c.backlog = command.message.bytes ++ rest →
    c.receive.2 = some (.ok command.message) ∧ c.receive.1.backlog = rest

variable {command : Command}

theorem sendable_of_valid (h : command.message.Valid) : command.Sendable := by
  cases command with
  | join room => exact h.1
  | sendAll text => exact h.2
  | leave | quit => trivial

theorem isHeldBack_of_valid (h : command.message.Valid) : command.isHeldBack = false := by
  cases command with
  | sendAll text => exact h.1
  | _ => rfl

/-- A command is carried if its message is valid. -/
theorem carried_of_valid (h : command.message.Valid) : command.Carried where
  valid := Message.validate_eq_ok_iff.mpr h
  fits := Message.length_bytes_le h
  sent _ hhealthy hopen :=
    (Publisher.written_execute (sendable_of_valid h) (isHeldBack_of_valid h) hhealthy hopen).1
  received _ _ hreadable hbytes := hreadable.receive_message h hbytes

/-! ## Accepted and refused lines -/

/-- These characters are text to broadcast: their first word names no command. -/
def IsText (chars : List Char) : Prop :=
  ∀ word rest, firstWord? chars = some (word, rest) → isCommandWord word = false

/-- A text is looked at for its length and nothing else. -/
theorem parse_of_isText {line : String} (h : IsText (trimEnd line.toList))
    (hne : trimEnd line.toList ≠ []) :
    parse line = ofText (String.ofList (trimEnd line.toList)) := by
  unfold parse
  dsimp only
  rw [if_neg (by simpa using hne)]
  cases hword : firstWord? (trimEnd line.toList) with
  | none => rfl
  | some split => exact if_neg (by simp [h split.1 split.2 hword])

/-- What becomes of an accepted command. A text with a terminator inside changes nothing at the
publisher that it is given to. -/
def Served : Command → Prop
  | .leave => Carried .leave
  | .quit => Carried .quit
  | .join room => hasTerminator room = false ∧ (size room ≤ maxPayload → Carried (.join room))
  | .sendAll text =>
      (hasTerminator text = false → Carried (.sendAll text)) ∧
        (hasTerminator text = true → ∀ p : Publisher,
          p.execute (.sendAll text) = (p, some (.error (.protocol .embeddedTerminator))))

theorem Sendable.served (h : command.Sendable) : command.Served := by
  cases command with
  | leave | quit => exact carried_of_valid (by decide)
  | join room => exact ⟨h, fun hsize ↦ carried_of_valid ⟨h, hsize⟩⟩
  | sendAll text =>
      exact ⟨fun hplain ↦ carried_of_valid ⟨hplain, h⟩,
        fun hterminator p ↦ p.execute_of_heldBack hterminator⟩

/-- Every accepted input line is a request that the other side reads: a leave, a quit, a text without
a terminator left inside and a join whose room keeps within the limit. The name of a room holds no
terminator. A text is accepted exactly if it is not too long, and one with a terminator left inside is
then refused by the publisher before anything is sent. -/
theorem accepted_lines (line : String) :
    let chars := trimEnd line.toList
    (∀ command, parse line = .ok command → command.Served) ∧
      (IsText chars → chars ≠ [] →
        parse line =
          if maxPayload < size (String.ofList chars) then .error .tooLong
          else .ok (.sendAll (String.ofList chars))) :=
  ⟨fun _ h ↦ (parse_sendable h).served, fun htext hne ↦ parse_of_isText htext hne⟩

/-- A join is accepted with the terminators at the end of its line, and carried. -/
theorem accepted_lines_join :
    parse "/join den\r\n" = .ok (.join "den") ∧ Carried (.join "den") := by
  have haccepted : parse "/join den\r\n" = .ok (.join "den") := by rfl
  obtain ⟨hserved, -⟩ := accepted_lines "/join den\r\n"
  obtain ⟨-, hcarried⟩ := hserved (.join "den") haccepted
  exact ⟨haccepted, hcarried (by decide)⟩

/-! ## Lines that are accepted all the same -/

theorem ofWord_join {rest room left : List Char} (h : firstWord? rest = some (room, left)) :
    ofWord "/join" rest = .ok (.join (String.ofList room)) := by
  unfold ofWord
  rw [if_pos (by decide), h]

/-- Every word is accepted as the name of a room, however long it is. -/
theorem parse_join {room : String} (hne : room.toList ≠ [])
    (hword : ∀ c ∈ room.toList, isBlank c = false) :
    parse ("/join " ++ room) = .ok (.join room) := by
  have hline : ("/join " ++ room).toList = "/join".toList ++ ' ' :: room.toList := by
    rw [String.toList_append]
    rfl
  have htrim : trimEnd ("/join " ++ room).toList = "/join".toList ++ ' ' :: room.toList := by
    rw [hline]
    refine trimEnd_eq_self _ fun c hlast ↦ ?_
    obtain ⟨front, last, hroom⟩ := List.eq_nil_or_concat room.toList |>.resolve_left hne
    have hmem : c ∈ room.toList := by
      rw [hroom, List.concat_eq_append, ← List.cons_append, ← List.append_assoc,
        List.getLast?_concat, Option.some.injEq] at hlast
      simp [hroom, hlast]
    cases hterminator : isTerminator c with
    | false => rfl
    | true => cases (isBlank_of_isTerminator hterminator).symm.trans (hword c hmem)
  have hplain : "/join".toList.all (!isBlank ·) = true := by decide
  have hfirst : firstWord? ("/join".toList ++ ' ' :: room.toList) =
      some ("/join".toList, ' ' :: room.toList) :=
    firstWord?_of_word (by decide) (by simpa using hplain) (by simp; decide)
  have hsecond : firstWord? (' ' :: room.toList) = some (room.toList, []) := by
    have hblank : firstWord? (' ' :: room.toList) = firstWord? room.toList := rfl
    have hroom : firstWord? (room.toList ++ []) = some (room.toList, []) :=
      firstWord?_of_word hne hword (by simp)
    rw [hblank, ← hroom, List.append_nil]
  have hcommand : isCommandWord "/join".toList = true := by decide
  unfold parse
  rw [htrim]
  dsimp only
  rw [if_neg (by simp), hfirst]
  dsimp only
  rw [if_pos hcommand, String.ofList_toList, ofWord_join hsecond, String.ofList_toList]

/-- The name of a room that is one byte too long for a line. -/
def longName : String :=
  String.ofList (List.replicate 256 'r')

/-- Two lines that are accepted and cannot be read: a text with a terminator inside, and a join whose
room has too long a name. -/
theorem accepted_unreadable :
    (parse "a\rb" = .ok (.sendAll "a\rb") ∧
      (Command.sendAll "a\rb").message.validate = .error .embeddedTerminator) ∧
    (parse ("/join " ++ longName) = .ok (.join longName) ∧
      (Command.join longName).message.validate = .error (.payloadTooLong 256 255)) := by
  have hchars : longName.toList = List.replicate 256 'r' := String.toList_ofList
  have hword : ∀ c ∈ longName.toList, isBlank c = false := by
    intro c hc
    rw [hchars] at hc
    rw [List.eq_of_mem_replicate hc]
    decide
  have hne : longName.toList ≠ [] := by
    rw [hchars]
    exact List.cons_ne_nil 'r' (List.replicate 255 'r')
  have hparsed := parse_join hne hword
  have hplain : hasTerminator longName = false := parse_sendable hparsed
  have hsize : size longName = 256 := by
    rw [← length_utf8, utf8_eq_flatMap, hchars]
    decide +kernel
  refine ⟨⟨by rfl, by rfl⟩, hparsed, ?_⟩
  show (⟨.join, longName⟩ : Message).validate = _
  unfold Message.validate
  rw [hplain, hsize]
  rfl

end Command

end ChatRelay.Client
