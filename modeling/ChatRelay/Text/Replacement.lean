/-!
# Showing bytes that are not a text

Bytes are shown as a text in which every longest part that begins a character and does not finish
it, and every byte that begins none, stands as one replacement character. Well-formed bytes are shown
as themselves.
-/

namespace ChatRelay.Text

/-- The character shown for bytes that are no character. -/
def replacement : Char := '\uFFFD'

/-- A character of which some bytes are still missing: the bits so far, how many bytes are missing,
and the range in which the next of them has to lie. -/
structure Unfinished where
  bits : Nat
  missing : Nat
  low : UInt8
  high : UInt8

/-- What a byte means where a character may begin. -/
inductive Opening where
  | whole (c : Char)
  | unfinished (part : Unfinished)
  | stray

/-- The meaning of a byte as the first of a character. The second byte has a narrower range after
four of the first bytes, which keeps out overlong forms, surrogates and what lies above U+10FFFF. -/
def Opening.ofByte (byte : UInt8) : Opening :=
  let bits := byte.toNat
  if byte < 0x80 then .whole (Char.ofNat bits)
  else if byte < 0xC2 then .stray
  else if byte < 0xE0 then .unfinished ⟨bits - 0xC0, 1, 0x80, 0xBF⟩
  else if byte == 0xE0 then .unfinished ⟨0, 2, 0xA0, 0xBF⟩
  else if byte == 0xED then .unfinished ⟨0xD, 2, 0x80, 0x9F⟩
  else if byte < 0xF0 then .unfinished ⟨bits - 0xE0, 2, 0x80, 0xBF⟩
  else if byte == 0xF0 then .unfinished ⟨0, 3, 0x90, 0xBF⟩
  else if byte < 0xF4 then .unfinished ⟨bits - 0xF0, 3, 0x80, 0xBF⟩
  else if byte == 0xF4 then .unfinished ⟨4, 3, 0x80, 0x8F⟩
  else .stray

/-- The characters shown for the bytes that follow an unfinished character, if there is one. -/
def shownFrom : Option Unfinished → List UInt8 → List Char
  | none, [] => []
  | some _, [] => [replacement]
  | none, byte :: rest =>
      match Opening.ofByte byte with
      | .whole c => c :: shownFrom none rest
      | .unfinished part => shownFrom (some part) rest
      | .stray => replacement :: shownFrom none rest
  | some part, byte :: rest =>
      if part.low ≤ byte ∧ byte ≤ part.high then
        let bits := part.bits * 64 + (byte.toNat - 0x80)
        match part.missing with
        | 0 | 1 => Char.ofNat bits :: shownFrom none rest
        | missing + 2 => shownFrom (some ⟨bits, missing + 1, 0x80, 0xBF⟩) rest
      else
        match Opening.ofByte byte with
        | .whole c => replacement :: c :: shownFrom none rest
        | .unfinished next => replacement :: shownFrom (some next) rest
        | .stray => replacement :: replacement :: shownFrom none rest

/-- The text shown for the bytes. -/
def shown (bytes : List UInt8) : String :=
  String.ofList (shownFrom none bytes)

example : shown [0x61, 0xC3, 0xA9, 0xE2, 0x82, 0xAC, 0xF0, 0x9F, 0x98, 0x80] = "aé€😀" := by
  decide +kernel

example : shown [0xF0, 0x9F, 0x98, 0x61, 0xE2, 0x82] = "\uFFFDa\uFFFD" := by
  decide +kernel

example : shown [0xE0, 0x80, 0xED, 0xA0, 0xC0, 0xFF] =
    "\uFFFD\uFFFD\uFFFD\uFFFD\uFFFD\uFFFD" := by
  decide +kernel

end ChatRelay.Text
