/-!
# Texts as bytes

A text travels as its UTF-8 bytes. `utf8` writes it, `ofUtf8?` reads it back and refuses any list of
bytes that is not well-formed UTF-8. The main statement is `ofUtf8?_eq_some_iff`: reading accepts
exactly what writing produces.
-/

namespace ChatRelay.Text

/-- The UTF-8 bytes of a text. -/
def utf8 (text : String) : List UInt8 :=
  text.toByteArray.data.toList

/-- The text with these UTF-8 bytes, if they are well-formed. -/
def ofUtf8? (bytes : List UInt8) : Option String :=
  String.fromUTF8? ⟨bytes.toArray⟩

/-- The length of a text in bytes. -/
def size (text : String) : Nat :=
  text.utf8ByteSize

theorem length_utf8 (text : String) : (utf8 text).length = size text := by
  rfl

theorem utf8_eq_flatMap (text : String) :
    utf8 text = text.toList.flatMap String.utf8EncodeChar := by
  have h : text.toList.utf8Encode = text.toByteArray := String.utf8Encode_toList
  rw [utf8, ← h, List.utf8Encode]
  simp

theorem utf8_append (left right : String) : utf8 (left ++ right) = utf8 left ++ utf8 right := by
  simp [utf8_eq_flatMap]

/-- Reading accepts exactly what writing produces. -/
theorem ofUtf8?_eq_some_iff {bytes : List UInt8} {text : String} :
    ofUtf8? bytes = some text ↔ utf8 text = bytes := by
  constructor
  · intro h
    simp only [ofUtf8?, String.fromUTF8?] at h
    split at h
    · simp only [Option.some.injEq] at h
      subst h
      simp [utf8, String.fromUTF8]
    · simp at h
  · rintro rfl
    have hbytes : (⟨(utf8 text).toArray⟩ : ByteArray) = text.toByteArray := by
      simp [utf8]
    simp only [ofUtf8?, String.fromUTF8?, hbytes]
    simp [text.isValidUTF8, String.fromUTF8]

end ChatRelay.Text
