/-!
Programs read and write bytes. Text becomes bytes as UTF-8, and bytes that are not valid UTF-8 are
no text at all.
-/

namespace FrameCode.Text

abbrev Bytes := List UInt8

/-- The UTF-8 encoding of a text. -/
def encode (text : String) : Bytes :=
  text.toUTF8.data.toList

/-- The text that the bytes encode, if they are valid UTF-8. -/
def decode? (bytes : Bytes) : Option String :=
  String.fromUTF8? ⟨bytes.toArray⟩

/-- Encoding loses nothing. -/
@[simp] theorem decode?_encode (text : String) : decode? (encode text) = some text := by
  change String.fromUTF8? text.toUTF8 = some text
  unfold String.fromUTF8?
  rw [String.toUTF8_eq_toByteArray, dif_pos text.isValidUTF8]
  rfl

end FrameCode.Text
