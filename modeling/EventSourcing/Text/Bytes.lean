/-!
# Bytes and text

Payloads and metadata are byte lists. A text has one byte form, its UTF-8 encoding, and reading that
form gives the text back (`text?_ofString`).
-/

namespace EventSourcing

abbrev Bytes := List UInt8

namespace Bytes

/-- The UTF-8 form of a text. -/
def ofString (s : String) : Bytes := s.toByteArray.data.toList

/-- The text that the bytes encode, if they are well-formed UTF-8. -/
def text? (bs : Bytes) : Option String := String.fromUTF8? ⟨bs.toArray⟩

@[simp] theorem text?_ofString (s : String) : text? (ofString s) = some s := by
  simp only [text?, ofString, Array.toArray_toList, String.fromUTF8?]
  exact dif_pos s.isValidUTF8

end Bytes

end EventSourcing
