/-!
# Bytes and their text

A document arrives as bytes. `Bytes.text?` is the text that they encode in UTF-8, and `Bytes.ofText`
the way back. Reading is strict: a byte that belongs to no character makes the whole unreadable.
-/

namespace Provision

/-- The content of a file or of any other source, before it is known to be text. -/
abbrev Bytes := List UInt8

namespace Bytes

/-- The UTF-8 encoding of a text. -/
def ofText (s : String) : Bytes := s.toByteArray.data.toList

/-- The text that the bytes encode in UTF-8, if they encode one. -/
def text? (b : Bytes) : Option String := String.fromUTF8? ⟨b.toArray⟩

/-- Whether `part` occurs somewhere in the bytes. -/
def contains (part : Bytes) : Bytes → Bool
  | [] => part.isEmpty
  | b :: bs => part.isPrefixOf (b :: bs) || contains part bs

private theorem fromUTF8?_toByteArray (s : String) : String.fromUTF8? s.toByteArray = some s := by
  simp only [String.fromUTF8?, dif_pos s.isValidUTF8]
  rfl

/-- A text is read back from its encoding. -/
theorem text?_ofText (s : String) : text? (ofText s) = some s := by
  have h : (⟨(ofText s).toArray⟩ : ByteArray) = s.toByteArray := by
    rw [ofText, Array.toArray_toList]
  rw [text?, h, fromUTF8?_toByteArray]

/-- Bytes have a text only if they are its encoding. -/
theorem text?_eq_some_iff {b : Bytes} {s : String} : text? b = some s ↔ b = ofText s := by
  refine ⟨fun h => ?_, fun h => h ▸ text?_ofText s⟩
  unfold text? String.fromUTF8? at h
  split at h
  · cases h
    rfl
  · cases h

end Bytes

end Provision
