/-!
# Text as bytes

The UTF-8 bytes of a text, and the text that bytes are, if they are any.

## Main definitions

* `Utf8.encode`: the bytes of a text
* `Utf8.decode?`: the text whose bytes these are

## Main results

* `decode?_eq_some_iff`: bytes are those of at most one text
-/

namespace FeltWire.Utf8

/-- The UTF-8 bytes of the text `s`. -/
def encode (s : String) : List UInt8 := s.toByteArray.data.toList

/-- The text whose UTF-8 bytes these are, or `none` if they are not
well-formed. -/
def decode? (bytes : List UInt8) : Option String := String.fromUTF8? ⟨bytes.toArray⟩

/-- Bytes are read by `decode?` as a text exactly if they are that text's bytes;
no text has two forms. -/
theorem decode?_eq_some_iff {bytes : List UInt8} {s : String} :
    decode? bytes = some s ↔ bytes = encode s := by
  constructor
  · intro h
    simp only [decode?, String.fromUTF8?] at h
    split at h
    · cases h
      rfl
    · cases h
  · rintro rfl
    have valid := s.isValidUTF8
    simp [decode?, encode, String.fromUTF8?, valid, String.fromUTF8]

@[simp] theorem decode?_encode (s : String) : decode? (encode s) = some s :=
  decode?_eq_some_iff.2 rfl

end FeltWire.Utf8
