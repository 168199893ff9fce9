/-!
# Text as bytes

The UTF-8 bytes of a text, and the text that a byte string spells, if it spells one.
-/

namespace AttributeReview.Utf8

def encode (s : String) : List UInt8 := s.toList.flatMap String.utf8EncodeChar

/-- The text that some bytes spell; overlong forms and halves of pairs spell none. -/
def decode? (bytes : List UInt8) : Option String := String.fromUTF8? ⟨bytes.toArray⟩

theorem encode_append (s t : String) : encode (s ++ t) = encode s ++ encode t := by
  simp [encode]

end AttributeReview.Utf8
