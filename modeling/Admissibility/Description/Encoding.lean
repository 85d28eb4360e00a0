/-
  Admissibility.Description.Encoding
  ──────────────────────────────────
  **From bytes to text.**

  A description is UTF-8.  The first byte that continues no text is the fault; its line and column
  are counted over the text in front of it.
-/
import Admissibility.Description.Fault
import Admissibility.Text.Utf8

namespace Admissibility.Description

/-- The fault of the first byte that continues no text, behind the characters in front of it. -/
def encodingFault (bytes : ByteArray) (before : List Char) (offset : Nat)
    (h : offset < bytes.size) : Fault where
  cause := .invalidByte offset bytes[offset]
  span :=
    ⟨offset, offset + Text.Utf8.brokenLength (bytes.data.toList.drop offset), before.count '\n' + 1,
      (Text.lastLine before).length + 1⟩

/-- Reads characters from an offset on, with the characters so far, the last one first. -/
def decodeFrom (bytes : ByteArray) (offset : Nat) (done : List Char) : Except Fault String :=
  if h : offset < bytes.size then
    match bytes.utf8DecodeChar? offset with
    | some c => decodeFrom bytes (offset + c.utf8Size) (c :: done)
    | none => .error (encodingFault bytes done.reverse offset h)
  else .ok (String.ofList done.reverse)
termination_by bytes.size - offset
decreasing_by
  have := c.utf8Size_pos
  omega

/-- The text that bytes encode. -/
def decode (bytes : ByteArray) : Except Fault String := decodeFrom bytes 0 []

end Admissibility.Description
