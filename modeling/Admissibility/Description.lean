/-
  Admissibility.Description
  ─────────────────────────
  **Structures from their descriptions.**
-/
import Admissibility.Description.Encoding
import Admissibility.Description.Grammar
import Admissibility.Description.Scope

namespace Admissibility

/-- The structure that a text describes. -/
def Structure.ofText (text : String) : Except Description.Fault Structure := do
  (← Description.ofText text).toStructure

/-- The structure that the UTF-8 text in some bytes describes. -/
def Structure.ofBytes (bytes : ByteArray) : Except Description.Fault Structure := do
  Structure.ofText (← Description.decode bytes)

end Admissibility
