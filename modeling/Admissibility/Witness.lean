/-
  Admissibility.Witness
  ─────────────────────
  **The verdict on a structure, with its evidence.**

  There are two verdicts.  An admissible structure comes with the number of things that were
  checked, an inadmissible one with a violation, so no verdict stands without its evidence.
-/
import Admissibility.Violation

namespace Admissibility

/-- What an admissible structure was checked for. -/
structure Checked where
  /-- Distinct boundaries. -/
  boundaries : Nat
  /-- Relations of the kind `inverts`. -/
  inversions : Nat
  deriving DecidableEq, Repr, Inhabited

/-- One of the two outcomes of a validation. -/
inductive Verdict where
  | admissible
  | inadmissible
  deriving DecidableEq, Repr, Inhabited

/-- The name of a verdict in reports. -/
def Verdict.name : Verdict → String
  | .admissible => "admissible"
  | .inadmissible => "inadmissible"

/-- The outcome of a validation with its evidence. -/
inductive Witness where
  | admissible (checked : Checked)
  | inadmissible (violation : Violation)
  deriving DecidableEq, Repr, Inhabited

namespace Witness

/-- The outcome alone. -/
def verdict : Witness → Verdict
  | .admissible _ => .admissible
  | .inadmissible _ => .inadmissible

/-- What was checked, if nothing was violated. -/
def checked? : Witness → Option Checked
  | .admissible checked => some checked
  | .inadmissible _ => none

/-- The violation, if there is one. -/
def violation? : Witness → Option Violation
  | .admissible _ => none
  | .inadmissible violation => some violation

/-- The constraint that is breached, if one is. -/
def constraint? (w : Witness) : Option Constraint := w.violation?.map Violation.constraint

end Witness

end Admissibility
