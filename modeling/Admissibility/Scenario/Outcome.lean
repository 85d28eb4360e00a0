/-
  Admissibility.Scenario.Outcome
  ──────────────────────────────
  **What the description in a case comes to.**

  A description is read and validated.  That ends with a witness, or in a failure at one of the
  two steps.
-/
import Admissibility.Description
import Admissibility.Validation

namespace Admissibility.Scenario

/-- Why a case has no witness. -/
inductive Failure where
  /-- The text describes no structure. -/
  | description (fault : Description.Fault)
  /-- A limit is passed. -/
  | exhausted (exhausted : Exhausted)
  deriving DecidableEq, Repr

/-- The wording of a failure. -/
def Failure.message : Failure → String
  | description fault => fault.message
  | exhausted e => e.message

/-- What a case comes to. -/
abbrev Outcome : Type := Except Failure Witness

/-- The outcome of a description, within limits. -/
def Outcome.ofText (text : String) (limits : Limits) : Outcome :=
  match Structure.ofText text with
  | .error fault => .error (.description fault)
  | .ok s => (s.validate limits).mapError .exhausted

end Admissibility.Scenario
