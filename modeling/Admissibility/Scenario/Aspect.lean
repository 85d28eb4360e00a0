/-
  Admissibility.Scenario.Aspect
  ─────────────────────────────
  **What can be seen of a witness.**

  Every aspect of a witness has a name and an observation.  An aspect that the witness does not
  have, such as the chain of an admissible one, is observed as missing or as an empty list.
-/
import Admissibility.Report.Text
import Admissibility.Text.Quoted
import Admissibility.Witness

namespace Admissibility.Scenario

open Admissibility.Text.Quoted (quote quoteList)

/-! ## §1. Observations. -/

/-- What is seen of one aspect. -/
inductive Observation where
  | verdict (verdict : Verdict)
  | constraint (constraint : Option Constraint)
  | checked (checked : Option Checked)
  | label (label : Option String)
  | chain (labels : Option (List String))
  | texts (texts : List String)
  | text (text : String)
  deriving DecidableEq, Repr, Inhabited

namespace Observation

/-- A thing that may be missing. -/
def shownOption {α : Type} (shown : α → String) : Option α → String
  | some a => "Some(" ++ shown a ++ ")"
  | none => "None"

/-- A verdict in messages about observations. -/
def shownVerdict : Verdict → String
  | .admissible => "Admissible"
  | .inadmissible => "Inadmissible"

/-- A constraint in messages about observations. -/
def shownConstraint : Constraint → String
  | .boundaryExclusion => "BoundaryExclusion"
  | .inversionAtomicity => "InversionAtomicity"

/-- Counts in messages about observations. -/
def shownChecked (c : Checked) : String :=
  s!"Checked \x7b boundaries: {c.boundaries}, inversions: {c.inversions} \x7d"

/-- An observation in messages. -/
def shown : Observation → String
  | verdict v => shownVerdict v
  | constraint c => shownOption shownConstraint c
  | checked c => shownOption shownChecked c
  | label l => shownOption quote l
  | chain ls => shownOption quoteList ls
  | texts ts => quoteList ts
  | text t => quote t

end Observation

/-! ## §2. Aspects. -/

/-- The aspects of a witness. -/
inductive Aspect where
  | verdict
  | constraint
  | checked
  | boundary
  | chain
  | shared
  | relations
  | labels
  | report
  deriving DecidableEq, Repr, Inhabited

namespace Aspect

/-- Every aspect, in the order in which they are compared. -/
def all : List Aspect :=
  [.verdict, .constraint, .checked, .boundary, .chain, .shared, .relations, .labels, .report]

theorem mem_all (aspect : Aspect) : aspect ∈ all := by
  cases aspect <;> decide

/-- What messages call an aspect. -/
def name : Aspect → String
  | verdict => "verdict"
  | constraint => "class"
  | checked => "checked"
  | boundary => "boundary"
  | chain => "chain"
  | shared => "shared node"
  | relations => "relations"
  | labels => "labels"
  | report => "report"

/-- What is seen of an aspect of a witness. -/
def observe (w : Witness) : Aspect → Observation
  | verdict => .verdict w.verdict
  | constraint => .constraint w.constraint?
  | checked => .checked w.checked?
  | boundary => .label (w.violation?.bind Violation.boundary?)
  | chain => .chain (w.violation?.bind Violation.chain?)
  | shared => .label (w.violation?.bind Violation.shared?)
  | relations => .texts (((w.violation?.map Violation.facts).getD []).map Fact.text)
  | labels => .texts ((w.violation?.map Violation.labels).getD [])
  | report => .text (Report.text w)

end Aspect

end Admissibility.Scenario
