/-
  Admissibility.Report.Text
  ─────────────────────────
  **The plain report: one fact a line, the verdict first.**
-/
import Admissibility.Witness

namespace Admissibility.Report

/-- A count with its noun. -/
def counted (n : Nat) (one many : String) : String := s!"{n} " ++ if n = 1 then one else many

/-- The lines on what is peculiar to a sort of violation. -/
def detailLines : Violation → List String
  | .boundaryMembership boundary bounded chain _ =>
    [s!"boundary: {boundary}",
     "bounded: " ++ ", ".intercalate bounded,
     "chain: " ++ " -> ".intercalate chain]
  | .inversionArity endpoints _ =>
    [s!"inversion: {endpoints.length} endpoints, expected 2 distinct"]
  | .inversionOverlap node _ _ => [s!"shared: {node}"]

/-- The lines of a report. -/
def textLines : Witness → List String
  | .admissible checked =>
    [Verdict.admissible.name,
     "checked: " ++ counted checked.boundaries "boundary" "boundaries" ++ ", "
       ++ counted checked.inversions "inversion" "inversions"]
  | .inadmissible violation =>
    [Verdict.inadmissible.name, s!"violation: {violation.constraint.name}"]
      ++ detailLines violation
      ++ ["relations:"] ++ violation.facts.map (fun f => "  " ++ f.text)

/-- The report as text, with a line feed behind each line. -/
def text (w : Witness) : String := String.join ((textLines w).map (· ++ "\n"))

end Admissibility.Report
