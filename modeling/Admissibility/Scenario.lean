/-
  Admissibility.Scenario
  ──────────────────────
  **Running the cases of a fixture against assertions.**

  A scenario takes its cases from a text that it is given, or else from a file.  The cases that it
  names are run in order, all under the same limits, and the first fault ends the run.

  `Scenario.run_eq_ok_iff`: a run without a fault finds every case and has no complaint.
-/
import Admissibility.Scenario.Assertion
import Admissibility.Scenario.Fixture

namespace Admissibility

/-! ## §1. Scenarios. -/

/-- A case to run, with what is expected of it. -/
structure Scenario.Case where
  name : String
  assertion : Scenario.Assertion
  deriving DecidableEq, Repr, Inhabited

/-- Cases to run. -/
structure Scenario where
  name : String
  /-- The file with the fixture, if no text is given. -/
  path : Option String := none
  /-- The fixture in the text that is given. -/
  fixture : Option Scenario.Fixture := none
  limits : Limits := {}
  cases : List Scenario.Case := []

namespace Scenario

/-- Why a run stops. -/
inductive Fault where
  /-- There is neither a text nor a file. -/
  | missingFixture (scenario : String)
  | fixture (fault : Fixture.Fault)
  /-- The fixture has no case of a name. -/
  | caseNotFound (case : String)
  /-- A case does not come to what is expected. -/
  | assertionFailed (case : String) (complaint : Complaint)
  deriving DecidableEq, Repr

/-- The wording of a fault. -/
def Fault.message : Fault → String
  | missingFixture scenario => s!"fixture not specified for scenario '{scenario}'"
  | fixture fault => fault.message
  | caseNotFound case => s!"case '{case}' not found in fixture"
  | assertionFailed case complaint =>
    s!"assertion failed for case '{case}': {complaint.message}"

/-! ## §2. The run. -/

/-- The fixture of a scenario, given what the system finds at a path. -/
def load (s : Scenario) (files : String → Except String String) : Except Fault Fixture :=
  match s.fixture, s.path with
  | some fixture, _ => .ok fixture
  | none, some path => (Fixture.ofFile path (files path)).mapError .fixture
  | none, none => .error (.missingFixture s.name)

/-- The fault of one case. -/
def Case.fault? (read : PatternReader) (c : Case) (fixture : Fixture) (limits : Limits) :
    Option Fault :=
  match fixture.get? c.name with
  | none => some (.caseNotFound c.name)
  | some text =>
    (c.assertion.complaint? read (.ofText text limits)).map (.assertionFailed c.name)

/-- Runs the cases of a scenario. -/
def run (s : Scenario) (read : PatternReader) (files : String → Except String String) :
    Except Fault Unit := do
  let fixture ← s.load files
  match s.cases.findSome? (·.fault? read fixture s.limits) with
  | some fault => .error fault
  | none => .ok ()

variable {read : PatternReader}

theorem Case.fault?_eq_none_iff {c : Case} {fixture : Fixture} {limits : Limits} :
    c.fault? read fixture limits = none ↔
      ∃ text, fixture.get? c.name = some text ∧
        c.assertion.complaint? read (.ofText text limits) = none := by
  unfold Case.fault?
  cases fixture.get? c.name <;> simp

theorem run_eq_ok_iff {s : Scenario} {files : String → Except String String}
    {fixture : Fixture} (h : s.load files = .ok fixture) :
    s.run read files = .ok () ↔
      ∀ c ∈ s.cases, ∃ text, fixture.get? c.name = some text ∧
        c.assertion.complaint? read (.ofText text s.limits) = none := by
  have none_iff : s.cases.findSome? (·.fault? read fixture s.limits) = none ↔
      ∀ c ∈ s.cases, ∃ text, fixture.get? c.name = some text ∧
        c.assertion.complaint? read (.ofText text s.limits) = none := by
    simp only [List.findSome?_eq_none_iff, Case.fault?_eq_none_iff]
  rw [← none_iff]
  simp only [run, h, bind, Except.bind]
  cases s.cases.findSome? (·.fault? read fixture s.limits) <;> simp

end Scenario

end Admissibility
