/-
  Admissibility.Scenario.Assertion
  ────────────────────────────────
  **What a case is expected to come to.**

  An assertion states expectations on a witness, or on a failure.  With one expectation on a
  failure the case has to fail, and without any it has to have a witness; expectations on the
  other side then cannot be met and are not looked at.  The first expectation that is not met is
  the complaint.

  One expectation is a pattern.  What patterns there are and what they ask of a text is not fixed
  here: whoever runs an assertion hands in a reader of patterns.

  `Assertion.Holds`: what an assertion says, expectation by expectation.
-/
import Admissibility.Scenario.Aspect
import Admissibility.Scenario.Outcome
import Admissibility.Text.Infix

namespace Admissibility.Scenario

open Admissibility.Description (Gate)
open Admissibility.Text (contains)

/-! ## §1. Assertions. -/

/-- Expectations on the outcome of a case. -/
structure Assertion where
  verdict : Option Verdict := none
  constraint : Option Constraint := none
  checked : Option Checked := none
  boundary : Option String := none
  /-- The labels of the chain, the boundary first. -/
  chain : Option (List String) := none
  /-- The node in two inversions. -/
  shared : Option String := none
  /-- The offending relations, in the order of the report. -/
  relations : Option (List String) := none
  labels : Option (List String) := none
  /-- The whole text report. -/
  report : Option String := none
  /-- Parts of the text report. -/
  reportContains : List String := []
  /-- A part of the text of a grammatical fault. -/
  grammarError : Option String := none
  /-- A part of the text of a syntactic fault. -/
  syntaxError : Option String := none
  /-- The line and the column of a fault. -/
  errorAt : Option (Nat × Nat) := none
  /-- A pattern that the message of a failure matches. -/
  errorPattern : Option String := none
  /-- The resource whose limit is passed. -/
  exhausted : Option Resource := none
  deriving DecidableEq, Repr, Inhabited

namespace Assertion

/-- Expects an admissible structure. -/
def admissible (a : Assertion) : Assertion := { a with verdict := some .admissible }

/-- Expects a structure that is not admissible. -/
def inadmissible (a : Assertion) : Assertion := { a with verdict := some .inadmissible }

/-- Expects a structure that breaches one of the constraints. -/
def breaches (a : Assertion) (constraint : Constraint) : Assertion :=
  { a.inadmissible with constraint := some constraint }

/-- What is expected to be seen of an aspect of the witness. -/
def expected? (a : Assertion) : Aspect → Option Observation
  | .verdict => a.verdict.map .verdict
  | .constraint => a.constraint.map fun c => .constraint (some c)
  | .checked => a.checked.map fun c => .checked (some c)
  | .boundary => a.boundary.map fun l => .label (some l)
  | .chain => a.chain.map fun ls => .chain (some ls)
  | .shared => a.shared.map fun l => .label (some l)
  | .relations => a.relations.map .texts
  | .labels => a.labels.map .texts
  | .report => a.report.map .text

/-- Something is expected of a failure. -/
def ExpectsFailure (a : Assertion) : Prop :=
  a.grammarError.isSome ∨ a.syntaxError.isSome ∨ a.errorAt.isSome ∨ a.errorPattern.isSome ∨
    a.exhausted.isSome

instance (a : Assertion) : Decidable a.ExpectsFailure := by
  unfold ExpectsFailure
  infer_instance

end Assertion

/-! ## §2. Complaints. -/

/-- A reader of patterns: it tells for a pattern which texts match, or why it cannot be read. -/
abbrev PatternReader : Type := String → Except String (String → Bool)

/-- Why an outcome is not the expected one. -/
inductive Complaint where
  /-- A failure is expected, and there is a verdict. -/
  | noFailure (verdict : Verdict)
  /-- A witness is expected, and there is a failure. -/
  | noWitness (failure : Failure)
  | differs (aspect : Aspect) (expected found : Observation)
  /-- A fragment is not in the report. -/
  | notReported (fragment report : String)
  /-- The failure is no refusal at a gate, or a fragment is not in its text. -/
  | notRefused (gate : Gate) (fragment : String) (failure : Failure)
  | notAt (line column : Nat) (failure : Failure)
  /-- The pattern cannot be read, for a reason. -/
  | badPattern (reason : String)
  | notMatched (pattern : String) (failure : Failure)
  | notExhausted (resource : Resource) (failure : Failure)
  deriving DecidableEq, Repr

/-- The wording of a complaint. -/
def Complaint.message : Complaint → String
  | noFailure verdict => s!"expected failure, but case was {verdict.name}"
  | noWitness failure => s!"case failed: {failure.message}"
  | differs aspect expected found =>
    s!"expected {aspect.name} {expected.shown}, got {found.shown}"
  | notReported fragment report => s!"expected report containing '{fragment}', got:\n{report}"
  | notRefused gate fragment failure =>
    s!"expected {gate.name} containing '{fragment}', got: {failure.message}"
  | notAt line column failure =>
    s!"expected error at line {line}, column {column}, got: {failure.message}"
  | badPattern reason => s!"invalid regex pattern: {reason}"
  | notMatched pattern failure =>
    s!"expected error matching '{pattern}', got: {failure.message}"
  | notExhausted resource failure =>
    s!"expected {resource.name} to be exhausted, got: {failure.message}"

/-! ## §3. Comparing. -/

namespace Failure

/-- The fault of a description, if that is what the failure is. -/
def fault? : Failure → Option Description.Fault
  | description fault => some fault
  | exhausted _ => none

/-- The resource whose limit is passed, if that is what the failure is. -/
def resource? : Failure → Option Resource
  | description _ => none
  | exhausted e => some e.resource

/-- Whether a gate refuses the description with a fragment in its text. -/
def isRefusal (f : Failure) (gate : Gate) (fragment : String) : Bool :=
  f.fault?.any fun fault =>
    fault.diagnostic.gate == gate && contains fault.diagnostic.text fragment

/-- Whether the description has its fault at a line and column. -/
def isAt (f : Failure) (line column : Nat) : Bool :=
  f.fault?.any fun fault => fault.span.line == line && fault.span.column == column

/-- A complaint unless a gate refuses the description with a fragment in its text. -/
def refusalComplaint? (f : Failure) (gate : Gate) (fragment : String) : Option Complaint :=
  if f.isRefusal gate fragment then none else some (.notRefused gate fragment f)

/-- A complaint unless a pattern can be read and the message matches it. -/
def patternComplaint? (read : PatternReader) (f : Failure) (pattern : String) : Option Complaint :=
  match read pattern with
  | .error reason => some (.badPattern reason)
  | .ok isMatch => if isMatch f.message then none else some (.notMatched pattern f)

end Failure

namespace Assertion

/-- The first expectation on a failure that is not met: the two gates, then the place, the wording
and the resource. -/
def failureComplaint? (a : Assertion) (read : PatternReader) (f : Failure) : Option Complaint :=
  (a.grammarError.bind (f.refusalComplaint? .grammatical))
    <|> (a.syntaxError.bind (f.refusalComplaint? .syntactic))
    <|> (a.errorAt.bind fun (line, column) =>
      if f.isAt line column then none else some (.notAt line column f))
    <|> (a.errorPattern.bind (f.patternComplaint? read))
    <|> (a.exhausted.bind fun resource =>
      if f.resource? = some resource then none else some (.notExhausted resource f))

/-- A complaint if an aspect is not seen as expected. -/
def aspectComplaint? (a : Assertion) (w : Witness) (aspect : Aspect) : Option Complaint :=
  (a.expected? aspect).bind fun expected =>
    let found := aspect.observe w
    if expected = found then none else some (.differs aspect expected found)

/-- The first expectation on a witness that is not met: its aspects in order, and after them the
parts of the report. -/
def witnessComplaint? (a : Assertion) (w : Witness) : Option Complaint :=
  (Aspect.all.findSome? (a.aspectComplaint? w))
    <|> (a.reportContains.findSome? fun fragment =>
      if contains (Report.text w) fragment then none
      else some (.notReported fragment (Report.text w)))

/-- The first thing that is wrong with an outcome, if anything is. -/
def complaint? (a : Assertion) (read : PatternReader) : Outcome → Option Complaint
  | .ok w => if a.ExpectsFailure then some (.noFailure w.verdict) else a.witnessComplaint? w
  | .error f => if a.ExpectsFailure then a.failureComplaint? read f else some (.noWitness f)

/-! ## §4. What an assertion says. -/

/-- Every expectation is met by the outcome, given what patterns ask of a text. -/
structure Holds (a : Assertion) (read : PatternReader) (o : Outcome) : Prop where
  /-- Without an expectation on a failure there is a witness. -/
  witness : ¬ a.ExpectsFailure → ∃ w, o = .ok w
  verdict : ∀ v ∈ a.verdict, ∃ w, o = .ok w ∧ w.verdict = v
  constraint : ∀ c ∈ a.constraint, ∃ w, o = .ok w ∧ w.constraint? = some c
  checked : ∀ c ∈ a.checked, o = .ok (.admissible c)
  boundary : ∀ b ∈ a.boundary,
    ∃ bounded chain facts, o = .ok (.inadmissible (.boundaryMembership b bounded chain facts))
  chain : ∀ ls ∈ a.chain,
    ∃ b bounded facts, o = .ok (.inadmissible (.boundaryMembership b bounded ls facts))
  shared : ∀ n ∈ a.shared, ∃ f g, o = .ok (.inadmissible (.inversionOverlap n f g))
  relations : ∀ ts ∈ a.relations,
    ∃ w, o = .ok w ∧ ((w.violation?.map Violation.facts).getD []).map Fact.text = ts
  labels : ∀ ls ∈ a.labels, ∃ w, o = .ok w ∧ (w.violation?.map Violation.labels).getD [] = ls
  report : ∀ t ∈ a.report, ∃ w, o = .ok w ∧ Report.text w = t
  reportContains : ∀ t ∈ a.reportContains,
    ∃ w, o = .ok w ∧ t.toList <:+: (Report.text w).toList
  grammarError : ∀ t ∈ a.grammarError, ∃ fault, o = .error (.description fault) ∧
    fault.diagnostic.gate = .grammatical ∧ t.toList <:+: fault.diagnostic.text.toList
  syntaxError : ∀ t ∈ a.syntaxError, ∃ fault, o = .error (.description fault) ∧
    fault.diagnostic.gate = .syntactic ∧ t.toList <:+: fault.diagnostic.text.toList
  errorAt : ∀ p ∈ a.errorAt, ∃ fault, o = .error (.description fault) ∧
    (fault.span.line, fault.span.column) = p
  errorPattern : ∀ t ∈ a.errorPattern,
    ∃ isMatch f, read t = .ok isMatch ∧ o = .error f ∧ isMatch f.message = true
  exhausted : ∀ r ∈ a.exhausted, ∃ limit, o = .error (.exhausted ⟨r, limit⟩)

end Assertion

end Admissibility.Scenario
