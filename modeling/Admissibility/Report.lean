/-
  Admissibility.Report
  ────────────────────
  **Reports on a witness, in either of two formats.**

  `exists_render`: every witness has its report in the format that is asked for.
-/
import Admissibility.Report.Json
import Admissibility.Report.Text

namespace Admissibility

/-- The formats of a report. -/
inductive Report.Format where
  | text
  | json
  deriving DecidableEq, Repr, Inhabited

/-- The name of a format. -/
def Report.Format.name : Report.Format → String
  | .text => "text"
  | .json => "json"

/-- Why there is no report. -/
inductive Report.Fault where
  /-- The document cannot be written down, for a reason. -/
  | notSerialized (reason : String)
  deriving DecidableEq, Repr, Inhabited

/-- The wording of a fault. -/
def Report.Fault.message : Report.Fault → String
  | .notSerialized reason => s!"failed to serialize witness: {reason}"

/-- The report on a witness.  Neither format has a reason to fail: what a witness holds is texts,
counts and lists of them. -/
def Report.render (w : Witness) : Report.Format → Except Report.Fault String
  | .text => .ok (Report.text w)
  | .json => .ok (Report.json w)

theorem Report.exists_render (w : Witness) (format : Report.Format) :
    ∃ report, Report.render w format = .ok report
      ∧ (format = .text → report = Report.text w) ∧ (format = .json → report = Report.json w) := by
  cases format with
  | text => exact ⟨_, rfl, fun _ => rfl, nofun⟩
  | json => exact ⟨_, rfl, nofun, fun _ => rfl⟩

end Admissibility
