/-
  Admissibility.Scenario.Fixture
  ──────────────────────────────
  **Texts that hold many cases.**

  A line that starts with `//#`, blanks aside, is a marker.  The rest of it, without blanks at its
  ends, is the name of a case, and the lines up to the next marker are its text, so a place in the
  text of a case is a place in the fixture a fixed number of lines above.  Lines before the first
  marker belong to no case.  Names are not empty and not repeated.

  `Fixture.defect?_eq_none_iff`: names without a defect are distinct and not empty.
-/
import Admissibility.Text.Blank
import Admissibility.Text.Lines
import Admissibility.Text.Path

namespace Admissibility.Scenario

open Admissibility.Text (lines trim)

/-- Named cases in order. -/
structure Fixture where
  /-- Each name with its text. -/
  cases : List (String × String)
  distinct : (cases.map Prod.fst).Nodup
  named : "" ∉ cases.map Prod.fst

namespace Fixture

/-! ## §1. Cases of a fixture. -/

/-- The names of the cases. -/
def names (f : Fixture) : List String := f.cases.map Prod.fst

/-- The text of a case. -/
def get? (f : Fixture) (name : String) : Option String := f.cases.lookup name

/-! ## §2. Defects. -/

/-- What is wrong with the names in a fixture. -/
inductive Defect where
  | emptyName
  | repeatedName (name : String)
  deriving DecidableEq, Repr, Inhabited

/-- The wording of a defect. -/
def Defect.message : Defect → String
  | .emptyName => "empty case name after //#"
  | .repeatedName name => s!"case '{name}' appears twice"

/-- The first name that is empty or among those before it. -/
def defectAfter? (before : List String) : List String → Option Defect
  | [] => none
  | name :: names =>
    if name = "" then some .emptyName
    else if name ∈ before then some (.repeatedName name)
    else defectAfter? (name :: before) names

/-- The first defect of some names. -/
def defect? (names : List String) : Option Defect := defectAfter? [] names

theorem defectAfter?_eq_none_iff {before names : List String} :
    defectAfter? before names = none ↔
      names.Nodup ∧ "" ∉ names ∧ ∀ name ∈ names, name ∉ before := by
  induction names generalizing before with
  | nil => simp [defectAfter?]
  | cons name names ih =>
    unfold defectAfter?
    split
    · next h => simp [h]
    · split
      · next h => simp [h]
      · next he hb =>
        rw [ih]
        simp only [List.nodup_cons, List.mem_cons, not_or, forall_eq_or_imp]
        constructor
        · rintro ⟨hd, hn, ha⟩
          exact ⟨⟨fun h => (ha name h).1 rfl, hd⟩, ⟨Ne.symm he, hn⟩, hb, fun x hx => (ha x hx).2⟩
        · rintro ⟨⟨hm, hd⟩, ⟨_, hn⟩, _, ha⟩
          exact ⟨hd, hn, fun x hx => ⟨fun e => hm (e ▸ hx), ha x hx⟩⟩

theorem defect?_eq_none_iff {names : List String} :
    defect? names = none ↔ names.Nodup ∧ "" ∉ names := by
  simp [defect?, defectAfter?_eq_none_iff]

/-! ## §3. Reading a fixture. -/

/-- The name in a marker. -/
def marker? (line : List Char) : Option String :=
  match trim line with
  | '/' :: '/' :: '#' :: name => some (String.ofList (trim name))
  | _ => none

/-- The lines in front of the first marker, and each name with the lines up to the next one. -/
def sections : List (List Char) → List (List Char) × List (String × List (List Char))
  | [] => ([], [])
  | line :: rest =>
    let (body, later) := sections rest
    match marker? line with
    | some name => ([], (name, body) :: later)
    | none => (line :: body, later)

/-- Lines as one text, each with a line feed behind it. -/
def textOfLines (lines : List (List Char)) : String :=
  String.ofList (lines.flatMap (· ++ ['\n']))

/-- The cases that a text holds, whatever their names. -/
def casesOf (text : String) : List (String × String) :=
  (sections (lines text.toList)).2.map fun (name, body) => (name, textOfLines body)

/-- The fixture that a text writes. -/
def ofText (text : String) : Except Defect Fixture :=
  match h : defect? ((casesOf text).map Prod.fst) with
  | some defect => .error defect
  | none =>
    have sound := defect?_eq_none_iff.1 h
    .ok ⟨casesOf text, sound.1, sound.2⟩

/-! ## §4. Fixtures from files. -/

/-- Why there is no fixture. -/
inductive Fault where
  /-- The text that is given has a defect. -/
  | malformed (defect : Defect)
  /-- The text in a file has a defect. -/
  | malformedFile (path : String) (defect : Defect)
  /-- A file cannot be read, for a reason. -/
  | unreadable (path reason : String)
  deriving DecidableEq, Repr, Inhabited

/-- The wording of a failure to read the fixture of a name. -/
def malformedMessage (name cause : String) : String :=
  s!"failed to parse fixture '{name}': {cause}"

/-- The wording of a fault.  A file with a defect is blamed together with the text in it. -/
def Fault.message : Fault → String
  | malformed defect => malformedMessage "<inline>" defect.message
  | malformedFile path defect =>
    malformedMessage path (malformedMessage "<inline>" defect.message)
  | unreadable path reason => s!"failed to read file '{path}': {reason}"

/-- The fixture that a given text writes. -/
def ofSource (text : String) : Except Fault Fixture := (ofText text).mapError .malformed

/-- The fixture in a file, given what the system finds there. -/
def ofFile (path : String) (found : Except String String) : Except Fault Fixture :=
  match Text.Path.reading path found with
  | .error reason => .error (.unreadable path reason)
  | .ok text => (ofText text).mapError (.malformedFile path)

end Fixture

end Admissibility.Scenario
