/-
  Admissibility.Text.Path
  ───────────────────────
  **The names of files.**

  A path is a list of parts between slashes.  Slashes that follow each other count as one, one at
  the end counts as none, and a part that is a dot says nothing, except at the beginning of a
  relative path.  Two texts that come to the same parts write the same path.
-/

namespace Admissibility.Text

/-- A path, from the root of the files or from the present place. -/
structure Path where
  absolute : Bool
  parts : List (List Char)
  deriving DecidableEq, Repr, Inhabited

namespace Path

/-! ## §1. Parts. -/

/-- The stretches of a text between its slashes. -/
def split : List Char → List (List Char)
  | [] => [[]]
  | '/' :: rest => [] :: split rest
  | c :: rest =>
    match split rest with
    | part :: parts => (c :: part) :: parts
    | [] => [[c]]

/-- A part that leads somewhere. -/
def Leads (part : List Char) : Prop := part ≠ [] ∧ part ≠ ['.']

instance : DecidablePred Leads := fun _ => by
  unfold Leads
  infer_instance

/-- The path that a text writes. -/
def ofText (text : String) : Path :=
  match split text.toList with
  | [] :: rest => ⟨!rest.isEmpty, rest.filter (Leads ·)⟩
  | first :: rest => ⟨false, first :: rest.filter (Leads ·)⟩
  | [] => ⟨false, []⟩

/-! ## §2. Reading a file. -/

/-- What reading the file of a path comes to, given what the system finds there.  The system is
not asked for a name with a zero character in it. -/
def reading {α : Type} (path : String) (found : Except String α) : Except String α :=
  if '\x00' ∈ path.toList then .error "file name contained an unexpected NUL byte" else found

end Path

end Admissibility.Text
