/-
  Admissibility.Description.Tree
  ──────────────────────────────
  **Descriptions as trees.**

  A description is a list of items.  An item declares nodes or states a relation, whose endpoints
  are labels or sets of labels.  Everything keeps the stretch of text that it came from.
-/
import Admissibility.Relation
import Admissibility.Text.Position

namespace Admissibility.Description

open Admissibility.Text (Span)

/-- A label where it stands. -/
structure Label where
  name : String
  span : Span
  deriving DecidableEq, Repr, Inhabited

/-- One argument of a relation. -/
inductive Endpoint where
  | single (label : Label)
  /-- Labels in braces. -/
  | set (labels : List Label) (span : Span)
  deriving DecidableEq, Repr, Inhabited

namespace Endpoint

/-- Where the endpoint stands. -/
def span : Endpoint → Span
  | single label => label.span
  | set _ span => span

/-- The labels that the endpoint names, in order. -/
def labels : Endpoint → List Label
  | single label => [label]
  | set labels _ => labels

end Endpoint

/-- A top-level item. -/
inductive Item where
  /-- A declaration such as `node A, B`. -/
  | nodes (labels : List Label) (span : Span)
  /-- A relation such as `member-of(A, S)`, `bounds(B, {S, T})` or `inverts(X, Y)`. -/
  | relation (kind : Relation.Kind) (endpoints : List Endpoint) (span : Span)
  deriving DecidableEq, Repr, Inhabited

/-- An item that declares nodes. -/
def Item.isNodes : Item → Bool
  | .nodes .. => true
  | .relation .. => false

end Admissibility.Description

namespace Admissibility

/-- The items of a description in order. -/
structure Description where
  items : List Description.Item
  deriving DecidableEq, Repr, Inhabited

end Admissibility
