/-
  Admissibility.Description.Scope
  ───────────────────────────────
  **From trees to structures.**

  Items take effect in order: a node declaration adds its labels, and a relation may name only
  labels declared by items before it.  `bounds` with a set on its bounded side stands for one
  relation to each node of the set.  The first label or relation that does not fit is the fault.
-/
import Admissibility.Description.Fault
import Admissibility.Description.Tree

namespace Admissibility.Description

open Admissibility.Text (Span)

/-! ## §1. Node declarations. -/

/-- Declares a label. -/
def declareLabel (s : Structure) (label : Label) : Except Fault Structure :=
  match s.declare label.name with
  | .ok (_, s) => .ok s
  | .error (.duplicateLabel name) => .error ⟨.duplicateNode name, label.span⟩
  | .error refusal => .error ⟨.refused refusal, label.span⟩

/-! ## §2. Relations. -/

/-- The node that a label names. -/
def resolve (s : Structure) (label : Label) : Except Fault Nat :=
  match s.lookup label.name with
  | some id => .ok id
  | none => .error ⟨.undeclaredNode label.name, label.span⟩

/-- The endpoint lists of the relations that an item states, given the nodes of each of its
endpoints: for `bounds` with two of them every bounded node in turn with every boundary, and for
anything else one relation over all nodes. -/
def endpointLists (kind : Relation.Kind) (resolved : List (List Nat)) : List (List Nat) :=
  match kind, resolved with
  | .bounds, [sources, targets] => targets.flatMap fun t => sources.map fun s => [s, t]
  | _, _ => [resolved.flatten]

/-- Adds a relation that an item states. -/
def addRelation (kind : Relation.Kind) (span : Span) (s : Structure) (endpoints : List Nat) :
    Except Fault Structure :=
  match s.relate ⟨kind, endpoints, span.line⟩ with
  | .ok (_, s) => .ok s
  | .error refusal => .error ⟨.refused refusal, span⟩

/-! ## §3. Items. -/

/-- Lets an item take effect on a structure. -/
def Item.apply (s : Structure) : Item → Except Fault Structure
  | .nodes labels _ => labels.foldlM declareLabel s
  | .relation kind endpoints span => do
    let resolved ← endpoints.mapM fun e => e.labels.mapM (resolve s)
    (endpointLists kind resolved).foldlM (addRelation kind span) s

/-- The structure that a description describes. -/
def toStructure (d : Description) : Except Fault Structure := d.items.foldlM Item.apply .empty

end Admissibility.Description
