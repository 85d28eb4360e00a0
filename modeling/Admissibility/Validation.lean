/-
  Admissibility.Validation
  ────────────────────────
  **Deciding whether a structure is admissible.**

  A structure is admissible when no boundary has a member-of chain into the nodes it bounds, every
  inversion pairs two distinct nodes, and no node takes part in two inversions.  Validation looks
  for every breach of these constraints and reports the one that comes first in the order of
  violations.  One budget of steps is shared by all traversals; a limit that is passed ends the
  validation without a verdict.

  `Structure.Admissible`: the three constraints, stated without any search.
-/
import Admissibility.Inversion
import Admissibility.Limits
import Admissibility.Membership.Closure
import Admissibility.Membership.Search
import Admissibility.Witness

namespace Admissibility.Structure

/-! ## §1. The constraints. -/

/-- A boundary with a member-of chain into the nodes that it bounds. -/
def BreaksBoundary (s : Structure) (boundary : Nat) : Prop :=
  ∃ bounded, (boundary, bounded) ∈ s.edges .bounds ∧ s.Chain boundary bounded

/-- A list of endpoints that pairs two distinct nodes. -/
def DistinctPair : List Nat → Prop
  | [x, y] => x ≠ y
  | _ => False

instance : DecidablePred DistinctPair := fun endpoints => by
  unfold DistinctPair
  split <;> infer_instance

/-- A node among the endpoints of two different inversions. -/
def Shared (s : Structure) (id : Nat) : Prop :=
  ∃ v ∈ s.relationsOf .inverts, ∃ w ∈ s.relationsOf .inverts,
    v.1 ≠ w.1 ∧ id ∈ v.2.endpoints ∧ id ∈ w.2.endpoints

/-- The three constraints. -/
structure Admissible (s : Structure) : Prop where
  no_boundary_broken : ∀ boundary, ¬ s.BreaksBoundary boundary
  distinct_pairs : ∀ v ∈ s.relationsOf .inverts, DistinctPair v.2.endpoints
  no_node_shared : ∀ id, ¬ s.Shared id

/-! ## §2. Boundaries. -/

/-- A relation in terms of labels. -/
def fact (s : Structure) (r : Relation) : Fact := ⟨r.kind, r.endpoints.map s.label⟩

/-- Every boundary with the nodes that it bounds, in ascending order of boundaries and in the order
of labels of the bounded. -/
def boundaries (s : Structure) : List (Nat × List Nat) :=
  (s.neighbours (s.edges .bounds)).toList.zipIdx.filterMap fun (bounded, id) =>
    if bounded.isEmpty then none else some (id, bounded)

/-- The member-of facts along a chain. -/
def links (s : Structure) : List Nat → List Fact
  | x :: y :: rest => ⟨.memberOf, [s.label x, s.label y]⟩ :: links s (y :: rest)
  | _ => []

/-- The violation that a chain from a boundary into its bounded nodes proves. -/
def boundaryViolation (s : Structure) (boundary : Nat) (bounded chain : List Nat) : Violation :=
  .boundaryMembership (s.label boundary) (bounded.map s.label) (chain.map s.label)
    (⟨.bounds, [s.label boundary, s.label (chain.getLast?.getD boundary)]⟩ :: s.links chain)

/-- Checks one boundary.  The chain is searched only where the closure holds the boundary. -/
def checkBoundary (s : Structure) (m : Membership) (boundary : Nat) (bounded : List Nat) :
    Metered (Option Violation) := do
  let closure ← m.closure bounded
  if closure.contains boundary then
    let chain? ← m.chain boundary (.ofList s.nodeCount bounded)
    return chain?.map (s.boundaryViolation boundary bounded)
  else return none

/-- Checks boundaries in order, and collects their violations. -/
def checkBoundaries (s : Structure) (m : Membership) (boundaries : List (Nat × List Nat)) :
    Metered (List Violation) :=
  boundaries.filterMapM fun (boundary, bounded) => s.checkBoundary m boundary bounded

/-! ## §3. Inversions. -/

/-- The violation of an inversion by itself. -/
def arityViolation? (s : Structure) (r : Relation) : Option Violation :=
  if DistinctPair r.endpoints then none
  else some (.inversionArity (r.endpoints.map s.label) (s.fact r))

/-- Facts in the order of their signatures, and of their endpoints where those are equal. -/
def bySignature (facts : List Fact) : List Fact :=
  ((facts.map fun f => ((f.signature, f.endpoints), f)).mergeSort fun a b =>
    (compareLex (compareOn (·.1.1)) (compareOn (·.1.2)) a b).isLE).map Prod.snd

/-- The violation of a node in several inversions, with the first two of them as evidence. -/
def overlapViolation? (s : Structure) (v : Inversion) (id : Nat) : Option Violation :=
  match bySignature ((v.relationsOf id).filterMap fun r => s.relations[r]?.map s.fact) with
  | first :: second :: _ => some (.inversionOverlap (s.label id) first second)
  | _ => none

/-- Every violation of an inversion, first by itself and then with others. -/
def inversionViolations (s : Structure) : List Violation :=
  let v := Inversion.ofStructure s
  (s.relationsOf .inverts).filterMap (fun r => s.arityViolation? r.2)
    ++ v.sharedNodes.filterMap (s.overlapViolation? v)

/-! ## §4. Validation. -/

/-- The limit on the size that a structure passes, nodes before relations. -/
def oversize? (s : Structure) (limits : Limits) : Option Exhausted :=
  if limits.maxNodes < s.nodeCount then some ⟨.nodes, limits.maxNodes⟩
  else if limits.maxRelations < s.relationCount then some ⟨.relations, limits.maxRelations⟩
  else none

/-- The witness for the violations found. -/
def witness (s : Structure) (violations : List Violation) : Witness :=
  match Violation.least violations with
  | some violation => .inadmissible violation
  | none => .admissible ⟨s.boundaries.length, (s.relationsOf .inverts).length⟩

/-- Decides whether the structure is admissible, within limits. -/
def validate (s : Structure) (limits : Limits) : Except Exhausted Witness :=
  match s.oversize? limits with
  | some exhausted => .error exhausted
  | none =>
    match ((s.checkBoundaries (.ofStructure s) s.boundaries).run.run ⟨limits.maxClosureSteps, 0⟩).1
    with
    | .error stop => .error stop.exhausted
    | .ok violations => .ok (s.witness (violations ++ s.inversionViolations))

end Admissibility.Structure
