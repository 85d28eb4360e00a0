/-
  Admissibility.Membership
  ────────────────────────
  **Who is a member of whom.**

  The membership index of a structure lists for every node its containers and its direct members,
  each list in the order of labels and without repetitions, however often and in whatever order
  the relations were declared.  Numbers that are no nodes have no neighbours.

  `Chain`: the member-of chains that these lists stand for.
-/
import Admissibility.Structure

namespace Admissibility

/-! ## §1. Lists of nodes in the order of labels. -/

namespace Structure

/-- The same nodes in the order of their labels, each once. -/
def byLabel (s : Structure) (ids : List Nat) : List Nat :=
  (ids.mergeSort (fun x y => decide (s.label x ≤ s.label y))).eraseReps

/-- For every node x the nodes y with an edge from x to y, in the order of labels. -/
def neighbours (s : Structure) (edges : List (Nat × Nat)) : Array (List Nat) :=
  (edges.foldl (fun table (x, y) => table.modify x (y :: ·))
    (Array.replicate s.nodeCount [])).map s.byLabel

/-- Member-of relations of the structure lead from x to y, in any number. -/
inductive Chain (s : Structure) : Nat → Nat → Prop where
  /-- A node is reached from itself, by no relation at all. -/
  | refl {x : Nat} : x < s.nodeCount → Chain s x x
  /-- One relation, then a chain. -/
  | step {x y z : Nat} : (x, y) ∈ s.edges .memberOf → Chain s y z → Chain s x z

end Structure

/-! ## §2. The index. -/

/-- Containers and members of every node. -/
structure Membership where
  /-- For each x the nodes y with `member-of(x, y)`. -/
  containers : Array (List Nat)
  /-- For each y the nodes x with `member-of(x, y)`. -/
  members : Array (List Nat)
  deriving DecidableEq, Repr, Inhabited

namespace Membership

/-- The index of a structure. -/
def ofStructure (s : Structure) : Membership where
  containers := s.neighbours (s.edges .memberOf)
  members := s.neighbours ((s.edges .memberOf).map Prod.swap)

/-- The number of nodes that the index covers. -/
def nodeCount (m : Membership) : Nat := m.containers.size

/-- The nodes that a node is a direct member of. -/
def containersOf (m : Membership) (id : Nat) : List Nat := (m.containers[id]?).getD []

/-- The direct members of a node. -/
def membersOf (m : Membership) (id : Nat) : List Nat := (m.members[id]?).getD []

end Membership

end Admissibility
