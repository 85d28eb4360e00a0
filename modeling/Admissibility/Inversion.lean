/-
  Admissibility.Inversion
  ───────────────────────
  **Which inversions a node takes part in.**

  The inversion index lists for every node the numbers of the `inverts` relations among whose
  endpoints it is, in order of declaration and each once, even where a relation names the node
  several times.

  `enrol_enrol`: naming a node again in the same relation changes nothing.
-/
import Admissibility.Structure

namespace Admissibility

/-- The inversions of every node, by their numbers. -/
structure Inversion where
  participation : Array (List Nat)
  deriving DecidableEq, Repr, Inhabited

namespace Inversion

/-- Puts an inversion in front of a node's list, unless it is there already. -/
def enrol (id : Nat) (list : List Nat) : List Nat :=
  if list.head? = some id then list else id :: list

theorem enrol_enrol (id : Nat) (list : List Nat) : enrol id (enrol id list) = enrol id list := by
  unfold enrol
  split <;> simp_all

/-- Enrols every endpoint of an inversion. -/
def enrolAll (table : Array (List Nat)) (inversion : Nat × Relation) : Array (List Nat) :=
  inversion.2.endpoints.foldl (fun table node => table.modify node (enrol inversion.1)) table

/-- The index of a structure. -/
def ofStructure (s : Structure) : Inversion where
  participation :=
    ((s.relationsOf .inverts).foldl enrolAll (Array.replicate s.nodeCount [])).map List.reverse

/-- The inversions that a node takes part in. -/
def relationsOf (v : Inversion) (id : Nat) : List Nat := (v.participation[id]?).getD []

/-- The nodes that take part in more than one inversion, in ascending order. -/
def sharedNodes (v : Inversion) : List Nat :=
  (List.range v.participation.size).filter (fun id => 1 < (v.relationsOf id).length)

end Inversion

end Admissibility
