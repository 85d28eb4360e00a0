/-
  Admissibility.Membership.Search
  ───────────────────────────────
  **The shortest member-of chain from a node into a set.**

  The search goes level by level and visits the containers of a node in the order of labels, so
  of the shortest chains it finds the one with the least sequence of labels.  Each node in the
  worklist carries the trail on which it was found.  Taking a node costs one step and one more for
  each of its containers; a node that is itself a target costs nothing.

  `explore_room`: what the worklist gains, the set of visited nodes loses in room.
-/
import Admissibility.NodeSet
import Admissibility.Membership

namespace Admissibility.Membership

/-! ## §1. Trails. -/

/-- A chain that ends in a node. -/
structure Trail where
  last : Nat
  /-- The nodes before the last one, the nearest first. -/
  before : List Nat
  deriving DecidableEq, Repr, Inhabited

namespace Trail

/-- The trail that goes on to one more node. -/
def extend (t : Trail) (id : Nat) : Trail := ⟨id, t.last :: t.before⟩

/-- The nodes of a trail from its first to its last. -/
def nodes (t : Trail) : List Nat := (t.last :: t.before).reverse

end Trail

/-! ## §2. One node's containers. -/

/-- What looking through the containers of a node comes to. -/
inductive Exploration where
  /-- One of them is a target. -/
  | reached (trail : Trail)
  /-- None is: the nodes visited by now, and the worklist with the new ones in front. -/
  | onward (visited : NodeSet) (worklist : List Trail)

/-- Looks through a list of containers of the last node of a trail. -/
def explore (targets : NodeSet) (trail : Trail) (visited : NodeSet) (worklist : List Trail) :
    List Nat → Exploration
  | [] => .onward visited worklist
  | id :: ids =>
    match visited.insert? id with
    | none => explore targets trail visited worklist ids
    | some visited =>
      if targets.contains id then .reached (trail.extend id)
      else explore targets trail visited (trail.extend id :: worklist) ids

theorem explore_room {targets visited visited' : NodeSet} {trail : Trail}
    {worklist worklist' : List Trail} {ids : List Nat}
    (h : explore targets trail visited worklist ids = .onward visited' worklist') :
    visited'.room + worklist'.length = visited.room + worklist.length := by
  induction ids generalizing visited worklist with
  | nil => cases h; rfl
  | cons id ids ih =>
    unfold explore at h
    split at h
    · exact ih h
    · next hv =>
      split at h
      · cases h
      · rw [ih h, List.length_cons, ← NodeSet.room_insert? hv]
        omega

/-! ## §3. The search. -/

/-- Takes the trails of the present level in order, and collects the next level in reverse. -/
def search (m : Membership) (targets visited : NodeSet) :
    List Trail → List Trail → Metered (Option (List Nat))
  | [], [] => pure none
  | [], trail :: later => search m targets visited (trail :: later).reverse []
  | trail :: level, later => do
    Metered.spend (1 + (m.containersOf trail.last).length)
    match h : explore targets trail visited later (m.containersOf trail.last) with
    | .reached found => pure (some found.nodes)
    | .onward visited later =>
      have := explore_room h
      search m targets visited level later
termination_by level later =>
  2 * (visited.room + level.length + later.length) + if level.isEmpty then 1 else 0
decreasing_by
  · simp
  · simp only [List.length_cons, List.isEmpty_cons]
    split <;> omega

/-- The shortest member-of chain from a node to one of the targets. -/
def chain (m : Membership) (source : Nat) (targets : NodeSet) : Metered (Option (List Nat)) :=
  if targets.contains source then pure (some [source])
  else search m targets ((NodeSet.empty m.nodeCount).insert source) [⟨source, []⟩] []

end Admissibility.Membership
