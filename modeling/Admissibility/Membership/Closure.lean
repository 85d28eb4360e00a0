/-
  Admissibility.Membership.Closure
  ────────────────────────────────
  **Everything that is transitively a member of some nodes.**

  The search takes the nodes in the order in which it found them, so it goes level by level.
  Taking a node costs one step and one more for each of its direct members.  Every node is found
  at most once, since only an insertion that succeeds puts it into the worklist; that is also why
  the search ends on cyclic memberships.

  `absorb_room`: what the worklist gains, the set loses in room.
-/
import Admissibility.NodeSet
import Admissibility.Membership

namespace Admissibility.Membership

/-- Inserts the nodes of a list into the set of those found and puts the new ones in front of a
worklist, the last one first. -/
def absorb (found : NodeSet) (worklist : List Nat) : List Nat → NodeSet × List Nat
  | [] => (found, worklist)
  | id :: ids =>
    match found.insert? id with
    | some found => absorb found (id :: worklist) ids
    | none => absorb found worklist ids

theorem absorb_room (found : NodeSet) (worklist ids : List Nat) :
    (absorb found worklist ids).1.room + (absorb found worklist ids).2.length
      = found.room + worklist.length := by
  induction ids generalizing found worklist with
  | nil => rfl
  | cons id ids ih =>
    unfold absorb
    split
    · next h =>
      rw [ih, List.length_cons, ← NodeSet.room_insert? h]
      omega
    · exact ih found worklist

/-- Takes the nodes of the present level in order, and collects the next level in reverse. -/
def close (m : Membership) (found : NodeSet) : List Nat → List Nat → Metered NodeSet
  | [], [] => pure found
  | [], id :: later => close m found (id :: later).reverse []
  | id :: level, later => do
    Metered.spend (1 + (m.membersOf id).length)
    close m (absorb found later (m.membersOf id)).1 level (absorb found later (m.membersOf id)).2
termination_by level later =>
  2 * (found.room + level.length + later.length) + if level.isEmpty then 1 else 0
decreasing_by
  · simp
  · have := absorb_room found later (m.membersOf id)
    simp only [List.length_cons, List.isEmpty_cons]
    split <;> omega

/-- The seeds and every node with a member-of chain to one of them. -/
def closure (m : Membership) (seeds : List Nat) : Metered NodeSet :=
  let start := absorb (NodeSet.empty m.nodeCount) [] seeds
  close m start.1 [] start.2

end Admissibility.Membership
