/-
  Admissibility.Proofs.Builder
  ────────────────────────────
  **Structures as runs of calls.**

  A structure is built by a sequence of calls, each of which declares a node or adds a relation.
  A call that is refused leaves the structure as it was, so every sequence builds a structure.

  `declare_cases`, `relate_cases`: everything that a call can come to.
-/
import Admissibility.Structure

namespace Admissibility.Structure

/-! ## §1. One call. -/

/-- **Declaring a label.**  An empty label and one that a node bears are refused; any other is that
of the next node. -/
theorem declare_cases (s : Structure) (label : String) :
    (label = "" ∧ s.declare label = .error .emptyLabel)
      ∨ (label ≠ "" ∧ label ∈ s.labels ∧ s.declare label = .error (.duplicateLabel label))
      ∨ (label ≠ "" ∧ label ∉ s.labels ∧ ∃ t, s.declare label = .ok (s.nodeCount, t)
          ∧ t.labels = s.labels.push label ∧ t.relations = s.relations) := by
  unfold declare
  split
  · next hempty => exact .inl ⟨hempty, rfl⟩
  · next hne =>
    split
    · next id hid =>
      have hid' : s.ids[label]? = some id := hid
      exact .inr (.inl ⟨hne, Array.mem_of_getElem? ((s.ids_iff label id).1 hid'), rfl⟩)
    · next hfresh =>
      refine .inr (.inr ⟨hne, fun hmem => ?_, _, rfl, rfl, rfl⟩)
      obtain ⟨id, hid⟩ := Array.mem_iff_getElem?.1 hmem
      rw [(s.ids_iff label id).2 hid] at hfresh
      cases hfresh

/-- **Adding a relation.**  The leftmost endpoint that is no node is refused, after that a number of
endpoints that the kind does not take; any other relation is the next one. -/
theorem relate_cases (s : Structure) (r : Relation) :
    (∃ before e after, r.endpoints = before ++ e :: after ∧ (∀ x ∈ before, x < s.nodeCount)
        ∧ s.nodeCount ≤ e ∧ s.relate r = .error (.unknownNode e))
      ∨ ((∀ x ∈ r.endpoints, x < s.nodeCount) ∧ ¬ r.kind.Takes r.arity
          ∧ s.relate r = .error (.ofArity r.kind r.arity))
      ∨ (r.Fits s.nodeCount ∧ ∃ t, s.relate r = .ok (s.relationCount, t)
          ∧ t.labels = s.labels ∧ t.relations = s.relations.push r) := by
  unfold relate
  split
  · next e hfind =>
    obtain ⟨hlarge, before, after, hsplit, hbefore⟩ := List.find?_eq_some_iff_append.1 hfind
    refine .inl ⟨before, e, after, hsplit, fun x hx => ?_, of_decide_eq_true hlarge, rfl⟩
    simpa [nodeCount] using hbefore x hx
  · next hfind =>
    have hknown : ∀ x ∈ r.endpoints, x < s.nodeCount := by
      simpa [nodeCount] using List.find?_eq_none.1 hfind
    split
    · next htakes => exact .inr (.inr ⟨⟨hknown, htakes⟩, _, rfl, rfl, rfl⟩)
    · next htakes => exact .inr (.inl ⟨hknown, htakes, rfl⟩)

/-! ## §2. Sequences of calls. -/

/-- One call on a structure that is being built. -/
inductive Call where
  | declare (label : String)
  | relate (relation : Relation)
  deriving DecidableEq, Repr

/-- The structure after a call. -/
def perform (s : Structure) : Call → Structure
  | .declare label =>
    match s.declare label with
    | .ok (_, t) => t
    | .error _ => s
  | .relate relation =>
    match s.relate relation with
    | .ok (_, t) => t
    | .error _ => s

/-- The structure that a sequence of calls builds. -/
def built (calls : List Call) : Structure := calls.foldl perform empty

end Admissibility.Structure
