/-
  Admissibility.Proofs.Boundary
  ─────────────────────────────
  **Checking boundaries finds exactly those that are broken.**

  The boundaries are the sources of the `bounds` relations, each listed once with the nodes that it
  bounds.  A check closes the bounded nodes under membership and searches a chain only where the
  closure holds the boundary; the two searches agree, so no breach is dropped between them.

  `mem_boundaries`, `mem_map_fst_boundaries`: which boundaries there are and what they bound.
  `checkBoundary_costs`: what one check charges and comes to.
  `checkBoundaries_costs`: what all of them charge and come to, whatever the budget.
-/
import Mathlib.Tactic.Choose
import Admissibility.Validation
import Admissibility.Proofs.Membership.Closure
import Admissibility.Proofs.Membership.Search

namespace Admissibility.Structure

open Metered (Costs)

variable {s : Structure} {b : Nat}

/-! ## §1. The boundaries. -/

/-- The nodes that a node bounds, in the order of labels. -/
def bounded (s : Structure) (b : Nat) : List Nat := s.row (s.edges .bounds) b

theorem mem_bounded {x : Nat} : x ∈ s.bounded b ↔ (b, x) ∈ s.edges .bounds :=
  mem_row (s.inside_edges .bounds)

/-- A node is a boundary when it bounds some node. -/
def IsBoundary (s : Structure) (b : Nat) : Prop := ∃ x, (b, x) ∈ s.edges .bounds

theorem bounded_ne_nil_iff : s.bounded b ≠ [] ↔ s.IsBoundary b := by
  constructor
  · intro h
    obtain ⟨x, hx⟩ := List.exists_mem_of_ne_nil _ h
    exact ⟨x, mem_bounded.1 hx⟩
  · intro h
    obtain ⟨x, hx⟩ := h
    exact List.ne_nil_of_mem (mem_bounded.2 hx)

theorem IsBoundary.lt (h : s.IsBoundary b) : b < s.nodeCount := by
  obtain ⟨x, hx⟩ := h
  exact (edge_lt hx).1

theorem getElem?_neighbours_bounds {row : List Nat} :
    (s.neighbours (s.edges .bounds)).toList[b]? = some row ↔
      b < s.nodeCount ∧ row = s.bounded b := by
  rw [Array.getElem?_toList, bounded, Structure.row, getElem?_neighbours]
  split
  · next h => simp [h, eq_comm]
  · next h => simp [h]

/-- A row of the table is a boundary's where it is not empty. -/
theorem entry_eq_some_iff {row row' : List Nat} {id : Nat} :
    (if row.isEmpty then none else some (id, row)) = some (b, row')
      ↔ row ≠ [] ∧ id = b ∧ row = row' := by
  cases row with
  | nil => simp
  | cons x row => simp

/-- **Exactly the boundaries** are listed, each with the nodes that it bounds. -/
theorem mem_boundaries {row : List Nat} :
    (b, row) ∈ s.boundaries ↔ s.IsBoundary b ∧ row = s.bounded b := by
  unfold boundaries
  rw [List.mem_filterMap, ← bounded_ne_nil_iff]
  constructor
  · intro h
    obtain ⟨⟨row', id⟩, hmem, h⟩ := h
    obtain ⟨-, rfl⟩ := getElem?_neighbours_bounds.1 (List.mk_mem_zipIdx_iff_getElem?.1 hmem)
    obtain ⟨hne, rfl, rfl⟩ := entry_eq_some_iff.1 h
    exact ⟨hne, rfl⟩
  · intro h
    obtain ⟨hne, rfl⟩ := h
    have hlt := (bounded_ne_nil_iff.1 hne).lt
    refine ⟨(s.bounded b, b), ?_, entry_eq_some_iff.2 ⟨hne, rfl, rfl⟩⟩
    exact List.mk_mem_zipIdx_iff_getElem?.2 (getElem?_neighbours_bounds.2 ⟨hlt, rfl⟩)

/-- The boundaries are listed in ascending order. -/
theorem ascending_boundaries (s : Structure) : s.boundaries.Pairwise fun p q => p.1 < q.1 := by
  refine (ascending_zipIdx _).filterMap _ ?_
  intro v v' hlt p hp q hq
  obtain ⟨-, hfirst, -⟩ := entry_eq_some_iff.1 hp
  obtain ⟨-, hsecond, -⟩ := entry_eq_some_iff.1 hq
  rw [← hfirst, ← hsecond]
  exact hlt

theorem mem_map_fst_boundaries : b ∈ s.boundaries.map Prod.fst ↔ s.IsBoundary b := by
  rw [List.mem_map]
  constructor
  · intro h
    obtain ⟨⟨b, row⟩, hmem, rfl⟩ := h
    exact (mem_boundaries.1 hmem).1
  · intro h
    exact ⟨(b, s.bounded b), mem_boundaries.2 ⟨h, rfl⟩, rfl⟩

theorem nodup_map_fst_boundaries (s : Structure) : (s.boundaries.map Prod.fst).Nodup :=
  List.pairwise_map.2 ((ascending_boundaries s).imp Nat.ne_of_lt)

/-! ## §2. Checking one boundary. -/

/-- The set that a chain from a boundary has to lead into. -/
def targets (s : Structure) (b : Nat) : NodeSet := .ofList s.nodeCount (s.bounded b)

theorem contains_targets {x : Nat} :
    (s.targets b).contains x = true ↔ (b, x) ∈ s.edges .bounds := by
  rw [targets, NodeSet.contains_ofList, mem_bounded]
  exact ⟨And.left, fun h => ⟨h, (edge_lt h).2⟩⟩

/-- A boundary is broken exactly when some route leads from it into what it bounds. -/
theorem breaksBoundary_iff (hb : b < s.nodeCount) :
    s.BreaksBoundary b ↔ ∃ nodes, s.Leads b (s.targets b) nodes := by
  rw [exists_leads_iff hb]
  simp only [contains_targets]
  rfl

theorem BreaksBoundary.isBoundary (h : s.BreaksBoundary b) : s.IsBoundary b := by
  obtain ⟨x, hx, -⟩ := h
  exact ⟨x, hx⟩

/-- What checking a boundary has to come to: nothing where it is not broken, and otherwise the
violation that the first route of all proves. -/
def Finds (s : Structure) (b : Nat) : Option Violation → Prop
  | none => ¬ s.BreaksBoundary b
  | some v => ∃ chain, s.Answers b (s.targets b) (some chain)
      ∧ v = s.boundaryViolation b (s.bounded b) chain

theorem Finds.isSome_iff {outcome : Option Violation} (hb : b < s.nodeCount)
    (h : s.Finds b outcome) : outcome.isSome = true ↔ s.BreaksBoundary b := by
  cases outcome with
  | none => exact ⟨fun hnone => (by cases hnone), fun hbroken => absurd hbroken h⟩
  | some v =>
    obtain ⟨chain, hanswer, -⟩ := h
    exact ⟨fun _ => (breaksBoundary_iff hb).2 ⟨chain, hanswer.1⟩, fun _ => rfl⟩

/-- A check pays for the closure and, where the boundary is in it, for the search of a chain. -/
theorem checkBoundary_costs_of {m : Membership} {row charges more : List Nat} {final : NodeSet}
    {answer : Option (List Nat)} (hclosure : Costs (m.closure row) charges final)
    (hchain : Costs (m.chain b (.ofList s.nodeCount row)) more answer) :
    Costs (s.checkBoundary m b row)
      (charges ++ if final.contains b = true then more else [])
      (if final.contains b = true then answer.map (s.boundaryViolation b row) else none) := by
  unfold checkBoundary
  refine hclosure.bind ?_
  split
  · rw [← List.append_nil more]
    exact hchain.bind (Costs.pure _)
  · exact Costs.pure none

/-- A closure of the bounded nodes holds the boundary exactly when it is broken. -/
theorem contains_closure_iff {order : List Nat} {final : NodeSet}
    (hfinal : ∀ x, final.contains x = true ↔ x ∈ order)
    (horder : ∀ x, x ∈ order ↔ ∃ seed ∈ s.bounded b, s.Chain x seed) :
    final.contains b = true ↔ s.BreaksBoundary b := by
  rw [hfinal, horder]
  exact ⟨fun ⟨x, hx, h⟩ => ⟨x, mem_bounded.1 hx, h⟩, fun ⟨x, hx, h⟩ => ⟨x, mem_bounded.2 hx, h⟩⟩

/-- **The closure and the search agree**: a check finds a violation exactly where the boundary is
broken. -/
theorem finds_of_answers {final : NodeSet} {answer : Option (List Nat)} (hb : b < s.nodeCount)
    (hclosed : final.contains b = true ↔ s.BreaksBoundary b)
    (hanswer : s.Answers b (s.targets b) answer) :
    s.Finds b (if final.contains b = true then answer.map (s.boundaryViolation b (s.bounded b))
      else none) := by
  split
  · next hin =>
    -- the boundary is in the closure, so a route leads into the bounded nodes
    obtain ⟨nodes, hnodes⟩ := (breaksBoundary_iff hb).1 (hclosed.1 hin)
    cases answer with
    | none => exact (hanswer nodes hnodes).elim
    | some chain => exact ⟨chain, hanswer, rfl⟩
  · next hout => exact fun hbroken => hout (hclosed.2 hbroken)

theorem checkBoundary_costs (hb : b < s.nodeCount) :
    ∃ charges outcome, Costs (s.checkBoundary (.ofStructure s) b (s.bounded b)) charges outcome
      ∧ s.Finds b outcome := by
  obtain ⟨order, final, hclosure, -, hfinal, horder⟩ :=
    Membership.closure_costs s (s.bounded b)
  obtain ⟨more, answer, hchain, hanswer⟩ := Membership.chain_costs hb (s.targets b)
  exact ⟨_, _, checkBoundary_costs_of hclosure hchain,
    finds_of_answers hb (contains_closure_iff hfinal horder) hanswer⟩

/-! ## §3. Checking all boundaries. -/

/-- The checks are paid for one after the other, in the order of the boundaries. -/
theorem checkBoundaries_costs_of {price : Nat → List Nat} {outcome : Nat → Option Violation}
    (h : ∀ b, s.IsBoundary b →
      Costs (s.checkBoundary (.ofStructure s) b (s.bounded b)) (price b) (outcome b)) :
    Costs (s.checkBoundaries (.ofStructure s) s.boundaries)
      ((s.boundaries.map Prod.fst).flatMap price)
      ((s.boundaries.map Prod.fst).filterMap outcome) := by
  rw [List.filterMap_map, List.flatMap_map]
  refine Costs.filterMapM ?_
  intro v hmem
  obtain ⟨b, row⟩ := v
  obtain ⟨hb, rfl⟩ := mem_boundaries.1 hmem
  exact h b hb

/-- **All checks together** find the violation of each boundary that is broken, in the order of the
boundaries. -/
theorem checkBoundaries_costs (s : Structure) :
    ∃ (charges : List Nat) (outcome : Nat → Option Violation),
      Costs (s.checkBoundaries (.ofStructure s) s.boundaries) charges
        ((s.boundaries.map Prod.fst).filterMap outcome)
      ∧ ∀ b, s.IsBoundary b → s.Finds b (outcome b) := by
  -- charges and outcomes are chosen for all numbers, and matter for boundaries only
  have hcheck : ∀ b, ∃ charges outcome, s.IsBoundary b →
      Costs (s.checkBoundary (.ofStructure s) b (s.bounded b)) charges outcome
        ∧ s.Finds b outcome := by
    intro b
    by_cases h : s.IsBoundary b
    · obtain ⟨charges, outcome, hcosts⟩ := checkBoundary_costs h.lt
      exact ⟨charges, outcome, fun _ => hcosts⟩
    · exact ⟨[], none, fun hb => absurd hb h⟩
  choose price outcome hcosts using hcheck
  exact ⟨_, outcome, checkBoundaries_costs_of fun b hb => (hcosts b hb).1,
    fun b hb => (hcosts b hb).2⟩

end Admissibility.Structure
