/-
  Admissibility.Proofs.Membership.Index
  ─────────────────────────────────────
  **The membership index is the declared relation, read from both sides.**

  Containers and members are filled apart from each other, pair by pair, and each row is put into
  the order of labels.  Both tables hold the declared pairs and nothing else, so that one is the
  other read backwards.  A row is told by the nodes that are in it; how often a pair is declared, in
  which order and among which other relations leaves no trace.

  `neighbours_eq`: a table depends on nothing but the labels and the edges that there are.
  `index_is_exact`: what the index of a structure holds.
-/
import Admissibility.Proofs.Text.ByteOrder
import Admissibility.Proofs.Verdict

namespace Admissibility

open Text (bytes)

/-! ## §1. Tables of the same edges. -/

namespace Structure

variable {s t : Structure} {edges edges' : List (Nat × Nat)}

section Tables

variable (hlabels : s.labels = t.labels) (hs : s.Inside edges) (ht : t.Inside edges')
  (hedges : ∀ x y, (x, y) ∈ edges ↔ (x, y) ∈ edges')

include hlabels hs ht hedges

/-- Rows of the same edges are equal: both are in the order of labels. -/
theorem row_eq (x : Nat) : s.row edges x = t.row edges' x := by
  have hlabel : t.label = s.label := by
    funext y
    unfold label
    rw [hlabels]
  have hascending : (t.row edges' x).Pairwise fun y z => s.label y < s.label z := by
    rw [← hlabel]
    exact ascending_row ht
  have hirrefl : ∀ y, ¬ s.label y < s.label y := fun y => String.lt_irrefl (s.label y)
  apply eq_of_ascending hirrefl (fun y z => String.lt_asymm) (ascending_row hs) hascending
  intro y
  rw [mem_row hs, mem_row ht]
  exact hedges x y

/-- **Tables of the same edges** are equal. -/
theorem neighbours_eq : s.neighbours edges = t.neighbours edges' := by
  have hcount : s.nodeCount = t.nodeCount := by
    unfold nodeCount
    rw [hlabels]
  apply Array.ext_getElem?
  intro x
  rw [getElem?_neighbours, getElem?_neighbours, hcount]
  by_cases hx : x < t.nodeCount
  · have hrow := row_eq hlabels hs ht hedges x
    rw [row_of_lt (hcount ▸ hx), row_of_lt hx] at hrow
    rw [if_pos hx, if_pos hx, hrow]
  · rw [if_neg hx, if_neg hx]

end Tables

end Structure

/-! ## §2. The index of a structure. -/

namespace Membership

/-- **Nothing but the declared pairs**: structures with the same labels and the same `member-of`
pairs have the same index. -/
theorem ofStructure_eq {s t : Structure} (hlabels : s.labels = t.labels)
    (hpairs : ∀ x y, s.Declares .memberOf x y ↔ t.Declares .memberOf x y) :
    ofStructure s = ofStructure t := by
  have hedges : ∀ x y, (x, y) ∈ s.edges .memberOf ↔ (x, y) ∈ t.edges .memberOf := by
    intro x y
    rw [Structure.mem_edges_iff rfl, Structure.mem_edges_iff rfl]
    exact hpairs x y
  have hswapped : ∀ x y, (x, y) ∈ (s.edges .memberOf).map Prod.swap
      ↔ (x, y) ∈ (t.edges .memberOf).map Prod.swap := by
    intro x y
    simp only [List.mem_map, Prod.exists, Prod.swap_prod_mk, hedges]
  have hs := s.inside_edges .memberOf
  have ht := t.inside_edges .memberOf
  unfold ofStructure
  rw [Structure.neighbours_eq hlabels hs ht hedges,
    Structure.neighbours_eq hlabels hs.swap ht.swap hswapped]

/-- **The index is exact.**  One node is among the containers of another one exactly where the
structure declares the other one a member of it, and the members are the same relation from the
other side.  Both lists ascend in the order of the bytes of their labels, so that nothing is in them
twice.  A number that is no node has neither.  Two structures with the same labels that declare the
same pairs have the same index, whatever else they declare. -/
theorem index_is_exact (s : Structure) (x y : Nat) :
    (y ∈ (ofStructure s).containersOf x ↔ s.Declares .memberOf x y)
      ∧ (x ∈ (ofStructure s).membersOf y ↔ s.Declares .memberOf x y)
      ∧ ((ofStructure s).containersOf x).Pairwise (fun u v => bytes (s.label u) < bytes (s.label v))
      ∧ ((ofStructure s).membersOf y).Pairwise (fun u v => bytes (s.label u) < bytes (s.label v))
      ∧ (s.nodeCount ≤ x →
          (ofStructure s).containersOf x = [] ∧ (ofStructure s).membersOf x = [])
      ∧ ∀ t : Structure, s.labels = t.labels →
          (∀ u v, s.Declares .memberOf u v ↔ t.Declares .memberOf u v) →
          ofStructure s = ofStructure t := by
  refine ⟨?_, ?_, ?_, ?_, ?_, ?_⟩
  · rw [mem_containersOf]
    exact Structure.mem_edges_iff rfl
  · rw [mem_membersOf]
    exact Structure.mem_edges_iff rfl
  · simp only [Text.bytes_lt_iff]
    exact ascending_containersOf s x
  · simp only [Text.bytes_lt_iff]
    exact ascending_membersOf s y
  · intro hx
    exact ⟨Structure.row_of_le hx, Structure.row_of_le hx⟩
  · intro t hlabels hpairs
    exact ofStructure_eq hlabels hpairs

/-- Labels against the order of the nodes, pairs that are told twice, a node in itself, and
relations of the other kinds between the same nodes. -/
def retold : List Structure.Call :=
  [.declare "C", .declare "b", .declare "A", .relate ⟨.memberOf, [0, 1], 1⟩,
    .relate ⟨.bounds, [0, 2], 2⟩, .relate ⟨.memberOf, [0, 2], 3⟩, .relate ⟨.memberOf, [0, 1], 4⟩,
    .relate ⟨.inverts, [1, 0], 5⟩, .relate ⟨.memberOf, [2, 2], 6⟩, .relate ⟨.memberOf, [0, 0], 7⟩]

/-- The same nodes and pairs, told once and in another order. -/
def toldOnce : List Structure.Call :=
  [.declare "C", .declare "b", .declare "A", .relate ⟨.memberOf, [2, 2], 1⟩,
    .relate ⟨.memberOf, [0, 0], 1⟩, .relate ⟨.memberOf, [0, 2], 1⟩, .relate ⟨.memberOf, [0, 1], 1⟩]

theorem retold_index :
    (ofStructure (.built retold)).containersOf 0 = [2, 0, 1]
      ∧ (ofStructure (.built retold)).membersOf 2 = [2, 0]
      ∧ (Structure.built retold).nodeCount ≤ 3 ∧ (ofStructure (.built retold)).containersOf 3 = []
      ∧ (Structure.built retold).labels = (Structure.built toldOnce).labels
      ∧ (∀ u v, (Structure.built retold).Declares .memberOf u v
          ↔ (Structure.built toldOnce).Declares .memberOf u v)
      ∧ ofStructure (.built retold) = ofStructure (.built toldOnce) := by
  have hcount : (Structure.built retold).nodeCount ≤ 3 := by decide +kernel
  have hlabels : (Structure.built retold).labels = (Structure.built toldOnce).labels := by
    decide +kernel
  have hedges : (Structure.built retold).edges .memberOf
      = [(0, 1), (0, 2), (0, 1), (2, 2), (0, 0)] := by decide +kernel
  have hedges' : (Structure.built toldOnce).edges .memberOf
      = [(2, 2), (0, 0), (0, 2), (0, 1)] := by decide +kernel
  have hpairs : ∀ u v, (Structure.built retold).Declares .memberOf u v
      ↔ (Structure.built toldOnce).Declares .memberOf u v := by
    intro u v
    show (∃ r ∈ _, _) ↔ ∃ r ∈ _, _
    rw [← Structure.mem_edges_iff rfl, ← Structure.mem_edges_iff rfl, hedges, hedges']
    simp only [List.mem_cons, List.not_mem_nil, or_false]
    grind
  obtain ⟨-, -, -, -, hbeyond, hsame⟩ := index_is_exact (.built retold) 3 0
  have hindex : ofStructure (.built retold) = ⟨#[[2, 0, 1], [], [2]], #[[0], [0], [2, 0]]⟩ := by
    simp only [ofStructure, Structure.neighbours_eq_insertionSort]
    decide +kernel
  exact ⟨by rw [hindex]; rfl, by rw [hindex]; rfl, hcount, (hbeyond hcount).1, hlabels, hpairs,
    hsame _ hlabels hpairs⟩

end Membership

end Admissibility
