/-
  Admissibility.Proofs.Adjacency
  ──────────────────────────────
  **The membership index lists exactly the declared edges.**

  An adjacency table is filled edge by edge and each of its rows is then put into the order of
  labels, without repetitions.  So a row depends only on which edges there are.

  `mem_edges_iff`: what the edges of a structure are, in terms of its relations.
  `mem_row`: the row of a node holds the ends of its edges.
  `mem_containersOf`, `mem_membersOf`: the two sides of the index are the same edges.
  `map_label_row`: in labels, a row is the ascending list of the labels of its ends.
-/
import Admissibility.Membership
import Admissibility.Proofs.Sorted

namespace Admissibility

/-! ## §1. Edges. -/

namespace Structure

variable {s : Structure} {kind : Relation.Kind} {x y : Nat}

theorem mem_edges : (x, y) ∈ s.edges kind ↔
    ∃ r ∈ s.relations, r.kind = kind ∧ r.ends? = some (x, y) := by
  unfold edges
  rw [List.mem_filterMap]
  constructor
  · intro h
    obtain ⟨r, hr, h⟩ := h
    split at h
    · next hkind => exact ⟨r, Array.mem_toList_iff.1 hr, hkind, h⟩
    · cases h
  · intro h
    obtain ⟨r, hr, hkind, h⟩ := h
    exact ⟨r, Array.mem_toList_iff.2 hr, by rw [if_pos hkind, h]⟩

/-- A relation of a kind with two endpoints has a source and a target and no more. -/
theorem exists_ends {r : Relation} (hr : r ∈ s.relations) (hkind : r.kind.fixedArity = some 2) :
    ∃ x y, r.endpoints = [x, y] := by
  have htakes : r.endpoints.length = 2 := by
    have h := (s.fits r hr).takes
    rw [Relation.Kind.Takes, hkind] at h
    exact h
  match hends : r.endpoints, htakes with
  | [x, y], _ => exact ⟨x, y, rfl⟩

/-- A kind with two endpoints has exactly its relations as edges. -/
theorem mem_edges_iff (hkind : kind.fixedArity = some 2) : (x, y) ∈ s.edges kind ↔
    ∃ r ∈ s.relations, r.kind = kind ∧ r.endpoints = [x, y] := by
  rw [mem_edges]
  constructor
  · intro h
    obtain ⟨r, hr, hk, h⟩ := h
    -- no third endpoint is dropped, since there is none
    obtain ⟨u, v, hends⟩ := exists_ends hr (by rw [hk]; exact hkind)
    rw [Relation.ends?, hends] at h
    cases h
    exact ⟨r, hr, hk, hends⟩
  · intro h
    obtain ⟨r, hr, hk, h⟩ := h
    exact ⟨r, hr, hk, by rw [Relation.ends?, h]⟩

/-- Both ends of an edge are nodes. -/
theorem edge_lt (h : (x, y) ∈ s.edges kind) : x < s.nodeCount ∧ y < s.nodeCount := by
  obtain ⟨r, hr, -, hends⟩ := mem_edges.1 h
  have hlt := (s.fits r hr).endpoint_lt
  unfold Relation.ends? at hends
  split at hends
  · next u v rest hendpoints =>
    cases hends
    rw [hendpoints] at hlt
    exact ⟨hlt x (by simp), hlt y (by simp)⟩
  · cases hends

/-! ## §2. Nodes in the order of labels. -/

variable {ids : List Nat}

theorem mem_byLabel : x ∈ s.byLabel ids ↔ x ∈ ids :=
  mem_eraseReps.trans (List.mergeSort_perm _ _).mem_iff

theorem ascending_byLabel (h : ∀ x ∈ ids, x < s.nodeCount) :
    (s.byLabel ids).Pairwise fun x y => s.label x < s.label y := by
  -- the order is taken on nodes only, where it is antisymmetric
  let R : Nat → Nat → Prop := fun x y => x < s.nodeCount ∧ y < s.nodeCount ∧ s.label x ≤ s.label y
  have hsorted : (ids.mergeSort fun x y => decide (s.label x ≤ s.label y)).Pairwise R := by
    have hle := List.pairwise_mergeSort (label_le_trans s.label) (label_le_total s.label) ids
    refine hle.imp_of_mem fun {a b} ha hb hab => ⟨?_, ?_, of_decide_eq_true hab⟩
    · exact h a (List.mem_mergeSort.1 ha)
    · exact h b (List.mem_mergeSort.1 hb)
  have antisymm : ∀ a b, R a b → R b a → a = b := by
    intro a b hR hR'
    obtain ⟨ha, hb, hab⟩ := hR
    obtain ⟨-, -, hba⟩ := hR'
    exact s.label_injective ha hb (String.le_antisymm hab hba)
  refine (pairwise_eraseReps antisymm hsorted).imp ?_
  intro a b hR
  obtain ⟨⟨ha, hb, hab⟩, hne⟩ := hR
  exact Std.lt_of_le_of_ne hab fun heq => hne (s.label_injective ha hb heq)

theorem byLabel_eq_insertionSort (s : Structure) (ids : List Nat) : s.byLabel ids
    = (ids.insertionSort fun x y => decide (s.label x ≤ s.label y) = true).eraseReps := by
  rw [byLabel, mergeSort_eq_insertionSort (label_le_trans s.label) (label_le_total s.label)]

/-! ## §3. Adjacency tables. -/

/-- A table with every row sorted by insertion. -/
theorem neighbours_eq_insertionSort (s : Structure) (edges : List (Nat × Nat)) :
    s.neighbours edges = (edges.foldl (fun table (x, y) => table.modify x (y :: ·))
      (Array.replicate s.nodeCount [])).map fun ids =>
        (ids.insertionSort fun x y => decide (s.label x ≤ s.label y) = true).eraseReps := by
  rw [neighbours, funext s.byLabel_eq_insertionSort]

/-- The ends of the edges that start from a node. -/
def endsFrom (edges : List (Nat × Nat)) (x : Nat) : List Nat :=
  edges.filterMap fun e => if e.1 = x then some e.2 else none

theorem mem_endsFrom {edges : List (Nat × Nat)} : y ∈ endsFrom edges x ↔ (x, y) ∈ edges := by
  unfold endsFrom
  rw [List.mem_filterMap]
  constructor
  · intro h
    obtain ⟨⟨u, v⟩, he, h⟩ := h
    split at h
    · next hu =>
      cases h
      cases (show u = x from hu)
      exact he
    · cases h
  · intro h
    exact ⟨(x, y), h, if_pos rfl⟩

/-- Filling a table puts the ends of a node's edges in front of its row, the last one first. -/
theorem getElem?_foldl_modify (edges : List (Nat × Nat)) (table : Array (List Nat)) :
    (edges.foldl (fun table e => table.modify e.1 (e.2 :: ·)) table)[x]?
      = table[x]?.map ((endsFrom edges x).reverse ++ ·) := by
  -- the table varies: the first edge changes the one that the rest starts from
  induction edges generalizing table with
  | nil => simp [endsFrom]
  | cons e rest ih =>
    rw [List.foldl_cons, ih, Array.getElem?_modify]
    by_cases h : e.1 = x
    · have : endsFrom (e :: rest) x = e.2 :: endsFrom rest x := by simp [endsFrom, h]
      rw [if_pos h, this, Option.map_map]
      congr 1
      funext row
      simp
    · have : endsFrom (e :: rest) x = endsFrom rest x := by simp [endsFrom, h]
      rw [if_neg h, this]

theorem getElem?_neighbours (edges : List (Nat × Nat)) :
    (s.neighbours edges)[x]?
      = if x < s.nodeCount then some (s.byLabel (endsFrom edges x).reverse) else none := by
  unfold neighbours
  rw [Array.getElem?_map]
  show Option.map s.byLabel (edges.foldl (fun table e => table.modify e.1 (e.2 :: ·))
    (Array.replicate s.nodeCount []))[x]? = _
  rw [getElem?_foldl_modify, Array.getElem?_replicate]
  split <;> simp

theorem size_neighbours (edges : List (Nat × Nat)) :
    (s.neighbours edges).size = s.nodeCount := by
  -- both numbers are bounds of the same indices
  have hrow : ∀ i : Nat, (s.neighbours edges).size ≤ i ↔ s.nodeCount ≤ i := by
    intro i
    rw [← Array.getElem?_eq_none_iff, getElem?_neighbours]
    split <;> simp_all
  have := hrow (s.neighbours edges).size
  have := hrow s.nodeCount
  omega

/-- The row of a node in an adjacency table; empty for a number that is no node. -/
def row (s : Structure) (edges : List (Nat × Nat)) (x : Nat) : List Nat :=
  ((s.neighbours edges)[x]?).getD []

theorem row_of_lt {edges : List (Nat × Nat)} (hx : x < s.nodeCount) :
    s.row edges x = s.byLabel (endsFrom edges x).reverse := by
  rw [row, getElem?_neighbours, if_pos hx]
  rfl

theorem row_of_le {edges : List (Nat × Nat)} (hx : s.nodeCount ≤ x) : s.row edges x = [] := by
  rw [row, getElem?_neighbours, if_neg (Nat.not_lt.2 hx)]
  rfl

/-- Edges that start and end in nodes of the structure. -/
def Inside (s : Structure) (edges : List (Nat × Nat)) : Prop :=
  ∀ e ∈ edges, e.1 < s.nodeCount ∧ e.2 < s.nodeCount

theorem inside_edges (s : Structure) (kind : Relation.Kind) : s.Inside (s.edges kind) :=
  fun _ he => edge_lt he

theorem Inside.swap {edges : List (Nat × Nat)} (h : s.Inside edges) :
    s.Inside (edges.map Prod.swap) := by
  intro e he
  obtain ⟨d, hd, rfl⟩ := List.mem_map.1 he
  exact ⟨(h d hd).2, (h d hd).1⟩

section Rows

variable {edges : List (Nat × Nat)} (inside : s.Inside edges)

include inside

/-- **Exactly the edges**: a row holds the ends of the edges that start from its node. -/
theorem mem_row : y ∈ s.row edges x ↔ (x, y) ∈ edges := by
  by_cases hx : x < s.nodeCount
  · rw [row_of_lt hx, mem_byLabel, List.mem_reverse, mem_endsFrom]
  · rw [row_of_le (Nat.not_lt.1 hx)]
    exact ⟨fun h => absurd h List.not_mem_nil, fun h => absurd (inside _ h).1 hx⟩

theorem endsFrom_lt : ∀ y ∈ (endsFrom edges x).reverse, y < s.nodeCount :=
  fun _ hy => (inside _ (mem_endsFrom.1 (List.mem_reverse.1 hy))).2

theorem ascending_row : (s.row edges x).Pairwise fun y z => s.label y < s.label z := by
  by_cases hx : x < s.nodeCount
  · rw [row_of_lt hx]
    exact ascending_byLabel (endsFrom_lt inside)
  · rw [row_of_le (Nat.not_lt.1 hx)]
    exact .nil

/-- In labels, a row is the ascending list of the labels of the ends. -/
theorem map_label_row : (s.row edges x).map s.label
    = distinctLabels ((endsFrom edges x).map s.label) := by
  refine eq_distinctLabels (List.pairwise_map.2 (ascending_row inside)) fun label => ?_
  simp only [List.mem_map, mem_row inside, mem_endsFrom]

end Rows

/-- Nodes in the order of their labels are all different. -/
theorem nodup_of_ascending {ids : List Nat} (h : ids.Pairwise fun x y => s.label x < s.label y) :
    ids.Nodup :=
  h.imp fun hlt heq => String.ne_of_lt hlt (congrArg s.label heq)

end Structure

/-! ## §4. The membership index. -/

namespace Membership

variable {s : Structure} {x y : Nat}

theorem nodeCount_ofStructure (s : Structure) : (ofStructure s).nodeCount = s.nodeCount :=
  Structure.size_neighbours _

theorem membersOf_eq (s : Structure) (x : Nat) :
    (ofStructure s).membersOf x = s.row ((s.edges .memberOf).map Prod.swap) x := rfl

/-- The containers of a node are the ends of its edges. -/
theorem mem_containersOf : y ∈ (ofStructure s).containersOf x ↔ (x, y) ∈ s.edges .memberOf :=
  Structure.mem_row (s.inside_edges .memberOf)

/-- The members of a node are the starts of the edges that end in it. -/
theorem mem_membersOf : x ∈ (ofStructure s).membersOf y ↔ (x, y) ∈ s.edges .memberOf := by
  rw [membersOf_eq, Structure.mem_row (s.inside_edges .memberOf).swap, List.mem_map]
  constructor
  · intro h
    obtain ⟨⟨u, v⟩, he, h⟩ := h
    cases h
    exact he
  · intro h
    exact ⟨(x, y), h, rfl⟩

theorem ascending_containersOf (s : Structure) (x : Nat) :
    ((ofStructure s).containersOf x).Pairwise fun y z => s.label y < s.label z :=
  Structure.ascending_row (s.inside_edges .memberOf)

theorem ascending_membersOf (s : Structure) (y : Nat) :
    ((ofStructure s).membersOf y).Pairwise fun x z => s.label x < s.label z :=
  Structure.ascending_row (s.inside_edges .memberOf).swap

end Membership

end Admissibility
