/-
  Admissibility.Proofs.NodeSet.Refinement
  ───────────────────────────────────────
  **A node set behaves as the finite set of the numbers inserted.**

  Whatever numbers are inserted, in whatever order and however often, a node set stands for those of
  them that its capacity admits.  A number beyond the capacity is as good as never inserted.

  `length_toList`: as many elements are listed as there are bits set.
  `size_eq_card`: so the size, which insertions count up by one, is the number of the elements.
  `getElem?_answers`: each insertion of a run is answered by the set that the others before it left.
  `insertions_are_exact`: what can be seen of a fresh set after some insertions, and on the way.
-/
import Mathlib.Data.Finset.Card
import Admissibility.Proofs.Calls
import Admissibility.Proofs.NodeSet

namespace Admissibility.NodeSet

variable {s : NodeSet} {id x capacity : Nat} {ids : List Nat}

/-! ## §1. The finite set behind a node set. -/

/-- The numbers that a node set holds. -/
def members (s : NodeSet) : Finset Nat := s.toList.toFinset

theorem mem_members : x ∈ s.members ↔ s.contains x = true := by
  rw [members, List.mem_toFinset, mem_toList]

theorem length_toList (s : NodeSet) : s.toList.length = s.bits.count true := by
  -- the places are dropped again, and the bits are counted as they stand
  calc s.toList.length
    _ = s.bits.toList.zipIdx.countP (·.1) := by
      rw [toList, List.length_map, List.countP_eq_length_filter]
    _ = (s.bits.toList.zipIdx.map Prod.fst).count true := by
      rw [List.count, List.countP_map]
      exact List.countP_congr fun place _ => by simp
    _ = s.bits.count true := by rw [List.zipIdx_map_fst, Array.count_toList]

/-- **The size counts**: it is the number of the elements. -/
theorem size_eq_card (s : NodeSet) : s.size = s.members.card := by
  have hnodup : s.toList.Nodup := s.ascending_toList.imp Nat.ne_of_lt
  rw [members, List.toFinset_card_of_nodup hnodup, length_toList, s.size_eq]

theorem isEmpty_iff : s.isEmpty = true ↔ s.members = ∅ := by
  rw [isEmpty, beq_iff_eq, size_eq_card, Finset.card_eq_zero]

/-- An insertion succeeds where the number is admitted and new. -/
theorem insert?_isSome_iff :
    (s.insert? id).isSome = true ↔ id < s.capacity ∧ id ∉ s.members := by
  rw [insert?_isSome, mem_members, Bool.not_eq_true]

/-! ## §2. Runs of insertions. -/

/-- What each of some insertions is answered: whether it added its number. -/
def answers (s : NodeSet) (ids : List Nat) : List Bool :=
  Calls.answers (fun s id => ((s.insert? id).isSome, s.insert id)) s ids

/-- **Every insertion of a run** meets the set that those before it left. -/
theorem getElem?_answers (s : NodeSet) (ids : List Nat) (k : Nat) : (s.answers ids)[k]?
    = ids[k]?.map fun id => (((ids.take k).foldl insert s).insert? id).isSome :=
  Calls.getElem?_answers _ s ids k

theorem capacity_foldl_insert (s : NodeSet) (ids : List Nat) :
    (ids.foldl insert s).capacity = s.capacity := by
  induction ids generalizing s with
  | nil => rfl
  | cons id rest ih => rw [List.foldl_cons, ih, capacity_insert]

/-- The numbers of a list that a capacity admits. -/
def admitted (capacity : Nat) (ids : List Nat) : Finset Nat := {x ∈ ids.toFinset | x < capacity}

theorem mem_admitted : x ∈ admitted capacity ids ↔ x < capacity ∧ x ∈ ids := by
  rw [admitted, Finset.mem_filter, List.mem_toFinset, and_comm]

/-- **A run on a fresh set** leaves the numbers that the capacity admits. -/
theorem members_ofList (capacity : Nat) (ids : List Nat) :
    (ofList capacity ids).members = admitted capacity ids := by
  ext x
  rw [mem_members, contains_ofList, mem_admitted, and_comm]

/-- **Insertions are exact.**  Numbers are inserted into a fresh set of some capacity.  An insertion
adds its number exactly when the number is below the capacity and was not inserted before.  At any
time the set contains the numbers that were inserted and are below the capacity and no others; it
counts them, is empty when there are none, and lists them in ascending order, each once. -/
theorem insertions_are_exact (capacity : Nat) (ids : List Nat) :
    (∀ k, ((empty capacity).answers ids)[k]?
        = ids[k]?.map fun id => decide (id < capacity ∧ id ∉ ids.take k))
      ∧ (∀ x, (ofList capacity ids).contains x = true ↔ x < capacity ∧ x ∈ ids)
      ∧ (ofList capacity ids).size = (admitted capacity ids).card
      ∧ ((ofList capacity ids).isEmpty = true ↔ admitted capacity ids = ∅)
      ∧ (ofList capacity ids).toList.Pairwise (· < ·)
      ∧ ∀ x, x ∈ (ofList capacity ids).toList ↔ x < capacity ∧ x ∈ ids := by
  have hcontains : ∀ x, (ofList capacity ids).contains x = true ↔ x < capacity ∧ x ∈ ids := by
    intro x
    rw [contains_ofList, and_comm]
  refine ⟨?_, hcontains, ?_, ?_, ascending_toList _, ?_⟩
  · intro k
    rw [getElem?_answers]
    congr 1
    funext id
    rw [Bool.eq_iff_iff, insert?_isSome_iff, capacity_foldl_insert, capacity_empty,
      decide_eq_true_iff]
    show id < capacity ∧ id ∉ (ofList capacity (ids.take k)).members ↔ _
    rw [members_ofList, mem_admitted]
    -- below the capacity, what was inserted is held
    constructor
    · intro h
      exact ⟨h.1, fun hmem => h.2 ⟨h.1, hmem⟩⟩
    · intro h
      exact ⟨h.1, fun hmem => h.2 hmem.2⟩
  · rw [size_eq_card, members_ofList]
  · rw [isEmpty_iff, members_ofList]
  · intro x
    rw [mem_toList, hcontains]

/-- A number twice, one beyond the capacity, and one below it at last. -/
example : (empty 5).answers [4, 9, 4, 0] = [true, false, false, true] := by decide +kernel

end Admissibility.NodeSet
