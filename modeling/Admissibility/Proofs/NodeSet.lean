/-
  Admissibility.Proofs.NodeSet
  ────────────────────────────
  **A node set holds what was inserted below its capacity.**

  `contains_insert`: an insertion adds the number where the capacity admits it, and nothing else.
  `contains_ofList`: a set made of a list holds the elements that the capacity admits.
  `mem_toList`, `ascending_toList`: which elements are listed, and how.
  `toList_eq`: the elements decide the list.
-/
import Admissibility.NodeSet
import Admissibility.Proofs.Sorted

namespace Admissibility.NodeSet

variable {s t : NodeSet} {id x : Nat}

/-! ## §1. Insertions. -/

/-- A number that is inserted was below the capacity and not held yet. -/
theorem new_of_insert? (h : s.insert? id = some t) : id < s.capacity ∧ s.contains id = false :=
  (insert?_isSome s id).1 (by rw [h]; rfl)

theorem contains_of_insert? (h : s.insert? id = some t) :
    t.contains x = true ↔ x = id ∨ s.contains x = true := by
  rw [contains_insert? h, Bool.or_eq_true, beq_iff_eq]

theorem insert?_eq_none_iff :
    s.insert? id = none ↔ (id < s.capacity → s.contains id = true) := by
  rw [← Option.not_isSome_iff_eq_none, insert?_isSome]
  cases s.contains id <;> simp

theorem contains_insert : (s.insert id).contains x = true ↔
    (x = id ∧ id < s.capacity) ∨ s.contains x = true := by
  unfold insert
  cases h : s.insert? id with
  | none =>
    -- a refusal leaves the set as it was
    rw [Option.getD_none]
    constructor
    · exact .inr
    · intro h'
      rcases h' with ⟨rfl, hlt⟩ | hx
      · exact insert?_eq_none_iff.1 h hlt
      · exact hx
  | some t =>
    have hlt := (new_of_insert? h).1
    rw [Option.getD_some, contains_of_insert? h]
    exact or_congr_left ⟨fun hx => ⟨hx, hlt⟩, And.left⟩

theorem capacity_insert : (s.insert id).capacity = s.capacity := by
  unfold insert
  cases h : s.insert? id with
  | none => rfl
  | some t => exact capacity_insert? h

theorem contains_foldl_insert (s : NodeSet) (ids : List Nat) :
    (ids.foldl insert s).contains x = true ↔
      (x ∈ ids ∧ x < s.capacity) ∨ s.contains x = true := by
  induction ids generalizing s with
  | nil => simp
  | cons id rest ih =>
    rw [List.foldl_cons, ih, contains_insert, capacity_insert, List.mem_cons]
    constructor
    · intro h
      rcases h with ⟨hmem, hlt⟩ | ⟨rfl, hlt⟩ | hx
      · exact .inl ⟨.inr hmem, hlt⟩
      · exact .inl ⟨.inl rfl, hlt⟩
      · exact .inr hx
    · intro h
      rcases h with ⟨rfl | hmem, hlt⟩ | hx
      · exact .inr (.inl ⟨rfl, hlt⟩)
      · exact .inl ⟨hmem, hlt⟩
      · exact .inr (.inr hx)

theorem contains_ofList {capacity : Nat} {ids : List Nat} :
    (ofList capacity ids).contains x = true ↔ x ∈ ids ∧ x < capacity := by
  unfold ofList
  rw [contains_foldl_insert, contains_empty, capacity_empty]
  simp

/-! ## §2. The elements as a list. -/

theorem mem_toList : x ∈ s.toList ↔ s.contains x = true := by
  unfold toList contains
  rw [List.mem_map]
  constructor
  · intro h
    obtain ⟨⟨bit, id⟩, hmem, rfl⟩ := h
    obtain ⟨hat, hbit⟩ := List.mem_filter.1 hmem
    rw [List.mem_zipIdx_iff_getElem?, Array.getElem?_toList] at hat
    rw [hat]
    exact hbit
  · intro h
    have hat : s.bits[x]? = some true := by
      cases hx : s.bits[x]? with
      | none => rw [hx] at h; cases h
      | some bit => rw [hx] at h; exact congrArg some h
    have hmem : (true, x) ∈ s.bits.toList.zipIdx := by
      rw [List.mem_zipIdx_iff_getElem?, Array.getElem?_toList, hat]
    exact ⟨(true, x), List.mem_filter.2 ⟨hmem, rfl⟩, rfl⟩

theorem ascending_toList (s : NodeSet) : s.toList.Pairwise (· < ·) :=
  List.pairwise_map.2 ((ascending_zipIdx s.bits.toList).filter _)

/-- The elements of a set decide how they are listed. -/
theorem toList_eq (h : ∀ x, s.contains x = true ↔ t.contains x = true) : s.toList = t.toList := by
  apply eq_of_ascending Nat.lt_irrefl (fun _ _ => Nat.lt_asymm) s.ascending_toList
    t.ascending_toList
  intro x
  rw [mem_toList, mem_toList, h]

end Admissibility.NodeSet
