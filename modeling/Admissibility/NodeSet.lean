/-
  Admissibility.NodeSet
  ─────────────────────
  **Sets of nodes with a capacity.**

  A set has one bit for each number below its capacity, and keeps count of the bits that are set as
  insertions set them.  A larger number has no bit: inserting it changes nothing.

  `count_mark`: setting a bit that was not set adds one to the count.
  `contains_insert?`: after an insertion that succeeds, the set has one more element.
  `room_insert?`: and room for one node less.
-/
import Admissibility.Budget

namespace Admissibility

/-- A set of nodes below a capacity.  The size is kept apart from the bits that it counts. -/
structure NodeSet where
  bits : Array Bool
  size : Nat
  size_eq : size = bits.count true

namespace NodeSet

/-! ## §1. Operations. -/

/-- The set without elements. -/
def empty (capacity : Nat) : NodeSet :=
  ⟨.replicate capacity false, 0, by simp [Array.count_replicate]⟩

/-- The least capacity that does not fit into the address space. -/
def addressLimit : Nat := 0x7fffffffffffffff

/-- The set without elements, where its capacity fits into the address space. -/
def allocate (capacity : Nat) : Except Stop NodeSet :=
  if capacity < addressLimit then .ok (empty capacity) else .error (.allocationFailed capacity)

/-- Every element is below this number. -/
def capacity (s : NodeSet) : Nat := s.bits.size

/-- Membership. -/
def contains (s : NodeSet) (id : Nat) : Bool := s.bits[id]?.getD false

/-- A bit that is set counts as one more. -/
theorem count_mark {bits : Array Bool} {id : Nat} (h : bits[id]? = some false) :
    (bits.setIfInBounds id true).count true = bits.count true + 1 := by
  obtain ⟨hlt, hbit⟩ := Array.getElem?_eq_some_iff.1 h
  rw [Array.setIfInBounds_def, dif_pos hlt, Array.count_set, hbit]
  rfl

/-- The set with one more element; nothing when the number is an element already or the capacity
does not admit it. -/
@[inline] def insert? (s : NodeSet) (id : Nat) : Option NodeSet :=
  if h : s.bits[id]? = some false then
    some ⟨s.bits.setIfInBounds id true, s.size + 1, by rw [count_mark h, s.size_eq]⟩
  else none

/-- The set with a number added, where the capacity admits it. -/
def insert (s : NodeSet) (id : Nat) : NodeSet := (s.insert? id).getD s

/-- The elements of a list that the capacity admits. -/
def ofList (capacity : Nat) (ids : List Nat) : NodeSet := ids.foldl insert (empty capacity)

/-- No element was counted. -/
def isEmpty (s : NodeSet) : Bool := s.size == 0

/-- The elements in ascending order: the places of the bits that are set. -/
def toList (s : NodeSet) : List Nat := (s.bits.toList.zipIdx.filter (·.1)).map (·.2)

/-- The number of nodes that can still be inserted. -/
def room (s : NodeSet) : Nat := (List.range s.capacity).countP (fun id => !s.contains id)

/-! ## §2. What an insertion does. -/

@[simp] theorem capacity_empty (capacity : Nat) : (empty capacity).capacity = capacity :=
  Array.size_replicate

@[simp] theorem contains_empty (capacity : Nat) (id : Nat) :
    (empty capacity).contains id = false := by
  unfold empty contains
  rw [Array.getElem?_replicate]
  split <;> rfl

/-- A bit that is not set: the number is below the capacity, and no element. -/
theorem getElem?_bits_eq_false_iff (s : NodeSet) (id : Nat) :
    s.bits[id]? = some false ↔ id < s.capacity ∧ s.contains id = false := by
  unfold capacity contains
  by_cases hid : id < s.bits.size
  · simp [hid]
  · simp [hid]

theorem insert?_isSome (s : NodeSet) (id : Nat) :
    (s.insert? id).isSome = true ↔ id < s.capacity ∧ s.contains id = false := by
  rw [← getElem?_bits_eq_false_iff]
  unfold insert?
  split <;> simp_all

theorem capacity_insert? {s t : NodeSet} {id : Nat} (h : s.insert? id = some t) :
    t.capacity = s.capacity := by
  unfold insert? at h
  split at h
  · cases h
    exact Array.size_setIfInBounds
  · cases h

theorem contains_insert? {s t : NodeSet} {id : Nat} (h : s.insert? id = some t) (x : Nat) :
    t.contains x = (x == id || s.contains x) := by
  unfold insert? at h
  split at h
  · next hbit =>
    obtain ⟨hlt, -⟩ := Array.getElem?_eq_some_iff.1 hbit
    cases h
    unfold contains
    rw [Array.getElem?_setIfInBounds, if_pos hlt]
    by_cases hx : id = x
    · simp [hx]
    · simp [hx, Ne.symm hx]
  · cases h

theorem room_insert? {s t : NodeSet} {id : Nat} (h : s.insert? id = some t) :
    t.room + 1 = s.room := by
  have hid := (insert?_isSome s id).1 (by rw [h]; rfl)
  have key : ∀ n, id < n → (List.range n).countP (fun x => !t.contains x) + 1
      = (List.range n).countP (fun x => !s.contains x) := by
    intro n
    induction n with
    | zero => intro h0; cases h0
    | succ n ih =>
      intro hn
      simp only [List.range_succ, List.countP_append, List.countP_singleton]
      by_cases he : id = n
      · subst he
        have same : (List.range id).countP (fun x => !t.contains x)
            = (List.range id).countP (fun x => !s.contains x) := by
          apply List.countP_congr
          intro x hx
          have : x ≠ id := Nat.ne_of_lt (List.mem_range.1 hx)
          simp [contains_insert? h, this]
        rw [same, contains_insert? h, hid.2]
        simp
      · have hlt : id < n := by omega
        have hn' := ih hlt
        have hne : t.contains n = s.contains n := by
          simp [contains_insert? h n, Ne.symm he]
        rw [hne]
        omega
  unfold room
  rw [capacity_insert? h]
  exact key _ hid.1

end NodeSet

end Admissibility
