/-
  Admissibility.Proofs.Inversion.Participation
  ────────────────────────────────────────────
  **A node's list in the inversion index is the inversions that it takes part in.**

  Which inversions a node takes part in is told by the relations of a structure alone.  A relation
  counts once for a node, at whatever places and however often it names the node; two relations
  that say the same count twice, since they have different numbers.

  `mem_relationsOf_iff`: what is in a node's list.
  `length_relationsOf_eq`: a list is as long as there are relations that name the node.
  `ofStructure_eq`: the index depends on nothing but who takes part in what.
  `participation_is_exact`: what the inversion index of a structure holds.
-/
import Admissibility.Proofs.Builder
import Admissibility.Proofs.Inversion

namespace Admissibility

/-- A node is among the endpoints of the inversion with a number. -/
def Structure.TakesPart (s : Structure) (x id : Nat) : Prop :=
  ∃ r, s.relations[id]? = some r ∧ r.kind = .inverts ∧ x ∈ r.endpoints

namespace Inversion

variable {s t : Structure} {x id : Nat}

/-! ## §1. The list of a node. -/

theorem mem_relationsOf_iff : id ∈ (ofStructure s).relationsOf x ↔ s.TakesPart x id := by
  rw [relationsOf_ofStructure, List.mem_map]
  constructor
  · intro h
    obtain ⟨v, hv, rfl⟩ := h
    obtain ⟨hmem, hx⟩ := List.mem_filter.1 hv
    obtain ⟨hget, hkind⟩ := Structure.mem_relationsOf.1 hmem
    exact ⟨v.2, hget, hkind, of_decide_eq_true hx⟩
  · intro h
    obtain ⟨r, hget, hkind, hx⟩ := h
    have hmem : (id, r) ∈ s.relationsOf .inverts := Structure.mem_relationsOf.2 ⟨hget, hkind⟩
    exact ⟨(id, r), List.mem_filter.2 ⟨hmem, decide_eq_true hx⟩, rfl⟩

theorem ascending_relationsOf (s : Structure) (x : Nat) :
    ((ofStructure s).relationsOf x).Pairwise (· < ·) := by
  rw [relationsOf_ofStructure]
  exact List.pairwise_map.2 ((s.ascending_relationsOf .inverts).filter _)

/-- **Each relation once**: a list is as long as there are inversions that name its node. -/
theorem length_relationsOf_eq (s : Structure) (x : Nat) : ((ofStructure s).relationsOf x).length
    = s.relations.countP fun r => r.kind = .inverts ∧ x ∈ r.endpoints := by
  -- the inversions are counted in order of declaration, without their numbers
  calc ((ofStructure s).relationsOf x).length
    _ = (s.relationsOf .inverts).countP fun v => x ∈ v.2.endpoints := by
      rw [relationsOf_ofStructure, List.length_map, List.countP_eq_length_filter]
    _ = ((s.relationsOf .inverts).map Prod.snd).countP fun r => x ∈ r.endpoints := by
      rw [List.countP_map]
      rfl
    _ = s.relations.toList.countP fun r => x ∈ r.endpoints ∧ r.kind = .inverts := by
      rw [Structure.map_snd_relationsOf, List.countP_filter]
      simp
    _ = s.relations.countP fun r => r.kind = .inverts ∧ x ∈ r.endpoints := by
      rw [Array.countP_toList]
      simp only [and_comm]

theorem shared_iff : s.Shared x ↔ ∃ id other, id ≠ other ∧ s.TakesPart x id
    ∧ s.TakesPart x other := by
  constructor
  · intro h
    obtain ⟨v, hv, w, hw, hne, hxv, hxw⟩ := h
    obtain ⟨hget, hkind⟩ := Structure.mem_relationsOf.1 hv
    obtain ⟨hget', hkind'⟩ := Structure.mem_relationsOf.1 hw
    exact ⟨v.1, w.1, hne, ⟨v.2, hget, hkind, hxv⟩, ⟨w.2, hget', hkind', hxw⟩⟩
  · intro h
    obtain ⟨id, other, hne, ⟨q, hget, hkind, hxq⟩, ⟨r, hget', hkind', hxr⟩⟩ := h
    exact ⟨(id, q), Structure.mem_relationsOf.2 ⟨hget, hkind⟩, (other, r),
      Structure.mem_relationsOf.2 ⟨hget', hkind'⟩, hne, hxq, hxr⟩

/-! ## §2. The index as a whole. -/

theorem size_enrolAll (table : Array (List Nat)) (inversion : Nat × Relation) :
    (enrolAll table inversion).size = table.size := by
  unfold enrolAll
  generalize inversion.2.endpoints = endpoints
  induction endpoints generalizing table with
  | nil => rfl
  | cons node rest ih => rw [List.foldl_cons, ih, Array.size_modify]

/-- There is a list for every node. -/
theorem size_participation (s : Structure) : (ofStructure s).participation.size = s.nodeCount := by
  have hsize : ∀ (inversions : List (Nat × Relation)) (table : Array (List Nat)),
      (inversions.foldl enrolAll table).size = table.size := by
    intro inversions
    induction inversions with
    | nil => intro table; rfl
    | cons v rest ih =>
      intro table
      rw [List.foldl_cons, ih, size_enrolAll]
  show (Array.map _ _).size = _
  rw [Array.size_map, hsize, Array.size_replicate]

/-- **Nothing but who takes part in what**: places and repetitions leave no trace in the index, and
neither do lines and relations of other kinds. -/
theorem ofStructure_eq (hcount : s.nodeCount = t.nodeCount)
    (hsame : ∀ y id, s.TakesPart y id ↔ t.TakesPart y id) : ofStructure s = ofStructure t := by
  have hlist : ∀ y, (ofStructure s).relationsOf y = (ofStructure t).relationsOf y := by
    intro y
    apply eq_of_ascending Nat.lt_irrefl (fun _ _ => Nat.lt_asymm) (ascending_relationsOf s y)
      (ascending_relationsOf t y)
    intro id
    rw [mem_relationsOf_iff, mem_relationsOf_iff, hsame]
  have htable : (ofStructure s).participation = (ofStructure t).participation := by
    apply Array.ext
    · rw [size_participation, size_participation, hcount]
    · intro y hs ht
      have hy := hlist y
      simp only [relationsOf, Array.getElem?_eq_getElem hs, Array.getElem?_eq_getElem ht,
        Option.getD_some] at hy
      exact hy
  exact congrArg Inversion.mk htable

/-- **Participation is exact.**  The list of a node holds the numbers of the inversions with the
node among their endpoints, in ascending order; there are as many of them as there are such
relations, so that each counts once.  The shared nodes are, in ascending order, the nodes that take
part in two inversions with different numbers.  Two structures of one size with the same nodes in
the same inversions have the same index, wherever and however often the endpoints name them. -/
theorem participation_is_exact (s : Structure) (x : Nat) :
    ((ofStructure s).relationsOf x).Pairwise (· < ·)
      ∧ (∀ id, id ∈ (ofStructure s).relationsOf x ↔ s.TakesPart x id)
      ∧ ((ofStructure s).relationsOf x).length
        = s.relations.countP (fun r => r.kind = .inverts ∧ x ∈ r.endpoints)
      ∧ (ofStructure s).sharedNodes.Pairwise (· < ·)
      ∧ (x ∈ (ofStructure s).sharedNodes ↔
          ∃ id other, id ≠ other ∧ s.TakesPart x id ∧ s.TakesPart x other)
      ∧ ∀ t : Structure, s.nodeCount = t.nodeCount →
          (∀ y id, s.TakesPart y id ↔ t.TakesPart y id) → ofStructure s = ofStructure t := by
  refine ⟨ascending_relationsOf s x, fun id => mem_relationsOf_iff, length_relationsOf_eq s x,
    ascending_sharedNodes _, ?_, fun t => ofStructure_eq⟩
  rw [mem_sharedNodes, shared_iff]

/-- A node that is named twice with another one between, the same inversion again, and one that no
other node shares; relations of other kinds stand between them. -/
def scattered : List Structure.Call :=
  [.declare "X", .declare "Y", .declare "Z", .relate ⟨.inverts, [0, 1, 0], 1⟩,
    .relate ⟨.bounds, [0, 2], 2⟩, .relate ⟨.inverts, [0, 1, 0], 3⟩, .relate ⟨.inverts, [2, 2], 4⟩]

/-- The same nodes in the same inversions, each named once and in another order. -/
def gathered : List Structure.Call :=
  [.declare "A", .declare "B", .declare "C", .relate ⟨.inverts, [1, 0], 1⟩,
    .relate ⟨.memberOf, [1, 2], 1⟩, .relate ⟨.inverts, [0, 1], 1⟩, .relate ⟨.inverts, [2], 1⟩]

theorem scattered_index :
    (ofStructure (.built scattered)).relationsOf 0 = [0, 2]
      ∧ (ofStructure (.built scattered)).relationsOf 2 = [3]
      ∧ (ofStructure (.built scattered)).sharedNodes = [0, 1]
      ∧ (Structure.built scattered).nodeCount = (Structure.built gathered).nodeCount
      ∧ (∀ y id, (Structure.built scattered).TakesPart y id
          ↔ (Structure.built gathered).TakesPart y id)
      ∧ ofStructure (.built scattered) = ofStructure (.built gathered) := by
  have hcount : (Structure.built scattered).nodeCount = (Structure.built gathered).nodeCount := by
    decide +kernel
  have hrelations : (Structure.built scattered).relations = #[⟨.inverts, [0, 1, 0], 1⟩,
      ⟨.bounds, [0, 2], 2⟩, ⟨.inverts, [0, 1, 0], 3⟩, ⟨.inverts, [2, 2], 4⟩] := by decide +kernel
  have hrelations' : (Structure.built gathered).relations = #[⟨.inverts, [1, 0], 1⟩,
      ⟨.memberOf, [1, 2], 1⟩, ⟨.inverts, [0, 1], 1⟩, ⟨.inverts, [2], 1⟩] := by decide +kernel
  have hsame : ∀ y id, (Structure.built scattered).TakesPart y id
      ↔ (Structure.built gathered).TakesPart y id := by
    intro y id
    unfold Structure.TakesPart
    rw [hrelations, hrelations']
    -- one relation after the other, and none behind the last
    rcases id with _ | _ | _ | _ | id
    · simp
      omega
    · simp
    · simp
      omega
    · simp
    · simp
  obtain ⟨-, -, -, -, -, hindex⟩ := participation_is_exact (.built scattered) 0
  exact ⟨by decide +kernel, by decide +kernel, by decide +kernel, hcount, hsame,
    hindex _ hcount hsame⟩

end Inversion

end Admissibility
