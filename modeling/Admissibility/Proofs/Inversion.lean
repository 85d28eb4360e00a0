/-
  Admissibility.Proofs.Inversion
  ──────────────────────────────
  **Every inversion counts once for each node among its endpoints.**

  The inversion index enrols the relations in the order of their numbers, so a node that a relation
  names several times finds that relation at the head of its list and is not enrolled again.  What
  a check of the inversions comes to depends on their facts alone, which are relations in terms of
  labels.

  `relationsOf_ofStructure`: a node's list in the index.
  `mem_sharedNodes`: the nodes in two different inversions.
  `inversionViolations_eq`: the violations, told by facts and shared labels.
-/
import Mathlib.Data.List.Basic
import Admissibility.Validation
import Admissibility.Proofs.Sorted

namespace Admissibility

/-! ## §1. Lists. -/

theorem one_lt_length_iff {α : Type} {list : List α} (h : list.Nodup) :
    1 < list.length ↔ ∃ a ∈ list, ∃ b ∈ list, a ≠ b := by
  match list, h with
  | [], _ => simp
  | [a], _ => simp
  | a :: b :: rest, h =>
    have hne : a ≠ b := (List.pairwise_cons.1 h).1 b List.mem_cons_self
    exact ⟨fun _ => ⟨a, by simp, b, by simp, hne⟩, fun _ => by simp⟩

/-! ## §2. The relations of a kind. -/

namespace Structure

variable {s : Structure} {kind : Relation.Kind} {x : Nat}

theorem mem_relationsOf {id : Nat} {r : Relation} :
    (id, r) ∈ s.relationsOf kind ↔ s.relations[id]? = some r ∧ r.kind = kind := by
  unfold relationsOf
  rw [List.mem_filterMap]
  constructor
  · intro h
    obtain ⟨⟨q, i⟩, hmem, h⟩ := h
    have hget := List.mk_mem_zipIdx_iff_getElem?.1 hmem
    by_cases hq : q.kind = kind
    · obtain ⟨rfl, rfl⟩ : i = id ∧ q = r := by simpa [hq] using h
      exact ⟨by rw [← Array.getElem?_toList]; exact hget, hq⟩
    · simp [hq] at h
  · intro h
    obtain ⟨hget, hkind⟩ := h
    refine ⟨(r, id), List.mk_mem_zipIdx_iff_getElem?.2 ?_, if_pos hkind⟩
    rw [Array.getElem?_toList]
    exact hget

theorem ascending_relationsOf (s : Structure) (kind : Relation.Kind) :
    (s.relationsOf kind).Pairwise fun v w => v.1 < w.1 := by
  refine (ascending_zipIdx _).filterMap _ ?_
  have number : ∀ {r : Relation} {id : Nat} {p : Nat × Relation},
      (if r.kind = kind then some (id, r) else none) = some p → id = p.1 := by
    intro r id p h
    split at h
    · cases h
      rfl
    · cases h
  intro v w hlt p hp q hq
  rw [← number hp, ← number hq]
  exact hlt

theorem fits_of_mem_relationsOf {v : Nat × Relation} (h : v ∈ s.relationsOf kind) :
    v.2.Fits s.nodeCount :=
  s.fits v.2 (Array.mem_of_getElem? (mem_relationsOf.1 h).1)

theorem map_snd_relationsOf (s : Structure) (kind : Relation.Kind) :
    (s.relationsOf kind).map Prod.snd = s.relations.toList.filter (·.kind = kind) := by
  unfold relationsOf
  -- the numbers do not matter, so they may begin anywhere
  suffices h : ∀ (list : List Relation) (n : Nat), ((list.zipIdx n).filterMap fun v =>
      if v.1.kind = kind then some (v.2, v.1) else none).map Prod.snd
        = list.filter (·.kind = kind) from h _ 0
  intro list
  induction list with
  | nil => intro n; rfl
  | cons r rest ih =>
    intro n
    rw [List.zipIdx_cons]
    by_cases hkind : r.kind = kind
    · simp [hkind, ih]
    · simp [hkind, ih]

/-- Every relation of a kind is counted. -/
theorem length_relationsOf (s : Structure) (kind : Relation.Kind) :
    (s.relationsOf kind).length = s.relations.countP (·.kind = kind) := by
  rw [← List.length_map (f := Prod.snd), map_snd_relationsOf, ← List.countP_eq_length_filter,
    Array.countP_toList]

end Structure

/-! ## §3. The inversion index. -/

namespace Inversion

variable {s : Structure} {x : Nat}

theorem head?_enrol (id : Nat) (list : List Nat) : (enrol id list).head? = some id := by
  unfold enrol
  split
  · next h => exact h
  · rfl

/-- Enrolling the endpoints of a relation enrols each node among them, however often it is named. -/
theorem getElem?_enrolAll (table : Array (List Nat)) (inversion : Nat × Relation) :
    (enrolAll table inversion)[x]?
      = if x ∈ inversion.2.endpoints then table[x]?.map (enrol inversion.1) else table[x]? := by
  unfold enrolAll
  -- the induction is on the endpoints alone, with the table as the earlier ones left it
  generalize inversion.2.endpoints = endpoints
  induction endpoints generalizing table with
  | nil => simp
  | cons node rest ih =>
    rw [List.foldl_cons, ih, Array.getElem?_modify]
    by_cases hnode : node = x
    · subst hnode
      rw [if_pos rfl, if_pos List.mem_cons_self, Option.map_map]
      -- a second enrolment of the same relation changes nothing
      have hsame : enrol inversion.1 ∘ enrol inversion.1 = enrol inversion.1 :=
        funext (enrol_enrol inversion.1)
      rw [hsame]
      split <;> rfl
    · have hmem : x ∈ node :: rest ↔ x ∈ rest := by simp [Ne.symm hnode]
      simp only [if_neg hnode, hmem]

/-- Filling the index puts the relations that name a node in front of its list, the last one
first. -/
theorem getElem?_foldl_enrolAll {inversions : List (Nat × Relation)}
    (hascending : inversions.Pairwise fun v w => v.1 < w.1) (table : Array (List Nat))
    (hnew : ∀ list, table[x]? = some list → ∀ v ∈ inversions, list.head? ≠ some v.1) :
    (inversions.foldl enrolAll table)[x]? = table[x]?.map
      ((((inversions.filter fun v => x ∈ v.2.endpoints).map Prod.fst).reverse) ++ ·) := by
  induction inversions generalizing table with
  | nil => simp
  | cons v rest ih =>
    obtain ⟨hv, hrest⟩ := List.pairwise_cons.1 hascending
    rw [List.foldl_cons, ih hrest, getElem?_enrolAll]
    · by_cases hx : x ∈ v.2.endpoints
      · rw [if_pos hx, List.filter_cons_of_pos (by simpa using hx), Option.map_map]
        cases hrow : table[x]? with
        | none => rfl
        | some list =>
          have hhead : list.head? ≠ some v.1 := hnew list hrow v List.mem_cons_self
          simp [enrol, hhead]
      · rw [if_neg hx, List.filter_cons_of_neg (by simpa using hx)]
    · -- no later relation has the number of the one just enrolled
      intro list hlist w hw
      rw [getElem?_enrolAll] at hlist
      split at hlist
      · obtain ⟨row, -, rfl⟩ := Option.map_eq_some_iff.1 hlist
        rw [head?_enrol, Ne, Option.some_inj]
        exact Nat.ne_of_lt (hv w hw)
      · exact hnew list hlist w (List.mem_cons_of_mem _ hw)

/-- **Each relation once**: a node's list holds the numbers of the inversions that name it, in the
order of declaration. -/
theorem relationsOf_ofStructure (s : Structure) (x : Nat) :
    (ofStructure s).relationsOf x
      = ((s.relationsOf .inverts).filter fun v => x ∈ v.2.endpoints).map Prod.fst := by
  unfold relationsOf ofStructure
  rw [Array.getElem?_map, getElem?_foldl_enrolAll (s.ascending_relationsOf .inverts),
    Array.getElem?_replicate]
  · by_cases hx : x < s.nodeCount
    · simp [hx]
    · -- a number beyond the nodes is no endpoint of any relation
      have hnone : (s.relationsOf .inverts).filter (fun v => x ∈ v.2.endpoints) = [] := by
        refine List.filter_eq_nil_iff.2 fun v hv hmem => hx ?_
        exact (Structure.fits_of_mem_relationsOf hv).endpoint_lt x (by simpa using hmem)
      simp [hx, hnone]
  · intro list hlist v _
    rw [Array.getElem?_replicate] at hlist
    split at hlist
    · cases hlist
      exact fun h => by cases h
    · cases hlist

/-- A node is in two inversions exactly when its list has two elements or more. -/
theorem one_lt_length_iff_shared :
    1 < ((s.relationsOf .inverts).filter fun v => x ∈ v.2.endpoints).length ↔ s.Shared x := by
  have hpairwise := (s.ascending_relationsOf .inverts).filter fun v => decide (x ∈ v.2.endpoints)
  rw [one_lt_length_iff (hpairwise.imp fun hlt heq => by rw [heq] at hlt; omega)]
  simp only [List.mem_filter, decide_eq_true_iff]
  constructor
  · intro h
    obtain ⟨v, ⟨hv, hxv⟩, w, ⟨hw, hxw⟩, hne⟩ := h
    refine ⟨v, hv, w, hw, fun hid => hne ?_, hxv, hxw⟩
    -- a number stands for one relation only
    have hget := (Structure.mem_relationsOf.1 hv).1
    rw [hid, (Structure.mem_relationsOf.1 hw).1] at hget
    exact Prod.ext hid (Option.some.inj hget).symm
  · intro h
    obtain ⟨v, hv, w, hw, hne, hxv, hxw⟩ := h
    exact ⟨v, ⟨hv, hxv⟩, w, ⟨hw, hxw⟩, fun heq => hne (by rw [heq])⟩

/-- **Exactly the shared nodes** are listed. -/
theorem mem_sharedNodes : x ∈ (ofStructure s).sharedNodes ↔ s.Shared x := by
  unfold sharedNodes
  rw [List.mem_filter, decide_eq_true_iff, relationsOf_ofStructure, List.length_map,
    one_lt_length_iff_shared, List.mem_range]
  refine ⟨And.right, fun h => ⟨Nat.lt_of_not_le fun hx => ?_, h⟩⟩
  -- a number beyond the table has no list, so it is in no inversion
  have hlist := relationsOf_ofStructure s x
  unfold relationsOf at hlist
  rw [Array.getElem?_eq_none hx] at hlist
  have hlen := one_lt_length_iff_shared.2 h
  rw [← List.length_map (f := Prod.fst), ← hlist] at hlen
  cases hlen

theorem ascending_sharedNodes (v : Inversion) : v.sharedNodes.Pairwise (· < ·) :=
  List.pairwise_lt_range.filter _

end Inversion

/-! ## §4. The facts of the inversions. -/

namespace Structure

variable {s : Structure} {x : Nat}

theorem Shared.lt (h : s.Shared x) : x < s.nodeCount := by
  obtain ⟨v, hv, -, -, -, hx, -⟩ := h
  exact (fits_of_mem_relationsOf hv).endpoint_lt x hx

/-- The inversions in terms of labels, in order of declaration. -/
def inversions (s : Structure) : List Fact := (s.relationsOf .inverts).map fun v => s.fact v.2

theorem mem_map_label_iff {ids : List Nat} (hids : ∀ y ∈ ids, y < s.nodeCount)
    (hx : x < s.nodeCount) : s.label x ∈ ids.map s.label ↔ x ∈ ids := by
  rw [List.mem_map]
  constructor
  · intro h
    obtain ⟨y, hy, hlabel⟩ := h
    rw [← s.label_injective (hids y hy) hx hlabel]
    exact hy
  · intro h
    exact ⟨x, h, rfl⟩

/-- The inversions that name a node are told by the facts that name its label. -/
theorem map_fact_filter (hx : x < s.nodeCount) :
    ((s.relationsOf .inverts).filter fun v => x ∈ v.2.endpoints).map (fun v => s.fact v.2)
      = s.inversions.filter fun f => s.label x ∈ f.endpoints := by
  rw [inversions, List.filter_map]
  congr 1
  refine List.filter_congr fun v hv => ?_
  have hlt := (fits_of_mem_relationsOf hv).endpoint_lt
  exact (decide_eq_decide.2 (mem_map_label_iff hlt hx)).symm

/-- The facts of a node's inversions are those that name its label. -/
theorem facts_of_node (hx : x < s.nodeCount) :
    ((Inversion.ofStructure s).relationsOf x).filterMap (fun r => s.relations[r]?.map s.fact)
      = s.inversions.filter fun f => s.label x ∈ f.endpoints := by
  rw [Inversion.relationsOf_ofStructure, List.filterMap_map, ← map_fact_filter hx]
  rw [← List.filterMap_eq_map]
  refine List.filterMap_congr fun v hv => ?_
  have hget := (mem_relationsOf.1 (List.mem_filter.1 hv).1).1
  show s.relations[v.1]?.map s.fact = some (s.fact v.2)
  rw [hget]
  rfl

/-- A label is in two facts exactly when its node is in two inversions. -/
theorem one_lt_length_facts_iff (hx : x < s.nodeCount) :
    1 < (s.inversions.filter fun f => s.label x ∈ f.endpoints).length ↔ s.Shared x := by
  rw [← map_fact_filter hx, List.length_map, Inversion.one_lt_length_iff_shared]

theorem kind_of_mem_inversions {f : Fact} (h : f ∈ s.inversions) : f.kind = .inverts := by
  obtain ⟨v, hv, rfl⟩ := List.mem_map.1 h
  exact (mem_relationsOf.1 hv).2

theorem mem_inversions {f : Fact} :
    f ∈ s.inversions ↔ ∃ r ∈ s.relations, r.kind = .inverts ∧ f = s.fact r := by
  unfold inversions
  rw [List.mem_map]
  constructor
  · intro h
    obtain ⟨v, hv, rfl⟩ := h
    obtain ⟨hget, hkind⟩ := mem_relationsOf.1 hv
    exact ⟨v.2, Array.mem_of_getElem? hget, hkind, rfl⟩
  · intro h
    obtain ⟨r, hr, hkind, rfl⟩ := h
    obtain ⟨id, hget⟩ := Array.mem_iff_getElem?.1 hr
    exact ⟨(id, r), mem_relationsOf.2 ⟨hget, hkind⟩, rfl⟩

/-! ## §5. Violations of inversions. -/

/-- A fact that pairs two distinct labels. -/
def PairsDistinct (f : Fact) : Prop :=
  match f.endpoints with
  | [a, b] => a ≠ b
  | _ => False

instance : DecidablePred PairsDistinct := fun f => by
  unfold PairsDistinct
  split <;> infer_instance

/-- Labels tell nodes apart, so a pair of distinct nodes is one of distinct labels. -/
theorem pairsDistinct_fact_iff {r : Relation} (h : r.Fits s.nodeCount) :
    PairsDistinct (s.fact r) ↔ DistinctPair r.endpoints := by
  unfold PairsDistinct fact
  match hends : r.endpoints with
  | [] => exact Iff.rfl
  | [x] => exact Iff.rfl
  | [x, y] =>
    have hx := h.endpoint_lt x (by simp [hends])
    have hy := h.endpoint_lt y (by simp [hends])
    exact not_congr ⟨s.label_injective hx hy, congrArg s.label⟩
  | _ :: _ :: _ :: _ => exact Iff.rfl

/-- The violation of an inversion by itself, told by its fact. -/
def arityBreach? (f : Fact) : Option Violation :=
  if PairsDistinct f then none else some (.inversionArity f.endpoints f)

/-- The violation of a label in several facts, with the first two of them as evidence. -/
def overlapBreach? (facts : List Fact) (label : String) : Option Violation :=
  match bySignature (facts.filter fun f => label ∈ f.endpoints) with
  | first :: second :: _ => some (.inversionOverlap label first second)
  | _ => none

/-- **Facts decide**: the violations of inversions in terms of their facts and the shared labels. -/
theorem inversionViolations_eq (s : Structure) :
    s.inversionViolations = s.inversions.filterMap arityBreach?
      ++ (Inversion.ofStructure s).sharedNodes.filterMap fun x =>
        overlapBreach? s.inversions (s.label x) := by
  have harity : (s.relationsOf .inverts).filterMap (fun r => s.arityViolation? r.2)
      = s.inversions.filterMap arityBreach? := by
    rw [inversions, List.filterMap_map]
    refine List.filterMap_congr fun v hv => ?_
    have hfits := fits_of_mem_relationsOf hv
    simp only [Function.comp_apply, arityViolation?, arityBreach?, pairsDistinct_fact_iff hfits]
    rfl
  have hoverlap : (Inversion.ofStructure s).sharedNodes.filterMap
        (s.overlapViolation? (Inversion.ofStructure s))
      = (Inversion.ofStructure s).sharedNodes.filterMap fun x =>
        overlapBreach? s.inversions (s.label x) := by
    refine List.filterMap_congr fun x hx => ?_
    have hlt := (Inversion.mem_sharedNodes.1 hx).lt
    simp only [overlapViolation?, facts_of_node hlt]
    rfl
  rw [← harity, ← hoverlap]
  rfl

end Structure

end Admissibility
