/-
  Admissibility.Proofs.Agreement
  ──────────────────────────────
  **Two structures that say the same in terms of labels.**

  Nodes of two structures correspond when they bear the same label; since labels tell nodes apart,
  a node has one counterpart at most.  Where the labelled edges of two structures are the same,
  their adjacency lists correspond element by element and a chain of one is a chain of the other.

  `Same`: corresponding nodes.
  `Matches.rows`: corresponding nodes have corresponding rows.
  `Matches.chain`: a chain leads back to a counterpart of its first node.
  `perm_map_of_same`: lists of corresponding nodes, taken without their order.
-/
import Mathlib.Data.List.Forall2
import Admissibility.Proofs.Adjacency

namespace Admissibility.Structure

/-! ## §1. Corresponding nodes. -/

/-- The node x of one structure and the node y of another bear the same label. -/
structure Same (s t : Structure) (x y : Nat) : Prop where
  left : x < s.nodeCount
  right : y < t.nodeCount
  label : s.label x = t.label y

variable {s t : Structure} {x y x' y' : Nat}

theorem Same.symm (h : Same s t x y) : Same t s y x := ⟨h.right, h.left, h.label.symm⟩

theorem Same.right_unique (h : Same s t x y) (h' : Same s t x y') : y = y' :=
  t.label_injective h.right h'.right (h.label.symm.trans h'.label)

theorem Same.left_unique (h : Same s t x y) (h' : Same s t x' y) : x = x' :=
  h.symm.right_unique h'.symm

/-- Nodes with the same labels in the same order correspond one by one. -/
theorem forall₂_same {ids ids' : List Nat} (hs : ∀ x ∈ ids, x < s.nodeCount)
    (ht : ∀ y ∈ ids', y < t.nodeCount) (h : ids.map s.label = ids'.map t.label) :
    List.Forall₂ (Same s t) ids ids' := by
  induction ids generalizing ids' with
  | nil =>
    cases ids' with
    | nil => exact .nil
    | cons y ids' => cases h
  | cons x ids ih =>
    cases ids' with
    | nil => cases h
    | cons y ids' =>
      obtain ⟨hlabel, hrest⟩ := List.cons.inj h
      have hxy : Same s t x y := ⟨hs x List.mem_cons_self, ht y List.mem_cons_self, hlabel⟩
      exact .cons hxy (ih (fun z hz => hs z (List.mem_cons_of_mem x hz))
        (fun z hz => ht z (List.mem_cons_of_mem y hz)) hrest)

theorem map_label_of_forall₂ {ids ids' : List Nat} (h : List.Forall₂ (Same s t) ids ids') :
    ids.map s.label = ids'.map t.label := by
  induction h with
  | nil => rfl
  | cons hxy _ ih => rw [List.map_cons, List.map_cons, hxy.label, ih]

theorem exists_same_of_mem {ids ids' : List Nat} (h : List.Forall₂ (Same s t) ids ids')
    (hx : x ∈ ids) : ∃ y ∈ ids', Same s t x y := by
  induction h with
  | nil => cases hx
  | @cons u v _ _ huv _ ih =>
    rcases List.mem_cons.1 hx with heq | hrest
    · exact ⟨v, List.mem_cons_self, heq ▸ huv⟩
    · obtain ⟨y, hy, hxy⟩ := ih hrest
      exact ⟨y, List.mem_cons_of_mem v hy, hxy⟩

/-- **Without their order**: two lists of corresponding nodes give permuted values, where
corresponding nodes give equal ones. -/
theorem perm_map_of_same {α : Type} {f g : Nat → α} {ids ids' : List Nat} (hids : ids.Nodup)
    (hids' : ids'.Nodup) (hto : ∀ x ∈ ids, ∃ y ∈ ids', Same s t x y ∧ f x = g y)
    (hfrom : ∀ y ∈ ids', ∃ x ∈ ids, Same s t x y) :
    (ids.map f).Perm (ids'.map g) := by
  -- values are paired with labels, which keep them apart
  let first := ids.map fun x => (s.label x, f x)
  let second := ids'.map fun y => (t.label y, g y)
  have hfirst : first.Nodup := by
    refine List.pairwise_map.2 (hids.imp_of_mem fun {x z} hx hz hne heq => hne ?_)
    obtain ⟨y, -, hxy, -⟩ := hto x hx
    obtain ⟨w, -, hzw, -⟩ := hto z hz
    exact s.label_injective hxy.left hzw.left (congrArg Prod.fst heq)
  have hsecond : second.Nodup := by
    refine List.pairwise_map.2 (hids'.imp_of_mem fun {y w} hy hw hne heq => hne ?_)
    obtain ⟨x, -, hxy⟩ := hfrom y hy
    obtain ⟨z, -, hzw⟩ := hfrom w hw
    exact t.label_injective hxy.right hzw.right (congrArg Prod.fst heq)
  -- a node and its counterpart give the same pair
  have hmem : ∀ p, p ∈ first ↔ p ∈ second := by
    intro p
    constructor
    · intro h
      obtain ⟨x, hx, rfl⟩ := List.mem_map.1 h
      obtain ⟨y, hy, hxy, hvalue⟩ := hto x hx
      exact List.mem_map.2 ⟨y, hy, by rw [hxy.label, hvalue]⟩
    · intro h
      obtain ⟨y, hy, rfl⟩ := List.mem_map.1 h
      obtain ⟨x, hx, hxy⟩ := hfrom y hy
      obtain ⟨w, -, hxw, hvalue⟩ := hto x hx
      cases hxy.right_unique hxw
      exact List.mem_map.2 ⟨x, hx, by rw [hxy.label, hvalue]⟩
  have hperm := ((List.perm_ext_iff_of_nodup hfirst hsecond).2 hmem).map Prod.snd
  rw [List.map_map, List.map_map] at hperm
  exact hperm

/-! ## §2. Corresponding edges. -/

/-- The edges of two lists have the same pairs of labels. -/
def Matches (s t : Structure) (edges edges' : List (Nat × Nat)) : Prop :=
  ∀ a b, (∃ x y, (x, y) ∈ edges ∧ s.label x = a ∧ s.label y = b)
    ↔ ∃ x y, (x, y) ∈ edges' ∧ t.label x = a ∧ t.label y = b

section Edges

variable {edges edges' : List (Nat × Nat)}

theorem Matches.symm (h : Matches s t edges edges') : Matches t s edges' edges :=
  fun a b => (h a b).symm

theorem Matches.swap (h : Matches s t edges edges') :
    Matches s t (edges.map Prod.swap) (edges'.map Prod.swap) := by
  have hmem : ∀ {list : List (Nat × Nat)} {x y : Nat},
      (x, y) ∈ list.map Prod.swap ↔ (y, x) ∈ list := by
    intro list x y
    rw [List.mem_map]
    exact ⟨fun ⟨⟨u, v⟩, he, heq⟩ => by cases heq; exact he, fun he => ⟨(y, x), he, rfl⟩⟩
  intro a b
  simp only [hmem]
  constructor
  · intro hab
    obtain ⟨x, y, he, hx, hy⟩ := hab
    obtain ⟨u, v, he', hu, hv⟩ := (h b a).1 ⟨y, x, he, hy, hx⟩
    exact ⟨v, u, he', hv, hu⟩
  · intro hab
    obtain ⟨x, y, he, hx, hy⟩ := hab
    obtain ⟨u, v, he', hu, hv⟩ := (h b a).2 ⟨y, x, he, hy, hx⟩
    exact ⟨v, u, he', hv, hu⟩

variable (hs : s.Inside edges) (ht : t.Inside edges') (h : Matches s t edges edges')

include hs ht h

/-- Every edge has a counterpart. -/
theorem Matches.edge (he : (x, x') ∈ edges) :
    ∃ y y', (y, y') ∈ edges' ∧ Same s t x y ∧ Same s t x' y' := by
  obtain ⟨y, y', he', hy, hy'⟩ := (h _ _).1 ⟨x, x', he, rfl, rfl⟩
  exact ⟨y, y', he', ⟨(hs _ he).1, (ht _ he').1, hy.symm⟩, ⟨(hs _ he).2, (ht _ he').2, hy'.symm⟩⟩

/-- An edge from a node has a counterpart from the counterpart of the node. -/
theorem Matches.edge_from (hxy : Same s t x y) (he : (x, x') ∈ edges) :
    ∃ y', (y, y') ∈ edges' ∧ Same s t x' y' := by
  obtain ⟨z, y', he', hxz, hx'⟩ := h.edge hs ht he
  cases hxy.right_unique hxz
  exact ⟨y', he', hx'⟩

/-- In labels, the rows of corresponding nodes are equal. -/
theorem Matches.map_label_row (hxy : Same s t x y) :
    (s.row edges x).map s.label = (t.row edges' y).map t.label := by
  rw [Structure.map_label_row hs, Structure.map_label_row ht]
  refine distinctLabels_eq fun label => ?_
  simp only [List.mem_map, mem_endsFrom]
  constructor
  · intro hlabel
    obtain ⟨x', he, rfl⟩ := hlabel
    obtain ⟨y', he', hx'⟩ := h.edge_from hs ht hxy he
    exact ⟨y', he', hx'.label.symm⟩
  · intro hlabel
    obtain ⟨y', he', rfl⟩ := hlabel
    obtain ⟨x', he, hy'⟩ := h.symm.edge_from ht hs hxy.symm he'
    exact ⟨x', he, hy'.label.symm⟩

/-- **Corresponding rows**: the neighbours of corresponding nodes correspond, in order. -/
theorem Matches.rows (hxy : Same s t x y) :
    List.Forall₂ (Same s t) (s.row edges x) (t.row edges' y) := by
  refine forall₂_same (fun z hz => ?_) (fun z hz => ?_) (h.map_label_row hs ht hxy)
  · exact (hs _ ((mem_row hs).1 hz)).2
  · exact (ht _ ((mem_row ht).1 hz)).2

end Edges

/-! ## §3. Corresponding chains. -/

/-- **Chains are led back**: where a chain ends in a node with a counterpart, the chain itself has
one, which begins in a counterpart of its first node. -/
theorem Matches.chain (h : Matches s t (s.edges .memberOf) (t.edges .memberOf))
    (hchain : s.Chain x x') (hx' : Same s t x' y') : ∃ y, Same s t x y ∧ t.Chain y y' := by
  -- from the end of the chain back to its first node
  induction hchain with
  | refl _ => exact ⟨y', hx', .refl hx'.right⟩
  | step hedge _ ih =>
    obtain ⟨w, hw, hrest⟩ := ih hx'
    obtain ⟨y, w', hedge', hxy, hw'⟩ := h.edge (s.inside_edges _) (t.inside_edges _) hedge
    cases hw.right_unique hw'
    exact ⟨y, hxy, .step hedge' hrest⟩

end Admissibility.Structure
