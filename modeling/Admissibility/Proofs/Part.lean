/-
  Admissibility.Proofs.Part
  ─────────────────────────
  **Parts of a structure cost no more than the whole.**

  A part has no labels and no facts but those of the whole, each at most as often.  Its nodes are
  mapped to those of the whole by their labels, its edges to edges and its routes to routes of the
  same labels.  A search in the part may take longer all the same, where a short route is missing;
  but where the first route of the whole is there, the search passes through no node that it does
  not pass through in the whole.

  `mem_edges_iff_fact`: edges, told by facts.
  `Part.edge`, `Part.route`: what the part has, the whole has.
  `Part.answers`: the first route of the whole is the first one of the part.
  `Part.cost_le`: the cost of a part with one boundary.
-/
import Mathlib.Algebra.Order.BigOperators.Group.Finset
import Admissibility.Proofs.Cost
import Admissibility.Proofs.Evidence
import Admissibility.Proofs.History

namespace Admissibility

/-- Sums are compared along an injective map of the indices. -/
theorem sum_le_sum_of_injOn {first second : Finset Nat} {f g : Nat → Nat} (image : Nat → Nat)
    (hmaps : ∀ x ∈ first, image x ∈ second) (hinj : Set.InjOn image first)
    (hle : ∀ x ∈ first, f x ≤ g (image x)) : ∑ x ∈ first, f x ≤ ∑ y ∈ second, g y := by
  calc ∑ x ∈ first, f x
      ≤ ∑ x ∈ first, g (image x) := Finset.sum_le_sum hle
    _ = ∑ y ∈ first.image image, g y := (Finset.sum_image hinj).symm
    _ ≤ ∑ y ∈ second, g y := Finset.sum_le_sum_of_subset (Finset.image_subset_iff.2 hmaps)

namespace Structure

variable {s t : Structure} {kind : Relation.Kind} {x y : Nat}

/-! ## §1. Labels and facts. -/

/-- The facts of a structure, in order of declaration. -/
def facts (s : Structure) : List Fact := s.relations.toList.map s.fact

theorem mem_facts {f : Fact} : f ∈ s.facts ↔ ∃ r ∈ s.relations, f = s.fact r := by
  unfold facts
  simp only [List.mem_map, Array.mem_toList_iff, @eq_comm _ _ f]

theorem label_mem (hx : x < s.nodeCount) : s.label x ∈ s.labels :=
  Array.mem_of_getElem? (s.label_of_lt hx)

theorem mem_labels_of_mem_facts {f : Fact} (h : f ∈ s.facts) {name : String}
    (hname : name ∈ f.endpoints) : name ∈ s.labels := by
  obtain ⟨r, hr, rfl⟩ := mem_facts.1 h
  obtain ⟨x, hx, rfl⟩ := List.mem_map.1 hname
  exact label_mem ((s.fits r hr).endpoint_lt x hx)

/-- The node that bears a label. -/
def node (s : Structure) (label : String) : Nat := (s.lookup label).getD 0

theorem node_label (hx : x < s.nodeCount) : s.node (s.label x) = x := by
  rw [node, (s.lookup_eq_some_iff _ _).2 (s.label_of_lt hx)]
  rfl

theorem node_spec {label : String} (h : label ∈ s.labels) :
    s.node label < s.nodeCount ∧ s.label (s.node label) = label := by
  obtain ⟨x, hx⟩ := Array.mem_iff_getElem?.1 h
  have hlt : x < s.nodeCount := (Array.getElem?_eq_some_iff.1 hx).1
  have hlabel : s.label x = label := by
    rw [Structure.label, hx]
    rfl
  rw [← hlabel, node_label hlt]
  exact ⟨hlt, rfl⟩

/-- **Edges are facts**, for the kinds with two endpoints. -/
theorem mem_edges_iff_fact (hkind : kind.fixedArity = some 2) (hx : x < s.nodeCount)
    (hy : y < s.nodeCount) :
    (x, y) ∈ s.edges kind ↔ ⟨kind, [s.label x, s.label y]⟩ ∈ s.facts := by
  rw [mem_facts]
  constructor
  · exact fact_of_edge hkind
  · intro h
    obtain ⟨r, hr, heq⟩ := h
    obtain ⟨hk, hlabels⟩ := Fact.mk.inj heq
    obtain ⟨u, v, hends⟩ := exists_ends hr (by rw [← hk]; exact hkind)
    rw [hends] at hlabels
    obtain ⟨hu, hrest⟩ := List.cons.inj hlabels
    obtain ⟨hv, -⟩ := List.cons.inj hrest
    have hlt := (s.fits r hr).endpoint_lt
    rw [hends] at hlt
    -- labels tell nodes apart
    cases s.label_injective hx (hlt u (by simp)) hu
    cases s.label_injective hy (hlt v (by simp)) hv
    exact (mem_edges_iff hkind).2 ⟨r, hr, hk.symm, hends⟩

/-- The inversions are the facts of their kind. -/
theorem inversions_eq_filter (s : Structure) :
    s.inversions = s.facts.filter (·.kind = .inverts) := by
  have hfact : s.inversions = ((s.relationsOf .inverts).map Prod.snd).map s.fact := by
    rw [inversions, List.map_map]
    rfl
  rw [hfact, map_snd_relationsOf, facts, List.filter_map]
  rfl

/-! ## §2. Parts. -/

/-- The first structure has no labels and no facts but those of the second. -/
structure Part (t s : Structure) : Prop where
  labels : ∀ label ∈ t.labels, label ∈ s.labels
  facts : t.facts.Subperm s.facts

theorem Part.nodeCount_le (h : Part t s) : t.nodeCount ≤ s.nodeCount := by
  have hsub : t.labels.toList.Subperm s.labels.toList :=
    t.nodup_labels.subperm fun label hlabel =>
      Array.mem_toList_iff.2 (h.labels label (Array.mem_toList_iff.1 hlabel))
  have hlen := hsub.length_le
  rwa [Array.length_toList, Array.length_toList] at hlen

theorem Part.relationCount_le (h : Part t s) : t.relationCount ≤ s.relationCount := by
  have hlen := h.facts.length_le
  rwa [Structure.facts, Structure.facts, List.length_map, List.length_map, Array.length_toList,
    Array.length_toList] at hlen

/-- The node of a structure with the label that a node of another one bears. -/
def counterpart (t s : Structure) (x : Nat) : Nat := s.node (t.label x)

theorem Part.same (h : Part t s) (hx : x < t.nodeCount) : Same t s x (counterpart t s x) := by
  obtain ⟨hlt, hlabel⟩ := node_spec (h.labels _ (label_mem hx))
  exact ⟨hx, hlt, hlabel.symm⟩

theorem Part.counterpart_injective (h : Part t s) (hx : x < t.nodeCount) (hy : y < t.nodeCount)
    (heq : counterpart t s x = counterpart t s y) : x = y :=
  (h.same hx).left_unique (heq ▸ h.same hy)

/-- **Edges of a part** are edges of the whole. -/
theorem Part.edge (h : Part t s) (hkind : kind.fixedArity = some 2) (hedge : (x, y) ∈ t.edges kind) :
    (counterpart t s x, counterpart t s y) ∈ s.edges kind := by
  obtain ⟨hx, hy⟩ := edge_lt hedge
  have hsx := h.same hx
  have hsy := h.same hy
  rw [mem_edges_iff_fact hkind hsx.right hsy.right, ← hsx.label, ← hsy.label]
  exact h.facts.subset ((mem_edges_iff_fact hkind hx hy).1 hedge)

theorem Part.declares (h : Part t s) (hkind : kind.fixedArity = some 2)
    (hdeclared : t.Declares kind x y) :
    s.Declares kind (counterpart t s x) (counterpart t s y) :=
  (mem_edges_iff hkind).1 (h.edge hkind ((mem_edges_iff hkind).2 hdeclared))

theorem Part.chain (h : Part t s) (hchain : t.Chain x y) :
    s.Chain (counterpart t s x) (counterpart t s y) := by
  induction hchain with
  | refl hx => exact .refl (h.same hx).right
  | step hedge _ ih => exact .step (h.edge rfl hedge) ih

/-! ## §3. Routes of a part. -/

theorem Part.map_label (h : Part t s) {nodes : List Nat} (hlt : ∀ x ∈ nodes, x < t.nodeCount) :
    (nodes.map (counterpart t s)).map s.label = nodes.map t.label := by
  rw [List.map_map]
  exact List.map_congr_left fun x hx => (h.same (hlt x hx)).label.symm

/-- **Routes of a part** are routes of the whole. -/
theorem Part.route (h : Part t s) {source : Nat} {nodes : List Nat}
    (hroute : t.Route source nodes) :
    s.Route (counterpart t s source) (nodes.map (counterpart t s)) := by
  refine ⟨by rw [List.head?_map, hroute.head]; rfl, ?_⟩
  rw [List.isChain_map]
  exact hroute.linked.imp fun x y hedge => h.edge rfl hedge

theorem Part.leads (h : Part t s) {b : Nat} {nodes : List Nat}
    (hleads : t.Leads b (t.targets b) nodes) :
    s.Leads (counterpart t s b) (s.targets (counterpart t s b)) (nodes.map (counterpart t s)) := by
  obtain ⟨hroute, target, hlast, htarget⟩ := hleads
  refine ⟨h.route hroute, counterpart t s target, by rw [List.getLast?_map, hlast]; rfl, ?_⟩
  exact contains_targets.2 (h.edge rfl (contains_targets.1 htarget))

/-- Routes are in the same order in the part and in the whole. -/
theorem Part.noLater_iff (h : Part t s) {first second : List Nat}
    (hfirst : ∀ x ∈ first, x < t.nodeCount) (hsecond : ∀ x ∈ second, x < t.nodeCount) :
    s.NoLater (first.map (counterpart t s)) (second.map (counterpart t s))
      ↔ t.NoLater first second := by
  unfold NoLater
  rw [h.map_label hfirst, h.map_label hsecond, List.length_map, List.length_map]

/-! ## §4. Counts and closures of a part. -/

/-- Nodes with a property are counted: where counterparts have the property of the whole, there are
no more of them in the part. -/
theorem Part.card_le (h : Part t s) {P Q : Nat → Prop} [DecidablePred P] [DecidablePred Q]
    (himp : ∀ y, P y → Q (counterpart t s y)) :
    ((Finset.range t.nodeCount).filter P).card ≤ ((Finset.range s.nodeCount).filter Q).card := by
  refine Finset.card_le_card_of_injOn (counterpart t s) (fun y hy => ?_) fun y hy z hz heq => ?_
  · obtain ⟨hy, hP⟩ := Finset.mem_filter.1 hy
    refine Finset.mem_filter.2 ⟨?_, himp y hP⟩
    exact Finset.mem_range.2 (h.same (Finset.mem_range.1 hy)).right
  · exact h.counterpart_injective (Finset.mem_range.1 (Finset.mem_filter.1 hy).1)
      (Finset.mem_range.1 (Finset.mem_filter.1 hz).1) heq

theorem Part.memberCount_le (h : Part t s) (x : Nat) :
    t.memberCount x ≤ s.memberCount (counterpart t s x) := by
  classical
  exact h.card_le fun _ hy => h.declares rfl hy

theorem Part.containerCount_le (h : Part t s) (x : Nat) :
    t.containerCount x ≤ s.containerCount (counterpart t s x) := by
  classical
  exact h.card_le fun _ hy => h.declares rfl hy

theorem Part.closureSteps_le (h : Part t s) (b : Nat) :
    t.closureSteps b ≤ s.closureSteps (counterpart t s b) := by
  refine sum_le_sum_of_injOn (counterpart t s) (fun x hx => ?_) (fun x hx y hy heq => ?_)
    fun x _ => Nat.add_le_add_left (h.memberCount_le x) 1
  · obtain ⟨y, hy, hchain⟩ := mem_closureNodes.1 hx
    exact mem_closureNodes.2
      ⟨_, mem_bounded.2 (h.edge rfl (mem_bounded.1 hy)), h.chain hchain⟩
  · exact h.counterpart_injective (lt_of_mem_closureNodes hx) (lt_of_mem_closureNodes hy) heq

/-! ## §5. The search in a part, and its cost. -/

section First

variable {b : Nat} {chain : List Nat} (h : Part t s) (hb : b < t.nodeCount)
  (hleads : t.Leads b (t.targets b) chain)
  (hanswer : s.Answers (counterpart t s b) (s.targets (counterpart t s b))
    (some (chain.map (counterpart t s))))

include h hb hleads hanswer

/-- **The first route of the whole** is the first one of a part that has it. -/
theorem Part.answers : t.Answers b (t.targets b) (some chain) := by
  refine ⟨hleads, fun other hother => ?_⟩
  rw [← h.noLater_iff (hleads.toRoute.lt hb) (hother.toRoute.lt hb)]
  exact hanswer.2 _ (h.leads hother)

/-- A search in the part passes through the nodes that it passes through in the whole. -/
theorem Part.passes (hx : t.Passes b (t.targets b) x) :
    s.Passes (counterpart t s b) (s.targets (counterpart t s b)) (counterpart t s x) := by
  obtain ⟨route, hroute, hlast, hfirst⟩ := hx
  refine ⟨route.map (counterpart t s), h.route hroute, by rw [List.getLast?_map, hlast]; rfl, ?_⟩
  intro other hother
  -- in front of the parent of the target in the part, and so in the whole
  have hparent := hfirst chain hleads
  have hlt : ∀ x ∈ chain.dropLast, x < t.nodeCount := fun x hx =>
    hleads.toRoute.lt hb x (List.dropLast_subset _ hx)
  rw [← h.noLater_iff (hroute.lt hb) hlt, List.map_dropLast] at hparent
  refine hparent.trans ((hanswer.2 other hother).dropLast fun hnil => ?_)
  have hhead := hanswer.1.head
  rw [hnil] at hhead
  cases hhead

theorem Part.searchSteps_le : t.searchSteps b ≤ s.searchSteps (counterpart t s b) := by
  have hlt : ∀ x ∈ t.searchNodes b, x < t.nodeCount := fun x hx =>
    ((mem_searchNodes hb).1 hx).lt hb
  refine sum_le_sum_of_injOn (counterpart t s) (fun x hx => ?_) (fun x hx y hy heq => ?_)
    fun x _ => Nat.add_le_add_left (h.containerCount_le x) 1
  · exact (mem_searchNodes (h.same hb).right).2
      (h.passes hb hleads hanswer ((mem_searchNodes hb).1 hx))
  · exact h.counterpart_injective (hlt x hx) (hlt y hy) heq

theorem Part.boundarySteps_le : t.boundarySteps b ≤ s.boundarySteps (counterpart t s b) := by
  have hbroken : t.BreaksBoundary b := (breaksBoundary_iff hb).2 ⟨chain, hleads⟩
  have hbroken' : s.BreaksBoundary (counterpart t s b) :=
    (breaksBoundary_iff (h.same hb).right).2 ⟨_, hanswer.1⟩
  rw [boundarySteps, boundarySteps, if_pos (mem_closureNodes_self.2 hbroken),
    if_pos (mem_closureNodes_self.2 hbroken')]
  exact Nat.add_le_add (h.closureSteps_le b) (h.searchSteps_le hb hleads hanswer)

/-- **The cost of a part** with one boundary, whose first route it has, is within that of the
whole. -/
theorem Part.cost_le (hone : ∀ x, t.IsBoundary x → x = b) : t.cost ≤ s.cost := by
  have hsub : t.boundsSources.toFinset ⊆ {b} := fun x hx =>
    Finset.mem_singleton.2 (hone x (mem_boundsSources.1 (List.mem_toFinset.1 hx)))
  have hmem : counterpart t s b ∈ s.boundsSources.toFinset := by
    obtain ⟨target, -, htarget⟩ := hanswer.1.last
    exact List.mem_toFinset.2 (mem_boundsSources.2 ⟨target, contains_targets.1 htarget⟩)
  calc t.cost
      ≤ ∑ x ∈ {b}, t.boundarySteps x := Finset.sum_le_sum_of_subset hsub
    _ = t.boundarySteps b := Finset.sum_singleton _ _
    _ ≤ s.boundarySteps (counterpart t s b) := h.boundarySteps_le hb hleads hanswer
    _ ≤ s.cost := Finset.single_le_sum (fun _ _ => Nat.zero_le _) hmem

end First

end Structure

end Admissibility
