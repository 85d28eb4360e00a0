/-
  Admissibility.Proofs.Confluence
  ───────────────────────────────
  **A validation depends on labels alone, errors included.**

  Boundaries are checked in the order of their numbers from one budget, inversions in the order of
  their declaration.  Neither order matters: what a check costs and what it finds is a function of
  the boundary's label, so another order permutes the charges and the violations, and a sum of
  charges and a least violation do not change with that.

  `checkBoundary_same`: one boundary of two structures that agree.
  `inversionViolations_perm`: the violations of inversions, from permuted facts.
  `validate_confluent`: the whole validation.
-/
import Admissibility.Proofs.Builder
import Admissibility.Proofs.Membership.Lockstep
import Admissibility.Proofs.Validation

namespace Admissibility.Structure

open Metered (Costs)

variable {s t : Structure}

/-! ## §1. What a boundary's violation tells. -/

/-- The member-of facts along the labels of a chain. -/
def linksOf : List String → List Fact
  | a :: b :: rest => ⟨.memberOf, [a, b]⟩ :: linksOf (b :: rest)
  | _ => []

/-- The violation that a boundary's label, the labels it bounds and those of a chain make. -/
def told (boundary : String) (bounded chain : List String) : Violation :=
  .boundaryMembership boundary bounded chain
    (⟨.bounds, [boundary, chain.getLast?.getD boundary]⟩ :: linksOf chain)

theorem links_eq (s : Structure) (chain : List Nat) : s.links chain = linksOf (chain.map s.label) := by
  induction chain with
  | nil => rfl
  | cons x rest ih =>
    cases rest with
    | nil => rfl
    | cons y rest =>
      show ⟨.memberOf, [s.label x, s.label y]⟩ :: s.links (y :: rest) = _
      rw [ih]
      rfl

/-- **Labels decide**: a boundary's violation is made of labels. -/
theorem boundaryViolation_eq (s : Structure) (b : Nat) (row chain : List Nat) :
    s.boundaryViolation b row chain
      = told (s.label b) (row.map s.label) (chain.map s.label) := by
  unfold boundaryViolation told
  rw [links_eq, List.getLast?_map]
  cases chain.getLast? <;> rfl

/-! ## §2. One boundary. -/

/-- Two structures whose labelled edges are the same. -/
structure Agree (s t : Structure) : Prop where
  memberOf : Matches s t (s.edges .memberOf) (t.edges .memberOf)
  bounds : Matches s t (s.edges .bounds) (t.edges .bounds)

theorem Agree.symm (h : Agree s t) : Agree t s := ⟨h.memberOf.symm, h.bounds.symm⟩

theorem Agree.bounded {b b' : Nat} (h : Agree s t) (hb : Same s t b b') :
    List.Forall₂ (Same s t) (s.bounded b) (t.bounded b') :=
  h.bounds.rows (s.inside_edges _) (t.inside_edges _) hb

theorem Agree.targets {b b' : Nat} (h : Agree s t) (hb : Same s t b b') :
    Membership.Alike s t (s.targets b) (t.targets b') := by
  refine Membership.alike_of_exists (fun x hx => ?_) (fun y hy => ?_)
  · obtain ⟨y, hy, hxy⟩ :=
      h.bounds.edge_from (s.inside_edges _) (t.inside_edges _) hb (contains_targets.1 hx)
    exact ⟨y, hxy, contains_targets.2 hy⟩
  · obtain ⟨x, hx, hyx⟩ :=
      h.symm.bounds.edge_from (t.inside_edges _) (s.inside_edges _) hb.symm (contains_targets.1 hy)
    exact ⟨x, hyx.symm, contains_targets.2 hx⟩

theorem Agree.isBoundary {b : Nat} (h : Agree s t) (hb : s.IsBoundary b) :
    ∃ b', Same s t b b' ∧ t.IsBoundary b' := by
  obtain ⟨x, hx⟩ := hb
  obtain ⟨b', y, hy, hb', -⟩ := h.bounds.edge (s.inside_edges _) (t.inside_edges _) hx
  exact ⟨b', hb', y, hy⟩

/-- **One boundary**: the checks of corresponding boundaries cost the same and find the same. -/
theorem checkBoundary_same {b b' : Nat} (h : Agree s t) (hb : Same s t b b') :
    ∃ charges charges' outcome,
      Costs (s.checkBoundary (.ofStructure s) b (s.bounded b)) charges outcome
        ∧ Costs (t.checkBoundary (.ofStructure t) b' (t.bounded b')) charges' outcome
        ∧ Budget.total charges = Budget.total charges' := by
  obtain ⟨charges, charges', final, final', hclosure, hclosure', htotal, halike⟩ :=
    Membership.closure_same h.memberOf (h.bounded hb)
  obtain ⟨more, answer, answer', hchain, hchain', hlabels⟩ :=
    Membership.chain_same h.memberOf hb (h.targets hb)
  have hrow := map_label_of_forall₂ (h.bounded hb)
  have hin := halike b b' hb
  -- the violations are made of the same labels
  have hviolation : answer.map (s.boundaryViolation b (s.bounded b))
      = answer'.map (t.boundaryViolation b' (t.bounded b')) := by
    have hs : ∀ chain, s.boundaryViolation b (s.bounded b) chain
        = told (t.label b') ((t.bounded b').map t.label) (chain.map s.label) := by
      intro chain
      rw [boundaryViolation_eq, hb.label, hrow]
    have ht : ∀ chain, t.boundaryViolation b' (t.bounded b') chain
        = told (t.label b') ((t.bounded b').map t.label) (chain.map t.label) :=
      boundaryViolation_eq t b' (t.bounded b')
    have hmap := congrArg (Option.map (told (t.label b') ((t.bounded b').map t.label))) hlabels
    rw [Option.map_map, Option.map_map] at hmap
    rw [funext hs, funext ht]
    exact hmap
  have hcosts := checkBoundary_costs_of hclosure hchain
  have hcosts' := checkBoundary_costs_of hclosure' hchain'
  rw [← hin, ← hviolation] at hcosts'
  refine ⟨_, _, _, hcosts, hcosts', ?_⟩
  rw [Budget.total_append, Budget.total_append, htotal]

/-! ## §3. All boundaries. -/

/-- The labels of the boundaries, in the order of their numbers. -/
def boundaryLabels (s : Structure) : List String := (s.boundaries.map Prod.fst).map s.label

theorem boundaryLabels_perm (h : Agree s t) : s.boundaryLabels.Perm t.boundaryLabels := by
  refine perm_map_of_same (s := s) (t := t) (nodup_map_fst_boundaries s)
    (nodup_map_fst_boundaries t) (fun b hb => ?_) (fun b hb => ?_)
  · obtain ⟨b', hsame, hb'⟩ := h.isBoundary (mem_map_fst_boundaries.1 hb)
    exact ⟨b', mem_map_fst_boundaries.2 hb', hsame, hsame.label⟩
  · obtain ⟨b', hsame, hb'⟩ := h.symm.isBoundary (mem_map_fst_boundaries.1 hb)
    exact ⟨b', mem_map_fst_boundaries.2 hb', hsame.symm⟩

/-- The check of the boundary with some label, where there is one, costs and finds this. -/
def ChecksLabel (s : Structure) (label : String) (steps : Nat) (outcome : Option Violation) :
    Prop :=
  ∀ b, s.IsBoundary b → s.label b = label → ∃ charges,
    Costs (s.checkBoundary (.ofStructure s) b (s.bounded b)) charges outcome
      ∧ Budget.total charges = steps

/-- Where costs and findings are functions of labels, so are those of all checks together. -/
theorem checkBoundaries_of_labels {steps : String → Nat} {outcome : String → Option Violation}
    (h : ∀ label, s.ChecksLabel label (steps label) (outcome label)) :
    ∃ charges, Costs (s.checkBoundaries (.ofStructure s) s.boundaries) charges
        (s.boundaryLabels.filterMap outcome)
      ∧ Budget.total charges = Budget.total (s.boundaryLabels.map steps) := by
  have hcheck : ∀ b, ∃ charges, s.IsBoundary b →
      Costs (s.checkBoundary (.ofStructure s) b (s.bounded b)) charges (outcome (s.label b))
        ∧ Budget.total charges = steps (s.label b) := by
    intro b
    by_cases hb : s.IsBoundary b
    · obtain ⟨charges, hcosts⟩ := h (s.label b) b hb rfl
      exact ⟨charges, fun _ => hcosts⟩
    · exact ⟨[], fun hb' => absurd hb' hb⟩
  choose price hcosts using hcheck
  -- the findings go by labels already; the charges do once each check is told by its sum
  refine ⟨(s.boundaries.map Prod.fst).flatMap price, ?_, ?_⟩
  · unfold boundaryLabels
    rw [List.filterMap_map]
    exact checkBoundaries_costs_of fun b hb => (hcosts b hb).1
  · have hsteps : (s.boundaries.map Prod.fst).map (fun b => Budget.total (price b))
        = (s.boundaries.map Prod.fst).map (steps ∘ s.label) :=
      List.map_congr_left fun b hb => (hcosts b (mem_map_fst_boundaries.1 hb)).2
    unfold boundaryLabels
    rw [Budget.total_flatMap, hsteps, ← List.map_map]

/-- **One function of labels** tells what the checks of both structures cost and find. -/
theorem exists_checksLabel (h : Agree s t) (label : String) :
    ∃ steps outcome, s.ChecksLabel label steps outcome ∧ t.ChecksLabel label steps outcome := by
  by_cases hlabel : ∃ b, s.IsBoundary b ∧ s.label b = label
  · obtain ⟨b, hb, rfl⟩ := hlabel
    obtain ⟨b', hsame, hb'⟩ := h.isBoundary hb
    obtain ⟨charges, charges', outcome, hcosts, hcosts', htotal⟩ := checkBoundary_same h hsame
    refine ⟨Budget.total charges, outcome, ?_, ?_⟩
    · intro c hc hlabel
      cases s.label_injective hc.lt hb.lt hlabel
      exact ⟨charges, hcosts, rfl⟩
    · intro c hc hlabel
      cases t.label_injective hc.lt hb'.lt (hlabel.trans hsame.label)
      exact ⟨charges', hcosts', htotal.symm⟩
  · -- no boundary of either structure has this label
    refine ⟨0, none, fun b hb hb' => absurd ⟨b, hb, hb'⟩ hlabel, fun c hc hc' => ?_⟩
    obtain ⟨b, hsame, hb⟩ := h.symm.isBoundary hc
    exact absurd ⟨b, hb, hsame.label.symm.trans hc'⟩ hlabel

/-! ## §4. Inversions. -/

/-- Permuted facts have the same overlap at every label. -/
theorem overlapBreach?_perm (h : s.inversions.Perm t.inversions) (label : String) :
    overlapBreach? s.inversions label = overlapBreach? t.inversions label := by
  have hkind : ∀ f ∈ s.inversions.filter (fun f => label ∈ f.endpoints), f.kind = .inverts :=
    fun f hf => kind_of_mem_inversions (List.mem_filter.1 hf).1
  have hsort := bySignature_eq_of_perm hkind (h.filter _)
  unfold overlapBreach?
  rw [hsort]

/-- A shared node has a counterpart that is shared. -/
theorem shared_same (h : s.inversions.Perm t.inversions) {x : Nat} (hx : s.Shared x) :
    ∃ y, Same s t x y ∧ t.Shared y := by
  have hlen := (one_lt_length_facts_iff hx.lt).2 hx
  rw [(h.filter _).length_eq] at hlen
  -- some inversion of the other structure names the label
  obtain ⟨f, hf⟩ := List.exists_mem_of_length_pos (Nat.lt_trans Nat.zero_lt_one hlen)
  obtain ⟨hf, hlabel⟩ := List.mem_filter.1 hf
  obtain ⟨v, hv, rfl⟩ := List.mem_map.1 hf
  obtain ⟨y, hy, hxy⟩ := List.mem_map.1 (of_decide_eq_true hlabel)
  have hlt := (fits_of_mem_relationsOf hv).endpoint_lt y hy
  rw [← hxy] at hlen
  exact ⟨y, ⟨hx.lt, hlt, hxy.symm⟩, (one_lt_length_facts_iff hlt).1 hlen⟩

/-- **Listing does not matter**: permuted facts have permuted violations. -/
theorem inversionViolations_perm (h : s.inversions.Perm t.inversions) :
    s.inversionViolations.Perm t.inversionViolations := by
  rw [inversionViolations_eq, inversionViolations_eq]
  refine (h.filterMap _).append ?_
  -- the shared nodes by their labels
  have hlabels : ((Inversion.ofStructure s).sharedNodes.map s.label).Perm
      ((Inversion.ofStructure t).sharedNodes.map t.label) := by
    have hnodup : ∀ u : Structure, (Inversion.ofStructure u).sharedNodes.Nodup := fun u =>
      (Inversion.ascending_sharedNodes _).imp Nat.ne_of_lt
    refine perm_map_of_same (s := s) (t := t) (hnodup s) (hnodup t) (fun x hx => ?_)
      (fun y hy => ?_)
    · obtain ⟨y, hxy, hy⟩ := shared_same h (Inversion.mem_sharedNodes.1 hx)
      exact ⟨y, Inversion.mem_sharedNodes.2 hy, hxy, hxy.label⟩
    · obtain ⟨x, hyx, hx⟩ := shared_same h.symm (Inversion.mem_sharedNodes.1 hy)
      exact ⟨x, Inversion.mem_sharedNodes.2 hx, hyx.symm⟩
  have hbreach : overlapBreach? s.inversions = overlapBreach? t.inversions :=
    funext (overlapBreach?_perm h)
  have hperm := hlabels.filterMap (overlapBreach? t.inversions)
  rw [List.filterMap_map, List.filterMap_map] at hperm
  rw [hbreach]
  exact hperm

/-! ## §5. The whole validation. -/

/-- The endpoint labels of the declared relations of a kind, in order of declaration. -/
def declared (s : Structure) (kind : Relation.Kind) : List (List String) :=
  (s.relations.toList.filter (·.kind = kind)).map fun r => r.endpoints.map s.label

/-- A pair of labels is declared exactly when it is that of an edge. -/
theorem pair_mem_declared {kind : Relation.Kind} (hkind : kind.fixedArity = some 2) {a b : String} :
    [a, b] ∈ s.declared kind ↔ ∃ x y, (x, y) ∈ s.edges kind ∧ s.label x = a ∧ s.label y = b := by
  unfold declared
  simp only [List.mem_map, List.mem_filter, decide_eq_true_iff, Array.mem_toList_iff,
    mem_edges_iff hkind]
  constructor
  · intro h
    obtain ⟨r, ⟨hr, hk⟩, hlabels⟩ := h
    obtain ⟨x, y, hends⟩ := exists_ends hr (by rw [hk]; exact hkind)
    rw [hends] at hlabels
    cases hlabels
    exact ⟨x, y, ⟨r, hr, hk, hends⟩, rfl, rfl⟩
  · intro h
    obtain ⟨x, y, ⟨r, hr, hk, hends⟩, rfl, rfl⟩ := h
    exact ⟨r, ⟨hr, hk⟩, by rw [hends]; rfl⟩

theorem inversions_eq (s : Structure) :
    s.inversions = (s.declared .inverts).map fun labels => ⟨.inverts, labels⟩ := by
  have hfact : s.inversions = ((s.relationsOf .inverts).map Prod.snd).map s.fact := by
    rw [inversions, List.map_map]
    rfl
  rw [hfact, map_snd_relationsOf, declared, List.map_map]
  refine List.map_congr_left fun r hr => ?_
  have hkind : r.kind = .inverts := by simpa using (List.mem_filter.1 hr).2
  show (⟨r.kind, r.endpoints.map s.label⟩ : Fact) = _
  rw [hkind]
  rfl

theorem oversize?_eq_none {limits : Limits} (hnodes : s.nodeCount ≤ limits.maxNodes)
    (hrelations : s.relationCount ≤ limits.maxRelations) : s.oversize? limits = none := by
  unfold oversize?
  rw [if_neg (Nat.not_lt.2 hnodes), if_neg (Nat.not_lt.2 hrelations)]

/-- **Confluence**: two structures that declare the same pairs of labels as members and as bounds,
and the same lists of labels, however often each, as inversions, have the same outcome under all
limits on steps: the same witness in every part, or the same exhaustion. -/
theorem validate_confluent (s t : Structure)
    (hmembers : ∀ labels, labels ∈ s.declared .memberOf ↔ labels ∈ t.declared .memberOf)
    (hbounds : ∀ labels, labels ∈ s.declared .bounds ↔ labels ∈ t.declared .bounds)
    (hinverts : (s.declared .inverts).Perm (t.declared .inverts)) (limits : Limits)
    (hs : s.nodeCount ≤ limits.maxNodes ∧ s.relationCount ≤ limits.maxRelations)
    (ht : t.nodeCount ≤ limits.maxNodes ∧ t.relationCount ≤ limits.maxRelations) :
    s.validate limits = t.validate limits := by
  -- what is declared is all that the edges and the facts are made of
  have hagree : Agree s t := by
    refine ⟨fun a b => ?_, fun a b => ?_⟩
    · rw [← pair_mem_declared rfl, ← pair_mem_declared rfl]
      exact hmembers [a, b]
    · rw [← pair_mem_declared rfl, ← pair_mem_declared rfl]
      exact hbounds [a, b]
  have hinversions : s.inversions.Perm t.inversions := by
    rw [inversions_eq, inversions_eq]
    exact hinverts.map _
  choose steps outcome hchecks using exists_checksLabel hagree
  obtain ⟨charges, hcosts, htotal⟩ := checkBoundaries_of_labels fun label => (hchecks label).1
  obtain ⟨charges', hcosts', htotal'⟩ := checkBoundaries_of_labels fun label => (hchecks label).2
  have hlabels := boundaryLabels_perm hagree
  -- the same sum of charges, so the budget lasts for both or for neither
  have hcost : Budget.total charges = Budget.total charges' := by
    rw [htotal, htotal']
    exact Budget.total_perm (hlabels.map steps)
  -- the same violations in some order, and the same counts
  have hviolations : (s.boundaryLabels.filterMap outcome ++ s.inversionViolations).Perm
      (t.boundaryLabels.filterMap outcome ++ t.inversionViolations) :=
    (hlabels.filterMap outcome).append (inversionViolations_perm hinversions)
  have hboundaries : s.boundaries.length = t.boundaries.length := by
    simpa [boundaryLabels] using hlabels.length_eq
  have hcount : (s.relationsOf .inverts).length = (t.relationsOf .inverts).length := by
    simpa [inversions] using hinversions.length_eq
  have hwitness : s.witness (s.boundaryLabels.filterMap outcome ++ s.inversionViolations)
      = t.witness (t.boundaryLabels.filterMap outcome ++ t.inversionViolations) := by
    unfold witness
    rw [Violation.least_eq_of_perm hviolations, hboundaries, hcount]
  rw [validate_of_costs hcosts, validate_of_costs hcosts', oversize?_eq_none hs.1 hs.2,
    oversize?_eq_none ht.1 ht.2, hcost, hwitness]

/-- A boundary that is a member of both nodes it bounds, and two inversions of one pair. -/
def forward : List Call :=
  [.declare "A", .declare "B", .declare "C", .relate ⟨.memberOf, [0, 1], 1⟩,
    .relate ⟨.memberOf, [0, 2], 2⟩, .relate ⟨.bounds, [0, 1], 3⟩, .relate ⟨.bounds, [0, 2], 4⟩,
    .relate ⟨.inverts, [1, 2], 5⟩, .relate ⟨.inverts, [2, 1], 6⟩]

/-- The same in another order, with repetitions and a node that is in no relation. -/
def backward : List Call :=
  [.declare "C", .declare "Z", .declare "A", .relate ⟨.bounds, [2, 0], 1⟩, .declare "B",
    .relate ⟨.inverts, [0, 3], 1⟩, .relate ⟨.bounds, [2, 3], 2⟩, .relate ⟨.bounds, [2, 0], 3⟩,
    .relate ⟨.inverts, [3, 0], 4⟩, .relate ⟨.memberOf, [2, 0], 9⟩, .relate ⟨.memberOf, [2, 3], 9⟩,
    .relate ⟨.memberOf, [2, 0], 9⟩]

theorem forward_backward :
    (built forward).validate {} = (built backward).validate {}
      ∧ (built forward).validate ⟨4, 9, 7⟩ = (built backward).validate ⟨4, 9, 7⟩ := by
  have hpairs : ∀ labels : List String, labels ∈ [["A", "B"], ["A", "C"]]
      ↔ labels ∈ [["A", "C"], ["A", "B"], ["A", "C"]] := by
    intro labels
    grind
  have hmembers : ∀ labels, labels ∈ (built forward).declared .memberOf
      ↔ labels ∈ (built backward).declared .memberOf := by
    have hs : (built forward).declared .memberOf = [["A", "B"], ["A", "C"]] := by decide +kernel
    have ht : (built backward).declared .memberOf = [["A", "C"], ["A", "B"], ["A", "C"]] := by
      decide +kernel
    rw [hs, ht]
    exact hpairs
  have hbounds : ∀ labels, labels ∈ (built forward).declared .bounds
      ↔ labels ∈ (built backward).declared .bounds := by
    have hs : (built forward).declared .bounds = [["A", "B"], ["A", "C"]] := by decide +kernel
    have ht : (built backward).declared .bounds = [["A", "C"], ["A", "B"], ["A", "C"]] := by
      decide +kernel
    rw [hs, ht]
    exact hpairs
  have hinverts : ((built forward).declared .inverts).Perm ((built backward).declared .inverts) := by
    have hs : (built forward).declared .inverts = [["B", "C"], ["C", "B"]] := by decide +kernel
    have ht : (built backward).declared .inverts = [["C", "B"], ["B", "C"]] := by decide +kernel
    rw [hs, ht]
    exact List.Perm.swap _ _ _
  refine ⟨validate_confluent _ _ hmembers hbounds hinverts {} ?_ ?_,
    validate_confluent _ _ hmembers hbounds hinverts ⟨4, 9, 7⟩ ?_ ?_⟩
  · decide +kernel
  · decide +kernel
  · decide +kernel
  · decide +kernel

end Admissibility.Structure
