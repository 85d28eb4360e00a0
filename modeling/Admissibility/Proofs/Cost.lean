/-
  Admissibility.Proofs.Cost
  ─────────────────────────
  **What a validation costs, and when it runs out.**

  The cost of a structure is told by its declared relations alone.  Each boundary pays for the
  closure of what it bounds, one step for a node and one more for each of its direct members; a
  boundary in its own closure pays for the search of a chain as well, one step for a node passed
  through and one more for each of its containers.  A validation runs out of steps exactly when its
  limit lies below this cost, counted up to the largest count.

  `closure_steps`, `search_steps`: the two traversals from one boundary.
  `checkBoundary_steps`: the check of one boundary.
  `exhaustion_is_exact`: the outcome for all limits, as a case distinction on three numbers.
-/
import Mathlib.Algebra.BigOperators.Group.Finset.Basic
import Admissibility.Proofs.Membership.Taken
import Admissibility.Proofs.Verdict

namespace Admissibility

/-- The sum of charges is that of a list of numbers. -/
theorem Budget.total_map_of_nodup {ids : List Nat} (h : ids.Nodup) (price : Nat → Nat) :
    total (ids.map price) = ∑ x ∈ ids.toFinset, price x :=
  (List.sum_toFinset price h).symm

namespace Structure

open Metered (Costs)

variable {s : Structure} {b x : Nat}

/-! ## §1. The cost of a structure. -/

open Classical in
/-- The number of distinct direct members of a node. -/
noncomputable def memberCount (s : Structure) (x : Nat) : Nat :=
  ((Finset.range s.nodeCount).filter fun y => s.Declares .memberOf y x).card

open Classical in
/-- The number of distinct nodes that a node is a direct member of. -/
noncomputable def containerCount (s : Structure) (x : Nat) : Nat :=
  ((Finset.range s.nodeCount).filter fun y => s.Declares .memberOf x y).card

open Classical in
/-- The nodes from which declared member-of relations lead to some of the seeds that are nodes. -/
noncomputable def reaching (s : Structure) (seeds : List Nat) : Finset Nat :=
  (Finset.range s.nodeCount).filter fun x =>
    ∃ seed ∈ seeds, seed < s.nodeCount ∧ Relation.ReflTransGen (s.Declares .memberOf) x seed

/-- The steps of the closure of some seeds: one for each node of it, and one more for each of the
node's direct members. -/
noncomputable def reachingSteps (s : Structure) (seeds : List Nat) : Nat :=
  ∑ x ∈ s.reaching seeds, (1 + s.memberCount x)

open Classical in
/-- The member closure of what a node bounds. -/
noncomputable def closureNodes (s : Structure) (b : Nat) : Finset Nat :=
  (Finset.range s.nodeCount).filter fun x =>
    ∃ y, s.Declares .bounds b y ∧ Relation.ReflTransGen (s.Declares .memberOf) x y

open Classical in
/-- The nodes that the search of a chain from a node into what it bounds passes through. -/
noncomputable def searchNodes (s : Structure) (b : Nat) : Finset Nat :=
  (Finset.range s.nodeCount).filter fun x => s.Passes b (s.targets b) x

/-- The steps of the closure of what a node bounds. -/
noncomputable def closureSteps (s : Structure) (b : Nat) : Nat :=
  ∑ x ∈ s.closureNodes b, (1 + s.memberCount x)

/-- The steps of the search of a chain from a node into what it bounds. -/
noncomputable def searchSteps (s : Structure) (b : Nat) : Nat :=
  ∑ x ∈ s.searchNodes b, (1 + s.containerCount x)

/-- The steps of the check of one boundary. -/
noncomputable def boundarySteps (s : Structure) (b : Nat) : Nat :=
  s.closureSteps b + if b ∈ s.closureNodes b then s.searchSteps b else 0

/-- The steps of all checks together. -/
noncomputable def cost (s : Structure) : Nat := ∑ b ∈ s.boundsSources.toFinset, s.boundarySteps b

/-! ## §2. The nodes that are counted. -/

theorem declares_lt {kind : Relation.Kind} {y : Nat} (hkind : kind.fixedArity = some 2)
    (h : s.Declares kind x y) : x < s.nodeCount ∧ y < s.nodeCount :=
  edge_lt ((mem_edges_iff hkind).2 h)

/-- A list of nodes in the order of their labels counts the nodes that it lists. -/
theorem card_eq_length {P : Nat → Prop} [DecidablePred P] {ids : List Nat}
    (hascending : ids.Pairwise fun y z => s.label y < s.label z)
    (h : ∀ y, P y ↔ y ∈ ids) (hlt : ∀ y, P y → y < s.nodeCount) :
    ((Finset.range s.nodeCount).filter P).card = ids.length := by
  have hnodes : (Finset.range s.nodeCount).filter P = ids.toFinset := by
    ext y
    rw [Finset.mem_filter, Finset.mem_range, List.mem_toFinset, ← h]
    exact and_iff_right_of_imp (hlt y)
  rw [hnodes, List.toFinset_card_of_nodup (nodup_of_ascending hascending)]

/-- The index lists each direct member once. -/
theorem memberCount_eq (s : Structure) (x : Nat) :
    s.memberCount x = ((Membership.ofStructure s).membersOf x).length := by
  classical
  refine card_eq_length (ascending_row (s.inside_edges .memberOf).swap) (fun y => ?_)
    fun y h => (declares_lt rfl h).1
  rw [Membership.mem_membersOf, mem_edges_iff rfl]
  rfl

/-- The index lists each container once. -/
theorem containerCount_eq (s : Structure) (x : Nat) :
    s.containerCount x = ((Membership.ofStructure s).containersOf x).length := by
  classical
  refine card_eq_length (Membership.ascending_containersOf s x) (fun y => ?_)
    fun y h => (declares_lt rfl h).2
  rw [Membership.mem_containersOf, mem_edges_iff rfl]
  rfl

/-- Chains lead to seeds that are nodes, whatever else the seeds are. -/
theorem mem_reaching {seeds : List Nat} :
    x ∈ s.reaching seeds ↔ ∃ seed ∈ seeds, s.Chain x seed := by
  classical
  refine Finset.mem_filter.trans ?_
  rw [Finset.mem_range]
  constructor
  · intro h
    obtain ⟨hx, seed, hseed, -, hchain⟩ := h
    exact ⟨seed, hseed, (chain_iff hx).2 hchain⟩
  · intro h
    obtain ⟨seed, hseed, hchain⟩ := h
    exact ⟨hchain.lt_source, seed, hseed, hchain.lt_target, (chain_iff hchain.lt_source).1 hchain⟩

/-- The closure of what a node bounds is that of the bounded nodes as seeds. -/
theorem closureNodes_eq (s : Structure) (b : Nat) : s.closureNodes b = s.reaching (s.bounded b) := by
  classical
  refine Finset.filter_congr fun x _ => exists_congr fun y => ?_
  rw [mem_bounded, mem_edges_iff rfl]
  constructor
  · intro h
    obtain ⟨hy, hchain⟩ := h
    exact ⟨hy, (declares_lt rfl hy).2, hchain⟩
  · intro h
    obtain ⟨hy, -, hchain⟩ := h
    exact ⟨hy, hchain⟩

theorem mem_closureNodes : x ∈ s.closureNodes b ↔ ∃ y ∈ s.bounded b, s.Chain x y := by
  rw [closureNodes_eq, mem_reaching]

theorem lt_of_mem_closureNodes (hx : x ∈ s.closureNodes b) : x < s.nodeCount := by
  obtain ⟨y, -, hchain⟩ := mem_closureNodes.1 hx
  exact hchain.lt_source

/-- A boundary is in its own closure exactly when it is broken. -/
theorem mem_closureNodes_self : b ∈ s.closureNodes b ↔ s.BreaksBoundary b := by
  rw [mem_closureNodes]
  simp only [mem_bounded]
  rfl

theorem Passes.lt {source : Nat} {targets : NodeSet} (hsource : source < s.nodeCount)
    (h : s.Passes source targets x) : x < s.nodeCount := by
  obtain ⟨route, hroute, hlast, -⟩ := h
  exact (hroute.chain hsource hlast).lt_target

theorem mem_searchNodes (hb : b < s.nodeCount) :
    x ∈ s.searchNodes b ↔ s.Passes b (s.targets b) x := by
  classical
  refine Finset.mem_filter.trans ?_
  rw [Finset.mem_range]
  exact and_iff_right_of_imp fun h => h.lt hb

/-- Without boundaries there is nothing to pay for. -/
theorem cost_eq_zero (h : ∀ x, ¬ s.IsBoundary x) : s.cost = 0 := by
  have hempty : s.boundsSources.toFinset = ∅ := by
    refine Finset.eq_empty_iff_forall_notMem.2 fun x hx => ?_
    exact h x (mem_boundsSources.1 (List.mem_toFinset.1 hx))
  rw [cost, hempty, Finset.sum_empty]

/-! ## §3. The steps of the traversals. -/

/-- **The closure** of some seeds holds the nodes that reach one of them, and pays for each of them
and for its direct members. -/
theorem reaching_steps (s : Structure) (seeds : List Nat) :
    ∃ (charges : List Nat) (final : NodeSet),
      Costs ((Membership.ofStructure s).closure seeds) charges final
        ∧ (∀ x, final.contains x = true ↔ x ∈ s.reaching seeds)
        ∧ Budget.total charges = s.reachingSteps seeds
        ∧ (charges = [] ↔ s.reaching seeds = ∅) := by
  obtain ⟨order, final, hcosts, hnodup, hfinal, horder⟩ := Membership.closure_costs s seeds
  have hnodes : order.toFinset = s.reaching seeds := by
    ext x
    rw [List.mem_toFinset, horder, mem_reaching]
  refine ⟨_, final, hcosts, fun x => ?_, ?_, ?_⟩
  · rw [hfinal, ← hnodes, List.mem_toFinset]
  · rw [Budget.total_map_of_nodup hnodup, hnodes]
    refine Finset.sum_congr rfl fun x _ => ?_
    show 1 + ((Membership.ofStructure s).membersOf x).length = _
    rw [memberCount_eq]
  · rw [List.map_eq_nil_iff, ← hnodes, List.toFinset_eq_empty_iff]

/-- The closure of what a boundary bounds holds the boundary exactly if it is broken. -/
theorem closure_steps (s : Structure) (b : Nat) : ∃ (charges : List Nat) (final : NodeSet),
    Costs ((Membership.ofStructure s).closure (s.bounded b)) charges final
      ∧ (final.contains b = true ↔ s.BreaksBoundary b)
      ∧ Budget.total charges = s.closureSteps b := by
  obtain ⟨charges, final, hcosts, hfinal, htotal, -⟩ := reaching_steps s (s.bounded b)
  refine ⟨charges, final, hcosts, ?_, ?_⟩
  · rw [hfinal, ← closureNodes_eq, mem_closureNodes_self]
  · rw [htotal, reachingSteps, ← closureNodes_eq, closureSteps]

/-- **The search of a chain** pays for the nodes that it passes through and their containers. -/
theorem search_steps (hb : b < s.nodeCount) : ∃ (charges : List Nat) (answer : Option (List Nat)),
    Costs ((Membership.ofStructure s).chain b (s.targets b)) charges answer
      ∧ s.Answers b (s.targets b) answer ∧ Budget.total charges = s.searchSteps b := by
  obtain ⟨taken, answer, hcosts, hanswer, hnodup, htaken⟩ :=
    Membership.chain_taken hb (s.targets b)
  refine ⟨_, answer, hcosts, hanswer, ?_⟩
  have hnodes : taken.toFinset = s.searchNodes b := by
    ext x
    rw [List.mem_toFinset, htaken, mem_searchNodes hb]
  rw [Budget.total_map_of_nodup hnodup, hnodes]
  refine Finset.sum_congr rfl fun x _ => ?_
  show 1 + ((Membership.ofStructure s).containersOf x).length = _
  rw [containerCount_eq]

theorem checkBoundary_steps (hb : b < s.nodeCount) :
    ∃ (charges : List Nat) (outcome : Option Violation),
      Costs (s.checkBoundary (.ofStructure s) b (s.bounded b)) charges outcome
        ∧ s.Finds b outcome ∧ Budget.total charges = s.boundarySteps b := by
  obtain ⟨charges, final, hclosure, hclosed, htotal⟩ := closure_steps s b
  obtain ⟨more, answer, hchain, hanswer, hmore⟩ := search_steps hb
  refine ⟨_, _, checkBoundary_costs_of hclosure hchain, finds_of_answers hb hclosed hanswer, ?_⟩
  rw [Budget.total_append, htotal, boundarySteps]
  -- the search is paid for where the closure holds the boundary
  by_cases hbroken : s.BreaksBoundary b
  · rw [if_pos (hclosed.2 hbroken), if_pos (mem_closureNodes_self.2 hbroken), hmore]
  · rw [if_neg fun h => hbroken (hclosed.1 h), if_neg fun h => hbroken (mem_closureNodes_self.1 h)]
    rfl

/-- **All checks together** cost what the structure costs. -/
theorem checkBoundaries_steps (s : Structure) :
    ∃ (charges : List Nat) (violations : List Violation),
      Costs (s.checkBoundaries (.ofStructure s) s.boundaries) charges violations
        ∧ s.Breaches violations ∧ Budget.total charges = s.cost := by
  -- charges and outcomes are chosen for all numbers, and matter for boundaries only
  have hcheck : ∀ b, ∃ charges outcome, s.IsBoundary b →
      Costs (s.checkBoundary (.ofStructure s) b (s.bounded b)) charges outcome
        ∧ s.Finds b outcome ∧ Budget.total charges = s.boundarySteps b := by
    intro b
    by_cases h : s.IsBoundary b
    · obtain ⟨charges, outcome, hcosts⟩ := checkBoundary_steps h.lt
      exact ⟨charges, outcome, fun _ => hcosts⟩
    · exact ⟨[], none, fun hb => absurd hb h⟩
  choose price outcome hcosts using hcheck
  refine ⟨_, _, checkBoundaries_costs_of fun b hb => (hcosts b hb).1,
    breaches_of_finds fun b hb => (hcosts b hb).2.1, ?_⟩
  have hsteps : (s.boundaries.map Prod.fst).map (fun b => Budget.total (price b))
      = (s.boundaries.map Prod.fst).map s.boundarySteps :=
    List.map_congr_left fun b hb => (hcosts b (mem_map_fst_boundaries.1 hb)).2.2
  rw [Budget.total_flatMap, hsteps, Budget.total_map_of_nodup (nodup_map_fst_boundaries s), cost,
    toFinset_boundsSources]

/-! ## §4. The outcome for all limits. -/

/-- The budget lasts exactly when its limit is not below the cost, or is the largest count. -/
theorem min_le_iff_not_exhausted (steps limit : Nat) :
    min steps maxCount ≤ limit ↔ ¬ (limit < steps ∧ limit < maxCount) := by
  omega

theorem validate_eq_cost (s : Structure) : ∃ violations, s.Breaches violations
    ∧ ∀ limits : Limits, s.validate limits =
      if limits.maxNodes < s.nodeCount then .error ⟨.nodes, limits.maxNodes⟩
      else if limits.maxRelations < s.relationCount then .error ⟨.relations, limits.maxRelations⟩
      else if limits.maxClosureSteps < s.cost ∧ limits.maxClosureSteps < maxCount then
        .error ⟨.closureSteps, limits.maxClosureSteps⟩
      else .ok (s.witness (violations ++ s.inversionViolations)) := by
  obtain ⟨charges, violations, hcosts, hbreaches, htotal⟩ := checkBoundaries_steps s
  refine ⟨violations, hbreaches, fun limits => ?_⟩
  rw [validate_of_costs hcosts, htotal, oversize?]
  by_cases hnodes : limits.maxNodes < s.nodeCount
  · rw [if_pos hnodes, if_pos hnodes]
  rw [if_neg hnodes, if_neg hnodes]
  by_cases hrelations : limits.maxRelations < s.relationCount
  · rw [if_pos hrelations, if_pos hrelations]
  rw [if_neg hrelations, if_neg hrelations]
  simp only [min_le_iff_not_exhausted, ite_not]

/-- The limits of a validation that ends with a witness are not passed. -/
theorem within_limits {limits : Limits} {w : Witness} (h : s.validate limits = .ok w) :
    ¬ limits.maxNodes < s.nodeCount ∧ ¬ limits.maxRelations < s.relationCount
      ∧ ¬ (limits.maxClosureSteps < s.cost ∧ limits.maxClosureSteps < maxCount) := by
  obtain ⟨violations, -, heq⟩ := s.validate_eq_cost
  rw [heq] at h
  refine ⟨fun hnodes => ?_, fun hrelations => ?_, fun hsteps => ?_⟩
  · rw [if_pos hnodes] at h
    cases h
  · rw [if_pos hrelations] at h
    split at h <;> cases h
  · rw [if_pos hsteps] at h
    split at h
    · cases h
    · split at h <;> cases h

/-- **Exact resource errors, with a threshold**: the limits on nodes and on relations are looked at
first and in this order; after that the validation runs out of steps exactly when its limit lies
below the cost of the structure and below the largest count, and otherwise ends with one and the
same witness.  The steps counted for the search of a chain are those that the search charges.  So
larger limits keep a witness. -/
theorem exhaustion_is_exact (s : Structure) :
    (∀ b ∈ s.boundsSources, ∃ charges answer,
        Costs ((Membership.ofStructure s).chain b (s.targets b)) charges answer
          ∧ Budget.total charges = s.searchSteps b)
      ∧ (∃ w : Witness, ∀ limits : Limits, s.validate limits =
          if limits.maxNodes < s.nodeCount then .error ⟨.nodes, limits.maxNodes⟩
          else if limits.maxRelations < s.relationCount then
            .error ⟨.relations, limits.maxRelations⟩
          else if limits.maxClosureSteps < s.cost ∧ limits.maxClosureSteps < maxCount then
            .error ⟨.closureSteps, limits.maxClosureSteps⟩
          else .ok w)
      ∧ ∀ (limits raised : Limits) (w : Witness), limits.maxNodes ≤ raised.maxNodes →
          limits.maxRelations ≤ raised.maxRelations →
          limits.maxClosureSteps ≤ raised.maxClosureSteps →
          s.validate limits = .ok w → s.validate raised = .ok w := by
  obtain ⟨violations, -, heq⟩ := s.validate_eq_cost
  refine ⟨fun b hb => ?_, ⟨_, heq⟩, fun limits raised w hnodes hrelations hsteps h => ?_⟩
  · obtain ⟨charges, answer, hcosts, -, htotal⟩ := search_steps (mem_boundsSources.1 hb).lt
    exact ⟨charges, answer, hcosts, htotal⟩
  · -- where a verdict stays within its limits, it stays within larger ones
    obtain ⟨hn, hr, hc⟩ := within_limits h
    rw [heq, if_neg hn, if_neg hr, if_neg hc] at h
    rw [heq, if_neg (by omega), if_neg (by omega), if_neg (by omega)]
    exact h

/-- A boundary in what it bounds, beside another member, and an inversion of a single node. -/
def strained : List Call :=
  [.declare "A", .declare "B", .declare "C", .relate ⟨.memberOf, [0, 1], 1⟩,
    .relate ⟨.memberOf, [2, 1], 2⟩, .relate ⟨.bounds, [0, 1], 3⟩, .relate ⟨.inverts, [2], 4⟩]

theorem strained_cost :
    (built strained).cost = 7
      ∧ (built strained).validate ⟨3, 4, 6⟩ = .error ⟨.closureSteps, 6⟩
      ∧ (∃ w, (built strained).validate ⟨3, 4, 7⟩ = .ok w ∧ (built strained).validate {} = .ok w)
      ∧ ∃ charges answer,
        Costs ((Membership.ofStructure (built strained)).chain 0 ((built strained).targets 0))
          charges answer ∧ Budget.total charges = (built strained).searchSteps 0 := by
  obtain ⟨hsearch, ⟨w, hw⟩, hraise⟩ := exhaustion_is_exact (built strained)
  have hnodes : (built strained).nodeCount = 3 := by decide +kernel
  have hrelations : (built strained).relationCount = 4 := by decide +kernel
  have hshort : (built strained).validate ⟨3, 4, 6⟩ = .error ⟨.closureSteps, 6⟩ := by
    simp only [validate, boundaries, Membership.ofStructure, neighbours_eq_insertionSort]
    decide +kernel
  have hlong : ((built strained).validate ⟨3, 4, 7⟩).isOk = true := by
    simp only [validate, boundaries, Membership.ofStructure, neighbours_eq_insertionSort]
    decide +kernel
  have hsources : (built strained).boundsSources = [0] := by decide +kernel
  -- the limit 6 is below the cost, and the limit 7 is not
  have hlow : 6 < (built strained).cost := by
    by_contra hle
    rw [hw, hnodes, hrelations] at hshort
    simp [hle] at hshort
  have hhigh : (built strained).cost ≤ 7 := by
    by_contra hlt
    rw [hw, hnodes, hrelations] at hlong
    simp [Nat.lt_of_not_le hlt, maxCount, Except.isOk, Except.toBool] at hlong
  have hok : (built strained).validate ⟨3, 4, 7⟩ = .ok w := by
    rw [hw, hnodes, hrelations]
    simp [Nat.not_lt.2 hhigh]
  refine ⟨by omega, hshort, ⟨w, hok, ?_⟩, hsearch 0 (by rw [hsources]; simp)⟩
  exact hraise ⟨3, 4, 7⟩ {} w (by decide) (by decide) (by decide) hok

end Structure

end Admissibility
