/-
  Admissibility.Proofs.Membership.Lockstep
  ────────────────────────────────────────
  **Searches of two structures that agree go in lockstep.**

  Where the member-of relations of two structures are the same in terms of labels, a search of one
  visits the counterparts of what the search of the other visits, in the same order: containers are
  looked through in the order of labels, which does not depend on numbering.  So both pay the same
  charges, step by step, and find chains with the same labels.

  `explore_same`: looking through corresponding containers keeps the searches together.
  `search_same`: whole runs, with their charges.
  `chain_same`, `closure_same`: the chain into a set, and the closure of seeds.
-/
import Admissibility.Membership.Search
import Admissibility.Proofs.Agreement
import Admissibility.Proofs.Membership.Closure
import Admissibility.Proofs.Membership.Search

namespace Admissibility.Membership

open Metered (Costs)
open Structure (Same Matches)

variable {s t : Structure}

/-! ## §1. Corresponding sets and trails. -/

/-- Sets that hold corresponding nodes. -/
def Alike (s t : Structure) (first second : NodeSet) : Prop :=
  ∀ x y, Same s t x y → first.contains x = second.contains y

/-- Sets hold corresponding nodes where each element of one has a counterpart in the other. -/
theorem alike_of_exists {first second : NodeSet}
    (hto : ∀ x, first.contains x = true → ∃ y, Same s t x y ∧ second.contains y = true)
    (hfrom : ∀ y, second.contains y = true → ∃ x, Same s t x y ∧ first.contains x = true) :
    Alike s t first second := by
  intro x y hxy
  rw [Bool.eq_iff_iff]
  constructor
  · intro hx
    obtain ⟨w, hxw, hw⟩ := hto x hx
    exact hxy.right_unique hxw ▸ hw
  · intro hy
    obtain ⟨z, hzy, hz⟩ := hfrom y hy
    exact hxy.left_unique hzy ▸ hz

/-- Sets of visited nodes, which have room for all nodes. -/
structure Visited (s t : Structure) (first second : NodeSet) : Prop where
  left : first.capacity = s.nodeCount
  right : second.capacity = t.nodeCount
  alike : Alike s t first second

/-- Trails over corresponding nodes. -/
structure SameTrail (s t : Structure) (first second : Trail) : Prop where
  last : Same s t first.last second.last
  before : List.Forall₂ (Same s t) first.before second.before

theorem SameTrail.extend {first second : Trail} {x y : Nat} (h : SameTrail s t first second)
    (hxy : Same s t x y) : SameTrail s t (first.extend x) (second.extend y) :=
  ⟨hxy, .cons h.last h.before⟩

theorem SameTrail.nodes {first second : Trail} (h : SameTrail s t first second) :
    first.nodes.map s.label = second.nodes.map t.label := by
  have hall : List.Forall₂ (Same s t) (first.last :: first.before) (second.last :: second.before) :=
    .cons h.last h.before
  exact Structure.map_label_of_forall₂ (List.rel_reverse hall)

/-- Corresponding nodes are both new to sets of visited nodes, or neither is. -/
theorem Visited.insert? {first second : NodeSet} {x y : Nat} (h : Visited s t first second)
    (hxy : Same s t x y) :
    (first.insert? x = none ∧ second.insert? y = none)
      ∨ ∃ first' second', first.insert? x = some first' ∧ second.insert? y = some second'
          ∧ Visited s t first' second' := by
  have hx : x < first.capacity := by
    rw [h.left]
    exact hxy.left
  have hy : y < second.capacity := by
    rw [h.right]
    exact hxy.right
  have hsame := h.alike x y hxy
  by_cases hseen : first.contains x = true
  · -- visited on both sides
    refine .inl ⟨NodeSet.insert?_eq_none_iff.2 fun _ => hseen, ?_⟩
    exact NodeSet.insert?_eq_none_iff.2 fun _ => hsame ▸ hseen
  · -- new on both sides, and the two new elements correspond
    have hnot : first.contains x = false := Bool.eq_false_iff.2 hseen
    obtain ⟨first', hfirst⟩ :=
      Option.isSome_iff_exists.1 ((NodeSet.insert?_isSome first x).2 ⟨hx, hnot⟩)
    obtain ⟨second', hsecond⟩ :=
      Option.isSome_iff_exists.1 ((NodeSet.insert?_isSome second y).2 ⟨hy, hsame ▸ hnot⟩)
    refine .inr ⟨first', second', hfirst, hsecond, ?_, ?_, ?_⟩
    · rw [NodeSet.capacity_insert? hfirst, h.left]
    · rw [NodeSet.capacity_insert? hsecond, h.right]
    · intro z w hzw
      rw [NodeSet.contains_insert? hfirst, NodeSet.contains_insert? hsecond, h.alike z w hzw]
      have heq : z = x ↔ w = y := by
        constructor
        · intro hz
          rw [hz] at hzw
          exact hzw.right_unique hxy
        · intro hw
          rw [hw] at hzw
          exact hzw.left_unique hxy
      have hbeq : (z == x) = (w == y) := by
        rw [Bool.eq_iff_iff, beq_iff_eq, beq_iff_eq, heq]
      rw [hbeq]

/-! ## §2. One step. -/

/-- Outcomes of looking through corresponding containers. -/
inductive SameExploration (s t : Structure) : Exploration → Exploration → Prop where
  | reached {first second : Trail} :
      SameTrail s t first second → SameExploration s t (.reached first) (.reached second)
  | onward {first second : NodeSet} {work work' : List Trail} :
      Visited s t first second → List.Forall₂ (SameTrail s t) work work' →
      SameExploration s t (.onward first work) (.onward second work')

/-- **Looking through corresponding containers keeps the searches together.** -/
theorem explore_same {targets targets' first second : NodeSet} {trail trail' : Trail}
    {work work' : List Trail} {ids ids' : List Nat} (htargets : Alike s t targets targets')
    (htrail : SameTrail s t trail trail') (hids : List.Forall₂ (Same s t) ids ids')
    (hvisited : Visited s t first second) (hwork : List.Forall₂ (SameTrail s t) work work') :
    SameExploration s t (explore targets trail first work ids)
      (explore targets' trail' second work' ids') := by
  induction hids generalizing first second work work' with
  | nil => exact .onward hvisited hwork
  | @cons x y ids ids' hxy _ ih =>
    unfold explore
    rcases hvisited.insert? hxy with ⟨hfirst, hsecond⟩ | ⟨first', second', hfirst, hsecond, hnew⟩
    · rw [hfirst, hsecond]
      exact ih hvisited hwork
    · rw [hfirst, hsecond]
      -- a target on one side is a target on the other
      have hsame := htargets x y hxy
      by_cases htarget : targets.contains x = true
      · have htarget' : targets'.contains y = true := hsame ▸ htarget
        simp only [if_pos htarget, if_pos htarget']
        exact .reached (htrail.extend hxy)
      · have htarget' : ¬ targets'.contains y = true := hsame ▸ htarget
        simp only [if_neg htarget, if_neg htarget']
        exact ih hnew (.cons (htrail.extend hxy) hwork)

/-! ## §3. Whole runs. -/

/-- Corresponding nodes have corresponding containers. -/
theorem containersOf_same {x y : Nat} (h : Matches s t (s.edges .memberOf) (t.edges .memberOf))
    (hxy : Same s t x y) :
    List.Forall₂ (Same s t) ((ofStructure s).containersOf x) ((ofStructure t).containersOf y) :=
  h.rows (s.inside_edges _) (t.inside_edges _) hxy

/-- **Searches in lockstep** pay the same charges and find chains with the same labels. -/
theorem search_same (h : Matches s t (s.edges .memberOf) (t.edges .memberOf))
    {targets targets' first second : NodeSet} {level later level' later' : List Trail}
    (htargets : Alike s t targets targets') (hvisited : Visited s t first second)
    (hlevel : List.Forall₂ (SameTrail s t) level level')
    (hlater : List.Forall₂ (SameTrail s t) later later') :
    ∃ charges answer answer',
      Costs (search (ofStructure s) targets first level later) charges answer
        ∧ Costs (search (ofStructure t) targets' second level' later') charges answer'
        ∧ answer.map (List.map s.label) = answer'.map (List.map t.label) := by
  -- the induction follows the first search; the second one is where its counterpart is
  induction first, level, later using search.induct (ofStructure s) targets
    generalizing second level' later' with
  | case1 first =>
    cases hlevel
    cases hlater
    refine ⟨[], none, none, ?_, ?_, rfl⟩
    · unfold search
      exact Costs.pure none
    · unfold search
      exact Costs.pure none
  | case2 first trail later ih =>
    cases hlevel
    obtain ⟨trail', rest, htrail, hrest, rfl⟩ := List.forall₂_cons_left_iff.1 hlater
    -- both searches turn to the next level
    rw [search, search]
    exact ih hvisited (List.rel_reverse (.cons htrail hrest)) .nil
  | case3 first trail level later ih =>
    obtain ⟨trail', rest, htrail, hrest, rfl⟩ := List.forall₂_cons_left_iff.1 hlevel
    have hids := containersOf_same h htrail.last
    have hexplore := explore_same htargets htrail hids hvisited hlater
    have hprice : searchPrice (ofStructure s) trail = searchPrice (ofStructure t) trail' := by
      unfold searchPrice
      rw [hids.length_eq]
    rw [search_cons, search_cons, hprice]
    generalize explore targets trail first later ((ofStructure s).containersOf trail.last) = found
      at ih hexplore ⊢
    generalize explore targets' trail' second later'
      ((ofStructure t).containersOf trail'.last) = found' at hexplore ⊢
    cases hexplore with
    | reached htrails =>
      refine ⟨_, _, _, (Costs.spend _).bind (Costs.pure _), (Costs.spend _).bind (Costs.pure _), ?_⟩
      exact congrArg some htrails.nodes
    | onward hnew hwork =>
      obtain ⟨charges, answer, answer', hcosts, hcosts', hlabels⟩ := ih _ _ rfl hnew hrest hwork
      exact ⟨_, answer, answer', (Costs.spend _).bind hcosts, (Costs.spend _).bind hcosts', hlabels⟩

/-- The chains from corresponding nodes into sets that hold corresponding nodes. -/
theorem chain_same (h : Matches s t (s.edges .memberOf) (t.edges .memberOf)) {x y : Nat}
    {targets targets' : NodeSet} (hxy : Same s t x y) (htargets : Alike s t targets targets') :
    ∃ charges answer answer',
      Costs ((ofStructure s).chain x targets) charges answer
        ∧ Costs ((ofStructure t).chain y targets') charges answer'
        ∧ answer.map (List.map s.label) = answer'.map (List.map t.label) := by
  unfold chain
  have hsame := htargets x y hxy
  by_cases htarget : targets.contains x = true
  · -- both sources are targets themselves
    rw [if_pos htarget, if_pos (hsame ▸ htarget)]
    refine ⟨[], _, _, Costs.pure _, Costs.pure _, ?_⟩
    show some [s.label x] = some [t.label y]
    rw [hxy.label]
  · rw [if_neg htarget, if_neg (hsame ▸ htarget)]
    -- both searches begin with the source as the only node visited
    have hempty : Visited s t (NodeSet.empty (ofStructure s).nodeCount)
        (NodeSet.empty (ofStructure t).nodeCount) := by
      refine ⟨?_, ?_, fun z w _ => ?_⟩
      · rw [NodeSet.capacity_empty, nodeCount_ofStructure]
      · rw [NodeSet.capacity_empty, nodeCount_ofStructure]
      · rw [NodeSet.contains_empty, NodeSet.contains_empty]
    have hstart : Visited s t ((NodeSet.empty (ofStructure s).nodeCount).insert x)
        ((NodeSet.empty (ofStructure t).nodeCount).insert y) := by
      unfold NodeSet.insert
      rcases hempty.insert? hxy with ⟨hfirst, hsecond⟩ | ⟨first, second, hfirst, hsecond, hnew⟩
      · rw [hfirst, hsecond]
        exact hempty
      · rw [hfirst, hsecond]
        exact hnew
    have htrail : SameTrail s t ⟨x, []⟩ ⟨y, []⟩ := ⟨hxy, .nil⟩
    exact search_same h htargets hstart (.cons htrail .nil) .nil

/-! ## §4. Closures. -/

/-- Corresponding nodes cost the same to take. -/
theorem closePrice_same {x y : Nat} (h : Matches s t (s.edges .memberOf) (t.edges .memberOf))
    (hxy : Same s t x y) : (ofStructure s).closePrice x = (ofStructure t).closePrice y := by
  have hrows := h.swap.rows (s.inside_edges _).swap (t.inside_edges _).swap hxy
  unfold closePrice
  rw [membersOf_eq, membersOf_eq, hrows.length_eq]

/-- What has a chain to a seed has a counterpart with a chain to a seed. -/
theorem reaches_same (h : Matches s t (s.edges .memberOf) (t.edges .memberOf)) {x : Nat}
    {seeds seeds' : List Nat} (hseeds : List.Forall₂ (Same s t) seeds seeds')
    (hx : ∃ seed ∈ seeds, s.Chain x seed) :
    ∃ y, Same s t x y ∧ ∃ seed ∈ seeds', t.Chain y seed := by
  obtain ⟨seed, hseed, hchain⟩ := hx
  obtain ⟨seed', hseed', hsame⟩ := Structure.exists_same_of_mem hseeds hseed
  obtain ⟨y, hxy, hchain'⟩ := h.chain hchain hsame
  exact ⟨y, hxy, seed', hseed', hchain'⟩

/-- **Closures of corresponding seeds** hold corresponding nodes and cost the same in total; the
order in which the nodes are taken does not matter for that. -/
theorem closure_same (h : Matches s t (s.edges .memberOf) (t.edges .memberOf))
    {seeds seeds' : List Nat} (hseeds : List.Forall₂ (Same s t) seeds seeds') :
    ∃ charges charges' final final',
      Costs ((ofStructure s).closure seeds) charges final
        ∧ Costs ((ofStructure t).closure seeds') charges' final'
        ∧ Budget.total charges = Budget.total charges' ∧ Alike s t final final' := by
  obtain ⟨order, final, hcosts, hnodup, hfinal, horder⟩ := closure_costs s seeds
  obtain ⟨order', final', hcosts', hnodup', hfinal', horder'⟩ := closure_costs t seeds'
  have hseeds' : List.Forall₂ (Same t s) seeds' seeds :=
    (List.Forall₂.flip hseeds).imp fun _ _ hsame => hsame.symm
  have hto : ∀ x ∈ order, ∃ y ∈ order', Same s t x y := by
    intro x hx
    obtain ⟨y, hxy, hy⟩ := reaches_same h hseeds ((horder x).1 hx)
    exact ⟨y, (horder' y).2 hy, hxy⟩
  have hfrom : ∀ y ∈ order', ∃ x ∈ order, Same s t x y := by
    intro y hy
    obtain ⟨x, hyx, hx⟩ := reaches_same h.symm hseeds' ((horder' y).1 hy)
    exact ⟨x, (horder x).2 hx, hyx.symm⟩
  -- the nodes taken correspond without their order, and a sum of prices needs no more
  refine ⟨_, _, final, final', hcosts, hcosts', Budget.total_perm ?_, ?_⟩
  · refine Structure.perm_map_of_same hnodup hnodup' (fun x hx => ?_) hfrom
    obtain ⟨y, hy, hxy⟩ := hto x hx
    exact ⟨y, hy, hxy, closePrice_same h hxy⟩
  · refine alike_of_exists (fun x hx => ?_) (fun y hy => ?_)
    · obtain ⟨y, hy, hxy⟩ := hto x ((hfinal x).1 hx)
      exact ⟨y, hxy, (hfinal' y).2 hy⟩
    · obtain ⟨x, hx, hxy⟩ := hfrom y ((hfinal' y).1 hy)
      exact ⟨x, hxy, (hfinal x).2 hx⟩

end Admissibility.Membership
