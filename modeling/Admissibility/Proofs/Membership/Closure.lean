/-
  Admissibility.Proofs.Membership.Closure
  ───────────────────────────────────────
  **The closure is exactly what reaches a seed, and every node of it is paid for once.**

  The nodes are taken in the order in which they were found.  `Closing` says what a run that starts
  from some worklist comes to: the nodes it takes are distinct, they hold the worklist, they are
  closed under direct members, and nothing is among them that is not forced to be.

  `close_costs`: every run of the search is of that kind and charges for each node it takes.
  `closure_costs`: from seeds, the nodes taken are those with a chain to a seed.
-/
import Admissibility.Membership.Closure
import Admissibility.Proofs.Adjacency
import Admissibility.Proofs.Metered
import Admissibility.Proofs.NodeSet

namespace Admissibility.Membership

open Metered (Costs)

/-! ## §1. Looking through one list. -/

/-- A set of nodes after those of a list were inserted; `fresh` are the new ones in order. -/
structure Absorbed (found found' : NodeSet) (ids fresh : List Nat) : Prop where
  capacity : found'.capacity = found.capacity
  nodup : fresh.Nodup
  mem_fresh : ∀ x, x ∈ fresh ↔ x ∈ ids ∧ x < found.capacity ∧ found.contains x = false
  contains : ∀ x, found'.contains x = true ↔ found.contains x = true ∨ x ∈ fresh

/-- The head of a list is refused, so what the rest comes to is what the whole list comes to. -/
theorem Absorbed.refused {found found' : NodeSet} {id : Nat} {ids fresh : List Nat}
    (hrefused : found.insert? id = none) (h : Absorbed found found' ids fresh) :
    Absorbed found found' (id :: ids) fresh := by
  refine ⟨h.capacity, h.nodup, fun x => ?_, h.contains⟩
  rw [h.mem_fresh, List.mem_cons]
  constructor
  · intro hx
    obtain ⟨hx, hrest⟩ := hx
    exact ⟨.inr hx, hrest⟩
  · intro hx
    obtain ⟨heq | hx, hlt, hnot⟩ := hx
    · -- the head is out of range or found before, so it is not among the new ones
      subst heq
      rw [NodeSet.insert?_eq_none_iff.1 hrefused hlt] at hnot
      cases hnot
    · exact ⟨hx, hlt, hnot⟩

/-- The head of a list is inserted, and is the first of the new ones. -/
theorem Absorbed.inserted {found found₁ found' : NodeSet} {id : Nat} {ids fresh : List Nat}
    (hinserted : found.insert? id = some found₁) (h : Absorbed found₁ found' ids fresh) :
    Absorbed found found' (id :: ids) (id :: fresh) := by
  obtain ⟨hlt, hnew⟩ := NodeSet.new_of_insert? hinserted
  have hcapacity := NodeSet.capacity_insert? hinserted
  have hfresh : ∀ x, x ∈ fresh ↔
      x ∈ ids ∧ x < found.capacity ∧ x ≠ id ∧ found.contains x = false := by
    intro x
    rw [h.mem_fresh, hcapacity, ← Bool.not_eq_true, NodeSet.contains_of_insert? hinserted]
    simp
  refine ⟨h.capacity.trans hcapacity, ?_, ?_, ?_⟩
  · -- the rest of the list finds the head there already
    exact List.nodup_cons.2 ⟨fun hid => ((hfresh id).1 hid).2.2.1 rfl, h.nodup⟩
  · intro x
    rw [List.mem_cons, List.mem_cons, hfresh]
    by_cases hx : x = id
    · subst hx
      simp [hlt, hnew]
    · simp [hx]
  · intro x
    rw [h.contains, NodeSet.contains_of_insert? hinserted, List.mem_cons]
    exact or_assoc.trans or_left_comm

theorem absorb_spec (found : NodeSet) (worklist ids : List Nat) :
    ∃ fresh, (absorb found worklist ids).2 = fresh.reverse ++ worklist
      ∧ Absorbed found (absorb found worklist ids).1 ids fresh := by
  induction ids generalizing found worklist with
  | nil => exact ⟨[], rfl, rfl, .nil, by simp, by simp [absorb]⟩
  | cons id ids ih =>
    unfold absorb
    split
    · next found₁ h =>
      obtain ⟨fresh, hlist, habsorbed⟩ := ih found₁ (id :: worklist)
      refine ⟨id :: fresh, ?_, habsorbed.inserted h⟩
      rw [hlist]
      simp
    · next h =>
      obtain ⟨fresh, hlist, habsorbed⟩ := ih found worklist
      exact ⟨fresh, hlist, habsorbed.refused h⟩

/-! ## §2. The search. -/

/-- The steps that taking a node costs. -/
def closePrice (m : Membership) (id : Nat) : Nat := 1 + (m.membersOf id).length

/-- What a search comes to that has found some nodes and has yet to take some of them: the nodes
that it takes, in order, and the set that it finds. -/
structure Closing (m : Membership) (found : NodeSet) (work order : List Nat) (final : NodeSet) :
    Prop where
  nodup : order.Nodup
  begins : ∀ x ∈ work, x ∈ order
  fresh : ∀ x ∈ order, x ∈ work ∨ found.contains x = false
  contains : ∀ x, final.contains x = true ↔ found.contains x = true ∨ x ∈ order
  closed : ∀ x ∈ order, ∀ y ∈ m.membersOf x, y < found.capacity → final.contains y = true
  least : ∀ P : Nat → Prop, (∀ x ∈ work, P x) → (∀ x y, P x → y ∈ m.membersOf x → P y) →
    ∀ x ∈ order, P x

/-- Taking one node in front of a search. -/
theorem Closing.take {m : Membership} {found found' final : NodeSet} {id : Nat}
    {work order fresh : List Nat} (hid : found.contains id = true) (hnot : id ∉ work)
    (habs : Absorbed found found' (m.membersOf id) fresh)
    (h : Closing m found' (work ++ fresh) order final) :
    Closing m found (id :: work) (id :: order) final := by
  have hfound : ∀ x, found.contains x = true → found'.contains x = true := fun x hx =>
    (habs.contains x).2 (.inl hx)
  have hnew : ∀ x ∈ fresh, found.contains x = false := fun x hx => ((habs.mem_fresh x).1 hx).2.2
  refine ⟨?_, ?_, ?_, ?_, ?_, ?_⟩
  · -- the node waits nowhere else and was found before, so it is not taken again
    refine List.nodup_cons.2 ⟨fun hmem => ?_, h.nodup⟩
    rcases h.fresh id hmem with hwork | hcontains
    · rcases List.mem_append.1 hwork with hw | hf
      · exact hnot hw
      · rw [hnew id hf] at hid
        cases hid
    · rw [hfound id hid] at hcontains
      cases hcontains
  · -- the node and all that waited behind it are taken
    intro x hx
    rcases List.mem_cons.1 hx with rfl | hx
    · exact List.mem_cons_self
    · exact List.mem_cons_of_mem _ (h.begins x (List.mem_append_left _ hx))
  · -- what is taken and did not wait was found by a later step
    intro x hx
    rcases List.mem_cons.1 hx with rfl | hx
    · exact .inl List.mem_cons_self
    · rcases h.fresh x hx with hwork | hcontains
      · rcases List.mem_append.1 hwork with hw | hf
        · exact .inl (List.mem_cons_of_mem _ hw)
        · exact .inr (hnew x hf)
      · refine .inr (Bool.eq_false_iff.2 fun hx' => ?_)
        rw [hfound x hx'] at hcontains
        cases hcontains
  · -- the set at the end holds what was found at first, and what was taken
    intro x
    rw [h.contains, habs.contains, List.mem_cons]
    constructor
    · intro hx
      rcases hx with (hx | hf) | ho
      · exact .inl hx
      · exact .inr (.inr (h.begins x (List.mem_append_right _ hf)))
      · exact .inr (.inr ho)
    · intro hx
      rcases hx with hx | rfl | ho
      · exact .inl (.inl hx)
      · exact .inl (.inl hid)
      · exact .inr ho
  · intro x hx y hy hlt
    rcases List.mem_cons.1 hx with rfl | hx
    -- the members of the node itself were all inserted or found before
    · rw [h.contains, habs.contains, habs.mem_fresh]
      cases hc : found.contains y with
      | true => exact .inl (.inl rfl)
      | false => exact .inl (.inr ⟨hy, hlt, rfl⟩)
    · exact h.closed x hx y hy (habs.capacity ▸ hlt)
  · -- what is new waits as a member of the node, which has the property
    intro P hbegin hstep x hx
    have hPid : P id := hbegin id List.mem_cons_self
    rcases List.mem_cons.1 hx with rfl | hx
    · exact hPid
    · refine h.least P (fun y hy => ?_) hstep x hx
      rcases List.mem_append.1 hy with hw | hf
      · exact hbegin y (List.mem_cons_of_mem _ hw)
      · exact hstep id y hPid ((habs.mem_fresh y).1 hf).1

/-- **Every node taken is paid for once**, whatever the budget. -/
theorem close_costs (m : Membership) (found : NodeSet) (level later : List Nat)
    (hfound : ∀ x ∈ level ++ later.reverse, found.contains x = true)
    (hnodup : (level ++ later.reverse).Nodup) :
    ∃ order final, Costs (close m found level later) (order.map m.closePrice) final
      ∧ Closing m found (level ++ later.reverse) order final := by
  induction found, level, later using close.induct m with
  | case1 found =>
    refine ⟨[], found, ?_, .nil, by simp, by simp, by simp, by simp, by simp⟩
    unfold close
    exact Costs.pure found
  | case2 found id later ih =>
    -- the next level becomes the present one, and the same nodes wait in the same order
    unfold close
    have hsame : (id :: later).reverse ++ [].reverse = [] ++ (id :: later).reverse := by simp
    rw [← hsame] at hfound hnodup ⊢
    exact ih hfound hnodup
  | case3 found id level later ih =>
    obtain ⟨fresh, hlist, habs⟩ := absorb_spec found later (m.membersOf id)
    have hwork : level ++ (absorb found later (m.membersOf id)).2.reverse
        = level ++ later.reverse ++ fresh := by
      rw [hlist]
      simp
    -- what waits after the step is what waited before, and then the new ones
    rw [hwork] at ih
    rw [List.cons_append] at hfound hnodup ⊢
    obtain ⟨hnot, hrest⟩ := List.nodup_cons.1 hnodup
    obtain ⟨order, final, hcosts, hclosing⟩ := ih
      (by
        intro x hx
        rw [habs.contains]
        rcases List.mem_append.1 hx with hw | hf
        · exact .inl (hfound x (List.mem_cons_of_mem _ hw))
        · exact .inr hf)
      (by
        refine List.nodup_append.2 ⟨hrest, habs.nodup, ?_⟩
        intro x hw y hf hxy
        subst hxy
        have := hfound x (List.mem_cons_of_mem _ hw)
        rw [((habs.mem_fresh x).1 hf).2.2] at this
        cases this)
    refine ⟨id :: order, final, ?_, hclosing.take (hfound id List.mem_cons_self) hnot habs⟩
    unfold close
    exact (Costs.spend _).bind hcosts

/-! ## §3. The closure of seeds. -/

/-- **The closure is exactly what reaches a seed**: its nodes, each taken and paid for once, are
those with a member-of chain to a seed. -/
theorem closure_costs (s : Structure) (seeds : List Nat) :
    ∃ (order : List Nat) (final : NodeSet),
      Costs ((ofStructure s).closure seeds) (order.map (ofStructure s).closePrice) final
      ∧ order.Nodup ∧ (∀ x, final.contains x = true ↔ x ∈ order)
      ∧ ∀ x, x ∈ order ↔ ∃ seed ∈ seeds, s.Chain x seed := by
  obtain ⟨fresh, hlist, habs⟩ :=
    absorb_spec (NodeSet.empty (ofStructure s).nodeCount) [] seeds
  have hcapacity : (NodeSet.empty (ofStructure s).nodeCount).capacity = s.nodeCount := by
    rw [NodeSet.capacity_empty, nodeCount_ofStructure]
  have hwork : [] ++ (absorb (NodeSet.empty (ofStructure s).nodeCount) [] seeds).2.reverse
      = fresh := by
    rw [hlist]
    simp
  have hstart : ∀ x, (absorb (NodeSet.empty (ofStructure s).nodeCount) [] seeds).1.contains x = true
      ↔ x ∈ fresh := by
    intro x
    rw [habs.contains, NodeSet.contains_empty]
    simp
  obtain ⟨order, final, hcosts, hclosing⟩ := close_costs (ofStructure s) _ _ _
    (by rw [hwork]; exact fun x hx => (hstart x).2 hx) (by rw [hwork]; exact habs.nodup)
  rw [hwork] at hclosing
  -- nothing was found before the seeds, so all that is found is taken
  have hfinal : ∀ x, final.contains x = true ↔ x ∈ order := by
    intro x
    rw [hclosing.contains, hstart]
    exact ⟨fun h => h.elim (hclosing.begins x) id, .inr⟩
  refine ⟨order, final, hcosts, hclosing.nodup, hfinal, fun x => ⟨?_, ?_⟩⟩
  · -- each node taken is a seed or a member of one taken before
    refine hclosing.least (fun x => ∃ seed ∈ seeds, s.Chain x seed) (fun y hy => ?_) ?_ x
    · obtain ⟨hseed, hlt, -⟩ := (habs.mem_fresh y).1 hy
      exact ⟨y, hseed, .refl (hcapacity ▸ hlt)⟩
    · intro y z hy hz
      obtain ⟨seed, hseed, hchain⟩ := hy
      exact ⟨seed, hseed, .step (mem_membersOf.1 hz) hchain⟩
  · intro hx
    obtain ⟨seed, hseed, hchain⟩ := hx
    -- from the seed back along the chain: each node is a member of one that was taken
    induction hchain with
    | refl hlt =>
      refine hclosing.begins _ ((habs.mem_fresh _).2 ⟨hseed, ?_, NodeSet.contains_empty _ _⟩)
      rw [hcapacity]
      exact hlt
    | step hedge _ ih =>
      refine (hfinal _).1 (hclosing.closed _ (ih hseed) _ (mem_membersOf.2 hedge) ?_)
      rw [habs.capacity, hcapacity]
      exact (Structure.edge_lt hedge).1

end Admissibility.Membership
