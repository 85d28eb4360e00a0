/-
  Admissibility.Proofs.Membership.Shortest
  ────────────────────────────────────────
  **The chain from a node into a set is a shortest one, and of those the one with the least
  labels.**

  `chain_is_shortest`: what the search returns whenever its budget suffices, for every structure,
  every node and every set of targets.
-/
import Admissibility.Proofs.Builder
import Admissibility.Proofs.Membership.Search

namespace Admissibility.Membership

/-- **Shortest chain, ties broken by labels.**  A run that is not stopped gives no chain exactly
when no target can be reached; otherwise its chain starts in the source, ends in a target, follows
declared relations, is as short as any route into the targets, and has the least sequence of
labels among the routes that are as short. -/
theorem chain_is_shortest (s : Structure) (source : Nat) (hsource : source < s.nodeCount)
    (targets : NodeSet) (b : Budget) (answer : Option (List Nat))
    (h : (((ofStructure s).chain source targets).run.run b).1 = .ok answer) :
    (answer = none ↔ ∀ target, targets.contains target = true → ¬ s.Chain source target)
      ∧ ∀ chain, answer = some chain →
          chain.head? = some source
          ∧ (∃ target, chain.getLast? = some target ∧ targets.contains target = true)
          ∧ (chain.IsChain fun x y => ∃ r ∈ s.relations, r.kind = .memberOf ∧ r.endpoints = [x, y])
          ∧ (∀ other, s.Leads source targets other → chain.length ≤ other.length)
          ∧ ∀ other, s.Leads source targets other → other.length = chain.length →
              chain.map s.label ≤ other.map s.label := by
  obtain ⟨charges, found, hcosts, hanswers⟩ := chain_costs hsource targets
  obtain ⟨rfl, -⟩ := hcosts.eq_of_run_ok h
  refine ⟨?_, ?_⟩
  · rw [hanswers.eq_none_iff, Structure.exists_leads_iff hsource]
    simp only [not_exists, not_and]
  · intro chain heq
    subst heq
    obtain ⟨⟨hroute, hlast⟩, hfirst⟩ := hanswers
    refine ⟨hroute.head, hlast, hroute.linked.imp ?_, ?_, ?_⟩
    · intro x y hedge
      exact (Structure.mem_edges_iff rfl).1 hedge
    · intro other hother
      exact (hfirst other hother).length_le
    · intro other hother hlen
      rcases hfirst other hother with hlt | ⟨-, hle⟩
      · omega
      · exact hle

/-- Two routes of equal length, one longer route, and a cycle back to the source. -/
def detours : List Structure.Call :=
  [.declare "A", .declare "M", .declare "K", .declare "T", .relate ⟨.memberOf, [0, 1], 1⟩,
    .relate ⟨.memberOf, [0, 2], 2⟩, .relate ⟨.memberOf, [1, 3], 3⟩, .relate ⟨.memberOf, [2, 3], 4⟩,
    .relate ⟨.memberOf, [1, 2], 5⟩, .relate ⟨.memberOf, [2, 0], 6⟩]

theorem detours_chain :
    (((ofStructure (.built detours)).chain 0 (.ofList 4 [3])).run.run ⟨6, 0⟩).1
        = .ok (some [0, 2, 3])
      ∧ ∀ other, (Structure.built detours).Leads 0 (.ofList 4 [3]) other →
          3 ≤ other.length
          ∧ (other.length = 3 → ["A", "K", "T"] ≤ other.map (Structure.built detours).label) := by
  have hrun : (((ofStructure (.built detours)).chain 0 (.ofList 4 [3])).run.run ⟨6, 0⟩).1
      = .ok (some [0, 2, 3]) := by
    -- the search can be carried out in an index that is sorted by insertion
    simp only [ofStructure, Structure.neighbours_eq_insertionSort]
    decide +kernel
  have hsource : 0 < (Structure.built detours).nodeCount := by decide +kernel
  have hlabels : [0, 2, 3].map (Structure.built detours).label = ["A", "K", "T"] := by
    decide +kernel
  obtain ⟨-, hchain⟩ := chain_is_shortest (.built detours) 0 hsource (.ofList 4 [3]) ⟨6, 0⟩ _ hrun
  obtain ⟨-, -, -, hshort, hleast⟩ := hchain [0, 2, 3] rfl
  refine ⟨hrun, fun other hother => ⟨hshort other hother, fun hlen => ?_⟩⟩
  rw [← hlabels]
  exact hleast other hother hlen

end Admissibility.Membership
