/-
  Admissibility.Proofs.Membership.Price
  ─────────────────────────────────────
  **The closure of seeds is exact reachability at an exact price.**

  A closure charges for each node that reaches a seed, in an order that depends on the seeds; but
  the charges only fail by their sum.  So what a run comes to is told by the set of these nodes and
  by one number, from any budget.

  `closure_run`: every run, by whether its budget is exceeded.
  `closure_is_exact`: when a run fails, and what it gives and has spent otherwise.
-/
import Admissibility.Proofs.Cost

namespace Admissibility

/-- Only the seeds that are nodes count, in any order and number. -/
theorem Structure.reaching_eq {s : Structure} {seeds others : List Nat}
    (h : ∀ x < s.nodeCount, x ∈ others ↔ x ∈ seeds) : s.reaching others = s.reaching seeds := by
  ext x
  rw [mem_reaching, mem_reaching]
  refine exists_congr fun seed => and_congr_left fun hchain => ?_
  exact h seed hchain.lt_target

namespace Membership

variable {s : Structure} {seeds others : List Nat} {b : Budget}

/-- The closure of some seeds costs more than is left of a budget.  A closure without nodes costs
nothing, so that it asks for no budget. -/
def Exceeds (s : Structure) (seeds : List Nat) (b : Budget) : Prop :=
  (s.reaching seeds).Nonempty ∧ b.limit < min (b.spent + s.reachingSteps seeds) maxCount

/-- What a run comes to: the stop, or the nodes found in ascending order and the steps spent. -/
def outcome (run : Except Stop NodeSet × Budget) : Except Stop (List Nat × Nat) :=
  run.1.map fun final => (final.toList, run.2.spent)

theorem outcome_eq_error_iff {run : Except Stop NodeSet × Budget} {stop : Stop} :
    outcome run = .error stop ↔ run.1 = .error stop := by
  obtain ⟨answer, final⟩ := run
  cases answer <;> simp [outcome, Except.map]

/-- **Every run** fails where the budget is exceeded, and is paid for otherwise. -/
theorem closure_run (s : Structure) (seeds : List Nat) {b : Budget} (hb : b.spent ≤ maxCount) :
    (Exceeds s seeds b
        ∧ (((ofStructure s).closure seeds).run.run b).1 = .error (.budgetExceeded b.limit))
      ∨ (¬ Exceeds s seeds b ∧ ∃ final, ((ofStructure s).closure seeds).run.run b
            = (.ok final, ⟨b.limit, min (b.spent + s.reachingSteps seeds) maxCount⟩)
          ∧ ∀ x, final.contains x = true ↔ x ∈ s.reaching seeds) := by
  obtain ⟨charges, final, hcosts, hfinal, htotal, hnil⟩ := s.reaching_steps seeds
  have hexceeds : Exceeds s seeds b ↔ ¬ b.Affords charges := by
    rw [Budget.affords_iff hb, htotal, hnil, not_or, Nat.not_le]
    exact and_congr_left fun _ => Finset.nonempty_iff_ne_empty
  by_cases h : b.Affords charges
  · refine .inr ⟨fun hex => hexceeds.1 hex h, final, ?_, hfinal⟩
    rw [hcosts.run_of_affords h, Budget.chargeAll_eq hb, htotal]
  · exact .inl ⟨hexceeds.2 h, hcosts.run_of_not_affords h⟩

/-- **Other seeds with the same nodes** among them come to the same. -/
theorem outcome_eq (hb : b.spent ≤ maxCount) (hsame : ∀ x < s.nodeCount, x ∈ others ↔ x ∈ seeds) :
    outcome (((ofStructure s).closure others).run.run b)
      = outcome (((ofStructure s).closure seeds).run.run b) := by
  have hnodes : s.reaching others = s.reaching seeds := Structure.reaching_eq hsame
  have hsteps : s.reachingSteps others = s.reachingSteps seeds := by
    rw [Structure.reachingSteps, hnodes, Structure.reachingSteps]
  have hexceeds : Exceeds s others b ↔ Exceeds s seeds b := by
    rw [Exceeds, hnodes, hsteps, Exceeds]
  rcases closure_run s seeds hb with ⟨hex, herror⟩ | ⟨hno, final, hrun, hfinal⟩
  · rcases closure_run s others hb with ⟨-, herror'⟩ | ⟨hno', -⟩
    · rw [outcome, outcome, herror, herror']
      rfl
    · exact absurd (hexceeds.2 hex) hno'
  · rcases closure_run s others hb with ⟨hex', -⟩ | ⟨-, final', hrun', hfinal'⟩
    · exact absurd (hexceeds.1 hex') hno
    · -- both sets hold the same nodes, so they are listed alike
      have hlist : final'.toList = final.toList :=
        NodeSet.toList_eq fun x => by rw [hfinal', hfinal, hnodes]
      rw [hrun, hrun', hsteps]
      show Except.ok (final'.toList, _) = Except.ok (final.toList, _)
      rw [hlist]

/-- **Exact reachability at an exact price.**  From any budget of 64 bits, a closure fails exactly
where it exceeds the budget, and with the limit as its reason.  Otherwise it gives exactly the nodes
that reach a seed, and their price has been spent.  Seeds in another order or number, with other
numbers that are no nodes among them, come to the same. -/
theorem closure_is_exact (s : Structure) (seeds : List Nat) (b : Budget) (hb : b.spent ≤ maxCount) :
    (∀ stop, (((ofStructure s).closure seeds).run.run b).1 = .error stop ↔
        Exceeds s seeds b ∧ stop = .budgetExceeded b.limit)
      ∧ (¬ Exceeds s seeds b → ∃ final, ((ofStructure s).closure seeds).run.run b
            = (.ok final, ⟨b.limit, min (b.spent + s.reachingSteps seeds) maxCount⟩)
          ∧ ∀ x, final.contains x = true ↔ x ∈ s.reaching seeds)
      ∧ ∀ others : List Nat, (∀ x < s.nodeCount, x ∈ others ↔ x ∈ seeds) →
          outcome (((ofStructure s).closure others).run.run b)
            = outcome (((ofStructure s).closure seeds).run.run b) := by
  refine ⟨fun stop => ?_, fun hwithin => ?_, fun others hsame => outcome_eq hb hsame⟩
  · rcases closure_run s seeds hb with ⟨hex, herror⟩ | ⟨hno, final, hrun, -⟩
    · rw [herror]
      exact ⟨fun h => ⟨hex, (Except.error.inj h).symm⟩, fun h => congrArg Except.error h.2.symm⟩
    · rw [hrun]
      exact ⟨fun h => (by cases h), fun h => absurd h.1 hno⟩
  · rcases closure_run s seeds hb with ⟨hex, -⟩ | ⟨-, hrun⟩
    · exact absurd hex hwithin
    · exact hrun

/-- Two nodes in each other, a third one in one of them, twice, and one that is in none. -/
def entangled : List Structure.Call :=
  [.declare "A", .declare "B", .declare "C", .declare "D", .relate ⟨.memberOf, [0, 1], 1⟩,
    .relate ⟨.memberOf, [1, 0], 2⟩, .relate ⟨.memberOf, [2, 0], 3⟩, .relate ⟨.memberOf, [2, 0], 4⟩]

theorem entangled_price :
    (∀ x, x ∈ (Structure.built entangled).reaching [9, 1, 1] ↔ x ∈ [0, 1, 2])
      ∧ (Structure.built entangled).reachingSteps [9, 1, 1] = 6
      ∧ Exceeds (.built entangled) [9, 1, 1] ⟨10, 5⟩
      ∧ ¬ Exceeds (.built entangled) [9, 1, 1] ⟨11, 5⟩
      ∧ outcome (((ofStructure (.built entangled)).closure [1, 8]).run.run ⟨11, 5⟩)
          = .ok ([0, 1, 2], 11) := by
  have hindex : ofStructure (.built entangled)
      = ⟨#[[1], [0], [0], []], #[[1, 2], [0], [], []]⟩ := by
    simp only [ofStructure, Structure.neighbours_eq_insertionSort]
    decide +kernel
  have hshort : outcome (((ofStructure (.built entangled)).closure [9, 1, 1]).run.run ⟨10, 5⟩)
      = .error (.budgetExceeded 10) := by
    rw [hindex]
    decide +kernel
  have hlong : outcome (((ofStructure (.built entangled)).closure [9, 1, 1]).run.run ⟨11, 5⟩)
      = .ok ([0, 1, 2], 11) := by
    rw [hindex]
    decide +kernel
  have hcount : (Structure.built entangled).nodeCount = 4 := by decide +kernel
  obtain ⟨hfails, -, -⟩ := closure_is_exact (.built entangled) [9, 1, 1] ⟨10, 5⟩ (by decide)
  obtain ⟨hfails', hgives, hothers⟩ :=
    closure_is_exact (.built entangled) [9, 1, 1] ⟨11, 5⟩ (by decide)
  have hwithin : ¬ Exceeds (.built entangled) [9, 1, 1] ⟨11, 5⟩ := by
    intro hex
    rw [outcome_eq_error_iff.2 ((hfails' _).2 ⟨hex, rfl⟩)] at hlong
    cases hlong
  have hsame : ∀ x < (Structure.built entangled).nodeCount, x ∈ [1, 8] ↔ x ∈ [9, 1, 1] := by
    rw [hcount]
    decide
  have hother := (hothers [1, 8] hsame).trans hlong
  obtain ⟨final, hrun, hfinal⟩ := hgives hwithin
  rw [hrun] at hlong
  obtain ⟨hlist, hspent⟩ := Prod.mk.inj (Except.ok.inj hlong)
  refine ⟨fun x => ?_, ?_, ((hfails _).1 (outcome_eq_error_iff.1 hshort)).1, hwithin, hother⟩
  · rw [← hfinal, ← hlist]
    exact NodeSet.mem_toList.symm
  · have hmax : 16 < maxCount := by decide
    simp only at hspent
    omega

end Membership

end Admissibility
