/-
  Admissibility.Proofs.Validation
  ───────────────────────────────
  **What a validation comes to, for all limits at once.**

  A structure determines the steps of its validation and the violations in it; the limits decide
  only whether the validation gets that far.

  `Breaches`, `mem_inversionViolations`: the violations, told without any search.
  `validate_eq`: the outcome for all limits, by one cost and one list of violations.
  `violations_eq_nil_iff`: the list is empty exactly when the structure is admissible.
-/
import Admissibility.Proofs.Boundary
import Admissibility.Proofs.Inversion
import Admissibility.Proofs.Violation

namespace Admissibility.Structure

open Metered (Costs)

variable {s : Structure} {v : Violation}

/-! ## §1. The violations of inversions. -/

theorem arityBreach?_eq_some_iff {f : Fact} :
    arityBreach? f = some v ↔ ¬ PairsDistinct f ∧ v = .inversionArity f.endpoints f := by
  unfold arityBreach?
  split
  · next h => simp [h]
  · next h => simp [h, eq_comm]

theorem overlapBreach?_eq_some_iff {facts : List Fact} {label : String} :
    overlapBreach? facts label = some v ↔ ∃ first second rest,
      bySignature (facts.filter fun f => label ∈ f.endpoints) = first :: second :: rest
        ∧ v = .inversionOverlap label first second := by
  unfold overlapBreach?
  split
  · next first second rest h =>
    rw [h]
    constructor
    · intro heq
      exact ⟨first, second, rest, rfl, (Option.some.inj heq).symm⟩
    · intro h
      obtain ⟨first', second', rest', hlist, rfl⟩ := h
      cases hlist
      rfl
  · next hno =>
    refine ⟨fun h => (by cases h), fun h => ?_⟩
    obtain ⟨first, second, rest, hlist, -⟩ := h
    exact (hno first second rest hlist).elim

/-- A shared node has two facts at least, so its violation is there. -/
theorem exists_overlapBreach {x : Nat} (h : s.Shared x) :
    ∃ v, overlapBreach? s.inversions (s.label x) = some v := by
  have hlen := (one_lt_length_facts_iff h.lt).2 h
  rw [← (bySignature_perm _).length_eq] at hlen
  match hlist : bySignature (s.inversions.filter fun f => s.label x ∈ f.endpoints), hlen with
  | first :: second :: rest, _ =>
    exact ⟨_, overlapBreach?_eq_some_iff.2 ⟨first, second, rest, hlist, rfl⟩⟩

/-- **Exactly the breaches of inversions** are listed: every relation that does not pair two nodes
and every node that is shared. -/
theorem mem_inversionViolations : v ∈ s.inversionViolations ↔
    (∃ f ∈ s.inversions, ¬ PairsDistinct f ∧ v = .inversionArity f.endpoints f)
      ∨ ∃ x, s.Shared x ∧ overlapBreach? s.inversions (s.label x) = some v := by
  rw [inversionViolations_eq, List.mem_append, List.mem_filterMap, List.mem_filterMap]
  simp only [arityBreach?_eq_some_iff, Inversion.mem_sharedNodes]

/-! ## §2. All violations. -/

/-- A list that holds the violation of every broken boundary, and no others of that sort. -/
structure Breaches (s : Structure) (violations : List Violation) : Prop where
  sound : ∀ v ∈ violations, ∃ b, s.BreaksBoundary b ∧ s.Finds b (some v)
  complete : ∀ b, s.BreaksBoundary b → ∃ v ∈ violations, s.Finds b (some v)

/-- What the checks of all boundaries find together. -/
theorem breaches_of_finds {outcome : Nat → Option Violation}
    (h : ∀ b, s.IsBoundary b → s.Finds b (outcome b)) :
    s.Breaches ((s.boundaries.map Prod.fst).filterMap outcome) := by
  refine ⟨fun v hv => ?_, fun b hbroken => ?_⟩
  · -- what is collected was found at some boundary
    obtain ⟨b, hb, hout⟩ := List.mem_filterMap.1 hv
    have hboundary := mem_map_fst_boundaries.1 hb
    have hfound := h b hboundary
    rw [hout] at hfound
    exact ⟨b, (hfound.isSome_iff hboundary.lt).1 rfl, hfound⟩
  · -- every broken boundary was checked, and its check found something
    have hfound := h b hbroken.isBoundary
    obtain ⟨v, hv⟩ :=
      Option.isSome_iff_exists.1 ((hfound.isSome_iff hbroken.isBoundary.lt).2 hbroken)
    rw [hv] at hfound
    exact ⟨v, List.mem_filterMap.2 ⟨b, mem_map_fst_boundaries.2 hbroken.isBoundary, hv⟩, hfound⟩

/-- A validation is its checks of boundaries, between the limits on size and the witness. -/
theorem validate_of_costs {charges : List Nat} {violations : List Violation}
    (h : Costs (s.checkBoundaries (.ofStructure s) s.boundaries) charges violations)
    (limits : Limits) : s.validate limits =
      match s.oversize? limits with
      | some exhausted => .error exhausted
      | none =>
        if min (Budget.total charges) maxCount ≤ limits.maxClosureSteps then
          .ok (s.witness (violations ++ s.inversionViolations))
        else .error ⟨.closureSteps, limits.maxClosureSteps⟩ := by
  unfold validate
  rw [h.run_start]
  cases s.oversize? limits with
  | some exhausted => rfl
  | none =>
    by_cases hwithin : min (Budget.total charges) maxCount ≤ limits.maxClosureSteps
    · simp only [if_pos hwithin]
    · simp only [if_neg hwithin]
      rfl

/-- **One cost and one verdict**: the limits decide only whether the validation ends. -/
theorem validate_eq (s : Structure) : ∃ (cost : Nat) (violations : List Violation),
    s.Breaches violations ∧ ∀ limits, s.validate limits =
      match s.oversize? limits with
      | some exhausted => .error exhausted
      | none =>
        if min cost maxCount ≤ limits.maxClosureSteps then
          .ok (s.witness (violations ++ s.inversionViolations))
        else .error ⟨.closureSteps, limits.maxClosureSteps⟩ := by
  obtain ⟨charges, outcome, hcosts, hfinds⟩ := checkBoundaries_costs s
  exact ⟨Budget.total charges, _, breaches_of_finds hfinds, validate_of_costs hcosts⟩

/-- A validation that ends gives the witness for all violations. -/
theorem witness_of_validate {limits : Limits} {w : Witness} (h : s.validate limits = .ok w) :
    ∃ violations, s.Breaches violations ∧ w = s.witness (violations ++ s.inversionViolations) := by
  obtain ⟨cost, violations, hbreaches, heq⟩ := s.validate_eq
  rw [heq] at h
  split at h
  · cases h
  · split at h
    · exact ⟨violations, hbreaches, (Except.ok.inj h).symm⟩
    · cases h

/-! ## §3. Admissible structures. -/

theorem Breaches.eq_nil_iff {violations : List Violation} (h : s.Breaches violations) :
    violations = [] ↔ ∀ b, ¬ s.BreaksBoundary b := by
  constructor
  · intro hnil b hb
    rw [hnil] at h
    obtain ⟨v, hv, -⟩ := h.complete b hb
    cases hv
  · intro hnone
    refine List.eq_nil_iff_forall_not_mem.2 fun v hv => ?_
    obtain ⟨b, hb, -⟩ := h.sound v hv
    exact hnone b hb

theorem inversionViolations_eq_nil_iff : s.inversionViolations = [] ↔
    (∀ v ∈ s.relationsOf .inverts, DistinctPair v.2.endpoints) ∧ ∀ id, ¬ s.Shared id := by
  rw [List.eq_nil_iff_forall_not_mem]
  simp only [mem_inversionViolations, not_or, not_exists, not_and]
  constructor
  · intro h
    refine ⟨fun v hv => ?_, fun id hid => ?_⟩
    · -- a relation that is no distinct pair would have its violation
      refine Decidable.byContradiction fun hno => (h _).1 (s.fact v.2) ?_ ?_ rfl
      · exact List.mem_map.2 ⟨v, hv, rfl⟩
      · rw [pairsDistinct_fact_iff (fits_of_mem_relationsOf hv)]
        exact hno
    · obtain ⟨v, hv⟩ := exists_overlapBreach hid
      exact (h v).2 id hid hv
  · intro h v
    obtain ⟨hpairs, hshared⟩ := h
    refine ⟨fun f hf hno => ?_, fun x hx => absurd hx (hshared x)⟩
    obtain ⟨u, hu, rfl⟩ := List.mem_map.1 hf
    exact absurd ((pairsDistinct_fact_iff (fits_of_mem_relationsOf hu)).2 (hpairs u hu)) hno

/-- There is nothing to report exactly when the structure is admissible. -/
theorem violations_eq_nil_iff {violations : List Violation} (h : s.Breaches violations) :
    violations ++ s.inversionViolations = [] ↔ s.Admissible := by
  rw [List.append_eq_nil_iff, h.eq_nil_iff, inversionViolations_eq_nil_iff]
  exact ⟨fun ⟨hb, hp, hs⟩ => ⟨hb, hp, hs⟩, fun ⟨hb, hp, hs⟩ => ⟨hb, hp, hs⟩⟩

theorem witness_nil (s : Structure) :
    s.witness [] = .admissible ⟨s.boundaries.length, (s.relationsOf .inverts).length⟩ := rfl

theorem witness_of_ne_nil {violations : List Violation} (h : violations ≠ []) :
    ∃ v, Violation.First violations v ∧ s.witness violations = .inadmissible v := by
  cases hleast : Violation.least violations with
  | none => exact absurd (Violation.least_eq_none_iff.1 hleast) h
  | some v =>
    refine ⟨v, Violation.least_eq_some_iff.1 hleast, ?_⟩
    unfold witness
    rw [hleast]

/-- The violation reported is the first of all. -/
theorem first_of_validate {limits : Limits} (h : s.validate limits = .ok (.inadmissible v)) :
    ∃ violations, s.Breaches violations
      ∧ Violation.First (violations ++ s.inversionViolations) v := by
  obtain ⟨violations, hbreaches, hw⟩ := witness_of_validate h
  refine ⟨violations, hbreaches, ?_⟩
  by_cases hnil : violations ++ s.inversionViolations = []
  · rw [hnil, witness_nil] at hw
    cases hw
  · obtain ⟨w, hfirst, hv⟩ := witness_of_ne_nil hnil
    rw [hv] at hw
    cases hw
    exact hfirst

end Admissibility.Structure
