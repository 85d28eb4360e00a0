/-
  Admissibility.Proofs.Verdict
  ────────────────────────────
  **The verdict is right, both ways.**

  The three constraints are told here by the declared relations alone, so that nothing of the
  indexes, the searches or the counting stands on their side: a member-of chain is the reflexive and
  transitive closure of the declared pairs, and an inversion is known by its number.

  `admissible_iff`: what `Structure.Admissible` says about the declared relations.
  `verdict_is_exact`: the verdict of every validation that ends, with its evidence.
-/
import Mathlib.Data.Finset.Card
import Admissibility.Proofs.Builder
import Admissibility.Proofs.Validation

namespace Admissibility.Structure

variable {s : Structure} {x y : Nat}

/-! ## §1. The constraints by the declared relations. -/

/-- A relation of some kind from x to y is declared. -/
def Declares (s : Structure) (kind : Relation.Kind) (x y : Nat) : Prop :=
  ∃ r ∈ s.relations, r.kind = kind ∧ r.endpoints = [x, y]

/-- The sources of the declared `bounds` relations, with repetitions. -/
def boundsSources (s : Structure) : List Nat :=
  (s.relations.toList.filter (·.kind = .bounds)).filterMap Relation.source?

/-- A chain is a run of declared member-of relations. -/
theorem chain_iff (hx : x < s.nodeCount) :
    s.Chain x y ↔ Relation.ReflTransGen (s.Declares .memberOf) x y := by
  constructor
  · intro h
    induction h with
    | refl _ => exact .refl
    | step hedge _ ih =>
      exact .head ((mem_edges_iff rfl).1 hedge) (ih (edge_lt hedge).2)
  · intro h
    induction h using Relation.ReflTransGen.head_induction_on with
    | refl => exact .refl hx
    | head hstep _ ih =>
      have hedge := (mem_edges_iff rfl).2 hstep
      exact .step hedge (ih (edge_lt hedge).2)

theorem distinctPair_iff {endpoints : List Nat} :
    DistinctPair endpoints ↔ ∃ x y, x ≠ y ∧ endpoints = [x, y] := by
  unfold DistinctPair
  split
  · next x y =>
    refine ⟨fun h => ⟨x, y, h, rfl⟩, fun h => ?_⟩
    obtain ⟨x', y', hne, heq⟩ := h
    cases heq
    exact hne
  · next hno =>
    refine ⟨False.elim, fun h => ?_⟩
    obtain ⟨x, y, -, heq⟩ := h
    exact hno x y heq

/-- **The constraints, declaration by declaration.** -/
theorem admissible_iff : s.Admissible ↔
    (∀ b x, s.Declares .bounds b x → ¬ Relation.ReflTransGen (s.Declares .memberOf) b x)
      ∧ (∀ r ∈ s.relations, r.kind = .inverts → ∃ x y, x ≠ y ∧ r.endpoints = [x, y])
      ∧ ∀ (i j : Nat) (r q : Relation), s.relations[i]? = some r → s.relations[j]? = some q →
          r.kind = .inverts → q.kind = .inverts → i ≠ j → ∀ x ∈ r.endpoints, x ∉ q.endpoints := by
  constructor
  · intro h
    obtain ⟨hboundary, hpairs, hshared⟩ := h
    refine ⟨fun b x hb hchain => ?_, fun r hr hkind => ?_, ?_⟩
    · have hedge : (b, x) ∈ s.edges .bounds := (mem_edges_iff rfl).2 hb
      exact hboundary b ⟨x, hedge, (chain_iff (edge_lt hedge).1).2 hchain⟩
    · obtain ⟨i, hi⟩ := Array.mem_iff_getElem?.1 hr
      exact distinctPair_iff.1 (hpairs (i, r) (mem_relationsOf.2 ⟨hi, hkind⟩))
    · intro i j r q hi hj hr hq hij x hxr hxq
      exact hshared x ⟨(i, r), mem_relationsOf.2 ⟨hi, hr⟩, (j, q), mem_relationsOf.2 ⟨hj, hq⟩,
        hij, hxr, hxq⟩
  · intro h
    obtain ⟨hboundary, hpairs, hshared⟩ := h
    refine ⟨?_, fun v hv => ?_, ?_⟩
    · intro b hbroken
      obtain ⟨x, hedge, hchain⟩ := hbroken
      exact hboundary b x ((mem_edges_iff rfl).1 hedge) ((chain_iff (edge_lt hedge).1).1 hchain)
    · obtain ⟨hget, hkind⟩ := mem_relationsOf.1 hv
      exact distinctPair_iff.2 (hpairs v.2 (Array.mem_of_getElem? hget) hkind)
    · intro x hx
      obtain ⟨v, hv, w, hw, hne, hxv, hxw⟩ := hx
      obtain ⟨hv, hkindv⟩ := mem_relationsOf.1 hv
      obtain ⟨hw, hkindw⟩ := mem_relationsOf.1 hw
      exact hshared v.1 w.1 v.2 w.2 hv hw hkindv hkindw hne x hxv hxw

/-! ## §2. The evidence of an admissible structure. -/

theorem mem_boundsSources : x ∈ s.boundsSources ↔ s.IsBoundary x := by
  unfold boundsSources IsBoundary
  simp only [List.mem_filterMap, List.mem_filter, decide_eq_true_iff, Array.mem_toList_iff,
    mem_edges_iff (rfl : Relation.Kind.bounds.fixedArity = some 2)]
  constructor
  · intro h
    obtain ⟨r, ⟨hr, hkind⟩, hsource⟩ := h
    -- a relation of this kind has two endpoints, of which the first is the source
    obtain ⟨u, y, hends⟩ := exists_ends hr (by rw [hkind]; rfl)
    rw [Relation.source?, hends] at hsource
    cases hsource
    exact ⟨y, r, hr, hkind, hends⟩
  · intro h
    obtain ⟨y, r, hr, hkind, hends⟩ := h
    exact ⟨r, ⟨hr, hkind⟩, by rw [Relation.source?, hends]; rfl⟩

theorem toFinset_boundsSources (s : Structure) :
    s.boundsSources.toFinset = (s.boundaries.map Prod.fst).toFinset := by
  ext x
  rw [List.mem_toFinset, List.mem_toFinset, mem_boundsSources, mem_map_fst_boundaries]

/-- Each boundary is counted once, however many nodes it bounds. -/
theorem length_boundaries (s : Structure) :
    s.boundaries.length = s.boundsSources.toFinset.card := by
  rw [toFinset_boundsSources, List.toFinset_card_of_nodup (nodup_map_fst_boundaries s),
    List.length_map]

/-! ## §3. The verdict. -/

/-- **The verdict is exact**: a validation that ends says `admissible` exactly when no boundary has
a member-of chain into what it bounds, every inversion has two distinct endpoints and no others,
and no node is in two inversions; its evidence then counts the boundaries and the inversions. -/
theorem verdict_is_exact (s : Structure) (limits : Limits) (w : Witness)
    (h : s.validate limits = .ok w) :
    (w.verdict = .admissible ↔
      (∀ b x, s.Declares .bounds b x → ¬ Relation.ReflTransGen (s.Declares .memberOf) b x)
        ∧ (∀ r ∈ s.relations, r.kind = .inverts → ∃ x y, x ≠ y ∧ r.endpoints = [x, y])
        ∧ ∀ (i j : Nat) (r q : Relation), s.relations[i]? = some r → s.relations[j]? = some q →
            r.kind = .inverts → q.kind = .inverts → i ≠ j → ∀ x ∈ r.endpoints, x ∉ q.endpoints)
      ∧ (w.verdict = .admissible →
          w = .admissible ⟨s.boundsSources.toFinset.card,
            s.relations.countP (·.kind = .inverts)⟩) := by
  obtain ⟨violations, hbreaches, hw⟩ := witness_of_validate h
  rw [← admissible_iff, ← violations_eq_nil_iff hbreaches]
  by_cases hnil : violations ++ s.inversionViolations = []
  · -- nothing to report: the witness counts what was checked
    rw [hnil, witness_nil, length_boundaries, length_relationsOf] at hw
    rw [hw, hnil]
    exact ⟨⟨fun _ => rfl, fun _ => rfl⟩, fun _ => rfl⟩
  · -- something to report: the witness is the first violation
    obtain ⟨v, -, hv⟩ := witness_of_ne_nil hnil
    rw [hv] at hw
    have hverdict : w.verdict ≠ .admissible := by
      rw [hw]
      exact Verdict.noConfusion
    exact ⟨⟨fun h => absurd h hverdict, fun h => absurd h hnil⟩, fun h => absurd h hverdict⟩

/-- A cycle of members that nothing outside bounds, and an inversion of two of them. -/
def cycle : List Call :=
  [.declare "A", .declare "B", .declare "C", .relate ⟨.memberOf, [0, 1], 1⟩,
    .relate ⟨.memberOf, [1, 0], 2⟩, .relate ⟨.bounds, [2, 0], 3⟩, .relate ⟨.bounds, [2, 1], 4⟩,
    .relate ⟨.bounds, [2, 0], 5⟩, .relate ⟨.inverts, [1, 2], 6⟩]

theorem cycle_verdict :
    (built cycle).validate {} = .ok (.admissible ⟨1, 1⟩)
      ∧ (∀ x, (built cycle).Declares .bounds 2 x →
          ¬ Relation.ReflTransGen ((built cycle).Declares .memberOf) 2 x)
      ∧ (built cycle).boundsSources.toFinset.card = 1 := by
  have hrun : (built cycle).validate {} = .ok (.admissible ⟨1, 1⟩) := by
    simp only [validate, witness, boundaries, Membership.ofStructure, neighbours_eq_insertionSort]
    decide +kernel
  obtain ⟨hverdict, hcounts⟩ := verdict_is_exact (built cycle) {} _ hrun
  have hboundary := (hverdict.1 rfl).1
  have hevidence := Witness.admissible.inj (hcounts rfl)
  exact ⟨hrun, hboundary 2, (congrArg Checked.boundaries hevidence).symm⟩

end Admissibility.Structure
