/-
  Admissibility.Proofs.Violation
  ──────────────────────────────
  **The violation to report, and the order of the facts in it, do not depend on any listing.**

  Both the least violation and the facts in the order of their signatures are taken from a list by
  a linear order, so a permutation of the list does not change them.

  `Violation.least_eq_some_iff`: the least violation of a list, stated by the order alone.
  `Violation.least_eq_of_perm`: a permuted list has the same least violation.
  `Structure.bySignature_eq_of_perm`: permuted facts of one kind are put into the same order.
-/
import Admissibility.Validation
import Admissibility.Proofs.Sorted

namespace Admissibility

/-- Of two comparisons in a total order, one way or the other is not greater. -/
theorem isLE_total {α : Type} (cmp : α → α → Ordering) [Std.OrientedCmp cmp] (a b : α) :
    ((cmp a b).isLE || (cmp b a).isLE) = true := by
  rw [show cmp b a = (cmp a b).swap from Std.OrientedCmp.eq_swap]
  cases cmp a b <;> rfl

/-! ## §1. The least violation. -/

namespace Violation

variable {v w : Violation} {violations others : List Violation}

/-- A violation of a list that no other one of the list precedes. -/
structure First (violations : List Violation) (v : Violation) : Prop where
  mem : v ∈ violations
  le : ∀ w ∈ violations, (precedence v w).isLE = true

/-- Only equal violations tie, so there is one first violation at most. -/
theorem First.unique (hv : First violations v) (hw : First violations w) : v = w :=
  Std.LawfulEqCmp.eq_of_compare
    (Std.OrientedCmp.isLE_antisymm (hv.le w hw.mem) (hw.le v hv.mem))

theorem First.of_perm (h : violations.Perm others) (hv : First violations v) : First others v :=
  ⟨h.mem_iff.1 hv.mem, fun w hw => hv.le w (h.mem_iff.2 hw)⟩

/-- The better of two violations comes no later than either. -/
theorem first_pair (v w : Violation) :
    First [v, w] (if (precedence w v).isLT then w else v) := by
  have hrefl : ∀ u, (precedence u u).isLE = true := fun _ => Std.ReflCmp.isLE_rfl
  split
  · next hlt =>
    have hle : (precedence w v).isLE = true := by
      cases hcmp : precedence w v <;> simp_all
    exact ⟨by simp, by simpa using ⟨hle, hrefl w⟩⟩
  · next hlt =>
    have hle : (precedence v w).isLE = true := by
      rw [show precedence v w = (precedence w v).swap from Std.OrientedCmp.eq_swap]
      cases hcmp : precedence w v <;> simp_all
    exact ⟨by simp, by simpa using ⟨hrefl v, hle⟩⟩

/-- Going through a list with the best violation so far ends with the first of all. -/
theorem first_foldl (best : Violation) (violations : List Violation) :
    First (best :: violations)
      (violations.foldl (fun best w => if (precedence w best).isLT then w else best) best) := by
  induction violations generalizing best with
  | nil => exact ⟨by simp, by simpa using Std.ReflCmp.isLE_rfl⟩
  | cons w rest ih =>
    rw [List.foldl_cons]
    have hpair := first_pair best w
    have hrest := ih (if (precedence w best).isLT then w else best)
    have hle : ∀ u ∈ [best, w], (precedence (rest.foldl (fun best w =>
        if (precedence w best).isLT then w else best)
        (if (precedence w best).isLT then w else best)) u).isLE = true := fun u hu =>
      Std.TransCmp.isLE_trans (hrest.le _ List.mem_cons_self) (hpair.le u hu)
    -- the better of the first two stands for both of them
    refine ⟨?_, fun u hu => ?_⟩
    · rcases List.mem_cons.1 hrest.mem with heq | hmem
      · rw [heq]
        exact List.mem_append_left rest hpair.mem
      · exact List.mem_append_right [best, w] hmem
    · rcases List.mem_append.1 (show u ∈ [best, w] ++ rest from hu) with hfront | hback
      · exact hle u hfront
      · exact hrest.le u (List.mem_cons_of_mem _ hback)

theorem least_eq_none_iff : least violations = none ↔ violations = [] := by
  cases violations <;> simp [least]

/-- **The least violation** is the one of the list that no other one precedes. -/
theorem least_eq_some_iff : least violations = some v ↔ First violations v := by
  cases violations with
  | nil => exact ⟨fun h => (by cases h), fun h => (by cases h.mem)⟩
  | cons best rest =>
    have hfold := first_foldl best rest
    constructor
    · intro h
      cases h
      exact hfold
    · intro h
      rw [hfold.unique h |>.symm]
      rfl

/-- **Listing does not matter**: a permuted list has the same least violation. -/
theorem least_eq_of_perm (h : violations.Perm others) : least violations = least others := by
  cases hleast : least others with
  | none =>
    rw [least_eq_none_iff] at hleast ⊢
    rw [hleast] at h
    exact h.eq_nil
  | some v =>
    rw [least_eq_some_iff] at hleast ⊢
    exact hleast.of_perm h.symm

end Violation

/-! ## §2. Facts in the order of signatures. -/

namespace Structure

/-- The order in which the inversions of a node are told. -/
def signatureOrder : Fact → Fact → Ordering :=
  compareLex (compareOn Fact.signature) (compareOn Fact.endpoints)

instance : Std.TransCmp signatureOrder :=
  inferInstanceAs (Std.TransCmp (compareLex (compareOn Fact.signature) (compareOn Fact.endpoints)))

variable {facts others : List Fact}

/-- Facts are put into this order, whatever they are sorted with beside them. -/
theorem bySignature_eq_insertionSort (facts : List Fact) :
    bySignature facts = facts.insertionSort fun f g => (signatureOrder f g).isLE = true := by
  let order : (String × List String) × Fact → (String × List String) × Fact → Ordering :=
    compareLex (compareOn (·.1.1)) (compareOn (·.1.2))
  have : Std.TransCmp order := inferInstanceAs (Std.TransCmp (compareLex
    (compareOn fun p : (String × List String) × Fact => p.1.1) (compareOn (·.1.2))))
  have hsorted : (facts.map fun f => ((f.signature, f.endpoints), f)).mergeSort
      (fun a b => (order a b).isLE) = _ :=
    mergeSort_eq_insertionSort (fun a b c => Std.TransCmp.isLE_trans) (isLE_total order) _
  have hfacts : (facts.map fun f => ((f.signature, f.endpoints), f)).map Prod.snd = facts := by
    rw [List.map_map]
    exact List.map_id _
  conv_rhs => rw [← hfacts]
  refine (congrArg (List.map Prod.snd) hsorted).trans (List.map_insertionSort _ _ _ _ ?_)
  -- each element of the sorted list is a fact with its own key
  intro a ha b hb
  obtain ⟨f, -, rfl⟩ := List.mem_map.1 ha
  obtain ⟨g, -, rfl⟩ := List.mem_map.1 hb
  exact Iff.rfl

theorem bySignature_perm (facts : List Fact) : (bySignature facts).Perm facts := by
  rw [bySignature_eq_insertionSort]
  exact List.perm_insertionSort _ facts

theorem pairwise_bySignature (facts : List Fact) :
    (bySignature facts).Pairwise fun f g => (signatureOrder f g).isLE = true := by
  have : Std.Total fun f g => (signatureOrder f g).isLE = true :=
    ⟨fun f g => by simpa using isLE_total signatureOrder f g⟩
  have : IsTrans Fact fun f g => (signatureOrder f g).isLE = true :=
    ⟨fun _ _ _ => Std.TransCmp.isLE_trans⟩
  rw [bySignature_eq_insertionSort]
  exact List.pairwise_insertionSort _ facts

/-- Facts of one kind that tie have the same endpoints, so they are equal. -/
theorem eq_of_signatureOrder {f g : Fact} (hkind : f.kind = g.kind)
    (hfg : (signatureOrder f g).isLE = true) (hgf : (signatureOrder g f).isLE = true) : f = g := by
  have htie : signatureOrder f g = .eq := Std.OrientedCmp.isLE_antisymm hfg hgf
  have hendpoints : f.endpoints = g.endpoints :=
    Std.LawfulEqOrd.eq_of_compare (Ordering.then_eq_eq.1 htie).2
  cases f
  cases g
  cases hkind
  cases hendpoints
  rfl

/-- **Listing does not matter**: permuted facts of one kind are put into the same order. -/
theorem bySignature_eq_of_perm {kind : Relation.Kind} (hkind : ∀ f ∈ facts, f.kind = kind)
    (h : facts.Perm others) : bySignature facts = bySignature others := by
  have hperm := (bySignature_perm facts).trans (h.trans (bySignature_perm others).symm)
  refine hperm.eq_of_pairwise (fun f g hf hg hfg hgf => ?_) (pairwise_bySignature facts)
    (pairwise_bySignature others)
  have hf' := (bySignature_perm facts).mem_iff.1 hf
  have hg' := h.mem_iff.2 ((bySignature_perm others).mem_iff.1 hg)
  exact eq_of_signatureOrder ((hkind f hf').trans (hkind g hg').symm) hfg hgf

end Structure

end Admissibility
