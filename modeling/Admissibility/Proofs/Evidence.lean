/-
  Admissibility.Proofs.Evidence
  ─────────────────────────────
  **The evidence of a violation is found in the structure.**

  A violation tells labels only.  Here it is led back to the relations of the structure: the chain
  of a broken boundary runs along declared relations and never comes back to a node, an inversion by
  itself is a declared one with its own endpoints, and the two facts of a shared node are two
  different relations, in front of all others that name the node.

  `Answers.nodup`: the first route of all has no loop.
  `genuine_of_finds`, `genuine_of_arity`, `genuine_of_overlap`: the evidence of each sort.
  `evidence_is_genuine`: the evidence of the violation that a validation reports.
-/
import Mathlib.Data.List.Duplicate
import Admissibility.Proofs.Confluence
import Admissibility.Proofs.Precedence
import Admissibility.Proofs.Verdict

namespace Admissibility

open Text (bytes)

/-! ## §1. Lists. -/

/-- An element that a list repeats cuts it into what is before, between and behind. -/
theorem exists_split_of_duplicate {α : Type} {a : α} {list : List α} (h : List.Duplicate a list) :
    ∃ front loop back, list = front ++ a :: (loop ++ a :: back) := by
  induction h with
  | cons_mem hmem =>
    obtain ⟨loop, back, rfl⟩ := List.append_of_mem hmem
    exact ⟨[], loop, back, rfl⟩
  | @cons_duplicate b list _ ih =>
    obtain ⟨front, loop, back, rfl⟩ := ih
    exact ⟨b :: front, loop, back, rfl⟩

/-- A list that permutes the values of another one is the list of the values of a permutation. -/
theorem exists_perm_of_perm_map {α β : Type} {f : α → β} {values : List β} {list : List α}
    (h : values.Perm (list.map f)) : ∃ list' : List α, list'.Perm list ∧ values = list'.map f := by
  have hcomp : Relation.Comp (fun values list => values = List.map f list) List.Perm values list := by
    rw [List.eq_map_comp_perm]
    exact h
  obtain ⟨list', hvalues, hperm⟩ := hcomp
  exact ⟨list', hperm, hvalues⟩

/-! ## §2. Genuine evidence. -/

/-- The first fact is at most the second: by the sorted endpoints with commas between them, then by
the endpoints as they stand, where texts compare by their bytes. -/
def Fact.AtMost (f g : Fact) : Prop :=
  bytes (",".intercalate (sortLabels f.endpoints)) < bytes (",".intercalate (sortLabels g.endpoints))
    ∨ ",".intercalate (sortLabels f.endpoints) = ",".intercalate (sortLabels g.endpoints)
      ∧ (f.endpoints.map bytes < g.endpoints.map bytes ∨ f.endpoints = g.endpoints)

theorem Fact.atMost_iff {f g : Fact} :
    f.AtMost g ↔ (Structure.signatureOrder f g).isLE = true := by
  show bytes f.signature < bytes g.signature ∨ f.signature = g.signature ∧ _
    ↔ (compareLex (compareOn Fact.signature) (compareOn Fact.endpoints) f g).isLE = true
  rw [compareLex_isLE_iff, Ordering.isLE_iff_eq_lt_or_eq_eq]
  unfold compareOn
  rw [Text.bytes_lt_iff, Text.map_bytes_lt_iff, compare_eq_lt_iff, compare_list_eq_lt_iff,
    Std.LawfulEqOrd.compare_eq_iff_eq, Std.LawfulEqOrd.compare_eq_iff_eq]

namespace Structure

variable {s : Structure} {b x : Nat} {v : Violation}

/-- What the evidence of a violation says of the structure. -/
def Genuine (s : Structure) : Violation → Prop
  | .boundaryMembership boundary bounded chain facts =>
    bounded.Pairwise (fun a b => bytes a < bytes b)
      ∧ (∀ label, label ∈ bounded ↔
          ∃ x y, s.Declares .bounds x y ∧ s.label x = boundary ∧ s.label y = label)
      ∧ chain.Nodup ∧ chain.head? = some boundary
      ∧ ∃ last ∈ bounded, chain.getLast? = some last
        ∧ facts = ⟨.bounds, [boundary, last]⟩
            :: List.zipWith (fun a b => ⟨.memberOf, [a, b]⟩) chain chain.tail
        ∧ ∀ f ∈ facts, ∃ r ∈ s.relations, f = s.fact r
  | .inversionArity endpoints fact =>
    ∃ r ∈ s.relations, r.kind = .inverts ∧ fact = s.fact r ∧ endpoints = r.endpoints.map s.label
      ∧ ¬ ∃ x y, x ≠ y ∧ r.endpoints = [x, y]
  | .inversionOverlap node first second =>
    ∃ (i j : Nat) (r q : Relation) (x : Nat), i ≠ j
      ∧ s.relations[i]? = some r ∧ r.kind = .inverts ∧ x ∈ r.endpoints ∧ first = s.fact r
      ∧ s.relations[j]? = some q ∧ q.kind = .inverts ∧ x ∈ q.endpoints ∧ second = s.fact q
      ∧ s.label x = node ∧ first.AtMost second
      ∧ ∀ (k : Nat) (p : Relation), k ≠ i → k ≠ j → s.relations[k]? = some p → p.kind = .inverts →
          x ∈ p.endpoints → second.AtMost (s.fact p)

/-! ## §3. Broken boundaries. -/

/-- **No loop**: the first route of all never comes back to a node. -/
theorem Answers.nodup {source : Nat} {targets : NodeSet} {chain : List Nat}
    (h : s.Answers source targets (some chain)) : chain.Nodup := by
  by_contra hloop
  obtain ⟨x, hx⟩ := List.exists_duplicate_iff_not_nodup.2 hloop
  obtain ⟨front, loop, back, rfl⟩ := exists_split_of_duplicate hx
  obtain ⟨⟨hroute, target, hlast, htarget⟩, hfirst⟩ := h
  -- without the loop there is a shorter route to the same target
  have hlast' : (front ++ x :: back).getLast? = some target := by
    rw [← hlast]
    simp [List.getLast?_append, List.getLast?_cons]
  have hlen := (hfirst _ ⟨hroute.cut, target, hlast', htarget⟩).length_le
  simp only [List.length_append, List.length_cons] at hlen
  omega

/-- Every edge is a declared relation, in terms of labels. -/
theorem fact_of_edge {kind : Relation.Kind} {y : Nat} (hkind : kind.fixedArity = some 2)
    (h : (x, y) ∈ s.edges kind) : ∃ r ∈ s.relations, ⟨kind, [s.label x, s.label y]⟩ = s.fact r := by
  obtain ⟨r, hr, rfl, hends⟩ := (mem_edges_iff hkind).1 h
  refine ⟨r, hr, ?_⟩
  rw [fact, hends]
  rfl

theorem linksOf_eq_zipWith (labels : List String) :
    linksOf labels = List.zipWith (fun a b => ⟨.memberOf, [a, b]⟩) labels labels.tail := by
  induction labels with
  | nil => rfl
  | cons a rest ih =>
    cases rest with
    | nil => rfl
    | cons c rest =>
      show _ :: linksOf (c :: rest) = _
      rw [ih]
      rfl

/-- The links of a route are declared. -/
theorem fact_of_mem_links {chain : List Nat} {f : Fact}
    (hlinked : chain.IsChain fun x y => (x, y) ∈ s.edges .memberOf) (hf : f ∈ s.links chain) :
    ∃ r ∈ s.relations, f = s.fact r := by
  induction chain with
  | nil => cases hf
  | cons x rest ih =>
    cases rest with
    | nil => cases hf
    | cons y rest =>
      obtain ⟨hedge, hrest⟩ := List.isChain_cons_cons.1 hlinked
      rcases List.mem_cons.1 hf with heq | hf
      · rw [heq]
        exact fact_of_edge rfl hedge
      · exact ih hrest hf

theorem ascending_bytes {labels : List String} (h : labels.Pairwise (· < ·)) :
    labels.Pairwise fun a b => bytes a < bytes b :=
  h.imp fun hlt => Text.bytes_lt_iff.2 hlt

/-- The labels that a boundary bounds, told by its label. -/
theorem mem_map_label_bounded (hb : b < s.nodeCount) {label : String} :
    label ∈ (s.bounded b).map s.label ↔
      ∃ x y, s.Declares .bounds x y ∧ s.label x = s.label b ∧ s.label y = label := by
  rw [List.mem_map]
  constructor
  · intro h
    obtain ⟨y, hy, rfl⟩ := h
    exact ⟨b, y, (mem_edges_iff rfl).1 (mem_bounded.1 hy), rfl, rfl⟩
  · intro h
    obtain ⟨x, y, hdeclared, hx, rfl⟩ := h
    have hedge : (x, y) ∈ s.edges .bounds := (mem_edges_iff rfl).2 hdeclared
    cases s.label_injective (edge_lt hedge).1 hb hx
    exact ⟨y, mem_bounded.2 hedge, rfl⟩

/-- **A broken boundary**: the bounded labels are those declared, and the chain runs along declared
relations to one of them. -/
theorem genuine_of_finds (hb : b < s.nodeCount) (h : s.Finds b (some v)) : s.Genuine v := by
  obtain ⟨chain, hanswer, rfl⟩ := h
  obtain ⟨hroute, target, hlast, htarget⟩ := hanswer.1
  have hedge := contains_targets.1 htarget
  have hviolation := boundaryViolation_eq s b (s.bounded b) chain
  have hlastLabel : (chain.map s.label).getLast? = some (s.label target) := by
    rw [List.getLast?_map, hlast]
    rfl
  rw [hviolation]
  refine ⟨?_, fun label => mem_map_label_bounded hb, ?_, ?_, s.label target,
    List.mem_map_of_mem (mem_bounded.2 hedge), hlastLabel, ?_, ?_⟩
  · exact ascending_bytes (List.pairwise_map.2 (ascending_row (s.inside_edges .bounds)))
  · have hlt := hroute.lt hb
    exact hanswer.nodup.map_on fun x hx y hy hxy => s.label_injective (hlt x hx) (hlt y hy) hxy
  · rw [List.head?_map, hroute.head]
    rfl
  · rw [hlastLabel, linksOf_eq_zipWith]
    rfl
  · intro f hf
    rw [hlastLabel, ← links_eq] at hf
    rcases List.mem_cons.1 hf with heq | hf
    · rw [heq]
      exact fact_of_edge rfl hedge
    · exact fact_of_mem_links hroute.linked hf

/-! ## §4. Inversions. -/

/-- **An inversion by itself** is declared, and has its own endpoints. -/
theorem genuine_of_arity {f : Fact} (hf : f ∈ s.inversions) (hpair : ¬ PairsDistinct f) :
    s.Genuine (.inversionArity f.endpoints f) := by
  obtain ⟨r, hr, hkind, rfl⟩ := mem_inversions.1 hf
  refine ⟨r, hr, hkind, rfl, rfl, ?_⟩
  rw [← distinctPair_iff, ← pairsDistinct_fact_iff (s.fits r hr)]
  exact hpair

/-- The facts of a node in the order of their signatures are those of its inversions in some order,
none of which comes twice. -/
theorem exists_inversions_of_node (hx : x < s.nodeCount) : ∃ list : List (Nat × Relation),
    bySignature (s.inversions.filter fun f => s.label x ∈ f.endpoints)
        = list.map (fun p => s.fact p.2)
      ∧ (list.Pairwise fun p q => p.1 ≠ q.1)
      ∧ ∀ p, p ∈ list ↔ s.relations[p.1]? = some p.2 ∧ p.2.kind = .inverts ∧ x ∈ p.2.endpoints := by
  have hperm := bySignature_perm (s.inversions.filter fun f => s.label x ∈ f.endpoints)
  rw [← map_fact_filter hx] at hperm ⊢
  obtain ⟨list, hlist, hfacts⟩ := exists_perm_of_perm_map hperm
  refine ⟨list, hfacts, ?_, fun p => ?_⟩
  · have hascending := (s.ascending_relationsOf .inverts).filter fun v => decide (x ∈ v.2.endpoints)
    refine List.Pairwise.perm (hascending.imp fun {p q} hlt => Nat.ne_of_lt hlt) hlist.symm ?_
    exact fun {p q} hne => hne.symm
  · rw [hlist.mem_iff, List.mem_filter, decide_eq_true_iff, mem_relationsOf, and_assoc]

/-- **A shared node**: the two facts are different relations that name it, and come first. -/
theorem genuine_of_overlap (hx : x < s.nodeCount)
    (h : overlapBreach? s.inversions (s.label x) = some v) : s.Genuine v := by
  obtain ⟨first, second, rest, hsorted, rfl⟩ := overlapBreach?_eq_some_iff.1 h
  have hpairwise := pairwise_bySignature (s.inversions.filter fun f => s.label x ∈ f.endpoints)
  obtain ⟨list, hlist, hne, hmem⟩ := exists_inversions_of_node hx
  rw [hsorted] at hlist hpairwise
  match list, hlist with
  | p :: q :: others, hlist =>
    cases hlist
    obtain ⟨hfirst, hpairwise⟩ := List.pairwise_cons.1 hpairwise
    obtain ⟨hsecond, -⟩ := List.pairwise_cons.1 hpairwise
    obtain ⟨hp, hkindp, hxp⟩ := (hmem p).1 List.mem_cons_self
    obtain ⟨hq, hkindq, hxq⟩ := (hmem q).1 (List.mem_cons_of_mem _ List.mem_cons_self)
    refine ⟨p.1, q.1, p.2, q.2, x, (List.pairwise_cons.1 hne).1 q List.mem_cons_self, hp, hkindp,
      hxp, rfl, hq, hkindq, hxq, rfl, rfl, Fact.atMost_iff.2 (hfirst _ List.mem_cons_self), ?_⟩
    -- every other inversion of the node is behind the first two
    intro k r hkp hkq hr hkind hxr
    have hin := (hmem (k, r)).2 ⟨hr, hkind, hxr⟩
    rcases List.mem_cons.1 hin with heq | hin
    · exact absurd (congrArg Prod.fst heq) hkp
    rcases List.mem_cons.1 hin with heq | hin
    · exact absurd (congrArg Prod.fst heq) hkq
    exact Fact.atMost_iff.2 (hsecond _ (List.mem_map_of_mem (f := fun p => s.fact p.2) hin))

/-! ## §5. The violation reported. -/

/-- **Evidence is genuine**: the violation that a validation reports is led back, part by part, to
the relations of the structure. -/
theorem evidence_is_genuine (s : Structure) (limits : Limits) (v : Violation)
    (h : s.validate limits = .ok (.inadmissible v)) : s.Genuine v := by
  obtain ⟨violations, hbreaches, hfirst⟩ := first_of_validate h
  rcases List.mem_append.1 hfirst.mem with hboundary | hinversion
  · obtain ⟨b, hbroken, hfound⟩ := hbreaches.sound v hboundary
    exact genuine_of_finds hbroken.isBoundary.lt hfound
  · rcases mem_inversionViolations.1 hinversion with ⟨f, hf, hpair, rfl⟩ | ⟨x, hx, hbreach⟩
    · exact genuine_of_arity hf hpair
    · exact genuine_of_overlap hx.lt hbreach

/-- The same inversion declared twice, and once more the other way round. -/
def twins : List Call :=
  [.declare "X", .declare "Y", .relate ⟨.inverts, [1, 0], 1⟩, .relate ⟨.inverts, [0, 1], 2⟩,
    .relate ⟨.inverts, [0, 1], 3⟩]

theorem twins_evidence :
    (built twins).validate {} = .ok (.inadmissible
        (.inversionOverlap "X" ⟨.inverts, ["X", "Y"]⟩ ⟨.inverts, ["X", "Y"]⟩))
      ∧ ∃ (i j : Nat) (r q : Relation), i ≠ j ∧ (built twins).relations[i]? = some r
        ∧ (built twins).relations[j]? = some q
        ∧ (built twins).fact r = ⟨.inverts, ["X", "Y"]⟩
        ∧ (built twins).fact q = ⟨.inverts, ["X", "Y"]⟩ := by
  have hrun : (built twins).validate {} = .ok (.inadmissible
      (.inversionOverlap "X" ⟨.inverts, ["X", "Y"]⟩ ⟨.inverts, ["X", "Y"]⟩)) := by
    simp only [validate, inversionViolations, overlapViolation?.eq_unfold,
      bySignature_eq_insertionSort, signatureOrder, compareLex, compareOn, Fact.signature,
      signature, sortLabels_eq_insertionSort]
    decide +kernel
  obtain ⟨i, j, r, q, -, hne, hr, -, -, hfirst, hq, -, -, hsecond, -⟩ :=
    evidence_is_genuine (built twins) {} _ hrun
  exact ⟨hrun, i, j, r, q, hne, hr, hq, hfirst.symm, hsecond.symm⟩

end Structure

end Admissibility
