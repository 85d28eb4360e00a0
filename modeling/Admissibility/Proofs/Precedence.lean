/-
  Admissibility.Proofs.Precedence
  ───────────────────────────────
  **The violation reported is the least of the whole structure.**

  The keys of all that is wrong with a structure are told here by its relations alone: boundaries
  with a chain into what they bound, inversions that do not pair two nodes, and nodes in two
  inversions.  Keys compare by the bytes of their texts.

  `Violation.Key.atMost_iff`: the order of keys, by bytes.
  `key_of_finds`, `key_of_overlap`: the keys of the violations that a validation collects.
  `witness_is_least`: no key of the structure is less than that of the violation reported.
-/
import Admissibility.Proofs.Builder
import Admissibility.Proofs.Text.ByteOrder
import Admissibility.Proofs.Validation

namespace Admissibility

open Text (bytes)

/-! ## §1. The order of keys. -/

theorem compareLex_isLE_iff {α : Type} {f g : α → α → Ordering} {a b : α} :
    (compareLex f g a b).isLE = true ↔ f a b = .lt ∨ f a b = .eq ∧ (g a b).isLE = true :=
  Ordering.isLE_then_iff_or

theorem compare_eq_lt_iff {a b : String} : compare a b = .lt ↔ a < b :=
  compareOfLessAndEq_eq_lt

theorem compare_list_eq_lt_iff {first second : List String} :
    compare first second = .lt ↔ first < second := by
  induction first generalizing second with
  | nil =>
    cases second with
    | nil => exact iff_of_false (fun h => by cases h) (List.lt_irrefl _)
    | cons b second => exact iff_of_true rfl List.Lex.nil
  | cons a first ih =>
    cases second with
    | nil => exact iff_of_false (fun h => by cases h) (fun h => by cases h)
    | cons b second =>
      rw [List.compare_cons_cons, List.cons_lt_cons_iff, Ordering.then_eq_lt, compare_eq_lt_iff, ih,
        Std.LawfulEqOrd.compare_eq_iff_eq]

namespace Violation

/-- The first key is at most the second: by label, then by signature, then by rank, where texts
compare by their bytes. -/
def Key.AtMost (k l : Key) : Prop :=
  bytes k.primary < bytes l.primary
    ∨ k.primary = l.primary ∧ (bytes k.signature < bytes l.signature
      ∨ k.signature = l.signature ∧ k.rank ≤ l.rank)

theorem Key.atMost_iff {k l : Key} : k.AtMost l ↔ (compare k l).isLE = true := by
  show _ ↔ (compareLex (compareOn Key.primary)
    (compareLex (compareOn Key.signature) (compareOn Key.rank)) k l).isLE = true
  rw [compareLex_isLE_iff, compareLex_isLE_iff]
  unfold AtMost compareOn
  rw [Text.bytes_lt_iff, Text.bytes_lt_iff, compare_eq_lt_iff, compare_eq_lt_iff,
    Std.LawfulEqOrd.compare_eq_iff_eq, Std.LawfulEqOrd.compare_eq_iff_eq, Nat.isLE_compare]

variable {v w : Violation}

/-- What comes no later has a key that is at most the other. -/
theorem key_atMost (h : (precedence v w).isLE = true) : v.key.AtMost w.key := by
  rw [Key.atMost_iff]
  rcases compareLex_isLE_iff.1 h with hlt | ⟨heq, -⟩
  · show (compareOn key v w).isLE = true
    rw [hlt]
    rfl
  · show (compareOn key v w).isLE = true
    rw [heq]
    rfl

/-- **Ties** between inversions by themselves are resolved by their endpoints. -/
theorem endpoints_of_tie {endpoints others : List String} {f g : Fact}
    (h : (precedence (.inversionArity endpoints f) (.inversionArity others g)).isLE = true)
    (hkey : (inversionArity endpoints f).key = (inversionArity others g).key) :
    endpoints = others ∨ endpoints.map bytes < others.map bytes := by
  have htexts : (compare [endpoints] [others]).isLE = true := by
    rcases compareLex_isLE_iff.1 h with hlt | ⟨-, hle⟩
    · -- equal keys do not tell the violations apart
      unfold compareOn at hlt
      rw [hkey, Std.ReflOrd.compare_self] at hlt
      cases hlt
    · rcases compareLex_isLE_iff.1 hle with hrank | ⟨-, hle⟩
      · cases hrank
      · rcases compareLex_isLE_iff.1 hle with hlt | ⟨heq, -⟩
        · exact Ordering.isLE_of_eq_lt hlt
        · exact Ordering.isLE_of_eq_eq heq
  rw [List.compare_cons_cons, List.compare_nil_nil, Ordering.then_eq,
    Ordering.isLE_iff_eq_lt_or_eq_eq] at htexts
  rcases htexts with hlt | heq
  · exact .inr (Text.map_bytes_lt_iff.2 (compare_list_eq_lt_iff.1 hlt))
  · exact .inl (Std.LawfulEqOrd.eq_of_compare heq)

end Violation

/-! ## §2. The keys of what is wrong. -/

namespace Structure

variable {s : Structure} {b x : Nat} {v : Violation}

/-- The labels of the targets of the `bounds` relations from a node, with repetitions. -/
def boundedLabels (s : Structure) (b : Nat) : List String :=
  ((s.relations.toList.filter fun r => r.kind = .bounds ∧ r.source? = some b).filterMap
    Relation.target?).map s.label

/-- The labels of a relation's endpoints. -/
def endpointLabels (s : Structure) (r : Relation) : List String := r.endpoints.map s.label

/-- The signatures of the inversions among whose endpoints a node is, in ascending order. -/
def signaturesOf (s : Structure) (x : Nat) : List String :=
  sortLabels ((s.relations.toList.filter fun r => r.kind = .inverts ∧ x ∈ r.endpoints).map fun r =>
    ",".intercalate (sortLabels (s.endpointLabels r)))

/-- The key of a boundary: its label, and the distinct labels that it bounds. -/
def boundaryKey (s : Structure) (b : Nat) : Violation.Key :=
  ⟨s.label b, ",".intercalate (distinctLabels (s.boundedLabels b)), 0⟩

/-- The key of an inversion by itself: the least of its labels, and all of its labels. -/
def arityKey (s : Structure) (r : Relation) : Violation.Key :=
  ⟨(s.endpointLabels r).min?.getD "", ",".intercalate (sortLabels (s.endpointLabels r)), 1⟩

/-- The key of a node in two inversions: its label, and the two least signatures of them. -/
def overlapKey (s : Structure) (x : Nat) : Violation.Key :=
  ⟨s.label x, ";".intercalate ((s.signaturesOf x).take 2), 2⟩

/-- The least label is one of the labels, and none of them is less. -/
theorem leastLabel_spec {labels : List String} (h : labels ≠ []) :
    Violation.leastLabel labels ∈ labels
      ∧ ∀ label ∈ labels, Violation.leastLabel labels ≤ label := by
  have hperm := sortLabels_perm labels
  have hsorted := pairwise_sortLabels labels
  unfold Violation.leastLabel
  match hlist : sortLabels labels with
  | [] =>
    rw [hlist] at hperm
    exact absurd hperm.nil_eq.symm h
  | least :: rest =>
    rw [hlist] at hperm hsorted
    refine ⟨hperm.mem_iff.1 List.mem_cons_self, fun label hlabel => ?_⟩
    rcases List.mem_cons.1 (hperm.mem_iff.2 hlabel) with heq | hrest
    · rw [heq]
      exact String.le_refl least
    · exact (List.pairwise_cons.1 hsorted).1 label hrest

theorem leastLabel_eq_min? (labels : List String) :
    Violation.leastLabel labels = labels.min?.getD "" := by
  cases labels with
  | nil => simp [Violation.leastLabel, sortLabels]
  | cons label rest =>
    rw [List.min?_eq_some_iff.2 (leastLabel_spec (List.cons_ne_nil label rest))]
    rfl

/-- **The violation of an inversion by itself** has the key of its relation. -/
theorem key_inversionArity (s : Structure) (r : Relation) :
    (Violation.inversionArity (s.endpointLabels r) (s.fact r)).key = s.arityKey r := by
  rw [Violation.key, leastLabel_eq_min?]
  rfl

/-- In labels, what a boundary bounds is the ascending list of the labels of its targets. -/
theorem map_label_bounded (s : Structure) (b : Nat) :
    (s.bounded b).map s.label = distinctLabels (s.boundedLabels b) := by
  have htargets : ∀ y, y ∈ (s.relations.toList.filter fun r =>
      r.kind = .bounds ∧ r.source? = some b).filterMap Relation.target? ↔ (b, y) ∈ s.edges .bounds := by
    intro y
    rw [mem_edges_iff rfl]
    simp only [List.mem_filterMap, List.mem_filter, decide_eq_true_iff, Array.mem_toList_iff]
    constructor
    · intro h
      obtain ⟨r, ⟨hr, hkind, hsource⟩, htarget⟩ := h
      obtain ⟨u, v, hends⟩ := exists_ends hr (by rw [hkind]; rfl)
      rw [Relation.source?, hends] at hsource
      rw [Relation.target?, hends] at htarget
      cases hsource
      cases htarget
      exact ⟨r, hr, hkind, hends⟩
    · intro h
      obtain ⟨r, hr, hkind, hends⟩ := h
      refine ⟨r, ⟨hr, hkind, ?_⟩, ?_⟩
      · rw [Relation.source?, hends]
        rfl
      · rw [Relation.target?, hends]
        rfl
  unfold bounded boundedLabels
  rw [map_label_row (s.inside_edges .bounds)]
  refine distinctLabels_eq fun label => ?_
  simp only [List.mem_map, mem_endsFrom, htargets]

/-- **The violation of a broken boundary**, and its key. -/
theorem key_of_finds (h : s.Finds b (some v)) : v.key = s.boundaryKey b ∧ ∃ chain facts,
    v = .boundaryMembership (s.label b) (distinctLabels (s.boundedLabels b)) chain facts := by
  obtain ⟨chain, -, rfl⟩ := h
  refine ⟨?_, ?_⟩
  · -- the labels of the bounded nodes are sorted already
    have hsorted : sortLabels (distinctLabels (s.boundedLabels b))
        = distinctLabels (s.boundedLabels b) :=
      sortLabels_eq_self ((ascending_distinctLabels _).imp fun hlt => Std.le_of_lt hlt)
    show (⟨s.label b, signature ((s.bounded b).map s.label), 0⟩ : Violation.Key) = _
    rw [map_label_bounded, signature, hsorted]
    rfl
  · rw [boundaryViolation, map_label_bounded]
    exact ⟨_, _, rfl⟩

/-- The facts that name a node's label have the node's signatures. -/
theorem map_signature_facts (hx : x < s.nodeCount) :
    sortLabels ((s.inversions.filter fun f => s.label x ∈ f.endpoints).map Fact.signature)
      = s.signaturesOf x := by
  have hrelations : (s.relations.toList.filter fun r => r.kind = .inverts ∧ x ∈ r.endpoints)
      = ((s.relationsOf .inverts).filter fun v => x ∈ v.2.endpoints).map Prod.snd := by
    have hmap : ((s.relationsOf .inverts).filter fun v => x ∈ v.2.endpoints).map Prod.snd
        = ((s.relationsOf .inverts).map Prod.snd).filter fun r => x ∈ r.endpoints := by
      rw [List.filter_map]
      rfl
    rw [hmap, map_snd_relationsOf, List.filter_filter]
    refine List.filter_congr fun r _ => ?_
    rw [Bool.decide_and, Bool.and_comm]
  unfold signaturesOf
  rw [← map_fact_filter hx, hrelations, List.map_map, List.map_map]
  rfl

/-- Facts in the order of their signatures have sorted signatures. -/
theorem map_signature_bySignature (facts : List Fact) :
    (bySignature facts).map Fact.signature = sortLabels (facts.map Fact.signature) := by
  have hsorted : ((bySignature facts).map Fact.signature).Pairwise (· ≤ ·) := by
    refine List.pairwise_map.2 ((pairwise_bySignature facts).imp fun {f g} hle => ?_)
    rcases compareLex_isLE_iff.1 hle with hlt | ⟨heq, -⟩
    · exact Std.le_of_lt (compare_eq_lt_iff.1 hlt)
    · have hsame : f.signature = g.signature := Std.LawfulEqOrd.eq_of_compare heq
      exact hsame ▸ String.le_refl f.signature
  rw [← sortLabels_eq_of_perm ((bySignature_perm facts).map Fact.signature),
    sortLabels_eq_self hsorted]

/-- **The violation of a shared node** tells two inversions that name it. -/
theorem facts_of_overlap (h : overlapBreach? s.inversions (s.label x) = some v) :
    ∃ first ∈ s.inversions, ∃ second ∈ s.inversions,
      v = .inversionOverlap (s.label x) first second
        ∧ s.label x ∈ first.endpoints ∧ s.label x ∈ second.endpoints := by
  obtain ⟨first, second, rest, hlist, hv⟩ := overlapBreach?_eq_some_iff.1 h
  have hmem : ∀ f ∈ first :: second :: rest, f ∈ s.inversions ∧ s.label x ∈ f.endpoints := by
    intro f hf
    rw [← hlist] at hf
    obtain ⟨hin, hlabel⟩ := List.mem_filter.1 ((bySignature_perm _).mem_iff.1 hf)
    exact ⟨hin, of_decide_eq_true hlabel⟩
  obtain ⟨hfirst, hxfirst⟩ := hmem first List.mem_cons_self
  obtain ⟨hsecond, hxsecond⟩ := hmem second (List.mem_cons_of_mem _ List.mem_cons_self)
  exact ⟨first, hfirst, second, hsecond, hv, hxfirst, hxsecond⟩

/-- **The key of a shared node.** -/
theorem key_of_overlap (hx : x < s.nodeCount)
    (h : overlapBreach? s.inversions (s.label x) = some v) : v.key = s.overlapKey x := by
  obtain ⟨first, second, rest, hlist, rfl⟩ := overlapBreach?_eq_some_iff.1 h
  have hsignatures : s.signaturesOf x
      = first.signature :: second.signature :: rest.map Fact.signature := by
    rw [← map_signature_facts hx, ← map_signature_bySignature, hlist]
    rfl
  -- the first two facts are in order already
  have hpair : sortLabels [first.signature, second.signature]
      = [first.signature, second.signature] := by
    have hsorted : (s.signaturesOf x).Pairwise (· ≤ ·) := pairwise_sortLabels _
    rw [hsignatures] at hsorted
    exact sortLabels_eq_self (hsorted.sublist (List.sublist_append_left [_, _] _))
  show (⟨s.label x, ";".intercalate (sortLabels [first.signature, second.signature]), 2⟩
    : Violation.Key) = _
  rw [overlapKey, hsignatures, hpair]
  rfl

/-! ## §3. The violation reported. -/

/-- An inversion that does not pair two nodes has its violation in the list. -/
theorem arity_mem_inversionViolations {r : Relation} (hr : r ∈ s.relations)
    (hkind : r.kind = .inverts) (hpair : ¬ DistinctPair r.endpoints) :
    .inversionArity (s.endpointLabels r) (s.fact r) ∈ s.inversionViolations := by
  refine mem_inversionViolations.2 (.inl ⟨s.fact r, mem_inversions.2 ⟨r, hr, hkind, rfl⟩, ?_, rfl⟩)
  rw [pairsDistinct_fact_iff (s.fits r hr)]
  exact hpair

/-- **The least of all**: the key of the violation reported is at most that of every broken
boundary, of every inversion that does not pair two nodes and of every shared node; the violation
is that of one of these, and of inversions with equal keys it is the one with the least endpoints. -/
theorem witness_is_least (s : Structure) (limits : Limits) (v : Violation)
    (h : s.validate limits = .ok (.inadmissible v)) :
    (∀ b, s.BreaksBoundary b → v.key.AtMost (s.boundaryKey b))
      ∧ (∀ r ∈ s.relations, r.kind = .inverts → ¬ DistinctPair r.endpoints →
          v.key.AtMost (s.arityKey r))
      ∧ (∀ x, s.Shared x → v.key.AtMost (s.overlapKey x))
      ∧ ((∃ b chain facts, s.BreaksBoundary b ∧ v.key = s.boundaryKey b
            ∧ v = .boundaryMembership (s.label b) (distinctLabels (s.boundedLabels b)) chain facts)
          ∨ (∃ r ∈ s.relations, r.kind = .inverts ∧ ¬ DistinctPair r.endpoints
              ∧ v.key = s.arityKey r ∧ v = .inversionArity (s.endpointLabels r) (s.fact r)
              ∧ ∀ q ∈ s.relations, q.kind = .inverts → ¬ DistinctPair q.endpoints →
                  s.arityKey q = v.key → s.endpointLabels r = s.endpointLabels q
                    ∨ (s.endpointLabels r).map bytes < (s.endpointLabels q).map bytes)
          ∨ ∃ x, ∃ first ∈ s.inversions, ∃ second ∈ s.inversions, s.Shared x
              ∧ v.key = s.overlapKey x ∧ v = .inversionOverlap (s.label x) first second
              ∧ s.label x ∈ first.endpoints ∧ s.label x ∈ second.endpoints) := by
  obtain ⟨violations, hbreaches, hfirst⟩ := first_of_validate h
  have hleast : ∀ w ∈ violations ++ s.inversionViolations, v.key.AtMost w.key := fun w hw =>
    Violation.key_atMost (hfirst.le w hw)
  refine ⟨fun b hb => ?_, fun r hr hkind hpair => ?_, fun x hx => ?_, ?_⟩
  · obtain ⟨w, hw, hfound⟩ := hbreaches.complete b hb
    rw [← (key_of_finds hfound).1]
    exact hleast w (List.mem_append_left _ hw)
  · have hw := arity_mem_inversionViolations hr hkind hpair
    rw [← key_inversionArity]
    exact hleast _ (List.mem_append_right _ hw)
  · obtain ⟨w, hw⟩ := exists_overlapBreach hx
    rw [← key_of_overlap hx.lt hw]
    exact hleast w (List.mem_append_right _ (mem_inversionViolations.2 (.inr ⟨x, hx, hw⟩)))
  · rcases List.mem_append.1 hfirst.mem with hboundary | hinversion
    · -- a broken boundary
      obtain ⟨b, hb, hfound⟩ := hbreaches.sound v hboundary
      obtain ⟨hkey, chain, facts, hv⟩ := key_of_finds hfound
      exact .inl ⟨b, chain, facts, hb, hkey, hv⟩
    · rcases mem_inversionViolations.1 hinversion with ⟨f, hf, hpair, hv⟩ | ⟨x, hx, hbreach⟩
      · -- an inversion by itself; of those with its key none has lesser endpoints
        obtain ⟨r, hr, hkind, hfact⟩ := mem_inversions.1 hf
        rw [hfact] at hv hpair
        rw [pairsDistinct_fact_iff (s.fits r hr)] at hpair
        have hkey : v.key = s.arityKey r := by
          rw [hv]
          exact key_inversionArity s r
        refine .inr (.inl ⟨r, hr, hkind, hpair, hkey, hv, fun q hq hkindq hpairq hkeyq => ?_⟩)
        have hle := hfirst.le _
          (List.mem_append_right _ (arity_mem_inversionViolations hq hkindq hpairq))
        rw [hv] at hle hkeyq
        rw [← key_inversionArity] at hkeyq
        exact Violation.endpoints_of_tie hle hkeyq.symm
      · -- a shared node
        have hkey := key_of_overlap hx.lt hbreach
        obtain ⟨first, hin, second, hin', hv, hx₁, hx₂⟩ := facts_of_overlap hbreach
        exact .inr (.inr ⟨x, first, hin, second, hin', hx, hkey, hv, hx₁, hx₂⟩)

/-- A boundary of itself, and two inversions of the same three nodes. -/
def crowded : List Call :=
  [.declare "B", .declare "A", .declare "C", .relate ⟨.bounds, [0, 0], 1⟩,
    .relate ⟨.inverts, [2, 0, 1], 2⟩, .relate ⟨.inverts, [1, 2, 0], 3⟩]

theorem crowded_witness :
    (built crowded).validate {}
        = .ok (.inadmissible (.inversionArity ["A", "C", "B"] ⟨.inverts, ["A", "C", "B"]⟩))
      ∧ (Violation.Key.mk "A" "A,B,C" 1).AtMost ((built crowded).boundaryKey 0)
      ∧ (Violation.Key.mk "A" "A,B,C" 1).AtMost ((built crowded).arityKey ⟨.inverts, [2, 0, 1], 2⟩) := by
  have hrun : (built crowded).validate {}
      = .ok (.inadmissible (.inversionArity ["A", "C", "B"] ⟨.inverts, ["A", "C", "B"]⟩)) := by
    -- keys decide between the violations about A, and keys hold sorted labels
    simp only [validate, witness, inversionViolations, overlapViolation?.eq_unfold,
      bySignature_eq_insertionSort, signatureOrder, Violation.least, Violation.precedence,
      compareLex, compareOn, Violation.key.eq_def, Violation.leastLabel, Fact.signature,
      signature, sortLabels_eq_insertionSort]
    decide +kernel
  have hkey : (Violation.inversionArity ["A", "C", "B"] ⟨.inverts, ["A", "C", "B"]⟩).key
      = ⟨"A", "A,B,C", 1⟩ := by
    simp only [Violation.key, Violation.leastLabel, signature, sortLabels_eq_insertionSort]
    decide +kernel
  have hbroken : (built crowded).BreaksBoundary 0 := by
    have hedges : (built crowded).edges .bounds = [(0, 0)] := by decide +kernel
    have hcount : (built crowded).nodeCount = 3 := by decide +kernel
    refine ⟨0, by rw [hedges]; simp, .refl (by rw [hcount]; omega)⟩
  have hrelations : (built crowded).relations = #[⟨.bounds, [0, 0], 1⟩, ⟨.inverts, [2, 0, 1], 2⟩,
      ⟨.inverts, [1, 2, 0], 3⟩] := by decide +kernel
  obtain ⟨hboundary, harity, -, -⟩ := witness_is_least (built crowded) {} _ hrun
  rw [hkey] at hboundary harity
  exact ⟨hrun, hboundary 0 hbroken, harity _ (by rw [hrelations]; simp) rfl (by decide)⟩

end Structure

end Admissibility
