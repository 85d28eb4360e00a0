/-
  Admissibility.Proofs.Excerpt
  ────────────────────────────
  **The evidence of a violation is a description with the same violation.**

  An excerpt declares the labels that the evidence of a violation names and states its facts, and
  nothing else.  It is a part of the structure, and it has the same first violation: the chain of a
  broken boundary stays the first route, and two inversions of a shared node have no violation of
  their own that would not be one of the whole structure.  Only the list of bounded labels shrinks,
  to the one that the chain leads to.

  `StandsAlone.of_finds`, `StandsAlone.of_arity`, `StandsAlone.of_overlap`: the sorts of violations.
  `ofText_excerpt`: the text of the evidence is accepted.
  `evidence_stands_alone`: its validation tells the same violation under the same limits.
-/
import Admissibility.Proofs.Description.Printed
import Admissibility.Proofs.Part

namespace Admissibility

/-! ## §1. Excerpts. -/

namespace Violation

/-- The text of the evidence: the labels that it names, and its facts. -/
def excerpt (v : Violation) : String := Description.printed v.labels v.facts

/-- The violation with the bounded label to which its chain leads alone. -/
def narrowed : Violation → Violation
  | .boundaryMembership boundary _ chain facts =>
    .boundaryMembership boundary [chain.getLast?.getD boundary] chain facts
  | v => v

theorem mem_labels {v : Violation} {name : String} :
    name ∈ v.labels ↔ ∃ f ∈ v.facts, name ∈ f.endpoints := by
  rw [labels, mem_distinctLabels, List.mem_flatMap]

theorem nodup_labels (v : Violation) : v.labels.Nodup :=
  (ascending_distinctLabels _).imp ne_of_lt

/-- The first of a list in which every violation is one and the same. -/
theorem first_of_forall_eq {violations : List Violation} {v : Violation} (hmem : v ∈ violations)
    (h : ∀ w ∈ violations, w = v) : First violations v := by
  refine ⟨hmem, fun w hw => ?_⟩
  rw [h w hw]
  exact Std.ReflCmp.isLE_rfl

end Violation

namespace Structure

open Violation (First)

variable {s t : Structure} {v : Violation} {b x : Nat}

/-- A structure that is the excerpt of a violation. -/
structure Excerpt (t : Structure) (v : Violation) : Prop where
  labels : t.labels.toList = v.labels
  facts : t.facts = v.facts

theorem Excerpt.mem_labels {f : Fact} {name : String} (h : Excerpt t v) (hf : f ∈ v.facts)
    (hname : name ∈ f.endpoints) : name ∈ t.labels := by
  rw [← Array.mem_toList_iff, h.labels]
  exact Violation.mem_labels.2 ⟨f, hf, hname⟩

/-- The excerpt of evidence that a structure has is a part of it. -/
theorem Excerpt.part (h : Excerpt t v) (hfacts : v.facts.Subperm s.facts) : Part t s := by
  refine ⟨fun label hlabel => ?_, h.facts ▸ hfacts⟩
  rw [← Array.mem_toList_iff, h.labels] at hlabel
  obtain ⟨f, hf, hname⟩ := Violation.mem_labels.1 hlabel
  exact mem_labels_of_mem_facts (hfacts.subset hf) hname

/-- What an excerpt has to come to: it is evidence of the structure, it costs no more, and its own
first violation is the one that it is the excerpt of. -/
structure StandsAlone (s : Structure) (v : Violation) : Prop where
  facts_ne_nil : v.facts ≠ []
  facts : v.facts.Subperm s.facts
  cost_le : ∀ {t : Structure}, Excerpt t v → t.cost ≤ s.cost
  first : ∀ {t : Structure}, Excerpt t v → ∀ violations, t.Breaches violations →
    First (violations ++ t.inversionViolations) v.narrowed

/-! ## §2. Chains of labels. -/

theorem fact_of_mem_linksOf {names : List String} {f : Fact} (h : f ∈ linksOf names) :
    ∃ a c, a ∈ names ∧ f = ⟨.memberOf, [a, c]⟩ := by
  induction names with
  | nil => cases h
  | cons a rest ih =>
    cases rest with
    | nil => cases h
    | cons c rest =>
      rcases List.mem_cons.1 h with heq | h
      · exact ⟨a, c, List.mem_cons_self, heq⟩
      · obtain ⟨a', c', ha', hf⟩ := ih h
        exact ⟨a', c', List.mem_cons_of_mem _ ha', hf⟩

/-- Links from different labels are different. -/
theorem nodup_linksOf {names : List String} (h : names.Nodup) : (linksOf names).Nodup := by
  induction names with
  | nil => exact .nil
  | cons a rest ih =>
    cases rest with
    | nil => exact .nil
    | cons c rest =>
      obtain ⟨ha, hrest⟩ := List.nodup_cons.1 h
      refine List.nodup_cons.2 ⟨fun hmem => ?_, ih hrest⟩
      obtain ⟨a', c', ha', heq⟩ := fact_of_mem_linksOf hmem
      cases heq
      exact ha ha'

/-- Behind the first one, a label of a chain is in one of its links. -/
theorem mem_linksOf {a name : String} {rest : List String} (h : name ∈ rest) :
    ∃ f ∈ linksOf (a :: rest), name ∈ f.endpoints := by
  induction rest generalizing a with
  | nil => cases h
  | cons c rest ih =>
    rcases List.mem_cons.1 h with heq | h
    · exact ⟨⟨.memberOf, [a, c]⟩, List.mem_cons_self, by simp [heq]⟩
    · obtain ⟨f, hf, hname⟩ := @ih c h
      exact ⟨f, List.mem_cons_of_mem _ hf, hname⟩

/-- Labels whose links are facts make a route. -/
theorem route_of_links {names : List String} (hnames : ∀ name ∈ names, name ∈ t.labels)
    (hlinks : ∀ f ∈ linksOf names, f ∈ t.facts) :
    (names.map t.node).IsChain fun x y => (x, y) ∈ t.edges .memberOf := by
  induction names with
  | nil => exact .nil
  | cons a rest ih =>
    cases rest with
    | nil => exact .singleton _
    | cons c rest =>
      have hrest := ih (fun name hname => hnames name (List.mem_cons_of_mem _ hname))
        fun f hf => hlinks f (List.mem_cons_of_mem _ hf)
      obtain ⟨ha, hlabel⟩ := node_spec (hnames a (by simp))
      obtain ⟨hc, hlabel'⟩ := node_spec (hnames c (by simp))
      refine List.isChain_cons_cons.2 ⟨?_, hrest⟩
      rw [mem_edges_iff_fact rfl ha hc, hlabel, hlabel']
      exact hlinks _ List.mem_cons_self

/-! ## §3. Broken boundaries. -/

/-- Two first routes have the same labels. -/
theorem Answers.map_label_eq {source : Nat} {targets : NodeSet} {chain other : List Nat}
    (h : s.Answers source targets (some chain)) (h' : s.Answers source targets (some other)) :
    chain.map s.label = other.map s.label := by
  rcases (h.2 other h'.1).eq_or_sooner with hsooner | ⟨-, heq⟩
  · exact absurd (h'.2 chain h.1) hsooner.not_noLater
  · exact heq

/-- The evidence of a broken boundary, in labels: the boundary, the label that the chain leads to,
and the chain itself, all of it facts of the structure. -/
structure Broken (s : Structure) (boundary last : String) (names : List String) : Prop where
  nodup : names.Nodup
  begins : names.head? = some boundary
  ends : names.getLast? = some last
  facts : ∀ f ∈ (⟨.bounds, [boundary, last]⟩ :: linksOf names : List Fact), f ∈ s.facts
  answers : s.Answers (s.node boundary) (s.targets (s.node boundary)) (some (names.map s.node))
  known : ∀ name ∈ names, name ∈ s.labels

/-- The first route from a boundary into what it bounds is such evidence. -/
theorem broken_of_answers {chain : List Nat} (hb : b < s.nodeCount)
    (h : s.Answers b (s.targets b) (some chain)) :
    ∃ last, s.boundaryViolation b (s.bounded b) chain = .boundaryMembership (s.label b)
          ((s.bounded b).map s.label) (chain.map s.label)
          (⟨.bounds, [s.label b, last]⟩ :: linksOf (chain.map s.label))
      ∧ s.Broken (s.label b) last (chain.map s.label) := by
  have hgenuine : s.Genuine (s.boundaryViolation b (s.bounded b) chain) :=
    genuine_of_finds hb ⟨chain, h, rfl⟩
  rw [boundaryViolation_eq] at hgenuine ⊢
  obtain ⟨-, -, hnodup, hhead, last, -, hlast, hfacts, hdeclared⟩ := hgenuine
  rw [← linksOf_eq_zipWith] at hfacts
  rw [hfacts] at hdeclared
  have hlt := h.1.toRoute.lt hb
  have hnodes : (chain.map s.label).map s.node = chain := by
    rw [List.map_map]
    exact (List.map_congr_left fun x hx => node_label (hlt x hx)).trans (List.map_id _)
  refine ⟨last, by rw [told, hfacts],
    ⟨hnodup, hhead, hlast, fun f hf => mem_facts.2 (hdeclared f hf), ?_, fun name hname => ?_⟩⟩
  · rw [node_label hb, hnodes]
    exact h
  · obtain ⟨x, hx, rfl⟩ := List.mem_map.1 hname
    exact label_mem (hlt x hx)

/-- Without inversions there is nothing wrong with any. -/
theorem inversionViolations_eq_nil (h : t.inversions = []) : t.inversionViolations = [] := by
  refine List.eq_nil_iff_forall_not_mem.2 fun v hv => ?_
  rcases mem_inversionViolations.1 hv with ⟨f, hf, -⟩ | ⟨x, hx, -⟩
  · rw [h] at hf
    cases hf
  · have hlen := (one_lt_length_facts_iff hx.lt).2 hx
    rw [h] at hlen
    cases hlen

section Boundary

variable {boundary last : String} {names : List String} {bounded : List String}

theorem Broken.head_mem (h : s.Broken boundary last names) : boundary ∈ names :=
  List.mem_of_head? h.begins

theorem Broken.last_mem (h : s.Broken boundary last names) : last ∈ names :=
  List.mem_of_getLast? h.ends

/-- The facts of the evidence are all different. -/
theorem Broken.subperm (h : s.Broken boundary last names) :
    (⟨.bounds, [boundary, last]⟩ :: linksOf names : List Fact).Subperm s.facts := by
  refine List.Nodup.subperm (List.nodup_cons.2 ⟨fun hmem => ?_, nodup_linksOf h.nodup⟩) h.facts
  obtain ⟨a, c, -, heq⟩ := fact_of_mem_linksOf hmem
  cases heq

variable (h : s.Broken boundary last names)
  (ht : Excerpt t (.boundaryMembership boundary bounded names
    (⟨.bounds, [boundary, last]⟩ :: linksOf names)))

include h ht

theorem Excerpt.names_mem : ∀ name ∈ names, name ∈ t.labels := by
  intro name hname
  cases names with
  | nil => cases hname
  | cons a rest =>
    cases h.begins
    rcases List.mem_cons.1 hname with heq | hrest
    · exact ht.mem_labels List.mem_cons_self (by simp [heq])
    · obtain ⟨f, hf, hmem⟩ := @mem_linksOf boundary name rest hrest
      exact ht.mem_labels (List.mem_cons_of_mem _ hf) hmem

/-- The only boundary of the excerpt, and the only node that it bounds. -/
theorem Excerpt.mem_edges_bounds {x y : Nat} :
    (x, y) ∈ t.edges .bounds ↔ x = t.node boundary ∧ y = t.node last := by
  have hknown := ht.names_mem h
  obtain ⟨hb, hlabel⟩ := node_spec (hknown boundary h.head_mem)
  obtain ⟨hl, hlabel'⟩ := node_spec (hknown last h.last_mem)
  constructor
  · intro hedge
    obtain ⟨hx, hy⟩ := edge_lt hedge
    have hfact := (mem_edges_iff_fact rfl hx hy).1 hedge
    rw [ht.facts] at hfact
    rcases List.mem_cons.1 hfact with heq | hlink
    · obtain ⟨hx', hy'⟩ : t.label x = boundary ∧ t.label y = last := by simpa using heq
      rw [← hx', ← hy', node_label hx, node_label hy]
      exact ⟨rfl, rfl⟩
    · obtain ⟨a, c, -, heq⟩ := fact_of_mem_linksOf hlink
      cases heq
  · intro hxy
    obtain ⟨rfl, rfl⟩ := hxy
    rw [mem_edges_iff_fact rfl hb hl, hlabel, hlabel', ht.facts]
    exact List.mem_cons_self

theorem Excerpt.map_label_bounded : (t.bounded (t.node boundary)).map t.label = [last] := by
  have hone : t.bounded (t.node boundary) = [t.node last] := by
    refine eq_of_ascending (R := fun x y => t.label x < t.label y) (fun x => String.lt_irrefl _)
      (fun x y => String.lt_asymm) (ascending_row (t.inside_edges .bounds))
      (List.pairwise_singleton _ _) fun y => ?_
    rw [mem_bounded, ht.mem_edges_bounds h, List.mem_singleton]
    exact and_iff_right rfl
  rw [hone, List.map_singleton, (node_spec (ht.names_mem h last h.last_mem)).2]

/-- The chain is there in the excerpt. -/
theorem Excerpt.leads :
    t.Leads (t.node boundary) (t.targets (t.node boundary)) (names.map t.node) := by
  have hknown := ht.names_mem h
  refine ⟨⟨by rw [List.head?_map, h.begins]; rfl, route_of_links hknown fun f hf => ?_⟩,
    t.node last, by rw [List.getLast?_map, h.ends]; rfl, ?_⟩
  · rw [ht.facts]
    exact List.mem_cons_of_mem _ hf
  · exact contains_targets.2 ((ht.mem_edges_bounds h).2 ⟨rfl, rfl⟩)

/-- Led back to the structure, the chain of the excerpt is the first route there. -/
theorem Excerpt.answers_whole :
    s.Answers (counterpart t s (t.node boundary)) (s.targets (counterpart t s (t.node boundary)))
      (some ((names.map t.node).map (counterpart t s))) := by
  have hback : ∀ name ∈ names, counterpart t s (t.node name) = s.node name := by
    intro name hname
    rw [counterpart, (node_spec (ht.names_mem h name hname)).2]
  have hchain : (names.map t.node).map (counterpart t s) = names.map s.node := by
    rw [List.map_map]
    exact List.map_congr_left hback
  rw [hchain, hback boundary h.head_mem]
  exact h.answers

theorem Excerpt.isPart : Part t s := ht.part h.subperm

/-- The boundary is the only one of the excerpt. -/
theorem Excerpt.eq_of_isBoundary (hx : t.IsBoundary x) : x = t.node boundary := by
  obtain ⟨y, hedge⟩ := hx
  exact ((ht.mem_edges_bounds h).1 hedge).1

omit h in
theorem Excerpt.inversions_eq_nil : t.inversions = [] := by
  rw [inversions_eq_filter, ht.facts, List.filter_eq_nil_iff]
  intro f hf
  rcases List.mem_cons.1 hf with heq | hlink
  · simp [heq]
  · obtain ⟨a, c, -, heq⟩ := fact_of_mem_linksOf hlink
    simp [heq]

/-- **The violation of the excerpt** is the same, but for the labels that are bounded. -/
theorem Excerpt.finds_eq {w : Violation} (hw : t.Finds (t.node boundary) (some w)) :
    w = (Violation.boundaryMembership boundary bounded names
      (⟨.bounds, [boundary, last]⟩ :: linksOf names)).narrowed := by
  have hknown := ht.names_mem h
  obtain ⟨hb, hlabel⟩ := node_spec (hknown boundary h.head_mem)
  obtain ⟨chain, hanswer, rfl⟩ := hw
  have hfirst := (ht.isPart h).answers hb (ht.leads h) (ht.answers_whole h)
  have hnames : chain.map t.label = names := by
    rw [hanswer.map_label_eq hfirst, List.map_map]
    exact (List.map_congr_left fun name hname => (node_spec (hknown name hname)).2).trans
      (List.map_id _)
  rw [boundaryViolation_eq, hnames, hlabel, ht.map_label_bounded h, told, h.ends,
    Violation.narrowed, h.ends]
  rfl

/-- The one boundary of the excerpt is broken, and every violation is its violation. -/
theorem Excerpt.first_narrowed {violations : List Violation} (hbreaches : t.Breaches violations) :
    First (violations ++ t.inversionViolations)
      (Violation.boundaryMembership boundary bounded names
        (⟨.bounds, [boundary, last]⟩ :: linksOf names)).narrowed := by
  obtain ⟨hb, -⟩ := node_spec (ht.names_mem h boundary h.head_mem)
  have hall : ∀ w ∈ violations, w = (Violation.boundaryMembership boundary bounded names
      (⟨.bounds, [boundary, last]⟩ :: linksOf names)).narrowed := by
    intro w hw
    obtain ⟨x, hbroken, hfound⟩ := hbreaches.sound w hw
    rw [ht.eq_of_isBoundary h hbroken.isBoundary] at hfound
    exact ht.finds_eq h hfound
  obtain ⟨w, hw, -⟩ := hbreaches.complete _ ((breaksBoundary_iff hb).2 ⟨_, ht.leads h⟩)
  rw [inversionViolations_eq_nil ht.inversions_eq_nil, List.append_nil]
  exact Violation.first_of_forall_eq (hall w hw ▸ hw) hall

theorem Excerpt.cost_le : t.cost ≤ s.cost := by
  obtain ⟨hb, -⟩ := node_spec (ht.names_mem h boundary h.head_mem)
  exact (ht.isPart h).cost_le hb (ht.leads h) (ht.answers_whole h) fun x => ht.eq_of_isBoundary h

end Boundary

/-- **A broken boundary** stands alone. -/
theorem StandsAlone.of_finds (hb : b < s.nodeCount) (h : s.Finds b (some v)) : s.StandsAlone v := by
  obtain ⟨chain, hanswer, rfl⟩ := h
  obtain ⟨last, hviolation, hbroken⟩ := broken_of_answers hb hanswer
  rw [hviolation]
  exact ⟨List.cons_ne_nil _ _, hbroken.subperm, fun ht => ht.cost_le hbroken,
    fun ht _ => ht.first_narrowed hbroken⟩

/-! ## §4. Inversions. -/

/-- An excerpt without `bounds` facts has no boundaries, so it costs nothing and breaks none. -/
theorem Excerpt.no_boundary (ht : Excerpt t v) (hkind : ∀ f ∈ v.facts, f.kind = .inverts) :
    ∀ x, ¬ t.IsBoundary x := by
  intro x hx
  obtain ⟨y, hedge⟩ := hx
  obtain ⟨hx, hy⟩ := edge_lt hedge
  have hfact := (mem_edges_iff_fact rfl hx hy).1 hedge
  rw [ht.facts] at hfact
  cases hkind _ hfact

theorem Excerpt.inversions_eq (ht : Excerpt t v) (hkind : ∀ f ∈ v.facts, f.kind = .inverts) :
    t.inversions = v.facts := by
  rw [inversions_eq_filter, ht.facts, List.filter_eq_self]
  exact fun f hf => decide_eq_true (hkind f hf)

/-- The inversions of a structure are among its facts. -/
theorem inversions_sublist (s : Structure) : s.inversions.Sublist s.facts := by
  rw [inversions_eq_filter]
  exact List.filter_sublist

/-- Evidence of inversions alone stands alone where its violation is the first of the excerpt's
inversions. -/
theorem StandsAlone.of_inversions (hne : v.facts ≠ []) (hsub : v.facts.Subperm s.inversions)
    (hnarrowed : v.narrowed = v)
    (hfirst : ∀ {t : Structure}, t.inversions = v.facts → First t.inversionViolations v) :
    s.StandsAlone v := by
  have hkind : ∀ f ∈ v.facts, f.kind = .inverts := fun f hf =>
    kind_of_mem_inversions (hsub.subset hf)
  refine ⟨hne, hsub.trans s.inversions_sublist.subperm, fun {t} ht => ?_,
    fun {t} ht violations hbreaches => ?_⟩
  · rw [cost_eq_zero (ht.no_boundary hkind)]
    exact Nat.zero_le _
  · have hnil : violations = [] :=
      hbreaches.eq_nil_iff.2 fun x hx => ht.no_boundary hkind x hx.isBoundary
    rw [hnil, List.nil_append, hnarrowed]
    exact hfirst (ht.inversions_eq hkind)

/-- **An inversion by itself** stands alone. -/
theorem StandsAlone.of_arity {f : Fact} (hf : f ∈ s.inversions) (hpair : ¬ PairsDistinct f) :
    s.StandsAlone (.inversionArity f.endpoints f) := by
  refine .of_inversions (List.cons_ne_nil _ _) (List.singleton_subperm_iff.2 hf) rfl
    fun {t} hinversions => ?_
  have hfacts : t.inversions = [f] := hinversions
  refine Violation.first_of_forall_eq ?_ fun w hw => ?_
  · exact mem_inversionViolations.2 (.inl ⟨f, hfacts ▸ List.mem_cons_self, hpair, rfl⟩)
  · rcases mem_inversionViolations.1 hw with ⟨g, hg, -, hw⟩ | ⟨x, hx, -⟩
    · rw [hfacts, List.mem_singleton] at hg
      rw [hw, hg]
    · -- one inversion alone shares no node
      have hlen := (one_lt_length_facts_iff hx.lt).2 hx
      have hle := List.length_filter_le (fun g => decide (t.label x ∈ g.endpoints)) t.inversions
      rw [hfacts] at hlen hle
      simp only [List.length_singleton] at hle
      omega

/-- Two facts of a label in their order are the evidence of this label. -/
theorem overlapBreach?_pair {first second : Fact} {label : String}
    (hkind : first.kind = second.kind)
    (hle : (signatureOrder first second).isLE = true) (hfirst : label ∈ first.endpoints)
    (hsecond : label ∈ second.endpoints) :
    overlapBreach? [first, second] label = some (.inversionOverlap label first second) := by
  have hsorted : bySignature [first, second] = [first, second] := by
    refine (bySignature_perm _).eq_of_pairwise (fun f g hf hg hfg hgf => ?_)
      (pairwise_bySignature _) (by simpa using hle)
    have hk : ∀ h ∈ [first, second], h.kind = first.kind := by simp [hkind]
    exact eq_of_signatureOrder
      ((hk f ((bySignature_perm _).mem_iff.1 hf)).trans (hk g hg).symm) hfg hgf
  have hfilter : [first, second].filter (fun f => label ∈ f.endpoints) = [first, second] := by
    simp [hfirst, hsecond]
  rw [overlapBreach?, hfilter, hsorted]

/-- A label in two facts is in both of them. -/
theorem mem_both_of_one_lt {first second : Fact} {label : String}
    (h : 1 < ([first, second].filter fun f => label ∈ f.endpoints).length) :
    label ∈ first.endpoints ∧ label ∈ second.endpoints := by
  have hlen : ([first, second].filter fun f => label ∈ f.endpoints).length
      = [first, second].length := by
    have hle := List.length_filter_le (fun f => decide (label ∈ f.endpoints)) [first, second]
    simp only [List.length_cons, List.length_nil] at hle ⊢
    omega
  have hall := List.length_filter_eq_length_iff.1 hlen
  exact ⟨of_decide_eq_true (hall first (by simp)), of_decide_eq_true (hall second (by simp))⟩

/-- Of two overlaps with the same facts, the one with the lesser label comes first. -/
theorem precedence_of_le {first second : Fact} {node other : String} (h : node ≤ other) :
    (Violation.precedence (.inversionOverlap node first second)
      (.inversionOverlap other first second)).isLE = true := by
  rcases lt_or_eq_of_le h with hlt | rfl
  · refine compareLex_isLE_iff.2 (.inl ?_)
    show (compare node other).then _ = .lt
    rw [compare_eq_lt_iff.2 hlt]
    rfl
  · exact Std.ReflCmp.isLE_rfl

/-- The two facts of a shared node are among all, name it, and stand in their order. -/
theorem facts_of_overlapBreach {facts : List Fact} {label : String}
    (h : overlapBreach? facts label = some v) : ∃ first second,
      v = .inversionOverlap label first second ∧ [first, second].Subperm facts
        ∧ label ∈ first.endpoints ∧ label ∈ second.endpoints
        ∧ (signatureOrder first second).isLE = true := by
  obtain ⟨first, second, rest, hsorted, rfl⟩ := overlapBreach?_eq_some_iff.1 h
  have hperm := bySignature_perm (facts.filter fun f => label ∈ f.endpoints)
  have hpairwise := pairwise_bySignature (facts.filter fun f => label ∈ f.endpoints)
  rw [hsorted] at hperm hpairwise
  have hfront : [first, second].Sublist (first :: second :: rest) :=
    List.sublist_append_left [_, _] rest
  have hmem : ∀ f ∈ first :: second :: rest, label ∈ f.endpoints := fun f hf =>
    of_decide_eq_true (List.mem_filter.1 (hperm.mem_iff.1 hf)).2
  refine ⟨first, second, rfl, ?_, hmem first (by simp), hmem second (by simp), ?_⟩
  · exact (hfront.subperm.trans hperm.subperm).trans List.filter_sublist.subperm
  · exact (List.pairwise_cons.1 hpairwise).1 second List.mem_cons_self

/-- Where a shared node makes the first violation, it has the least label of the shared nodes. -/
theorem label_le_of_first {violations : List Violation} {label : String} {first second : Fact}
    (hfirst : First (violations ++ s.inversionViolations) (.inversionOverlap label first second))
    (hx : s.Shared x) : label ≤ s.label x := by
  obtain ⟨w, hw⟩ := exists_overlapBreach hx
  obtain ⟨f, g, -, -, rfl⟩ := overlapBreach?_eq_some_iff.1 hw
  have hmem : _ ∈ s.inversionViolations := mem_inversionViolations.2 (.inr ⟨x, hx, hw⟩)
  have hbefore := hfirst.le _ (List.mem_append_right _ hmem)
  rcases Violation.key_atMost hbefore with hlt | ⟨heq, -⟩
  · exact le_of_lt (Text.bytes_lt_iff.1 hlt)
  · exact le_of_eq heq

/-- Two inversions that share a label are inversions of a structure that share a node. -/
theorem shared_of_subperm {first second : Fact} {label : String}
    (hsub : [first, second].Subperm s.inversions) (hfirst : label ∈ first.endpoints)
    (hsecond : label ∈ second.endpoints) : ∃ x, s.Shared x ∧ s.label x = label := by
  have hfact : first ∈ s.facts := s.inversions_sublist.subset (hsub.subset (by simp))
  obtain ⟨hlt, hlabel⟩ := node_spec (mem_labels_of_mem_facts hfact hfirst)
  refine ⟨s.node label, ?_, hlabel⟩
  rw [← one_lt_length_facts_iff hlt, hlabel]
  have hlen := (hsub.filter fun f => decide (label ∈ f.endpoints)).length_le
  have htwo : ([first, second].filter fun f => label ∈ f.endpoints).length = 2 := by
    simp [hfirst, hsecond]
  omega

/-- **A shared node** stands alone, where its violation is the first of the structure. -/
theorem StandsAlone.of_overlap {violations : List Violation}
    (hbreach : overlapBreach? s.inversions (s.label x) = some v)
    (hleast : First (violations ++ s.inversionViolations) v) : s.StandsAlone v := by
  obtain ⟨first, second, rfl, hsub, hfirst, hsecond, hle⟩ := facts_of_overlapBreach hbreach
  have hkind : first.kind = second.kind :=
    (kind_of_mem_inversions (hsub.subset (by simp))).trans
      (kind_of_mem_inversions (hsub.subset (by simp))).symm
  refine .of_inversions (List.cons_ne_nil _ _) hsub rfl fun {t} hinversions => ?_
  have hfacts : t.inversions = [first, second] := hinversions
  refine ⟨?_, fun w hw => ?_⟩
  · -- the node is shared in the excerpt as well
    have hsame : [first, second].Subperm t.inversions := by
      rw [hfacts]
    obtain ⟨y, hy, hlabel⟩ := shared_of_subperm hsame hfirst hsecond
    refine mem_inversionViolations.2 (.inr ⟨y, hy, ?_⟩)
    rw [hlabel, hfacts]
    exact overlapBreach?_pair hkind hle hfirst hsecond
  · rcases mem_inversionViolations.1 hw with ⟨f, hf, hpair, rfl⟩ | ⟨y, hy, hw⟩
    · -- an inversion by itself is one of the structure
      rw [hfacts] at hf
      exact hleast.le _ (List.mem_append_right _
        (mem_inversionViolations.2 (.inl ⟨f, hsub.subset hf, hpair, rfl⟩)))
    · -- another shared node is one of the structure, whose violation has the greater label
      have hlen := (one_lt_length_facts_iff hy.lt).2 hy
      rw [hfacts] at hlen hw
      obtain ⟨hyfirst, hysecond⟩ := mem_both_of_one_lt hlen
      rw [overlapBreach?_pair hkind hle hyfirst hysecond] at hw
      cases hw
      obtain ⟨z, hz, hlabel⟩ := shared_of_subperm hsub hyfirst hysecond
      exact precedence_of_le (hlabel ▸ label_le_of_first hleast hz)

/-! ## §5. The violation reported. -/

/-- The violation that a validation reports stands alone. -/
theorem standsAlone_of_validate {limits : Limits}
    (h : s.validate limits = .ok (.inadmissible v)) : s.StandsAlone v := by
  obtain ⟨violations, hbreaches, hfirst⟩ := first_of_validate h
  rcases List.mem_append.1 hfirst.mem with hboundary | hinversion
  · obtain ⟨b, hbroken, hfound⟩ := hbreaches.sound v hboundary
    exact StandsAlone.of_finds hbroken.isBoundary.lt hfound
  · rcases mem_inversionViolations.1 hinversion with ⟨f, hf, hpair, rfl⟩ | ⟨x, -, hbreach⟩
    · exact StandsAlone.of_arity hf hpair
    · exact StandsAlone.of_overlap hbreach hfirst

/-- **The same limits** suffice for a part that costs no more than the whole. -/
theorem Part.validate {limits : Limits} {w : Witness} (h : Part t s) (hcost : t.cost ≤ s.cost)
    (hfirst : ∀ violations, t.Breaches violations →
      First (violations ++ t.inversionViolations) v)
    (hs : s.validate limits = .ok w) : t.validate limits = .ok (.inadmissible v) := by
  obtain ⟨violations, hbreaches, hpart⟩ := t.validate_eq_cost
  obtain ⟨hn, hr, hc⟩ := within_limits hs
  have hnodes := h.nodeCount_le
  have hrelations := h.relationCount_le
  rw [hpart, if_neg (by omega), if_neg (by omega), if_neg (by omega), Structure.witness,
    Violation.least_eq_some_iff.2 (hfirst violations hbreaches)]

/-- The facts of a structure can be stated about their labels. -/
theorem takes_of_mem_facts {f : Fact} (hf : f ∈ s.facts) : f.kind.Takes f.endpoints.length := by
  obtain ⟨r, hr, rfl⟩ := mem_facts.1 hf
  have htakes := (s.fits r hr).takes
  rwa [← List.length_map (f := s.label)] at htakes

/-- Evidence of a structure names some label. -/
theorem labels_ne_nil (hne : v.facts ≠ []) (hsub : v.facts.Subperm s.facts) : v.labels ≠ [] := by
  obtain ⟨f, hf⟩ := List.exists_mem_of_ne_nil _ hne
  obtain ⟨name, hname⟩ :=
    List.exists_mem_of_ne_nil _ (takes_of_mem_facts (hsub.subset hf)).ne_nil
  exact List.ne_nil_of_mem (Violation.mem_labels.2 ⟨f, hf, hname⟩)

/-- **The printed excerpt** of evidence of a text's structure is accepted. -/
theorem ofText_excerpt {text : String} (hs : ofText text = .ok s) (hne : v.facts ≠ [])
    (hsub : v.facts.Subperm s.facts) : ∃ t, ofText v.excerpt = .ok t ∧ Excerpt t v := by
  have hreadable : ∀ label ∈ v.labels, Description.ReadableName label := by
    intro label hlabel
    obtain ⟨f, hf, hname⟩ := Violation.mem_labels.1 hlabel
    exact Description.readable_of_ofText hs label (mem_labels_of_mem_facts (hsub.subset hf) hname)
  have hfits : ∀ f ∈ v.facts, Description.Fits v.labels f := fun f hf =>
    ⟨fun name hname => Violation.mem_labels.2 ⟨f, hf, hname⟩, takes_of_mem_facts (hsub.subset hf)⟩
  obtain ⟨t, ht, hlabels, hfacts⟩ :=
    Description.ofText_printed (labels_ne_nil hne hsub) v.nodup_labels hreadable hfits
  exact ⟨t, ht, hlabels, hfacts⟩

/-- **A witness is a self-contained counterexample**: where the structure of a text is inadmissible,
the text of the evidence is accepted as well, and under the same limits its structure is
inadmissible with the same violation, but for the bounded labels, of which there is the one that the
chain leads to. -/
theorem evidence_stands_alone (text : String) (limits : Limits) (s : Structure) (v : Violation)
    (hs : ofText text = .ok s) (h : s.validate limits = .ok (.inadmissible v)) :
    ∃ t, ofText v.excerpt = .ok t ∧ t.validate limits = .ok (.inadmissible v.narrowed) := by
  have halone := standsAlone_of_validate h
  obtain ⟨t, ht, hexcerpt⟩ := ofText_excerpt hs halone.facts_ne_nil halone.facts
  exact ⟨t, ht, (hexcerpt.part halone.facts).validate (halone.cost_le hexcerpt)
    (halone.first hexcerpt) h⟩

/-- The structure behind what the validation of a text comes to. -/
theorem exists_of_map_validate {text : String} {limits : Limits} {answer : Except Exhausted Witness}
    (h : (ofText text).map (·.validate limits) = .ok answer) :
    ∃ s, ofText text = .ok s ∧ s.validate limits = answer := by
  cases hs : ofText text with
  | error f =>
    rw [hs] at h
    cases h
  | ok s =>
    rw [hs] at h
    exact ⟨s, rfl, Except.ok.inj h⟩

/-- A boundary that is a member of both nodes it bounds, and an inversion of a single node. -/
def bothSides : String :=
  "node B, A, C\nbounds(A, \x7bC, B\x7d);\nmember-of(A, C) member-of(A, B)\ninverts(C)"

theorem bothSides_excerpt :
    ∃ s, ofText bothSides = .ok s
      ∧ s.validate {} = .ok (.inadmissible (.boundaryMembership "A" ["B", "C"] ["A", "B"]
          [⟨.bounds, ["A", "B"]⟩, ⟨.memberOf, ["A", "B"]⟩]))
      ∧ ∃ t, ofText "node A, B;\nbounds(A, B)\nmember-of(A, B)" = .ok t
        ∧ t.validate {} = .ok (.inadmissible (.boundaryMembership "A" ["B"] ["A", "B"]
          [⟨.bounds, ["A", "B"]⟩, ⟨.memberOf, ["A", "B"]⟩])) := by
  have hrun : (ofText bothSides).map (·.validate {})
      = .ok (.ok (.inadmissible (.boundaryMembership "A" ["B", "C"] ["A", "B"]
          [⟨.bounds, ["A", "B"]⟩, ⟨.memberOf, ["A", "B"]⟩]))) := by
    simp only [validate, witness, boundaries, Membership.ofStructure, neighbours_eq_insertionSort]
    decide +kernel
  obtain ⟨s, hs, hvalid⟩ := exists_of_map_validate hrun
  have hexcerpt : (Violation.boundaryMembership "A" ["B", "C"] ["A", "B"]
      [⟨.bounds, ["A", "B"]⟩, ⟨.memberOf, ["A", "B"]⟩]).excerpt
        = "node A, B;\nbounds(A, B)\nmember-of(A, B)" := by
    simp only [Violation.excerpt, Violation.labels, distinctLabels, sortLabels_eq_insertionSort]
    decide +kernel
  have halone := evidence_stands_alone bothSides {} s _ hs hvalid
  rw [hexcerpt] at halone
  exact ⟨s, hs, hvalid, halone⟩

end Structure

end Admissibility
