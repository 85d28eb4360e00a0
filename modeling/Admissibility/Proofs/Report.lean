/-
  Admissibility.Proofs.Report
  ───────────────────────────
  **The plain report loses nothing.**

  Labels that can be read have none of the characters that reports put between them, so the lines of
  a report, the lists in a line and the labels in a list can be told.  What a report leaves out is
  told by the rest: the endpoints of an inversion by itself are those of its fact.  So two
  validations with the same report have the same witness.

  `Fact.text_inj`, `names_inj`, `counted_inj`: facts, lists of labels and counts.
  `textLines_inj`: the lines of a report.
  `legible_of_validate`: the labels of a violation that is reported.
  `text_report_inj`: the reports of validations.
-/
import Admissibility.Proofs.Description.Message
import Admissibility.Proofs.Excerpt
import Admissibility.Report.Text

namespace Admissibility

open Description (ReadableName isWordChar isWordChar_or_hyphen oneLine_of_isWord)
open Text (OneLine oneLine_append oneLine_framed oneLine_repr oneLine_intercalate)

/-! ## §1. Names and lists of names. -/

/-- A name has no character in it but word characters and hyphens. -/
theorem Description.ReadableName.not_mem {name : String} (h : ReadableName name) {c : Char}
    (hc : isWordChar c = false) (hhyphen : c ≠ '-') : c ∉ name.toList := by
  intro hmem
  rcases isWordChar_or_hyphen h.isWord hmem with hword | heq
  · rw [hc] at hword
    cases hword
  · exact hhyphen heq

variable {names others : List String}

/-- **Names** can be told, where a separator begins with a character that no name has. -/
theorem names_inj {separator : String} {d : Char} {rest : List Char}
    (hseparator : separator.toList = d :: rest) (hd : isWordChar d = false) (hhyphen : d ≠ '-')
    (hnames : ∀ name ∈ names, ReadableName name) (hothers : ∀ name ∈ others, ReadableName name)
    (h : separator.intercalate names = separator.intercalate others) : names = others := by
  have hpiece : ∀ {list : List String}, (∀ name ∈ list, ReadableName name) →
      ∀ p ∈ list.map String.toList, d ∉ p ∧ p ≠ [] := by
    intro list hlist p hp
    obtain ⟨name, hname, rfl⟩ := List.mem_map.1 hp
    refine ⟨(hlist name hname).not_mem hd hhyphen, fun hnil => (hlist name hname).ne_empty ?_⟩
    exact String.toList_injective hnil
  have hchars := congrArg String.toList h
  rw [String.toList_intercalate, String.toList_intercalate, hseparator] at hchars
  have hmaps := Text.intercalate_inj (hpiece hnames) (hpiece hothers) hchars
  exact (List.map_inj_right fun _ _ => String.toList_injective).1 hmaps

/-- Names with commas between them. -/
theorem commas_inj (hnames : ∀ name ∈ names, ReadableName name)
    (hothers : ∀ name ∈ others, ReadableName name)
    (h : ", ".intercalate names = ", ".intercalate others) : names = others :=
  names_inj (show ", ".toList = ',' :: [' '] by decide) (by decide) (by decide) hnames hothers h

/-- Names with arrows between them: a hyphen is part of names, but the blank in front is not. -/
theorem arrows_inj (hnames : ∀ name ∈ names, ReadableName name)
    (hothers : ∀ name ∈ others, ReadableName name)
    (h : " -> ".intercalate names = " -> ".intercalate others) : names = others :=
  names_inj (show " -> ".toList = ' ' :: "-> ".toList by decide) (by decide) (by decide) hnames
    hothers h

/-! ## §2. Facts. -/

/-- A fact all of whose endpoints can be read. -/
def Fact.Legible (f : Fact) : Prop := ∀ name ∈ f.endpoints, ReadableName name

theorem Relation.Kind.keyword_inj {k k' : Relation.Kind} (h : k.keyword = k'.keyword) : k = k' := by
  have hword := ofKeyword?_keyword k
  rw [h, ofKeyword?_keyword k'] at hword
  exact (Option.some.inj hword).symm

/-- **Facts** can be told by their texts. -/
theorem Fact.text_inj {f g : Fact} (hf : f.Legible) (hg : g.Legible) (h : f.text = g.text) :
    f = g := by
  obtain ⟨kind, endpoints⟩ := f
  obtain ⟨kind', endpoints'⟩ := g
  have hparen : ∀ k : Relation.Kind, '(' ∉ k.keyword.toList := by
    intro k
    cases k <;> decide
  have hchars := congrArg String.toList h
  simp only [Fact.text, String.toList_append, List.append_assoc] at hchars
  -- the keyword ends at the parenthesis, and the list at the last character
  obtain ⟨hkeyword, hrest⟩ := (Text.append_cons_inj (hparen kind) (hparen kind')).1 hchars
  cases Relation.Kind.keyword_inj (String.toList_injective hkeyword)
  cases commas_inj hf hg (String.toList_injective (List.append_cancel_right hrest))
  rfl

/-- Facts on lines of their own. -/
theorem facts_inj {facts others : List Fact} (hfacts : ∀ f ∈ facts, f.Legible)
    (hothers : ∀ f ∈ others, f.Legible)
    (h : facts.map (fun f => "  " ++ f.text) = others.map (fun f => "  " ++ f.text)) :
    facts = others := by
  induction facts generalizing others with
  | nil => exact (List.map_eq_nil_iff.1 h.symm).symm
  | cons f facts ih =>
    obtain ⟨g, others, rfl, hg, hrest⟩ := List.map_eq_cons_iff.1 h.symm
    obtain ⟨hfirst, hbehind⟩ := List.forall_mem_cons.1 hfacts
    obtain ⟨hfirst', hbehind'⟩ := List.forall_mem_cons.1 hothers
    cases Fact.text_inj hfirst hfirst' ((String.append_right_inj _).1 hg.symm)
    rw [ih hbehind hbehind' hrest.symm]

theorem Fact.Legible.oneLine {f : Fact} (h : f.Legible) : OneLine ("  " ++ f.text) := by
  have hends := oneLine_intercalate (show OneLine ", " by decide) fun name hname =>
    oneLine_of_isWord (h name hname).isWord
  have hkeyword := Description.oneLine_keyword f.kind
  unfold Fact.text
  simp only [oneLine_append]
  exact ⟨by decide, ⟨⟨hkeyword, by decide⟩, hends⟩, by decide⟩

/-! ## §3. Violations. -/

/-- A violation all of whose labels can be read, and whose endpoints, if it has any of its own, are
those of its fact. -/
inductive Violation.Legible : Violation → Prop
  | boundaryMembership {boundary : String} {bounded chain : List String} {facts : List Fact} :
      ReadableName boundary → (∀ name ∈ bounded, ReadableName name) →
      (∀ name ∈ chain, ReadableName name) → (∀ f ∈ facts, f.Legible) →
      Violation.Legible (.boundaryMembership boundary bounded chain facts)
  | inversionArity {f : Fact} : f.Legible → Violation.Legible (.inversionArity f.endpoints f)
  | inversionOverlap {node : String} {first second : Fact} : ReadableName node →
      first.Legible → second.Legible → Violation.Legible (.inversionOverlap node first second)

namespace Structure

variable {s : Structure} {v : Violation} {text : String} {limits : Limits}

/-- **The violation that a validation reports** is legible where the structure is that of a text. -/
theorem legible_of_validate (hs : ofText text = .ok s)
    (h : s.validate limits = .ok (.inadmissible v)) : v.Legible := by
  have hlabel : ∀ label ∈ s.labels, ReadableName label := Description.readable_of_ofText hs
  have hfact : ∀ f ∈ s.facts, f.Legible := fun f hf name hname =>
    hlabel name (mem_labels_of_mem_facts hf hname)
  have hinversion : ∀ f ∈ s.inversions, f.Legible := fun f hf =>
    hfact f (s.inversions_sublist.subset hf)
  obtain ⟨violations, hbreaches, hfirst⟩ := first_of_validate h
  rcases List.mem_append.1 hfirst.mem with hboundary | hviolation
  · obtain ⟨b, hbroken, chain, hanswer, rfl⟩ := hbreaches.sound v hboundary
    have hb := hbroken.isBoundary.lt
    obtain ⟨last, hviolation, hevidence⟩ := broken_of_answers hb hanswer
    rw [hviolation]
    refine .boundaryMembership (hlabel _ (label_mem hb)) (fun name hname => ?_)
      (fun name hname => hlabel name (hevidence.known name hname))
      fun f hf => hfact f (hevidence.facts f hf)
    obtain ⟨x, hx, rfl⟩ := List.mem_map.1 hname
    exact hlabel _ (label_mem (edge_lt (mem_bounded.1 hx)).2)
  · rcases mem_inversionViolations.1 hviolation with ⟨f, hf, -, rfl⟩ | ⟨x, hx, hbreach⟩
    · exact .inversionArity (hinversion f hf)
    · obtain ⟨first, second, rfl, hsub, -, -, -⟩ := facts_of_overlapBreach hbreach
      exact .inversionOverlap (hlabel _ (label_mem hx.lt)) (hinversion _ (hsub.subset (by simp)))
        (hinversion _ (hsub.subset (by simp)))

end Structure

/-! ## §4. Reports. -/

namespace Report

/-- A witness that a report can tell. -/
def Legible : Witness → Prop
  | .admissible _ => True
  | .inadmissible v => v.Legible

/-- **Counts** can be told, with what stands behind their nouns. -/
theorem counted_inj {n m : Nat} {one many rest more : String}
    (h : counted n one many ++ rest = counted m one many ++ more) : n = m ∧ rest = more := by
  have hchars := congrArg String.toList h
  simp only [counted, String.toList_append, List.append_assoc] at hchars
  obtain ⟨rfl, hrest⟩ := Text.repr_append_inj (show ' '.isDigit = false by decide) hchars
  -- the noun is that of the number
  exact ⟨rfl, String.toList_injective (List.append_cancel_left hrest)⟩

theorem constraint_name_inj {c d : Constraint} (h : c.name = d.name) : c = d := by
  cases c <;> cases d <;> first | rfl | exact absurd h (by decide)

/-- **The sort of a violation** is told: the second line names the constraint, and a shared node
takes one line more than an inversion by itself. -/
theorem rank_eq_of_textLines {v u : Violation}
    (h : textLines (.inadmissible v) = textLines (.inadmissible u)) : v.rank = u.rank := by
  have hsecond : "violation: " ++ v.constraint.name = "violation: " ++ u.constraint.name :=
    (List.cons.inj (List.cons.inj h).2).1
  have hconstraint := constraint_name_inj ((String.append_right_inj _).1 hsecond)
  have hlength := congrArg List.length h
  cases v with
  | boundaryMembership _ _ _ _ =>
    cases u with
    | boundaryMembership _ _ _ _ => rfl
    | _ => cases hconstraint
  | inversionArity _ _ =>
    cases u with
    | boundaryMembership _ _ _ _ => cases hconstraint
    | inversionArity _ _ => rfl
    | inversionOverlap _ _ _ => cases hlength
  | inversionOverlap _ _ _ =>
    cases u with
    | boundaryMembership _ _ _ _ => cases hconstraint
    | inversionArity _ _ => cases hlength
    | inversionOverlap _ _ _ => rfl

/-- **The lines on a violation** tell it. -/
theorem violation_inj {v u : Violation} (hv : v.Legible) (hu : u.Legible)
    (h : textLines (.inadmissible v) = textLines (.inadmissible u)) : v = u := by
  have hrank := rank_eq_of_textLines h
  cases hv with
  | @boundaryMembership boundary bounded chain facts _ hbounded hchain hfacts =>
    cases hu with
    | @boundaryMembership boundary' bounded' chain' facts' _ hbounded' hchain' hfacts' =>
      simp only [textLines, detailLines, List.cons_append, List.nil_append, List.cons.injEq] at h
      obtain ⟨-, -, hfirst, hsecond, hthird, -, hrest⟩ := h
      cases (String.append_right_inj "boundary: ").1 hfirst
      cases commas_inj hbounded hbounded' ((String.append_right_inj _).1 hsecond)
      cases arrows_inj hchain hchain' ((String.append_right_inj _).1 hthird)
      cases facts_inj hfacts hfacts' hrest
      rfl
    | _ => cases hrank
  | @inversionArity f hf =>
    cases hu with
    | @inversionArity g hg =>
      simp only [textLines, detailLines, List.cons_append, List.nil_append, List.cons.injEq] at h
      obtain ⟨-, -, -, -, hrest⟩ := h
      have hfacts : [f] = [g] := facts_inj (by simpa using hf) (by simpa using hg) hrest
      cases hfacts
      rfl
    | _ => cases hrank
  | @inversionOverlap node first second _ hfirst hsecond =>
    cases hu with
    | @inversionOverlap node' first' second' _ hfirst' hsecond' =>
      simp only [textLines, detailLines, List.cons_append, List.nil_append, List.cons.injEq] at h
      obtain ⟨-, -, hshared, -, hrest⟩ := h
      cases (String.append_right_inj "shared: ").1 hshared
      have hfacts : [first, second] = [first', second'] :=
        facts_inj (by simpa using ⟨hfirst, hsecond⟩) (by simpa using ⟨hfirst', hsecond'⟩) hrest
      cases hfacts
      rfl
    | _ => cases hrank

/-- **The lines of a report** tell the witness. -/
theorem textLines_inj {w u : Witness} (hw : Legible w) (hu : Legible u)
    (h : textLines w = textLines u) : w = u := by
  cases w with
  | admissible checked =>
    cases u with
    | admissible other =>
      obtain ⟨boundaries, inversions⟩ := checked
      obtain ⟨boundaries', inversions'⟩ := other
      simp only [textLines, List.cons.injEq, true_and, and_true, String.append_assoc] at h
      obtain ⟨rfl, hrest⟩ := counted_inj ((String.append_right_inj _).1 h)
      have hcounts := congrArg (· ++ "") ((String.append_right_inj _).1 hrest)
      obtain ⟨rfl, -⟩ := counted_inj hcounts
      rfl
    | inadmissible v =>
      have hfirst : "admissible" = "inadmissible" := (List.cons.inj h).1
      exact absurd hfirst (by decide)
  | inadmissible v =>
    cases u with
    | admissible other =>
      have hfirst : "inadmissible" = "admissible" := (List.cons.inj h).1
      exact absurd hfirst (by decide)
    | inadmissible u => rw [violation_inj hw hu h]

theorem oneLine_counted {n : Nat} {one many : String} (hone : OneLine one) (hmany : OneLine many) :
    OneLine (counted n one many) := by
  unfold counted
  refine oneLine_framed (oneLine_repr n) (by decide) ?_
  split
  · exact hone
  · exact hmany

/-- The lines on what is peculiar to a sort of violation. -/
theorem oneLine_detailLines {v : Violation} (hv : v.Legible) :
    ∀ line ∈ detailLines v, OneLine line := by
  have hword : ∀ {name : String}, ReadableName name → OneLine name := fun h =>
    oneLine_of_isWord h.isWord
  cases hv with
  | boundaryMembership hboundary hbounded hchain _ =>
    have hcommas := oneLine_intercalate (show OneLine ", " by decide) fun name hname =>
      hword (hbounded name hname)
    have harrows := oneLine_intercalate (show OneLine " -> " by decide) fun name hname =>
      hword (hchain name hname)
    simp only [detailLines, List.forall_mem_cons]
    exact ⟨oneLine_append.2 ⟨by decide, hword hboundary⟩, oneLine_append.2 ⟨by decide, hcommas⟩,
      oneLine_append.2 ⟨by decide, harrows⟩, List.forall_mem_nil _⟩
  | @inversionArity f _ =>
    simp only [detailLines, List.forall_mem_cons]
    have hcount := oneLine_repr f.endpoints.length
    exact ⟨oneLine_framed (by decide) hcount (by decide), List.forall_mem_nil _⟩
  | inversionOverlap hnode _ _ =>
    simp only [detailLines, List.forall_mem_cons]
    exact ⟨oneLine_append.2 ⟨by decide, hword hnode⟩, List.forall_mem_nil _⟩

theorem legible_of_mem_facts {v : Violation} {f : Fact} (hv : v.Legible) (hf : f ∈ v.facts) :
    f.Legible := by
  cases hv with
  | boundaryMembership _ _ _ hfacts => exact hfacts f hf
  | inversionArity hfact => exact List.mem_singleton.1 hf ▸ hfact
  | inversionOverlap _ hfirst hsecond =>
    rcases List.mem_pair.1 hf with rfl | rfl
    · exact hfirst
    · exact hsecond

/-- No line of a report has a line feed in it. -/
theorem oneLine_textLines {w : Witness} (hw : Legible w) : ∀ line ∈ textLines w, OneLine line := by
  cases w with
  | admissible checked =>
    have hboundaries : OneLine (counted checked.boundaries "boundary" "boundaries") :=
      oneLine_counted (by decide) (by decide)
    have hinversions : OneLine (counted checked.inversions "inversion" "inversions") :=
      oneLine_counted (by decide) (by decide)
    simp only [textLines, List.forall_mem_cons, oneLine_append]
    exact ⟨by decide, ⟨⟨⟨by decide, hboundaries⟩, by decide⟩, hinversions⟩, List.forall_mem_nil _⟩
  | inadmissible v =>
    have hconstraint : OneLine v.constraint.name := by cases v.constraint <;> decide
    have hsecond : OneLine ("violation: " ++ v.constraint.name) :=
      oneLine_append.2 ⟨by decide, hconstraint⟩
    have hfacts : ∀ f ∈ v.facts, OneLine ("  " ++ f.text) := fun f hf =>
      (legible_of_mem_facts hw hf).oneLine
    simp only [textLines, List.forall_mem_append, List.forall_mem_cons, List.forall_mem_map]
    exact ⟨⟨⟨⟨by decide, hsecond, List.forall_mem_nil _⟩, oneLine_detailLines hw⟩, by decide,
      List.forall_mem_nil _⟩, hfacts⟩

/-- **The text of a report** tells its lines. -/
theorem lines_of_text {w u : Witness} (hw : Legible w) (hu : Legible u) (h : text w = text u) :
    textLines w = textLines u := by
  have hfeed : ∀ {w : Witness}, Legible w → ∀ cs ∈ (textLines w).map String.toList, '\n' ∉ cs := by
    intro w hw cs hcs
    obtain ⟨line, hline, rfl⟩ := List.mem_map.1 hcs
    exact (oneLine_textLines hw line hline).not_mem (by decide) (by decide)
  have hchars : ∀ w, (text w).toList = ((textLines w).map String.toList).flatMap (· ++ ['\n']) := by
    intro w
    simp [text, String.toList_join, List.flatMap_map]
  have hends := congrArg String.toList h
  rw [hchars, hchars] at hends
  have hmaps := Text.terminated_inj (hfeed hw) (hfeed hu) hends
  exact (List.map_inj_right fun _ _ => String.toList_injective).1 hmaps

/-- What a validation of a text's structure comes to can be told. -/
theorem legible_of_validate {text : String} {s : Structure} {limits : Limits} {w : Witness}
    (hs : Structure.ofText text = .ok s) (h : s.validate limits = .ok w) : Legible w := by
  cases w with
  | admissible _ => trivial
  | inadmissible v => exact Structure.legible_of_validate hs h

/-- **Reports lose nothing**: validations of two texts, under any limits, that are reported alike
come to the same witness, with the same counts or the same violation in all its parts. -/
theorem text_report_inj (t t' : String) (limits limits' : Limits) (s s' : Structure) (w w' : Witness)
    (hs : Structure.ofText t = .ok s) (hs' : Structure.ofText t' = .ok s')
    (hw : s.validate limits = .ok w) (hw' : s'.validate limits' = .ok w')
    (h : text w = text w') : w = w' := by
  have hlegible := legible_of_validate hs hw
  have hlegible' := legible_of_validate hs' hw'
  exact textLines_inj hlegible hlegible' (lines_of_text hlegible hlegible' h)

/-- What a node that bounds itself comes to. -/
def ownRing : Witness :=
  .inadmissible (.boundaryMembership "A" ["A"] ["A"] [⟨.bounds, ["A", "A"]⟩])

theorem ownRing_reports :
    ∃ s s', Structure.ofText "node A bounds(A, A)" = .ok s
      ∧ Structure.ofText "node C, A; bounds(A, \x7bA\x7d) -- set" = .ok s'
      ∧ ∃ w w', s.validate {} = .ok w ∧ s'.validate ⟨2, 1, 3⟩ = .ok w'
        ∧ text w = "inadmissible\nviolation: boundary-exclusion\nboundary: A\nbounded: A\n"
            ++ "chain: A\nrelations:\n  bounds(A, A)\n"
        ∧ text w = text w' ∧ w = w' := by
  have hplain : (Structure.ofText "node A bounds(A, A)").map (·.validate {}) = .ok (.ok ownRing) := by
    decide +kernel
  have hset : (Structure.ofText "node C, A; bounds(A, \x7bA\x7d) -- set").map (·.validate ⟨2, 1, 3⟩)
      = .ok (.ok ownRing) := by
    decide +kernel
  obtain ⟨s, hs, hw⟩ := Structure.exists_of_map_validate hplain
  obtain ⟨s', hs', hw'⟩ := Structure.exists_of_map_validate hset
  exact ⟨s, s', hs, hs', ownRing, ownRing, hw, hw', by decide +kernel, rfl,
    text_report_inj _ _ _ _ s s' _ _ hs hs' hw hw' rfl⟩

end Report

end Admissibility
