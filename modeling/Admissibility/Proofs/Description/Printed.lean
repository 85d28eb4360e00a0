/-
  Admissibility.Proofs.Description.Printed
  ────────────────────────────────────────
  **A printed structure is read back as it is.**

  Labels and facts about them make a text: one declaration of all labels, and each fact on a line of
  its own.  The text splits into the tokens of its parts, these spell one item for each line, and
  the items take effect one after the other.

  `reads_printed`: the tokens of the text.
  `spells_printed`: the items that these tokens spell.
  `ofText_printed`: the structure that the text describes.
-/
import Admissibility.Proofs.Description.Scope

namespace Admissibility.Description

variable {labels : List String} {facts : List Fact} {after : List Char}

/-! ## §1. The text. -/

/-- The line that declares some labels. -/
def declaration (labels : List String) : String := "node " ++ ", ".intercalate labels ++ ";"

/-- The text that declares some labels and states some facts about them. -/
def printed (labels : List String) (facts : List Fact) : String :=
  "\n".intercalate (declaration labels :: facts.map Fact.text)

/-- The tokens of some labels with commas between them. -/
def namesKinds (names : List String) : List Token.Kind :=
  [.comma].intercalate (names.map fun name => [.label name])

/-- The tokens of the line that declares some labels. -/
def declarationKinds (labels : List String) : List Token.Kind :=
  [.node] ++ namesKinds labels ++ [.semicolon]

/-- The tokens of a fact. -/
def factKinds (f : Fact) : List Token.Kind :=
  [.relation f.kind] ++ [.openParen] ++ namesKinds f.endpoints ++ [.closeParen]

/-! ## §2. Its tokens. -/

/-- **Labels** with commas between them. -/
theorem reads_names {names : List String} (h : ∀ name ∈ names, ReadableName name)
    (hstop : wordGoesOn after = false) :
    Reads (", ".intercalate names).toList (namesKinds names) after := by
  rw [String.toList_intercalate]
  refine Reads.intercalate (fun after => ?_) (fun _ => rfl) (fun name hname after hafter => ?_) hstop
  · have hcomma := reads_symbol (show symbol? ',' = some .comma from rfl) (' ' :: after)
    have hblank := reads_blank (show Text.isBlank ' ' = true by decide) after
    exact hcomma.append hblank
  · exact reads_word (h name hname).isWord (h name hname).ofWord? hafter

/-- **The declaration** of some labels. -/
theorem reads_declaration (h : ∀ label ∈ labels, ReadableName label) (after : List Char) :
    Reads (declaration labels).toList (declarationKinds labels) after := by
  have hword : IsWord "node".toList := by decide
  have hkind : Token.Kind.ofWord? "node" = some .node := by decide +kernel
  have hnode : ∀ after, Reads "node ".toList [.node] after := by
    intro after
    have hstop : wordGoesOn (' ' :: after) = false := rfl
    exact (reads_word hword hkind hstop).append
      (reads_blank (show Text.isBlank ' ' = true by decide) after)
  unfold declaration declarationKinds
  rw [String.toList_append, String.toList_append]
  exact .append (.append (hnode _) (reads_names h rfl))
    (reads_symbol (show symbol? ';' = some .semicolon from rfl) after)

/-- **A fact** as it is printed. -/
theorem reads_fact {f : Fact} (h : ∀ name ∈ f.endpoints, ReadableName name) (after : List Char) :
    Reads f.text.toList (factKinds f) after := by
  have hword : IsWord f.kind.keyword.toList := by cases f.kind <;> decide
  have hkind : Token.Kind.ofWord? f.kind.keyword = some (.relation f.kind) := by
    cases f.kind <;> decide +kernel
  unfold Fact.text factKinds
  rw [String.toList_append, String.toList_append, String.toList_append]
  refine .append (.append (.append (reads_word hword hkind rfl) ?_) (reads_names h rfl)) ?_
  · exact reads_symbol (show symbol? '(' = some .openParen from rfl) _
  · exact reads_symbol (show symbol? ')' = some .closeParen from rfl) after

theorem nil_intercalate {α : Type} (lists : List (List α)) :
    [].intercalate lists = lists.flatten := by
  induction lists with
  | nil => rfl
  | cons a rest ih =>
    cases rest with
    | nil => simp
    | cons b rest => rw [List.intercalate_cons_cons, ih, List.append_nil, ← List.flatten_cons]

/-- **The whole text** is read line by line. -/
theorem reads_printed (hlabels : ∀ label ∈ labels, ReadableName label)
    (hfacts : ∀ f ∈ facts, ∀ name ∈ f.endpoints, ReadableName name) :
    Reads (printed labels facts).toList (declarationKinds labels ++ facts.flatMap factKinds) [] := by
  -- a line with its tokens
  let lines : List (String × List Token.Kind) :=
    (declaration labels, declarationKinds labels) :: facts.map fun f => (f.text, factKinds f)
  have hchars : (printed labels facts).toList
      = "\n".toList.intercalate (lines.map fun line => line.1.toList) := by
    unfold printed
    rw [String.toList_intercalate]
    simp [lines, Function.comp_def]
  have hkinds : declarationKinds labels ++ facts.flatMap factKinds
      = [].intercalate (lines.map Prod.snd) := by
    rw [nil_intercalate]
    simp [lines, List.flatMap_def, Function.comp_def]
  rw [hchars, hkinds]
  refine Reads.intercalate (fun after => ?_) (fun _ => rfl) (fun line hline after _ => ?_) rfl
  · exact reads_blank (show Text.isBlank '\n' = true by decide) after
  · rcases List.mem_cons.1 hline with rfl | hfact
    · exact reads_declaration hlabels after
    · obtain ⟨f, hf, rfl⟩ := List.mem_map.1 hfact
      exact reads_fact (hfacts f hf) after

/-! ## §3. Its items. -/

/-- The item that declares some labels. -/
def Item.ofLabels (labels : List String) : Item :=
  .nodes (labels.map fun name => ⟨name, default⟩) default

theorem separated_eq_intercalate {α : Type} (spelling : α → List Token.Kind) (list : List α) :
    separated spelling list = [.comma].intercalate (list.map spelling) := by
  induction list with
  | nil => rfl
  | cons a rest ih =>
    cases rest with
    | nil => simp [separated]
    | cons b rest =>
      rw [List.map_cons, List.map_cons, List.intercalate_cons_cons, ← List.map_cons, ← ih]
      simp [separated]

theorem separated_names (names : List String) :
    separated Label.kinds (names.map fun name => ⟨name, default⟩) = namesKinds names := by
  rw [separated_eq_intercalate, List.map_map]
  rfl

/-- **A fact** is spelled by its own item. -/
theorem spells_fact {f : Fact} (htakes : f.kind.Takes f.endpoints.length) :
    (Item.ofFact f).Spells (factKinds f) := by
  have hsingles : ∀ e ∈ (f.endpoints.map fun name => (⟨name, default⟩ : Label)).map Endpoint.single,
      ∃ x, e = .single x := by
    intro e he
    obtain ⟨x, -, rfl⟩ := List.mem_map.1 he
    exact ⟨x, rfl⟩
  refine (@spells_relation_iff _ _ _ default _).2
    ⟨shapeFault?_eq_none_iff.2 ⟨fun n hn => ?_, fun i e he => ?_⟩, ?_, fun e he => ?_, ?_⟩
  · rw [Relation.Kind.Takes, hn] at htakes
    rw [List.length_map, List.length_map]
    exact htakes
  · exact .inl (hsingles e (List.mem_of_getElem? he))
  · intro hnil
    rw [List.map_eq_nil_iff, List.map_eq_nil_iff] at hnil
    exact htakes.ne_nil hnil
  · obtain ⟨x, rfl⟩ := hsingles e he
    exact List.cons_ne_nil _ _
  · rw [separated_map]
    show factKinds f = .relation f.kind :: .openParen :: (separated Label.kinds _ ++ [.closeParen])
    rw [separated_names]
    rfl

theorem spells_facts (hfacts : ∀ f ∈ facts, f.kind.Takes f.endpoints.length) :
    Spells (facts.map Item.ofFact) (facts.flatMap factKinds) := by
  induction facts with
  | nil => exact .nil
  | cons f facts ih =>
    have hrest := ih fun g hg => hfacts g (List.mem_cons_of_mem _ hg)
    have hspelled := Spells.cons 0 (spells_fact (hfacts f List.mem_cons_self)) hrest
    rwa [List.replicate_zero, List.append_nil] at hspelled

/-- **The tokens of a printed text** spell the declaration and then the facts. -/
theorem spells_printed (hne : labels ≠ [])
    (hfacts : ∀ f ∈ facts, f.kind.Takes f.endpoints.length) :
    Spells (Item.ofLabels labels :: facts.map Item.ofFact)
      (declarationKinds labels ++ facts.flatMap factKinds) := by
  have hnodes : (Item.ofLabels labels).Spells
      (.node :: separated Label.kinds (labels.map fun name => ⟨name, default⟩)) :=
    .nodes (by simpa using hne)
  rw [separated_names] at hnodes
  exact Spells.cons 1 hnodes (spells_facts hfacts)

/-! ## §4. Its structure. -/

/-- **Printing and reading**: distinct labels that can be read, and facts about them, make a text
that is accepted and describes exactly these labels and facts, in their order. -/
theorem ofText_printed (hne : labels ≠ []) (hnodup : labels.Nodup)
    (hlabels : ∀ label ∈ labels, ReadableName label) (hfacts : ∀ f ∈ facts, Fits labels f) :
    ∃ t, Structure.ofText (printed labels facts) = .ok t ∧ t.labels.toList = labels
      ∧ t.relations.toList.map t.fact = facts := by
  obtain ⟨stream, hstream, hkinds⟩ := tokenize_of_reads (reads_printed hlabels fun f hf name hname =>
    hlabels name ((hfacts f hf).known name hname))
  have hspelled := spells_printed hne fun f hf => (hfacts f hf).takes
  rw [← hkinds] at hspelled
  obtain ⟨d, hd, hitems⟩ := ofTokens_of_spells hspelled
  -- the tree that is read may place its parts elsewhere, but it has the same items
  obtain ⟨i, rest, hdecl, hi, hrest⟩ := List.map_eq_cons_iff.1 hitems
  cases i with
  | relation kind endpoints span => cases hi
  | nodes declared span =>
    have hnames : declared.map Label.name = labels := names_of_unplaced (Item.nodes.inj hi).1
    obtain ⟨u, happly, hulabels, hurelations⟩ :=
      @nodes_apply .empty declared span (by rw [hnames]; exact hnodup) fun l hl =>
        (hlabels l.name (hnames ▸ List.mem_map_of_mem hl)).ne_empty
    have hu : u.labels.toList = labels := hulabels.trans hnames
    obtain ⟨t, hfold, hlabelsEq, hfactsEq⟩ := @facts_apply u facts rest (hu.symm ▸ hfacts) hrest
    refine ⟨t, ?_, hlabelsEq ▸ hu, ?_⟩
    · rw [ofText_eq_toStructure hstream hd]
      show d.items.foldlM Item.apply .empty = _
      rw [hdecl, List.foldlM_cons, happly]
      exact hfold
    · rw [hfactsEq, hurelations]
      rfl

end Admissibility.Description
