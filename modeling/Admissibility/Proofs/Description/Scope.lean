/-
  Admissibility.Proofs.Description.Scope
  ──────────────────────────────────────
  **What a description makes of its items.**

  Items take effect in their order, each on the labels that those before it declare.  If all are
  admitted there, the structure has exactly the labels that they declare and says exactly the facts
  that they state; the first that offends is the fault otherwise.  The trees that a text is read as
  have no relation of a form that cannot be stated and no empty label, so they offend by labels
  that are declared twice or not at all.

  `toStructure_cases`: the structure of a description.
  `readable_of_ofText`: the labels of a structure that a text describes.
  `nodes_apply`, `facts_apply`: items that take effect.
  `lowering_is_exact`: when a description is refused, and what it describes.
-/
import Admissibility.Description
import Admissibility.Proofs.Description.Effect
import Admissibility.Proofs.Description.Layout

namespace Admissibility

/-- A computation that gives a result gave one on the way. -/
theorem exists_of_bind_ok {ε α β : Type} {x : Except ε α} {f : α → Except ε β} {b : β}
    (h : x >>= f = .ok b) : ∃ a, x = .ok a ∧ f a = .ok b := by
  cases x with
  | error e => cases h
  | ok a => exact ⟨a, rfl, h⟩

/-- A computation that fails fails at its first step or behind it. -/
theorem error_of_bind {ε α β : Type} {x : Except ε α} {f : α → Except ε β} {e : ε}
    (h : x >>= f = .error e) : x = .error e ∨ ∃ a, x = .ok a ∧ f a = .error e := by
  cases x with
  | error e' =>
    cases h
    exact .inl rfl
  | ok a => exact .inr ⟨a, rfl, h⟩

/-- No kind takes an empty list of endpoints. -/
theorem Relation.Kind.Takes.ne_nil {α : Type} {kind : Relation.Kind} {endpoints : List α}
    (h : kind.Takes endpoints.length) : endpoints ≠ [] := by
  intro hnil
  rw [hnil] at h
  cases kind <;> cases h

namespace Description

open Admissibility.Text (Span)

variable {s t : Structure}

/-! ## §1. Items in their order. -/

/-- Every item is admitted with the labels declared before it. -/
def Scoped (items : List Item) : Prop :=
  AllFit (fun before i => i.Admitted (before.flatMap Item.declares)) items

/-- The first item that offends, with the labels declared before it, and how. -/
def FirstOffence (items : List Item) (f : Fault) : Prop :=
  FirstMisfit (fun before i => i.Admitted (before.flatMap Item.declares))
    (fun before i => i.Offends (before.flatMap Item.declares)) items f

/-- **Items one after the other** take effect, or the first that offends is the fault. -/
theorem toStructure_cases (d : Description) :
    (Scoped d.items ∧ ∃ t, toStructure d = .ok t ∧ t.labels.toList = d.items.flatMap Item.declares
        ∧ t.statements = d.items.flatMap Item.states)
      ∨ ∃ f, FirstOffence d.items f ∧ toStructure d = .error f := by
  refine foldlM_cases (fun before i => i.Admitted (before.flatMap Item.declares))
    (fun before i => i.Offends (before.flatMap Item.declares)) Item.apply
    (fun before (u : Structure) => u.labels.toList = before.flatMap Item.declares
      ∧ u.statements = before.flatMap Item.states)
    (s := .empty) (fun before i u hu => ?_) allFit_nil ⟨rfl, rfl⟩ d.items
  rcases apply_cases u i with ⟨hadmitted, t, ht, hlabels, hstated⟩ | ⟨f, hf, herror⟩
  · refine .inl ⟨hu.1 ▸ hadmitted, t, ht, ?_, ?_⟩
    · rw [hlabels, hu.1, List.flatMap_append, List.flatMap_singleton]
    · rw [hstated, hu.2, List.flatMap_append, List.flatMap_singleton]
  · exact .inr ⟨f, hu.1 ▸ hf, herror⟩

/-- **The labels of a structure** are those that the items of its description declare. -/
theorem toStructure_labels {d : Description} (h : toStructure d = .ok s) :
    s.labels.toList = d.items.flatMap Item.declares := by
  rcases toStructure_cases d with ⟨-, t, ht, hlabels, -⟩ | ⟨f, -, herror⟩
  · rw [ht] at h
    cases h
    exact hlabels
  · rw [herror] at h
    cases h

/-! ## §2. The labels of a text. -/

theorem mem_separated {labels : List Label} {l : Label} (hl : l ∈ labels) :
    .label l.name ∈ separated Label.kinds labels := by
  match labels, hl with
  | first :: rest, hl =>
    rcases List.mem_cons.1 hl with rfl | hrest
    · exact List.mem_append_left _ List.mem_cons_self
    · refine List.mem_append_right _ (List.mem_flatMap.2 ⟨l, hrest, ?_⟩)
      exact List.mem_cons_of_mem _ List.mem_cons_self

/-- A label that an item declares is spelled. -/
theorem Item.Spells.mem_of_declares {i : Item} {kinds : List Token.Kind} {name : String}
    (h : i.Spells kinds) (hname : name ∈ i.declares) : .label name ∈ kinds := by
  cases h with
  | nodes _ =>
    obtain ⟨l, hl, rfl⟩ := List.mem_map.1 hname
    exact List.mem_cons_of_mem _ (mem_separated hl)
  | _ => cases hname

theorem Spells.mem_of_declares {items : List Item} {kinds : List Token.Kind} {name : String}
    (h : Spells items kinds) (hname : name ∈ items.flatMap Item.declares) : .label name ∈ kinds := by
  induction h with
  | nil => cases hname
  | cons semicolons hitem _ ih =>
    rw [List.flatMap_cons] at hname
    rcases List.mem_append.1 hname with hfirst | hrest
    · exact List.mem_append_left _ (List.mem_append_left _ (hitem.mem_of_declares hfirst))
    · exact List.mem_append_right _ (ih hrest)

/-- The structure of a text is that of the tree that its tokens make. -/
theorem ofText_eq_toStructure {text : String} {stream : TokenStream} {d : Description}
    (hstream : tokenize text = .ok stream) (hd : (ofTokens stream).1 = .ok d) :
    Structure.ofText text = d.toStructure := by
  show (do (← ofText text).toStructure) = _
  rw [ofText_eq_ofTokens hstream, hd]
  rfl

/-- **The labels of a text's structure** can be read as labels. -/
theorem readable_of_ofText {text : String} (h : Structure.ofText text = .ok s) :
    ∀ label ∈ s.labels, ReadableName label := by
  intro name hname
  obtain ⟨d, hd, hs⟩ := exists_of_bind_ok h
  obtain ⟨stream, hstream, hd⟩ := exists_of_bind_ok hd
  rw [← Array.mem_toList_iff, toStructure_labels hs] at hname
  -- the label stands in the text, and every label of the text is readable
  obtain ⟨t, ht, hkind⟩ := List.mem_map.1 ((spells_of_ofTokens hd).mem_of_declares hname)
  exact readable_of_tokenize hstream t ht name hkind

/-! ## §3. Items that take effect. -/

/-- **New labels** are declared. -/
theorem nodes_apply {labels : List Label} {span : Span}
    (hnew : (s.labels.toList ++ labels.map Label.name).Nodup) (hne : ∀ l ∈ labels, l.name ≠ "") :
    ∃ t, Item.apply s (.nodes labels span) = .ok t
      ∧ t.labels.toList = s.labels.toList ++ labels.map Label.name
      ∧ t.relations = s.relations := by
  rcases nodes_cases s labels span with ⟨-, happly⟩ | ⟨f, hf, -⟩
  · exact happly
  · refine absurd ?_ hf.not_admitted
    rintro before l after rfl
    refine ⟨hne l (by simp), fun hmem => ?_⟩
    -- the label would stand twice in the list without repetition
    rw [List.map_append, List.map_cons, ← List.append_assoc] at hnew
    exact (List.nodup_append.1 hnew).2.2 l.name hmem l.name List.mem_cons_self rfl

/-- Labels that are given names but for their places bear these names. -/
theorem names_of_unplaced {labels : List Label} {names : List String}
    (h : labels.map Label.unplaced
      = (names.map fun name => (⟨name, default⟩ : Label)).map Label.unplaced) :
    labels.map Label.name = names := by
  have hmap := congrArg (List.map Label.name) h
  simp only [List.map_map] at hmap
  exact hmap.trans (List.map_id _)

/-- The item that states a fact. -/
def Item.ofFact (f : Fact) : Item :=
  .relation f.kind ((f.endpoints.map fun name => ⟨name, default⟩).map .single) default

/-- A fact that can be stated about some labels: it names no others, and as many of them as its
kind takes. -/
structure Fits (labels : List String) (f : Fact) : Prop where
  known : ∀ name ∈ f.endpoints, name ∈ labels
  takes : f.kind.Takes f.endpoints.length

/-- A relation between single labels states one fact. -/
theorem states_singles {kind : Relation.Kind} {labels : List Label} {span : Span}
    (h : kind.Takes labels.length) : (Item.relation kind (labels.map .single) span).states
      = [(⟨kind, labels.map Label.name⟩, span.line)] := by
  by_cases hpair : kind = .bounds ∧ (labels.map Endpoint.single).length = 2
  · obtain ⟨rfl, hlen⟩ := hpair
    rw [List.length_map] at hlen
    match labels, hlen with
    | [x, y], _ => rfl
  · rw [states_flat hpair, named_singles]

/-- **A fact about labels that are there** is stated by any item that reads as its statement. -/
theorem admitted_of_fits {labels : List String} {f : Fact} {i : Item} (hfits : Fits labels f)
    (h : i.unplaced = (Item.ofFact f).unplaced) :
    i.Admitted labels ∧ i.declares = [] ∧ i.states.map Prod.fst = [f] := by
  cases i with
  | nodes labels span => cases h
  | relation kind endpoints span =>
    obtain ⟨rfl, hends, -⟩ := Item.relation.inj h
    obtain ⟨others, rfl, hothers⟩ := singles_of_unplaced hends
    -- the places of the labels are not those of the fact, but the names are
    have hnames : others.map Label.name = f.endpoints := names_of_unplaced hothers
    have hlen : f.endpoints.length = others.length := by rw [← hnames, List.length_map]
    have htakes := hfits.takes
    rw [hlen] at htakes
    refine ⟨⟨fun l hl => hfits.known l.name ?_, shaped_of_takes ?_⟩, rfl, ?_⟩
    · rw [named_singles] at hl
      exact hnames ▸ List.mem_map_of_mem hl
    · rwa [named_singles]
    · rw [states_singles htakes, hnames]
      rfl

/-- **Facts about labels that are there** are added one after the other. -/
theorem facts_apply {facts : List Fact} {items : List Item}
    (hfits : ∀ f ∈ facts, Fits s.labels.toList f)
    (h : items.map Item.unplaced = (facts.map Item.ofFact).map Item.unplaced) :
    ∃ t, items.foldlM Item.apply s = .ok t ∧ t.labels = s.labels
      ∧ t.relations.toList.map t.fact = s.relations.toList.map s.fact ++ facts := by
  induction facts generalizing s items with
  | nil =>
    rw [List.map_eq_nil_iff.1 h]
    exact ⟨s, rfl, rfl, by simp⟩
  | cons f facts ih =>
    obtain ⟨i, rest, rfl, hi, hrest⟩ := List.map_eq_cons_iff.1 h
    obtain ⟨hadmitted, hdeclares, hstates⟩ := admitted_of_fits (hfits f List.mem_cons_self) hi
    rcases apply_cases s i with ⟨-, u, hu, hlabels, hstated⟩ | ⟨fault, hf, -⟩
    · have hsame : u.labels = s.labels :=
        Array.toList_inj.1 (by rw [hlabels, hdeclares, List.append_nil])
      obtain ⟨t, ht, htlabels, hfacts⟩ := ih
        (fun g hg => hsame ▸ hfits g (List.mem_cons_of_mem _ hg)) hrest
      refine ⟨t, ?_, htlabels.trans hsame, ?_⟩
      · rw [List.foldlM_cons, hu]
        exact ht
      · have hfirst := congrArg (List.map Prod.fst) hstated
        rw [List.map_append, hstates, Structure.map_fst_statements,
          Structure.map_fst_statements] at hfirst
        rw [hfacts, hfirst, List.append_assoc]
        rfl
    · exact absurd hadmitted hf.not_admitted

/-! ## §4. Every tree. -/

/-- A relation that is spelled can be stated. -/
theorem Item.Spells.shaped {kind : Relation.Kind} {endpoints : List Endpoint} {span : Span}
    {kinds : List Token.Kind} (h : Item.Spells (.relation kind endpoints span) kinds) :
    Shaped kind endpoints := by
  cases h with
  | memberOf => exact .inr (.inl ⟨nofun, rfl⟩)
  | bounds => exact .inl ⟨rfl, rfl⟩
  | boundsSet _ => exact .inl ⟨rfl, rfl⟩
  | @inverts labels _ hne =>
    refine .inr (.inr ⟨rfl, ?_⟩)
    rw [named_singles]
    exact List.length_pos_iff.2 hne

theorem Spells.exists_of_mem {items : List Item} {kinds : List Token.Kind} {i : Item}
    (h : Spells items kinds) (hi : i ∈ items) : ∃ spelling, i.Spells spelling := by
  induction h with
  | nil => cases hi
  | cons _ hitem _ ih =>
    rcases List.mem_cons.1 hi with rfl | hi
    · exact ⟨_, hitem⟩
    · exact ih hi

/-- **A tree that was read from a text** offends by a label that is declared twice or not at all. -/
theorem offence_of_ofText {text : String} {d : Description} {f : Fault}
    (hread : ofText text = .ok d) (h : FirstOffence d.items f) :
    (∃ name, f.cause = .duplicateNode name) ∨ ∃ name, f.cause = .undeclaredNode name := by
  obtain ⟨stream, hstream, hread⟩ := exists_of_bind_ok hread
  have hspelled := spells_of_ofTokens hread
  obtain ⟨before, i, after, hsplit, -, hoffends⟩ := h
  have hi : i ∈ d.items := by
    rw [hsplit]
    simp
  cases hoffends with
  | @nodes labels span _ hfirst =>
    obtain ⟨others, l, rest, hlabels, -, hl⟩ := hfirst
    cases hl with
    | duplicate _ _ => exact .inl ⟨_, rfl⟩
    | @empty span =>
      -- an empty label is not readable, so it does not stand in the text
      have hempty : "" ∈ d.items.flatMap Item.declares := by
        refine List.mem_flatMap.2 ⟨_, hi, List.mem_map.2 ⟨⟨"", span⟩, ?_, rfl⟩⟩
        rw [hlabels]
        simp
      obtain ⟨t, ht, hkind⟩ := List.mem_map.1 (hspelled.mem_of_declares hempty)
      exact absurd rfl (readable_of_tokenize hstream t ht "" hkind).ne_empty
  | undeclared hfirst =>
    obtain ⟨_, _, _, -, -, hl⟩ := hfirst
    cases hl
    exact .inr ⟨_, rfl⟩
  | shape _ hshape =>
    obtain ⟨_, hitem⟩ := hspelled.exists_of_mem hi
    exact absurd hitem.shaped hshape

/-- A fault of an item is one of grammar. -/
theorem Item.Offends.gate {declared : List String} {i : Item} {f : Fault}
    (h : i.Offends declared f) : f.diagnostic.gate = .grammatical := by
  cases h with
  | nodes hfirst =>
    obtain ⟨_, _, _, -, -, hl⟩ := hfirst
    cases hl <;> rfl
  | undeclared hfirst =>
    obtain ⟨_, _, _, -, -, hl⟩ := hfirst
    cases hl
    rfl
  | shape _ _ => rfl

/-- **Lowering is exact.**  Any tree describes a structure exactly when each of its items is admitted
with the labels declared before it.  The structure has the labels that the items declare and says
what they state, in their order.  Any other tree is refused for its first offence, which is one of
grammar; and a tree that was read from a text offends by a label that is declared twice or not at
all, and never by the form of a relation. -/
theorem lowering_is_exact (d : Description) :
    ((∃ s, d.toStructure = .ok s) ↔ Scoped d.items)
      ∧ (∀ s, d.toStructure = .ok s → s.labels.toList = d.items.flatMap Item.declares
          ∧ s.statements = d.items.flatMap Item.states)
      ∧ (∀ f, d.toStructure = .error f ↔ FirstOffence d.items f)
      ∧ (∀ f, d.toStructure = .error f → f.diagnostic.gate = .grammatical)
      ∧ ∀ text, ofText text = .ok d → ∀ f, d.toStructure = .error f →
          (∃ name, f.cause = .duplicateNode name) ∨ ∃ name, f.cause = .undeclaredNode name := by
  have hwrong : ∀ (before : List Item) (i : Item) (f : Fault),
      i.Offends (before.flatMap Item.declares) f → ¬ i.Admitted (before.flatMap Item.declares) :=
    fun _ _ _ hi => hi.not_admitted
  rcases toStructure_cases d with ⟨hscoped, s, hs, hlabels, hstated⟩ | ⟨f, hf, herror⟩
  · have hno : ∀ f, ¬ d.toStructure = .error f := by
      intro f hf
      rw [hs] at hf
      cases hf
    refine ⟨⟨fun _ => hscoped, fun _ => ⟨s, hs⟩⟩, fun t ht => ?_, fun f => ⟨fun h => absurd h (hno f),
      fun h => absurd hscoped (h.not_allFit hwrong)⟩, fun f h => absurd h (hno f),
      fun _ _ f h => absurd h (hno f)⟩
    rw [hs] at ht
    cases ht
    exact ⟨hlabels, hstated⟩
  · have hfirst : ∀ g, d.toStructure = .error g ↔ FirstOffence d.items g := by
      refine fun g => ⟨fun h => ?_, fun h => ?_⟩
      · rw [herror] at h
        cases h
        exact hf
      · rw [herror, hf.unique hwrong (fun _ _ _ _ hi hi' => hi.unique hi') h]
    refine ⟨⟨fun ⟨s, hs⟩ => ?_, fun h => absurd h (hf.not_allFit hwrong)⟩, fun s hs => ?_, hfirst,
      fun g hg => ?_, fun text hread g hg => offence_of_ofText hread ((hfirst g).1 hg)⟩
    · rw [herror] at hs
      cases hs
    · rw [herror] at hs
      cases hs
    · obtain ⟨_, _, _, -, -, hi⟩ := (hfirst g).1 hg
      exact hi.gate

/-- `node A, B` and `bounds({A, B}, {A})`, with a set on both sides, which no text is read as. -/
def doubled : Description where
  items :=
    let label (name : String) : Label := ⟨name, default⟩
    [.nodes [label "A", label "B"] default,
      .relation .bounds [.set [label "A", label "B"] default, .set [label "A"] default] ⟨8, 24, 2, 1⟩]

/-- The same with `member-of({A, B}, C)` behind it, which names three labels, one of them unknown. -/
def overfull : Description where
  items := doubled.items ++
    [.relation .memberOf [.set [⟨"A", default⟩, ⟨"B", default⟩] default, .single ⟨"C", ⟨40, 41, 3, 17⟩⟩]
      default]

/-- What `node A, A` is read as. -/
def repeated : Description where
  items := [.nodes [⟨"A", ⟨5, 6, 1, 6⟩⟩, ⟨"A", ⟨8, 9, 1, 9⟩⟩] ⟨0, 9, 1, 1⟩]

theorem doubled_lowering :
    (∃ s, doubled.toStructure = .ok s ∧ s.labels.toList = ["A", "B"]
        ∧ s.statements = [(⟨.bounds, ["A", "A"]⟩, 2), (⟨.bounds, ["B", "A"]⟩, 2)])
      ∧ FirstOffence overfull.items ⟨.undeclaredNode "C", ⟨40, 41, 3, 17⟩⟩
      ∧ ofText "node A, A" = .ok repeated
      ∧ repeated.toStructure = .error ⟨.duplicateNode "A", ⟨8, 9, 1, 9⟩⟩
      ∧ ∃ name, Cause.duplicateNode "A" = .duplicateNode name := by
  have hoverfull : overfull.toStructure = .error ⟨.undeclaredNode "C", ⟨40, 41, 3, 17⟩⟩ := rfl
  have hrepeated : repeated.toStructure = .error ⟨.duplicateNode "A", ⟨8, 9, 1, 9⟩⟩ := rfl
  have hread : ofText "node A, A" = .ok repeated := by decide +kernel
  have hdoubled : doubled.toStructure.isOk = true := rfl
  obtain ⟨-, hgives, -⟩ := lowering_is_exact doubled
  obtain ⟨-, -, hfirst, -⟩ := lowering_is_exact overfull
  obtain ⟨-, -, -, -, hgate⟩ := lowering_is_exact repeated
  refine ⟨?_, (hfirst _).1 hoverfull, hread, hrepeated, ?_⟩
  · cases hs : doubled.toStructure with
    | error f =>
      rw [hs] at hdoubled
      cases hdoubled
    | ok s => exact ⟨s, rfl, hgives s hs⟩
  · rcases hgate _ hread _ hrepeated with hduplicate | ⟨_, hundeclared⟩
    · exact hduplicate
    · cases hundeclared

end Description

end Admissibility
