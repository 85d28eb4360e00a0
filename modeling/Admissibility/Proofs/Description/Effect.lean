/-
  Admissibility.Proofs.Description.Effect
  ───────────────────────────────────────
  **What an item does to a structure.**

  An item is admitted or offends, which the labels declared before it decide alone.  An item that is
  admitted adds the labels that it declares and the facts that it states, on its own line.  One that
  offends is refused for its first label that does not fit, and for the form of a relation after
  that.

  `declareLabel_cases`, `resolve_cases`, `addRelations_fitting`: the steps.
  `apply_cases`: an item.
-/
import Admissibility.Description.Scope
import Admissibility.Validation
import Admissibility.Proofs.Builder
import Admissibility.Proofs.Misfit

namespace Admissibility

variable {s t : Structure}

/-! ## §1. Facts with their lines. -/

namespace Structure

/-- What the relations of a structure say, each with the line of its declaration. -/
def statements (s : Structure) : List (Fact × Nat) :=
  s.relations.toList.map fun r => (s.fact r, r.line)

theorem map_fst_statements (s : Structure) :
    s.statements.map Prod.fst = s.relations.toList.map s.fact := by
  rw [statements, List.map_map]
  rfl

/-- More labels do not change what is said. -/
theorem statements_of_labels {more : List String} (hlabels : t.labels.toList = s.labels.toList ++ more)
    (hrelations : t.relations = s.relations) : t.statements = s.statements := by
  unfold statements
  rw [hrelations]
  refine List.map_congr_left fun r hr => ?_
  have hfits := s.fits r (Array.mem_toList_iff.1 hr)
  have hsame : r.endpoints.map t.label = r.endpoints.map s.label := by
    refine List.map_congr_left fun e he => ?_
    have hlt : e < s.labels.toList.length := hfits.endpoint_lt e he
    rw [label, label, ← Array.getElem?_toList, ← Array.getElem?_toList, hlabels,
      List.getElem?_append_left hlt]
  rw [fact, fact, hsame]

end Structure

namespace Description

open Admissibility.Text (Span)

/-! ## §2. Items, by the labels before them. -/

/-- A label that can be declared when some labels are there. -/
structure Label.New (declared : List String) (l : Label) : Prop where
  ne_empty : l.name ≠ ""
  fresh : l.name ∉ declared

/-- Why a label cannot be declared when some labels are there. -/
inductive Label.Clashes (declared : List String) : Label → Fault → Prop
  | empty {span : Span} : Label.Clashes declared ⟨"", span⟩ ⟨.refused .emptyLabel, span⟩
  | duplicate {l : Label} : l.name ≠ "" → l.name ∈ declared →
      Label.Clashes declared l ⟨.duplicateNode l.name, l.span⟩

/-- Why a label cannot be named when some labels are there. -/
inductive Label.Unknown (declared : List String) : Label → Fault → Prop
  | undeclared {l : Label} : l.name ∉ declared →
      Label.Unknown declared l ⟨.undeclaredNode l.name, l.span⟩

/-- The labels that the endpoints of a relation name, from left to right. -/
def named (endpoints : List Endpoint) : List Label := endpoints.flatMap Endpoint.labels

/-- The relations that can be stated: `bounds` with two endpoints of any size, and otherwise two
labels in all for `member-of` and `bounds` and one or more for `inverts`. -/
def Shaped (kind : Relation.Kind) (endpoints : List Endpoint) : Prop :=
  (kind = .bounds ∧ endpoints.length = 2)
    ∨ (kind ≠ .inverts ∧ (named endpoints).length = 2)
    ∨ (kind = .inverts ∧ 1 ≤ (named endpoints).length)

theorem named_singles (labels : List Label) : named (labels.map .single) = labels := by
  rw [named, List.flatMap_map]
  exact List.flatMap_singleton' labels

/-- A number of labels that the kind takes is enough. -/
theorem shaped_of_takes {kind : Relation.Kind} {endpoints : List Endpoint}
    (h : kind.Takes (named endpoints).length) : Shaped kind endpoints := by
  cases kind with
  | inverts => exact .inr (.inr ⟨rfl, h⟩)
  | _ => exact .inr (.inl ⟨nofun, h⟩)

/-- An item that can take effect when some labels are there. -/
def Item.Admitted (declared : List String) : Item → Prop
  | .nodes labels _ => AllFit (fun before => Label.New (declared ++ before.map Label.name)) labels
  | .relation kind endpoints _ =>
    (∀ l ∈ named endpoints, l.name ∈ declared) ∧ Shaped kind endpoints

/-- Why an item cannot take effect when some labels are there. -/
inductive Item.Offends (declared : List String) : Item → Fault → Prop
  /-- The first label that is empty or there already. -/
  | nodes {labels : List Label} {span : Span} {f : Fault} :
      FirstMisfit (fun before => Label.New (declared ++ before.map Label.name))
        (fun before => Label.Clashes (declared ++ before.map Label.name)) labels f →
      Item.Offends declared (.nodes labels span) f
  /-- The first label that is not there. -/
  | undeclared {kind : Relation.Kind} {endpoints : List Endpoint} {span : Span} {f : Fault} :
      FirstMisfit (fun _ l => l.name ∈ declared) (fun _ => Label.Unknown declared)
        (named endpoints) f →
      Item.Offends declared (.relation kind endpoints span) f
  /-- A number of labels that the kind does not take. -/
  | shape {kind : Relation.Kind} {endpoints : List Endpoint} {span : Span} :
      (∀ l ∈ named endpoints, l.name ∈ declared) → ¬ Shaped kind endpoints →
      Item.Offends declared (.relation kind endpoints span)
        ⟨.refused (.ofArity kind (named endpoints).length), span⟩

/-- The labels that an item declares. -/
def Item.declares : Item → List String
  | .nodes labels _ => labels.map Label.name
  | .relation .. => []

/-- The facts that an item states, with its line: for `bounds` with two endpoints, that each label
of the second is bounded by each of the first; and else one fact about all labels. -/
def Item.states : Item → List (Fact × Nat)
  | .nodes .. => []
  | .relation .bounds [boundary, bounded] span =>
    bounded.labels.flatMap fun t => boundary.labels.map fun b =>
      (⟨.bounds, [b.name, t.name]⟩, span.line)
  | .relation kind endpoints span => [(⟨kind, (named endpoints).map Label.name⟩, span.line)]

theorem Label.Clashes.not_new {declared : List String} {l : Label} {f : Fault}
    (h : l.Clashes declared f) : ¬ l.New declared := by
  cases h with
  | empty => exact fun hnew => hnew.ne_empty rfl
  | duplicate _ hmem => exact fun hnew => hnew.fresh hmem

theorem Label.Unknown.not_mem {declared : List String} {l : Label} {f : Fault}
    (h : l.Unknown declared f) : l.name ∉ declared := by
  cases h with
  | undeclared hnot => exact hnot

theorem Label.Clashes.unique {declared : List String} {l : Label} {f g : Fault}
    (h : l.Clashes declared f) (h' : l.Clashes declared g) : f = g := by
  cases h with
  | empty =>
    cases h' with
    | empty => rfl
    | duplicate hne _ => exact absurd rfl hne
  | duplicate hne _ =>
    cases h' with
    | empty => exact absurd rfl hne
    | duplicate _ _ => rfl

theorem Label.Unknown.unique {declared : List String} {l : Label} {f g : Fault}
    (h : l.Unknown declared f) (h' : l.Unknown declared g) : f = g := by
  cases h
  cases h'
  rfl

/-- A relation all of whose labels are there has no first that is not. -/
theorem not_firstUnknown {declared : List String} {labels : List Label} {f : Fault}
    (hall : ∀ l ∈ labels, l.name ∈ declared) :
    ¬ FirstMisfit (fun _ l => l.name ∈ declared) (fun _ => Label.Unknown declared) labels f := by
  rintro ⟨before, l, after, rfl, -, hl⟩
  exact hl.not_mem (hall l (by simp))

/-- An item is admitted or offends. -/
theorem Item.Offends.not_admitted {declared : List String} {i : Item} {f : Fault}
    (h : i.Offends declared f) : ¬ i.Admitted declared := by
  cases h with
  | nodes hfirst => exact FirstMisfit.not_allFit (fun _ _ _ hl => hl.not_new) hfirst
  | undeclared hfirst => exact fun hadmitted => not_firstUnknown hadmitted.1 hfirst
  | shape _ hshape => exact fun hadmitted => hshape hadmitted.2

/-- It offends in one way. -/
theorem Item.Offends.unique {declared : List String} {i : Item} {f g : Fault}
    (h : i.Offends declared f) (h' : i.Offends declared g) : f = g := by
  cases h with
  | nodes hfirst =>
    cases h' with
    | nodes hfirst' =>
      exact FirstMisfit.unique (fun _ _ _ hl => hl.not_new) (fun _ _ _ _ hl hl' => hl.unique hl')
        hfirst hfirst'
  | undeclared hfirst =>
    cases h' with
    | undeclared hfirst' =>
      exact FirstMisfit.unique (fun _ _ _ hl => hl.not_mem) (fun _ _ _ _ hl hl' => hl.unique hl')
        hfirst hfirst'
    | shape hall _ => exact absurd hfirst (not_firstUnknown hall)
  | shape hall _ =>
    cases h' with
    | undeclared hfirst => exact absurd hfirst (not_firstUnknown hall)
    | shape _ _ => rfl

/-! ## §3. Node declarations. -/

/-- **One label** is declared, or the fault. -/
theorem declareLabel_cases (s : Structure) (l : Label) :
    (l.New s.labels.toList ∧ ∃ t, declareLabel s l = .ok t
        ∧ t.labels.toList = s.labels.toList ++ [l.name] ∧ t.relations = s.relations)
      ∨ ∃ f, l.Clashes s.labels.toList f ∧ declareLabel s l = .error f := by
  obtain ⟨name, span⟩ := l
  unfold declareLabel
  rcases s.declare_cases name with ⟨rfl, h⟩ | ⟨hne, hmem, h⟩ | ⟨hne, hnew, t, h, hlabels, hrelations⟩
  · rw [h]
    exact .inr ⟨_, .empty, rfl⟩
  · rw [h]
    exact .inr ⟨_, .duplicate hne (Array.mem_toList_iff.2 hmem), rfl⟩
  · rw [h]
    refine .inl ⟨⟨hne, fun hmem => hnew (Array.mem_toList_iff.1 hmem)⟩, t, rfl, ?_, hrelations⟩
    rw [hlabels, Array.toList_push]

/-- **A node declaration** takes effect or offends. -/
theorem nodes_cases (s : Structure) (labels : List Label) (span : Span) :
    ((Item.nodes labels span).Admitted s.labels.toList ∧ ∃ t, Item.apply s (.nodes labels span) = .ok t
        ∧ t.labels.toList = s.labels.toList ++ labels.map Label.name ∧ t.relations = s.relations)
      ∨ ∃ f, (Item.nodes labels span).Offends s.labels.toList f
          ∧ Item.apply s (.nodes labels span) = .error f := by
  -- some of the labels later, these are there behind those of `s`
  have hcases := foldlM_cases (fun before => Label.New (s.labels.toList ++ before.map Label.name))
    (fun before => Label.Clashes (s.labels.toList ++ before.map Label.name)) declareLabel
    (fun before (u : Structure) => u.labels.toList = s.labels.toList ++ before.map Label.name
      ∧ u.relations = s.relations)
    (fun before l u hu => ?_) allFit_nil ⟨(List.append_nil _).symm, rfl⟩ labels
  · rcases hcases with ⟨hall, t, ht, hlabels, hrelations⟩ | ⟨f, hf, herror⟩
    · exact .inl ⟨hall, t, ht, hlabels, hrelations⟩
    · exact .inr ⟨f, .nodes hf, herror⟩
  · rcases declareLabel_cases u l with ⟨hnew, t, ht, hlabels, hrelations⟩ | ⟨f, hf, herror⟩
    · refine .inl ⟨hu.1 ▸ hnew, t, ht, ?_, hrelations.trans hu.2⟩
      rw [hlabels, hu.1, List.map_append, List.append_assoc]
      rfl
    · exact .inr ⟨f, hu.1 ▸ hf, herror⟩

/-! ## §4. Relations. -/

/-- **One label** is resolved to the node that bears it, or the fault. -/
theorem resolve_cases (s : Structure) (l : Label) :
    (l.name ∈ s.labels.toList ∧ ∃ id, resolve s l = .ok id ∧ id < s.nodeCount ∧ s.label id = l.name)
      ∨ ∃ f, l.Unknown s.labels.toList f ∧ resolve s l = .error f := by
  unfold resolve
  cases hlookup : s.lookup l.name with
  | none =>
    refine .inr ⟨_, .undeclared fun hmem => ?_, rfl⟩
    obtain ⟨id, hid⟩ := Array.mem_iff_getElem?.1 (Array.mem_toList_iff.1 hmem)
    rw [(s.lookup_eq_some_iff l.name id).2 hid] at hlookup
    cases hlookup
  | some id =>
    have hid := (s.lookup_eq_some_iff l.name id).1 hlookup
    refine .inl ⟨Array.mem_toList_iff.2 (Array.mem_of_getElem? hid), id, rfl,
      (Array.getElem?_eq_some_iff.1 hid).1, ?_⟩
    rw [Structure.label, hid]
    rfl

/-- **The endpoints of a relation**, with their nodes, or the fault of the first label that is not
there. -/
theorem endpoints_cases (s : Structure) (endpoints : List Endpoint) :
    ((∀ l ∈ named endpoints, l.name ∈ s.labels.toList)
        ∧ ∃ resolved, endpoints.mapM (fun e => e.labels.mapM (resolve s)) = .ok resolved
          ∧ List.Forall₂ (fun e ids => List.Forall₂ (fun l id => id < s.nodeCount
              ∧ s.label id = l.name) e.labels ids) endpoints resolved)
      ∨ ∃ f, FirstMisfit (fun _ l => l.name ∈ s.labels.toList)
            (fun _ => Label.Unknown s.labels.toList) (named endpoints) f
          ∧ endpoints.mapM (fun e => e.labels.mapM (resolve s)) = .error f := by
  rcases mapM_cases (fun e => mapM_cases (resolve_cases s) e.labels) endpoints with
    ⟨hall, resolved, hresolved, hnodes⟩ | ⟨f, hf, herror⟩
  · refine .inl ⟨fun l hl => ?_, resolved, hresolved, hnodes⟩
    obtain ⟨e, he, hle⟩ := List.mem_flatMap.1 hl
    exact hall e he l hle
  · exact .inr ⟨f, hf.flatMap, herror⟩

/-- **Relations that fit** are added one after the other. -/
theorem addRelations_fitting {kind : Relation.Kind} {span : Span} {lists : List (List Nat)}
    (h : ∀ ends ∈ lists, (⟨kind, ends, span.line⟩ : Relation).Fits s.nodeCount) :
    ∃ t, lists.foldlM (addRelation kind span) s = .ok t ∧ t.labels = s.labels
      ∧ t.relations.toList = s.relations.toList ++ lists.map (⟨kind, ·, span.line⟩) := by
  induction lists generalizing s with
  | nil => exact ⟨s, rfl, rfl, by simp⟩
  | cons ends rest ih =>
    have hfits := h ends List.mem_cons_self
    rcases s.relate_cases ⟨kind, ends, span.line⟩ with ⟨before, e, after, hsplit, -, he, -⟩
      | ⟨-, htakes, -⟩ | ⟨-, u, hu, hlabels, hrelations⟩
    · refine absurd (hfits.endpoint_lt e ?_) (Nat.not_lt.2 he)
      rw [hsplit]
      simp
    · exact absurd hfits.takes htakes
    · have hcount : u.nodeCount = s.nodeCount := congrArg Array.size hlabels
      obtain ⟨t, ht, htlabels, htrelations⟩ := @ih u fun ends' hends' => by
        rw [hcount]
        exact h ends' (List.mem_cons_of_mem _ hends')
      refine ⟨t, ?_, htlabels.trans hlabels, ?_⟩
      · rw [List.foldlM_cons, addRelation, hu]
        exact ht
      · rw [htrelations, hrelations]
        simp

/-- The nodes of endpoints are those of all labels together. -/
theorem flatten_nodes {endpoints : List Endpoint} {resolved : List (List Nat)}
    (h : List.Forall₂ (fun e ids => List.Forall₂ (fun l id => id < s.nodeCount
      ∧ s.label id = l.name) e.labels ids) endpoints resolved) :
    List.Forall₂ (fun l id => id < s.nodeCount ∧ s.label id = l.name) (named endpoints)
      resolved.flatten := by
  induction h with
  | nil => exact .nil
  | cons he _ ih => exact List.rel_append he ih

theorem names_of_nodes {labels : List Label} {ids : List Nat}
    (h : List.Forall₂ (fun l id => id < s.nodeCount ∧ s.label id = l.name) labels ids) :
    (∀ id ∈ ids, id < s.nodeCount) ∧ ids.map s.label = labels.map Label.name := by
  induction h with
  | nil => exact ⟨by simp, rfl⟩
  | cons hid _ ih =>
    refine ⟨List.forall_mem_cons.2 ⟨hid.1, ih.1⟩, ?_⟩
    rw [List.map_cons, List.map_cons, hid.2, ih.2]

/-- What relations that are added say. -/
theorem statements_of_relations {kind : Relation.Kind} {line : Nat} {lists : List (List Nat)}
    (hlabels : t.labels = s.labels)
    (hrelations : t.relations.toList = s.relations.toList ++ lists.map (⟨kind, ·, line⟩)) :
    t.statements = s.statements ++ lists.map fun ends => (⟨kind, ends.map s.label⟩, line) := by
  have hlabel : t.label = s.label := by
    funext id
    rw [Structure.label, Structure.label, hlabels]
  have hfact : t.fact = s.fact := by
    funext r
    rw [Structure.fact, Structure.fact, hlabel]
  rw [Structure.statements, hrelations, List.map_append, List.map_map, hfact]
  rfl

/-- A relation other than `bounds` with two endpoints is one relation between all its nodes. -/
theorem endpointLists_flat {kind : Relation.Kind} {resolved : List (List Nat)}
    (h : ¬ (kind = .bounds ∧ resolved.length = 2)) :
    endpointLists kind resolved = [resolved.flatten] := by
  unfold endpointLists
  split
  · exact absurd ⟨rfl, rfl⟩ h
  · rfl

/-- It states one fact about all its labels. -/
theorem states_flat {kind : Relation.Kind} {endpoints : List Endpoint} {span : Span}
    (h : ¬ (kind = .bounds ∧ endpoints.length = 2)) : (Item.relation kind endpoints span).states
      = [(⟨kind, (named endpoints).map Label.name⟩, span.line)] := by
  unfold Item.states
  split
  · next heq => cases heq
  · next heq =>
    cases heq
    exact absurd ⟨rfl, rfl⟩ h
  · next heq =>
    cases heq
    rfl

/-- Then the number of its labels decides whether it can be stated. -/
theorem shaped_flat_iff {kind : Relation.Kind} {endpoints : List Endpoint}
    (h : ¬ (kind = .bounds ∧ endpoints.length = 2)) :
    Shaped kind endpoints ↔ kind.Takes (named endpoints).length := by
  unfold Shaped
  rw [or_iff_right h]
  cases kind <;> simp [Relation.Kind.Takes, Relation.Kind.fixedArity, Nat.one_le_iff_ne_zero,
    Nat.pos_iff_ne_zero]

/-- **`bounds` with two endpoints**, both of which are there. -/
theorem bounds_apply {boundary bounded : Endpoint} {sources targets : List Nat} {span : Span}
    (hsources : List.Forall₂ (fun l id => id < s.nodeCount ∧ s.label id = l.name) boundary.labels
      sources)
    (htargets : List.Forall₂ (fun l id => id < s.nodeCount ∧ s.label id = l.name) bounded.labels
      targets) :
    ∃ t, (endpointLists .bounds [sources, targets]).foldlM (addRelation .bounds span) s = .ok t
      ∧ t.labels = s.labels
      ∧ t.statements = s.statements ++ (Item.relation .bounds [boundary, bounded] span).states := by
  obtain ⟨hsource, hboundary⟩ := names_of_nodes hsources
  obtain ⟨htarget, hbounded⟩ := names_of_nodes htargets
  obtain ⟨t, ht, hlabels, hrelations⟩ := @addRelations_fitting s .bounds span
    (endpointLists .bounds [sources, targets]) fun ends hends => by
      obtain ⟨y, hy, hends⟩ := List.mem_flatMap.1 hends
      obtain ⟨x, hx, rfl⟩ := List.mem_map.1 hends
      exact ⟨by simpa using ⟨hsource x hx, htarget y hy⟩, rfl⟩
  refine ⟨t, ht, hlabels, (statements_of_relations hlabels hrelations).trans (congrArg _ ?_)⟩
  -- both sides tell the labels of the nodes, which are those of the endpoints
  let told : List String → List String → List (Fact × Nat) := fun boundary bounded =>
    bounded.flatMap fun y => boundary.map fun x => (⟨.bounds, [x, y]⟩, span.line)
  calc (endpointLists .bounds [sources, targets]).map
        (fun ends => ((⟨.bounds, ends.map s.label⟩ : Fact), span.line))
      = told (sources.map s.label) (targets.map s.label) := by
        simp [told, endpointLists, List.map_flatMap, List.flatMap_map, Function.comp_def]
    _ = told (boundary.labels.map Label.name) (bounded.labels.map Label.name) := by
        rw [hboundary, hbounded]
    _ = (Item.relation .bounds [boundary, bounded] span).states := by
        simp [told, Item.states, List.flatMap_map, Function.comp_def]

/-- **Any other relation**, whose labels are all there. -/
theorem flat_cases {kind : Relation.Kind} {endpoints : List Endpoint} {resolved : List (List Nat)}
    (span : Span) (hflat : ¬ (kind = .bounds ∧ endpoints.length = 2))
    (hnodes : List.Forall₂ (fun e ids => List.Forall₂ (fun l id => id < s.nodeCount
      ∧ s.label id = l.name) e.labels ids) endpoints resolved) :
    (Shaped kind endpoints
        ∧ ∃ t, (endpointLists kind resolved).foldlM (addRelation kind span) s = .ok t
          ∧ t.labels = s.labels
          ∧ t.statements = s.statements ++ (Item.relation kind endpoints span).states)
      ∨ (¬ Shaped kind endpoints
        ∧ (endpointLists kind resolved).foldlM (addRelation kind span) s
          = .error ⟨.refused (.ofArity kind (named endpoints).length), span⟩) := by
  have hall := flatten_nodes hnodes
  obtain ⟨hlt, hnames⟩ := names_of_nodes hall
  have hlen := hall.length_eq
  rw [endpointLists_flat (hnodes.length_eq ▸ hflat), states_flat hflat, shaped_flat_iff hflat, hlen]
  by_cases htakes : kind.Takes resolved.flatten.length
  · obtain ⟨t, ht, hlabels, hrelations⟩ := @addRelations_fitting s kind span [resolved.flatten]
      fun ends hends => by
        cases List.mem_singleton.1 hends
        exact ⟨hlt, htakes⟩
    refine .inl ⟨htakes, t, ht, hlabels, ?_⟩
    rw [statements_of_relations hlabels hrelations, ← hnames]
    rfl
  · refine .inr ⟨htakes, ?_⟩
    rcases s.relate_cases ⟨kind, resolved.flatten, span.line⟩ with ⟨before, e, after, hsplit, -, he, -⟩
      | ⟨-, -, h⟩ | ⟨hfits, -⟩
    · refine absurd (hlt e ?_) (Nat.not_lt.2 he)
      rw [show resolved.flatten = _ from hsplit]
      simp
    · rw [List.foldlM_cons, addRelation, h]
      rfl
    · exact absurd hfits.takes htakes

/-- **A relation** takes effect or offends. -/
theorem relation_cases (s : Structure) (kind : Relation.Kind) (endpoints : List Endpoint)
    (span : Span) :
    ((Item.relation kind endpoints span).Admitted s.labels.toList
        ∧ ∃ t, Item.apply s (.relation kind endpoints span) = .ok t ∧ t.labels = s.labels
          ∧ t.statements = s.statements ++ (Item.relation kind endpoints span).states)
      ∨ ∃ f, (Item.relation kind endpoints span).Offends s.labels.toList f
          ∧ Item.apply s (.relation kind endpoints span) = .error f := by
  rcases endpoints_cases s endpoints with ⟨hall, resolved, hresolved, hnodes⟩ | ⟨f, hf, herror⟩
  · have happly : Item.apply s (.relation kind endpoints span)
        = (endpointLists kind resolved).foldlM (addRelation kind span) s := by
      rw [Item.apply, hresolved]
      rfl
    rw [happly]
    by_cases hpair : kind = .bounds ∧ endpoints.length = 2
    · obtain ⟨rfl, hlen⟩ := hpair
      match endpoints, resolved, hlen, hnodes with
      | [_, _], [_, _], _, .cons hsources (.cons htargets .nil) =>
        exact .inl ⟨⟨hall, .inl ⟨rfl, rfl⟩⟩, bounds_apply hsources htargets⟩
    · rcases flat_cases span hpair hnodes with ⟨hshaped, happlied⟩ | ⟨hshaped, herror⟩
      · exact .inl ⟨⟨hall, hshaped⟩, happlied⟩
      · exact .inr ⟨_, .shape hall hshaped, herror⟩
  · refine .inr ⟨f, .undeclared hf, ?_⟩
    rw [Item.apply, herror]
    rfl

/-! ## §5. Items. -/

/-- **An item** takes effect or offends, by the labels that are there. -/
theorem apply_cases (s : Structure) (i : Item) :
    (i.Admitted s.labels.toList ∧ ∃ t, i.apply s = .ok t
        ∧ t.labels.toList = s.labels.toList ++ i.declares ∧ t.statements = s.statements ++ i.states)
      ∨ ∃ f, i.Offends s.labels.toList f ∧ i.apply s = .error f := by
  cases i with
  | nodes labels span =>
    rcases nodes_cases s labels span with ⟨hadmitted, t, ht, hlabels, hrelations⟩ | hoffends
    · refine .inl ⟨hadmitted, t, ht, hlabels, ?_⟩
      rw [Structure.statements_of_labels hlabels hrelations]
      exact (List.append_nil _).symm
    · exact .inr hoffends
  | relation kind endpoints span =>
    rcases relation_cases s kind endpoints span with ⟨hadmitted, t, ht, hlabels, hstated⟩ | hoffends
    · refine .inl ⟨hadmitted, t, ht, ?_, hstated⟩
      rw [hlabels]
      exact (List.append_nil _).symm
    · exact .inr hoffends

end Description

end Admissibility
