/-
  Admissibility.Proofs.Description.Spelling
  ─────────────────────────────────────────
  **How trees are spelled.**

  The spelling of a tree is a list of token kinds, told without any reader: a node declaration lists
  its labels, and each kind of relation has its own form.  Any number of semicolons may follow an
  item, so a description has many spellings, and an item exactly one.

  Trees that are the same but for the places of their parts are spelled the same, so places are left
  out of a comparison by `unplaced`.

  `spells_relation_iff`: the form of a relation is what a reader checks behind the parenthesis.
-/
import Admissibility.Description.Grammar

namespace Admissibility.Description

open Admissibility.Text (Span)

/-! ## §1. Places aside. -/

/-- A label without its place. -/
def Label.unplaced (l : Label) : Label := ⟨l.name, default⟩

/-- An endpoint without places. -/
def Endpoint.unplaced : Endpoint → Endpoint
  | .single label => .single label.unplaced
  | .set labels _ => .set (labels.map Label.unplaced) default

/-- An item without places. -/
def Item.unplaced : Item → Item
  | .nodes labels _ => .nodes (labels.map Label.unplaced) default
  | .relation kind endpoints _ => .relation kind (endpoints.map Endpoint.unplaced) default

/-! ## §2. Spellings. -/

/-- One spelling after the other, with commas between them. -/
def separated {α : Type} (spelling : α → List Token.Kind) : List α → List Token.Kind
  | [] => []
  | a :: rest => spelling a ++ rest.flatMap fun b => .comma :: spelling b

/-- The spelling of a label. -/
def Label.kinds (l : Label) : List Token.Kind := [.label l.name]

/-- The spelling of an endpoint: a label, or labels in braces. -/
def Endpoint.kinds : Endpoint → List Token.Kind
  | .single label => label.kinds
  | .set labels _ => .openBrace :: (separated Label.kinds labels ++ [.closeBrace])

/-- The spelling of an item. -/
inductive Item.Spells : Item → List Token.Kind → Prop
  /-- `node x, y, z` -/
  | nodes {labels : List Label} {span : Span} : labels ≠ [] →
      Item.Spells (.nodes labels span) (.node :: separated Label.kinds labels)
  /-- `member-of(x, y)` -/
  | memberOf {x y : Label} {span : Span} :
      Item.Spells (.relation .memberOf [.single x, .single y] span)
        [.relation .memberOf, .openParen, .label x.name, .comma, .label y.name, .closeParen]
  /-- `bounds(x, y)` -/
  | bounds {x y : Label} {span : Span} :
      Item.Spells (.relation .bounds [.single x, .single y] span)
        [.relation .bounds, .openParen, .label x.name, .comma, .label y.name, .closeParen]
  /-- `bounds(x, {y, z})` -/
  | boundsSet {x : Label} {labels : List Label} {span inner : Span} : labels ≠ [] →
      Item.Spells (.relation .bounds [.single x, .set labels inner] span)
        ([.relation .bounds, .openParen, .label x.name, .comma, .openBrace]
          ++ separated Label.kinds labels ++ [.closeBrace, .closeParen])
  /-- `inverts(x, y, z)` -/
  | inverts {labels : List Label} {span : Span} : labels ≠ [] →
      Item.Spells (.relation .inverts (labels.map .single) span)
        ([.relation .inverts, .openParen] ++ separated Label.kinds labels ++ [.closeParen])

/-- The spellings of some items: each is followed by any number of semicolons. -/
inductive Spells : List Item → List Token.Kind → Prop
  | nil : Spells [] []
  | cons {item : Item} {items : List Item} {kinds rest : List Token.Kind} (semicolons : Nat) :
      item.Spells kinds → Spells items rest →
      Spells (item :: items) (kinds ++ List.replicate semicolons .semicolon ++ rest)

/-! ## §3. Spellings do not depend on places. -/

variable {α : Type}

theorem separated_map {β : Type} (f : β → α) (spelling : α → List Token.Kind) (list : List β) :
    separated spelling (list.map f) = separated (spelling ∘ f) list := by
  cases list with
  | nil => rfl
  | cons b rest =>
    show spelling (f b) ++ (rest.map f).flatMap _ = _
    rw [List.flatMap_map]
    rfl

theorem kinds_eq_of_unplaced {labels others : List Label}
    (h : labels.map Label.unplaced = others.map Label.unplaced) :
    separated Label.kinds labels = separated Label.kinds others := by
  -- a label without its place is spelled as with it
  have hsame : ∀ list : List Label,
      separated Label.kinds (list.map Label.unplaced) = separated Label.kinds list :=
    fun list => separated_map _ _ list
  rw [← hsame, h, hsame]

theorem Label.name_eq_of_unplaced {x y : Label} (h : x.unplaced = y.unplaced) : x.name = y.name :=
  (Label.mk.inj h).1

theorem ne_nil_of_map_eq {β : Type} {f : α → β} {list other : List α}
    (h : list.map f = other.map f) (hne : other ≠ []) : list ≠ [] := by
  intro hnil
  rw [hnil] at h
  exact hne (List.map_eq_nil_iff.1 h.symm)

/-- Only a single label is a single label without its place. -/
theorem Endpoint.single_of_unplaced {e : Endpoint} {y : Label}
    (h : e.unplaced = (Endpoint.single y).unplaced) : ∃ x, e = .single x ∧ x.unplaced = y.unplaced := by
  cases e with
  | single x => exact ⟨x, rfl, Endpoint.single.inj h⟩
  | set labels span => cases h

/-- Only a set is a set without places. -/
theorem Endpoint.set_of_unplaced {e : Endpoint} {labels : List Label} {span : Span}
    (h : e.unplaced = (Endpoint.set labels span).unplaced) :
    ∃ others inner, e = .set others inner
      ∧ others.map Label.unplaced = labels.map Label.unplaced := by
  cases e with
  | single x => cases h
  | set others inner => exact ⟨others, inner, rfl, (Endpoint.set.inj h).1⟩

/-- Single labels without places are single labels. -/
theorem singles_of_unplaced {endpoints : List Endpoint} {labels : List Label}
    (h : endpoints.map Endpoint.unplaced = (labels.map Endpoint.single).map Endpoint.unplaced) :
    ∃ others : List Label, endpoints = others.map .single
      ∧ others.map Label.unplaced = labels.map Label.unplaced := by
  induction labels generalizing endpoints with
  | nil =>
    rw [List.map_eq_nil_iff.1 h]
    exact ⟨[], rfl, rfl⟩
  | cons y labels ih =>
    obtain ⟨e, rest, rfl, he, hrest⟩ := List.map_eq_cons_iff.1 h
    obtain ⟨x, rfl, hx⟩ := Endpoint.single_of_unplaced he
    obtain ⟨others, rfl, hothers⟩ := ih hrest
    exact ⟨x :: others, rfl, by rw [List.map_cons, List.map_cons, hx, hothers]⟩

/-- Two endpoints without places are two endpoints. -/
theorem pair_of_unplaced {endpoints : List Endpoint} {x y : Endpoint}
    (h : endpoints.map Endpoint.unplaced = [x, y].map Endpoint.unplaced) :
    ∃ u v, endpoints = [u, v] ∧ u.unplaced = x.unplaced ∧ v.unplaced = y.unplaced := by
  obtain ⟨u, rest, rfl, hu, hrest⟩ := List.map_eq_cons_iff.1 h
  obtain ⟨v, rest, rfl, hv, hrest⟩ := List.map_eq_cons_iff.1 hrest
  rw [List.map_eq_nil_iff.1 hrest]
  exact ⟨u, v, rfl, hu, hv⟩

/-- **Places do not matter** for the spelling of an item. -/
theorem Item.Spells.of_unplaced {i j : Item} {kinds : List Token.Kind}
    (h : i.unplaced = j.unplaced) (hj : j.Spells kinds) : i.Spells kinds := by
  cases i with
  | nodes labels span =>
    cases hj with
    | nodes hne =>
      have hlabels := (Item.nodes.inj h).1
      rw [← kinds_eq_of_unplaced hlabels]
      exact .nodes (ne_nil_of_map_eq hlabels hne)
    | _ => cases h
  | relation kind endpoints span =>
    cases hj with
    | nodes _ => cases h
    | memberOf =>
      obtain ⟨rfl, hends, -⟩ := Item.relation.inj h
      obtain ⟨u, v, rfl, hu, hv⟩ := pair_of_unplaced hends
      obtain ⟨x, rfl, hx⟩ := Endpoint.single_of_unplaced hu
      obtain ⟨y, rfl, hy⟩ := Endpoint.single_of_unplaced hv
      rw [← Label.name_eq_of_unplaced hx, ← Label.name_eq_of_unplaced hy]
      exact .memberOf
    | bounds =>
      obtain ⟨rfl, hends, -⟩ := Item.relation.inj h
      obtain ⟨u, v, rfl, hu, hv⟩ := pair_of_unplaced hends
      obtain ⟨x, rfl, hx⟩ := Endpoint.single_of_unplaced hu
      obtain ⟨y, rfl, hy⟩ := Endpoint.single_of_unplaced hv
      rw [← Label.name_eq_of_unplaced hx, ← Label.name_eq_of_unplaced hy]
      exact .bounds
    | boundsSet hne =>
      obtain ⟨rfl, hends, -⟩ := Item.relation.inj h
      obtain ⟨u, set, rfl, hu, hset⟩ := pair_of_unplaced hends
      obtain ⟨x, rfl, hx⟩ := Endpoint.single_of_unplaced hu
      obtain ⟨labels, inner, rfl, hlabels⟩ := Endpoint.set_of_unplaced hset
      rw [← Label.name_eq_of_unplaced hx, ← kinds_eq_of_unplaced hlabels]
      exact .boundsSet (ne_nil_of_map_eq hlabels hne)
    | inverts hne =>
      obtain ⟨rfl, hends, -⟩ := Item.relation.inj h
      obtain ⟨labels, rfl, hlabels⟩ := singles_of_unplaced hends
      rw [← kinds_eq_of_unplaced hlabels]
      exact .inverts (ne_nil_of_map_eq hlabels hne)

/-! ## §4. The forms of relations. -/

/-- An endpoint that names some label. -/
def Endpoint.Filled (e : Endpoint) : Prop := e.labels ≠ []

/-- A kind that fixes the number of endpoints is given that number, and sets stand where one may. -/
theorem shapeFault?_eq_none_iff {kind : Relation.Kind} {endpoints : List Endpoint} {span : Span} :
    shapeFault? kind endpoints span = none ↔
      (∀ n, kind.fixedArity = some n → endpoints.length = n)
        ∧ ∀ (i : Nat) (e : Endpoint), endpoints[i]? = some e →
            (∃ x, e = .single x) ∨ allowsSet kind i = true := by
  have harity : kind.fixedArity.all (· = endpoints.length) = true ↔
      ∀ n, kind.fixedArity = some n → endpoints.length = n := by
    cases kind.fixedArity <;> simp [eq_comm]
  unfold shapeFault?
  split
  · next hall =>
    rw [List.findSome?_eq_none_iff]
    constructor
    · intro h
      refine ⟨harity.1 hall, fun i e he => ?_⟩
      have hnone := h (e, i) (List.mk_mem_zipIdx_iff_getElem?.2 he)
      cases e with
      | single x => exact .inl ⟨x, rfl⟩
      | set labels inner => exact .inr (by simpa using hnone)
    · intro h p hp
      obtain ⟨e, i⟩ := p
      rcases h.2 i e (List.mk_mem_zipIdx_iff_getElem?.1 hp) with ⟨x, rfl⟩ | hallows
      · rfl
      · cases e with
        | single x => rfl
        | set labels inner => exact if_pos hallows
  · next hall => exact ⟨fun h => (by cases h), fun h => absurd (harity.2 h.1) hall⟩

/-- Endpoints that are all single labels. -/
theorem exists_singles {endpoints : List Endpoint} (h : ∀ e ∈ endpoints, ∃ x, e = .single x) :
    ∃ labels : List Label, endpoints = labels.map .single := by
  induction endpoints with
  | nil => exact ⟨[], rfl⟩
  | cons e rest ih =>
    obtain ⟨x, rfl⟩ := h e List.mem_cons_self
    obtain ⟨labels, rfl⟩ := ih fun u hu => h u (List.mem_cons_of_mem _ hu)
    exact ⟨x :: labels, rfl⟩

/-- A kind that allows no set has single labels only. -/
theorem singles_of_shape {endpoints : List Endpoint} {span : Span}
    (h : shapeFault? .inverts endpoints span = none) :
    ∃ labels : List Label, endpoints = labels.map .single := by
  refine exists_singles fun e he => ?_
  obtain ⟨i, hi⟩ := List.mem_iff_getElem?.1 he
  rcases (shapeFault?_eq_none_iff.1 h).2 i e hi with hsingle | hallows
  · exact hsingle
  · cases hallows

/-- A kind with two endpoints has a single label in front. -/
theorem pair_of_shape {kind : Relation.Kind} {endpoints : List Endpoint} {span : Span}
    (hkind : kind.fixedArity = some 2) (h : shapeFault? kind endpoints span = none) :
    ∃ x e, endpoints = [.single x, e] ∧ ((∃ y, e = .single y) ∨ kind = .bounds) := by
  obtain ⟨hlen, hsets⟩ := shapeFault?_eq_none_iff.1 h
  match endpoints, hlen 2 hkind with
  | [u, e], _ =>
    rcases hsets 0 u rfl with ⟨x, rfl⟩ | hallows
    · refine ⟨x, e, rfl, (hsets 1 e rfl).imp_right fun hallows => ?_⟩
      simpa [allowsSet] using hallows
    · simp [allowsSet] at hallows

/-- **The shape check accepts the forms that there are**, and only these. -/
theorem spells_relation_iff {kind : Relation.Kind} {endpoints : List Endpoint} {span other : Span}
    {kinds : List Token.Kind} :
    Item.Spells (.relation kind endpoints span) kinds ↔
      shapeFault? kind endpoints other = none ∧ endpoints ≠ [] ∧ (∀ e ∈ endpoints, e.Filled)
        ∧ kinds = .relation kind :: .openParen :: (separated Endpoint.kinds endpoints ++ [.closeParen])
    := by
  constructor
  · intro h
    cases h with
    | memberOf => exact ⟨rfl, by simp, by simp [Endpoint.Filled, Endpoint.labels], rfl⟩
    | bounds => exact ⟨rfl, by simp, by simp [Endpoint.Filled, Endpoint.labels], rfl⟩
    | boundsSet hne =>
      refine ⟨rfl, by simp, by simpa [Endpoint.Filled, Endpoint.labels] using hne, ?_⟩
      simp [separated, Endpoint.kinds, Label.kinds]
    | @inverts labels _ hne =>
      refine ⟨shapeFault?_eq_none_iff.2 ⟨?_, ?_⟩, by simpa using hne, ?_, ?_⟩
      · intro n hn
        cases hn
      · intro i e he
        obtain ⟨x, -, rfl⟩ := List.mem_map.1 (List.mem_of_getElem? he)
        exact .inl ⟨x, rfl⟩
      · intro e he
        obtain ⟨x, -, rfl⟩ := List.mem_map.1 he
        exact List.cons_ne_nil _ _
      · rw [separated_map]
        rfl
  · intro h
    obtain ⟨hshape, hne, hfilled, rfl⟩ := h
    cases kind with
    | memberOf =>
      obtain ⟨x, e, rfl, ⟨y, rfl⟩ | hkind⟩ := pair_of_shape rfl hshape
      · exact .memberOf
      · cases hkind
    | bounds =>
      obtain ⟨x, e, rfl, -⟩ := pair_of_shape rfl hshape
      cases e with
      | single y => exact .bounds
      | set labels inner =>
        have hlabels : labels ≠ [] := hfilled (.set labels inner) (by simp)
        have hkinds : Item.Spells (.relation .bounds [.single x, .set labels inner] span) _ :=
          .boundsSet hlabels
        simpa [separated, Endpoint.kinds, Label.kinds] using hkinds
    | inverts =>
      obtain ⟨labels, rfl⟩ := singles_of_shape hshape
      rw [separated_map]
      exact .inverts fun hnil => hne (by rw [hnil]; rfl)

end Admissibility.Description
