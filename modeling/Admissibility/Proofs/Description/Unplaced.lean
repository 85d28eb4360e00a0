/-
  Admissibility.Proofs.Description.Unplaced
  ─────────────────────────────────────────
  **Reading does not depend on places.**

  No reader looks at the place of a token: it only hands places on, to the parts of a tree and to
  faults.  So a reader that is given tokens without their places gives what it gave before, without
  places: the same tree, or a fault with the same cause.  One lemma for each reader says this, by
  the recursion of the reader.

  `itemsFrom_unplaced`: items to the end.
  `outcome_eq_of_kinds`: the kinds of its tokens decide what the reading of a text comes to.
-/
import Admissibility.Proofs.Description.Grammar

namespace Admissibility.Description

open Admissibility.Text (Span)

variable {stop : Span} {tokens : List Token}

/-! ## §1. Tokens and faults without places. -/

/-- A token without its place. -/
def Token.unplaced (t : Token) : Token := ⟨t.kind, default⟩

/-- A fault without its place. -/
def Fault.unplaced (f : Fault) : Fault := ⟨f.cause, default⟩

/-- A reading without places, given what its result is without them. -/
def Reading.unplaced {α : Type} (strip : α → α) : Reading α → Reading α
  | (.ok a, rest) => (.ok (strip a), rest.map Token.unplaced)
  | (.error fault, rest) => (.error fault.unplaced, rest.map Token.unplaced)

theorem refuse_unplaced {α : Type} (strip : α → α) (stop : Span) (expected : Expected)
    (tokens : List Token) : refuse default expected (tokens.map Token.unplaced)
      = Reading.unplaced strip (refuse stop expected tokens) := by
  cases tokens <;> rfl

theorem map_kind_unplaced (tokens : List Token) :
    (tokens.map Token.unplaced).map Token.kind = tokens.map Token.kind := List.map_map

/-- The first token has a kind without its place only if it has it with its place. -/
theorem not_headed_unplaced {kind : Token.Kind}
    (h : ∀ span rest, tokens = ⟨kind, span⟩ :: rest → False) (span : Span) (rest : List Token) :
    tokens.map Token.unplaced = ⟨kind, span⟩ :: rest → False := by
  intro heq
  have hkinds : tokens.map Token.kind = kind :: rest.map Token.kind := by
    rw [← map_kind_unplaced, heq]
    rfl
  obtain ⟨span', after, rfl, -⟩ := exists_cons_of_kinds hkinds
  exact h span' after rfl

/-! ## §2. Lists of labels. -/

theorem moreLabels_unplaced (stop : Span) (labels : List Label) (tokens : List Token) :
    moreLabels default (labels.map Label.unplaced) (tokens.map Token.unplaced)
      = Reading.unplaced (List.map Label.unplaced) (moreLabels stop labels tokens) := by
  fun_induction moreLabels stop labels tokens with
  | case1 labels _ name span rest ih => exact ih
  | case2 labels _ rest hlabel =>
    rw [List.map_cons, Token.unplaced, moreLabels]
    · exact refuse_unplaced _ stop .label rest
    · exact fun name => not_headed_unplaced (hlabel name)
  | case3 labels rest hlabel hcomma =>
    rw [moreLabels]
    · rw [← List.map_reverse]
      rfl
    · exact fun comma name span after => not_headed_unplaced hcomma comma _
    · exact not_headed_unplaced hcomma

theorem labelList_unplaced (stop : Span) (tokens : List Token) :
    labelList default (tokens.map Token.unplaced)
      = Reading.unplaced (List.map Label.unplaced) (labelList stop tokens) := by
  fun_cases labelList stop tokens with
  | case1 name span rest => exact moreLabels_unplaced stop [⟨name, span⟩] rest
  | case2 rest hlabel =>
    rw [labelList]
    · exact refuse_unplaced _ stop .label tokens
    · exact fun name => not_headed_unplaced (hlabel name)

/-! ## §3. Endpoints. -/

theorem endpoint_unplaced (stop : Span) (tokens : List Token) :
    endpoint default (tokens.map Token.unplaced)
      = Reading.unplaced Endpoint.unplaced (endpoint stop tokens) := by
  fun_cases endpoint stop tokens with
  | case1 first last rest => rfl
  | case2 first rest hclose labels last after hlabels =>
    rw [List.map_cons, Token.unplaced, endpoint, labelList_unplaced stop, hlabels]
    · rfl
    · exact not_headed_unplaced hclose
  | case3 first rest hclose labels after hend hlabels =>
    rw [List.map_cons, Token.unplaced, endpoint, labelList_unplaced stop, hlabels]
    · rcases after with _ | ⟨⟨kind, span⟩, after⟩
      · rfl
      · cases kind with
        | closeBrace => exact (hend span after rfl).elim
        | _ => rfl
    · exact not_headed_unplaced hclose
  | case4 first rest hclose fault after hlabels =>
    rw [List.map_cons, Token.unplaced, endpoint, labelList_unplaced stop, hlabels]
    · rfl
    · exact not_headed_unplaced hclose
  | case5 name span rest => rfl
  | case6 rest hempty hbrace hlabel =>
    rw [endpoint]
    · exact refuse_unplaced _ stop .label tokens
    · exact fun brace close after => not_headed_unplaced hbrace brace _
    · exact not_headed_unplaced hbrace
    · exact fun name => not_headed_unplaced (hlabel name)

theorem moreEndpoints_unplaced (stop : Span) (endpoints : List Endpoint) (tokens : List Token) :
    moreEndpoints default (endpoints.map Endpoint.unplaced) (tokens.map Token.unplaced)
      = Reading.unplaced (List.map Endpoint.unplaced) (moreEndpoints stop endpoints tokens) := by
  fun_induction moreEndpoints stop endpoints tokens with
  | case1 endpoints comma rest e after hread _ ih =>
    have hread' := endpoint_unplaced stop rest
    rw [hread] at hread'
    exact (moreEndpoints_comma hread').trans ih
  | case2 endpoints comma rest fault after hread =>
    have hread' := endpoint_unplaced stop rest
    rw [hread] at hread'
    exact moreEndpoints_error hread'
  | case3 endpoints rest hcomma =>
    have hend : Ends ((rest.map Token.unplaced).map Token.kind) := by
      rcases rest with _ | ⟨⟨kind, span⟩, rest⟩
      · simp [Ends]
      · rintro ⟨⟩
        exact hcomma span rest rfl
    rw [moreEndpoints_end hend, ← List.map_reverse]
    rfl

theorem endpointList_unplaced (stop : Span) (tokens : List Token) :
    endpointList default (tokens.map Token.unplaced)
      = Reading.unplaced (List.map Endpoint.unplaced) (endpointList stop tokens) := by
  fun_cases endpointList stop tokens with
  | case1 e rest hread =>
    rw [endpointList, endpoint_unplaced stop, hread]
    exact moreEndpoints_unplaced stop [e] rest
  | case2 fault rest hread =>
    rw [endpointList, endpoint_unplaced stop, hread]
    rfl

/-! ## §4. Relations and node declarations. -/

theorem shapeFault?_unplaced (kind : Relation.Kind) (endpoints : List Endpoint) (span : Span) :
    shapeFault? kind (endpoints.map Endpoint.unplaced) default
      = (shapeFault? kind endpoints span).map Fault.unplaced := by
  unfold shapeFault?
  rw [List.length_map, List.zipIdx_map, List.findSome?_map]
  split
  · rw [List.map_findSome?]
    refine congrArg (endpoints.zipIdx.findSome? ·) (funext fun (e, i) => ?_)
    cases e with
    | single label => rfl
    | set labels inner =>
      show (if allowsSet kind i then none else _)
        = (if allowsSet kind i then none else _ : Option Fault).map _
      split <;> rfl
  · rfl

theorem relation_unplaced (stop : Span) (kind : Relation.Kind) (first : Span)
    (tokens : List Token) : relation default kind default (tokens.map Token.unplaced)
      = Reading.unplaced Item.unplaced (relation stop kind first tokens) := by
  fun_cases relation stop kind first tokens with
  | case1 paren rest endpoints last after hread fault hshape =>
    have hshape' := shapeFault?_unplaced kind endpoints (first.upTo last)
    rw [hshape] at hshape'
    rw [List.map_cons, Token.unplaced, relation, endpointList_unplaced stop, hread]
    simp only [Reading.unplaced, List.map_cons, Token.unplaced]
    rw [show (default : Span).upTo default = default from rfl, hshape']
    rfl
  | case2 paren rest endpoints last after hread hshape =>
    have hshape' := shapeFault?_unplaced kind endpoints (first.upTo last)
    rw [hshape] at hshape'
    rw [List.map_cons, Token.unplaced, relation, endpointList_unplaced stop, hread]
    simp only [Reading.unplaced, List.map_cons, Token.unplaced]
    rw [show (default : Span).upTo default = default from rfl, hshape']
    rfl
  | case3 paren rest endpoints after hclose hread =>
    rw [List.map_cons, Token.unplaced, relation, endpointList_unplaced stop, hread]
    rcases after with _ | ⟨⟨kind, span⟩, after⟩
    · rfl
    · cases kind with
      | closeParen => exact (hclose span after rfl).elim
      | _ => rfl
  | case4 paren rest fault after hread =>
    rw [List.map_cons, Token.unplaced, relation, endpointList_unplaced stop, hread]
    rfl
  | case5 rest hopen =>
    rw [relation]
    · exact refuse_unplaced _ stop .openParen tokens
    · exact not_headed_unplaced hopen

theorem nodes_unplaced (stop first : Span) (tokens : List Token) :
    nodes default default (tokens.map Token.unplaced)
      = Reading.unplaced Item.unplaced (nodes stop first tokens) := by
  fun_cases nodes stop first tokens with
  | case1 labels rest hread =>
    -- the last label has no place either, so the item has none
    have hlast : ((labels.map Label.unplaced).getLast?.map Label.span).getD default = default := by
      rw [List.getLast?_map]
      cases labels.getLast? <;> rfl
    rw [nodes, labelList_unplaced stop, hread]
    show (Except.ok (Item.nodes _ (Span.upTo default (Option.getD _ default))), _) = _
    rw [hlast]
    rfl
  | case2 fault rest hread =>
    rw [nodes, labelList_unplaced stop, hread]
    rfl

/-! ## §5. Items. -/

theorem item_unplaced (stop : Span) (tokens : List Token) :
    item default (tokens.map Token.unplaced)
      = Reading.unplaced Item.unplaced (item stop tokens) := by
  fun_cases item stop tokens with
  | case1 first rest => exact nodes_unplaced stop first rest
  | case2 kind first rest => exact relation_unplaced stop kind first rest
  | case3 name span paren rest => rfl
  | case4 rest hnode hrelation hlabel =>
    rw [item]
    · exact refuse_unplaced _ stop .item tokens
    · exact not_headed_unplaced hnode
    · exact fun kind => not_headed_unplaced (hrelation kind)
    · intro name span paren after heq
      have hkinds : tokens.map Token.kind = .label name :: .openParen :: after.map Token.kind := by
        rw [← map_kind_unplaced, heq]
        rfl
      obtain ⟨span', more, rfl, hmore⟩ := exists_cons_of_kinds hkinds
      obtain ⟨paren', after', rfl, -⟩ := exists_cons_of_kinds hmore
      exact hlabel name span' paren' after' rfl

theorem skipSemicolons_unplaced (tokens : List Token) :
    skipSemicolons (tokens.map Token.unplaced) = (skipSemicolons tokens).map Token.unplaced :=
  List.dropWhile_map

/-- **Items to the end** are read alike with and without places. -/
theorem itemsFrom_unplaced (stop : Span) (items : List Item) (tokens : List Token) :
    itemsFrom default (items.map Item.unplaced) (tokens.map Token.unplaced)
      = Reading.unplaced (List.map Item.unplaced) (itemsFrom stop items tokens) := by
  fun_induction itemsFrom stop items tokens with
  | case1 items =>
    rw [List.map_nil, itemsFrom, ← List.map_reverse]
    rfl
  | case2 items t tokens i rest hread _ ih =>
    have hread' := item_unplaced stop (t :: tokens)
    rw [hread] at hread'
    rw [List.map_cons, itemsFrom_cons hread', skipSemicolons_unplaced]
    exact ih
  | case3 items t tokens fault rest hread =>
    have hread' := item_unplaced stop (t :: tokens)
    rw [hread] at hread'
    exact itemsFrom_error hread'

/-! ## §6. Whole texts. -/

/-- What the reading of a whole text comes to, places aside: the items, or the cause of the
fault. -/
def outcome : Except Fault Description → Except Cause (List Item)
  | .ok d => .ok (d.items.map Item.unplaced)
  | .error fault => .error fault.cause

theorem outcome_ofTokens (stream : TokenStream) : outcome (ofTokens stream).1
    = (itemsFrom default [] (stream.tokens.map Token.unplaced)).1.mapError Fault.cause := by
  have hread := itemsFrom_unplaced stream.stop [] stream.tokens
  rw [List.map_nil] at hread
  rw [hread, ofTokens]
  rcases itemsFrom stream.stop [] stream.tokens with ⟨fault | items, rest⟩ <;> rfl

/-- **The kinds of tokens decide** what the reading of them comes to. -/
theorem outcome_eq_of_kinds {stream other : TokenStream}
    (h : stream.tokens.map Token.kind = other.tokens.map Token.kind) :
    outcome (ofTokens stream).1 = outcome (ofTokens other).1 := by
  have hunplaced : ∀ tokens : List Token,
      tokens.map Token.unplaced = (tokens.map Token.kind).map (⟨·, default⟩) := by
    intro tokens
    rw [List.map_map]
    rfl
  rw [outcome_ofTokens, outcome_ofTokens, hunplaced, h, ← hunplaced]

end Admissibility.Description
