/-
  Admissibility.Description.Grammar
  ─────────────────────────────────
  **From tokens to trees.**

      item      =  "node" labels
                |  "member-of" "(" label "," label ")"
                |  "bounds" "(" label "," ( label | "{" labels "}" ) ")"
                |  "inverts" "(" labels ")"
      labels    =  label { "," label }

  Any number of semicolons may follow an item.  Endpoints are read freely first, in any number and
  with sets anywhere; whether their number and form fit the kind is checked behind the closing
  parenthesis.  Every reader gives back the tokens that it left, after a fault too, so that reading
  can be taken up again where it stopped.

  `item_shorter`: an item takes at least one token, so reading ends.
-/
import Admissibility.Description.Scan
import Admissibility.Description.Tree

namespace Admissibility.Description

open Admissibility.Text (Span)

/-! ## §1. Lists of labels. -/

/-- A reader's result, and the tokens that it left. -/
abbrev Reading (α : Type) : Type := Except Fault α × List Token

/-- The fault of the next token, or of the end of the text behind the last one. -/
def unexpected (stop : Span) (expected : Expected) : List Token → Fault
  | [] => ⟨.unexpectedEnd expected, stop⟩
  | t :: _ => ⟨.unexpectedToken expected t.kind, t.span⟩

/-- A fault at the next token, which is left. -/
def refuse {α : Type} (stop : Span) (expected : Expected) (tokens : List Token) : Reading α :=
  (.error (unexpected stop expected tokens), tokens)

/-- Goes on with a list of labels, the last of them first, while a comma follows. -/
def moreLabels (stop : Span) (labels : List Label) : List Token → Reading (List Label)
  | ⟨.comma, _⟩ :: ⟨.label name, span⟩ :: rest => moreLabels stop (⟨name, span⟩ :: labels) rest
  | ⟨.comma, _⟩ :: rest => refuse stop .label rest
  | rest => (.ok labels.reverse, rest)

/-- Reads one or more labels with commas between them. -/
def labelList (stop : Span) : List Token → Reading (List Label)
  | ⟨.label name, span⟩ :: rest => moreLabels stop [⟨name, span⟩] rest
  | rest => refuse stop .label rest

theorem moreLabels_length_le (stop : Span) (labels : List Label) (tokens : List Token) :
    (moreLabels stop labels tokens).2.length ≤ tokens.length := by
  fun_induction moreLabels stop labels tokens with
  | case1 labels _ name span rest ih => simp only [List.length_cons]; omega
  | case2 labels _ rest _ => simp [refuse]
  | case3 labels rest _ _ => exact Nat.le_refl _

theorem labelList_length_le (stop : Span) (tokens : List Token) :
    (labelList stop tokens).2.length ≤ tokens.length := by
  unfold labelList
  split
  · next name span rest =>
    exact Nat.le_succ_of_le (moreLabels_length_le stop [⟨name, span⟩] rest)
  · exact Nat.le_refl _

/-! ## §2. Endpoints. -/

/-- Reads a label, or labels in braces. -/
def endpoint (stop : Span) : List Token → Reading Endpoint
  | ⟨.openBrace, first⟩ :: ⟨.closeBrace, last⟩ :: rest =>
    (.error ⟨.emptySet, first.upTo last⟩, rest)
  | ⟨.openBrace, first⟩ :: rest =>
    match labelList stop rest with
    | (.ok labels, ⟨.closeBrace, last⟩ :: rest) => (.ok (.set labels (first.upTo last)), rest)
    | (.ok _, rest) => refuse stop .closeBrace rest
    | (.error fault, rest) => (.error fault, rest)
  | ⟨.label name, span⟩ :: rest => (.ok (.single ⟨name, span⟩), rest)
  | rest => refuse stop .label rest

theorem endpoint_length_le (stop : Span) (tokens : List Token) :
    (endpoint stop tokens).2.length ≤ tokens.length := by
  unfold endpoint
  split
  · simp only [List.length_cons]
    omega
  · next first after _ =>
    have hle := labelList_length_le stop after
    split
    all_goals
      next hl =>
        simp only [hl, List.length_cons, refuse] at hle ⊢
        omega
  · simp
  · exact Nat.le_refl _

theorem endpoint_shorter {stop : Span} {tokens rest : List Token} {e : Endpoint}
    (h : endpoint stop tokens = (.ok e, rest)) : rest.length < tokens.length := by
  unfold endpoint at h
  split at h
  · cases h
  · next first after _ =>
    have hle := labelList_length_le stop after
    split at h
    · next hl =>
      cases h
      simp only [hl, List.length_cons] at hle ⊢
      omega
    · cases h
    · cases h
  · cases h
    simp
  · cases h

/-- Goes on with a list of endpoints, the last of them first, while a comma follows. -/
def moreEndpoints (stop : Span) (endpoints : List Endpoint) (tokens : List Token) :
    Reading (List Endpoint) :=
  match tokens with
  | ⟨.comma, _⟩ :: rest =>
    match h : endpoint stop rest with
    | (.ok e, rest) =>
      have := endpoint_shorter h
      moreEndpoints stop (e :: endpoints) rest
    | (.error fault, rest) => (.error fault, rest)
  | rest => (.ok endpoints.reverse, rest)
termination_by tokens.length
decreasing_by simp only [List.length_cons]; omega

/-- Reads one or more endpoints with commas between them. -/
def endpointList (stop : Span) (tokens : List Token) : Reading (List Endpoint) :=
  match endpoint stop tokens with
  | (.ok e, rest) => moreEndpoints stop [e] rest
  | (.error fault, rest) => (.error fault, rest)

theorem moreEndpoints_length_le (stop : Span) (endpoints : List Endpoint) (tokens : List Token) :
    (moreEndpoints stop endpoints tokens).2.length ≤ tokens.length := by
  fun_induction moreEndpoints stop endpoints tokens with
  | case1 endpoints _ rest e rest' h hlt ih => simp only [List.length_cons]; omega
  | case2 endpoints _ rest fault rest' h =>
    have := endpoint_length_le stop rest
    simp only [h, List.length_cons] at this ⊢
    omega
  | case3 endpoints rest _ => exact Nat.le_refl _

theorem endpointList_length_le (stop : Span) (tokens : List Token) :
    (endpointList stop tokens).2.length ≤ tokens.length := by
  have hle := endpoint_length_le stop tokens
  unfold endpointList
  split
  · next e rest h =>
    rw [h] at hle
    exact Nat.le_trans (moreEndpoints_length_le stop [e] rest) hle
  · next h =>
    rw [h] at hle
    exact hle

/-! ## §3. Relations. -/

/-- Whether a set may stand at a position: only as the bounded side of `bounds`. -/
def allowsSet (kind : Relation.Kind) (position : Nat) : Bool :=
  kind = .bounds && position = 1

/-- What is wrong with the endpoints of a relation of some kind: their number first, and after
that the first set that stands where none may. -/
def shapeFault? (kind : Relation.Kind) (endpoints : List Endpoint) (span : Span) :
    Option Fault :=
  if kind.fixedArity.all (· = endpoints.length) then
    endpoints.zipIdx.findSome? fun
      | (.set _ span, position) =>
        if allowsSet kind position then none else some ⟨.misplacedSet, span⟩
      | (.single _, _) => none
  else some ⟨.refused (.ofArity kind endpoints.length), span⟩

/-- Reads the rest of a relation behind its keyword. -/
def relation (stop : Span) (kind : Relation.Kind) (first : Span) : List Token → Reading Item
  | ⟨.openParen, _⟩ :: rest =>
    match endpointList stop rest with
    | (.ok endpoints, ⟨.closeParen, last⟩ :: rest) =>
      match shapeFault? kind endpoints (first.upTo last) with
      | some fault => (.error fault, rest)
      | none => (.ok (.relation kind endpoints (first.upTo last)), rest)
    | (.ok _, rest) => refuse stop .closeParen rest
    | (.error fault, rest) => (.error fault, rest)
  | rest => refuse stop .openParen rest

/-- Reads the rest of a node declaration behind its keyword. -/
def nodes (stop : Span) (first : Span) (tokens : List Token) : Reading Item :=
  match labelList stop tokens with
  | (.ok labels, rest) =>
    (.ok (.nodes labels (first.upTo ((labels.getLast?.map Label.span).getD first))), rest)
  | (.error fault, rest) => (.error fault, rest)

theorem relation_length_le (stop : Span) (kind : Relation.Kind) (first : Span)
    (tokens : List Token) : (relation stop kind first tokens).2.length ≤ tokens.length := by
  unfold relation
  split
  · next rest =>
    have hle := endpointList_length_le stop rest
    split
    · next h =>
      simp only [h, List.length_cons] at hle
      split <;> (simp only [List.length_cons]; omega)
    all_goals
      next h =>
        simp only [h, List.length_cons, refuse] at hle ⊢
        omega
  · exact Nat.le_refl _

theorem nodes_length_le (stop : Span) (first : Span) (tokens : List Token) :
    (nodes stop first tokens).2.length ≤ tokens.length := by
  have hle := labelList_length_le stop tokens
  unfold nodes
  split
  all_goals
    next h =>
      rw [h] at hle
      exact hle

/-! ## §4. Items. -/

/-- Reads an item.  A label with a parenthesis behind it is taken for a relation of a kind that
there is not; nothing is taken then. -/
def item (stop : Span) : List Token → Reading Item
  | ⟨.node, first⟩ :: rest => nodes stop first rest
  | ⟨.relation kind, first⟩ :: rest => relation stop kind first rest
  | ⟨.label name, span⟩ :: ⟨.openParen, paren⟩ :: rest =>
    (.error ⟨.unknownKind name, span⟩, ⟨.label name, span⟩ :: ⟨.openParen, paren⟩ :: rest)
  | rest => refuse stop .item rest

theorem item_shorter {stop : Span} {tokens rest : List Token} {i : Item}
    (h : item stop tokens = (.ok i, rest)) : rest.length < tokens.length := by
  unfold item at h
  split at h
  · next first after =>
    have hle := nodes_length_le stop first after
    rw [h] at hle
    exact Nat.lt_succ_of_le hle
  · next kind first after =>
    have hle := relation_length_le stop kind first after
    rw [h] at hle
    exact Nat.lt_succ_of_le hle
  · cases h
  · cases h

/-- Tokens without the semicolons in front. -/
def skipSemicolons (tokens : List Token) : List Token :=
  tokens.dropWhile (fun t => t.kind == .semicolon)

theorem skipSemicolons_length_le (tokens : List Token) :
    (skipSemicolons tokens).length ≤ tokens.length :=
  (List.dropWhile_suffix _).length_le

/-- Reads items to the end of the tokens, with the items so far, the last one first. -/
def itemsFrom (stop : Span) (items : List Item) (tokens : List Token) : Reading (List Item) :=
  match tokens with
  | [] => (.ok items.reverse, [])
  | t :: tokens =>
    match h : item stop (t :: tokens) with
    | (.ok i, rest) =>
      have := Nat.lt_of_le_of_lt (skipSemicolons_length_le rest) (item_shorter h)
      itemsFrom stop (i :: items) (skipSemicolons rest)
    | (.error fault, rest) => (.error fault, rest)
termination_by tokens.length
decreasing_by exact this

/-! ## §5. Descriptions. -/

/-- Reads a whole description, and gives back the tokens that it left. -/
def ofTokens (stream : TokenStream) : Except Fault Description × TokenStream :=
  let result := itemsFrom stream.stop [] stream.tokens
  (result.1.map Description.mk, ⟨result.2, stream.stop⟩)

/-- The description that a text states. -/
def ofText (text : String) : Except Fault Description := do
  let stream ← tokenize text
  (ofTokens stream).1

end Admissibility.Description
