/-
  Admissibility.Proofs.Description.Message
  ────────────────────────────────────────
  **A message takes one line.**

  A message has words of its own, numbers, and what it quotes of the input.  A scan quotes a
  character that is no white space, or a whole word; a reader quotes the label that it takes for a
  kind, and items quote the labels that they name.  All of these stay on their line, so messages do,
  whatever the input is.

  `oneLine_message`: a message stays on its line where what it quotes does.
  `item_quotes`, `itemsFrom_quotes`, `Item.Offends.quotes`: readers and items quote labels.
  `quoted_of_ofText`, `cause_of_decode`: every text, and all bytes.
-/
import Admissibility.Proofs.Description.Scope
import Admissibility.Proofs.Description.Standing
import Admissibility.Proofs.Text.Pieces

namespace Admissibility

open Text (OneLine isBlank oneLine_append oneLine_framed oneLine_repr oneLine_singleton)

/-- What a validation runs out of is told in one line. -/
theorem Exhausted.oneLine_message (e : Exhausted) : OneLine e.message := by
  have hname : OneLine e.resource.name := by cases e.resource <;> decide
  show OneLine ("resource exhausted: " ++ e.resource.name ++ " (limit " ++ e.limit.repr ++ ")")
  simp only [oneLine_append]
  exact ⟨⟨⟨⟨by decide, hname⟩, by decide⟩, oneLine_repr _⟩, by decide⟩

namespace Description

variable {stop : Text.Span} {tokens rest : List Token} {f : Fault}

/-! ## §1. Messages and what they quote. -/

/-- What the message of a cause repeats of the input. -/
def Cause.quoted : Cause → List String
  | .unexpectedCharacter c => [String.singleton c]
  | .proceduralWord word => [word]
  | .unknownKind name => [name]
  | .duplicateNode label => [label]
  | .undeclaredNode label => [label]
  | .refused (.duplicateLabel label) => [label]
  | _ => []

theorem oneLine_keyword (kind : Relation.Kind) : OneLine kind.keyword := by
  cases kind <;> decide

theorem oneLine_refusal {refusal : Structure.Refusal}
    (h : ∀ q ∈ (Cause.refused refusal).quoted, OneLine q) : OneLine refusal.message := by
  cases refusal with
  | emptyLabel => decide
  | duplicateLabel label =>
    exact oneLine_framed (by decide) (h label List.mem_cons_self) (by decide)
  | unknownNode id => exact oneLine_append.2 ⟨by decide, oneLine_repr id⟩
  | arityMismatch kind expected found =>
    show OneLine (kind.keyword ++ " takes " ++ expected.repr ++ " endpoints, found " ++ found.repr)
    have hwords := oneLine_framed (oneLine_keyword kind) (show OneLine " takes " by decide)
      (oneLine_repr expected)
    exact oneLine_framed hwords (by decide) (oneLine_repr found)
  | noEndpoints kind => exact oneLine_append.2 ⟨oneLine_keyword kind, by decide⟩

theorem oneLine_expected (expected : Expected) : OneLine expected.name := by
  cases expected <;> decide

theorem oneLine_kind (kind : Token.Kind) : OneLine kind.name := by
  cases kind with
  | relation kind => exact oneLine_keyword kind
  | label name => exact (by decide : OneLine "label")
  | _ => decide

/-- What the text of a diagnostic says beside what it quotes stays on its line. -/
theorem oneLine_text (h : ∀ q ∈ f.cause.quoted, OneLine q) : OneLine f.diagnostic.text := by
  obtain ⟨cause, span⟩ := f
  cases cause with
  | invalidByte offset byte => exact oneLine_append.2 ⟨by decide, oneLine_repr offset⟩
  | unexpectedToken expected found =>
    exact oneLine_append.2
      ⟨oneLine_framed (by decide) (oneLine_expected expected) (by decide), oneLine_kind found⟩
  | unexpectedEnd expected => exact oneLine_append.2 ⟨by decide, oneLine_expected expected⟩
  | emptySet => exact (by decide : OneLine "bounded set must not be empty")
  | misplacedSet =>
    exact (by decide : OneLine "a node set is only allowed as the bounded side of bounds")
  | refused refusal => exact oneLine_refusal h
  | unexpectedCharacter c => exact oneLine_framed (by decide) (h _ List.mem_cons_self) (by decide)
  | _ => exact oneLine_framed (by decide) (h _ List.mem_cons_self) (by decide)

/-- **A message stays on its line** where what it quotes does. -/
theorem oneLine_message (h : ∀ q ∈ f.cause.quoted, OneLine q) : OneLine f.message := by
  have hgate : OneLine f.diagnostic.gate.name := by cases f.diagnostic.gate <;> decide
  have hline := oneLine_framed hgate (show OneLine " at line " by decide)
    (oneLine_repr f.diagnostic.span.line)
  have hcolumn := oneLine_framed hline (show OneLine ", column " by decide)
    (oneLine_repr f.diagnostic.span.column)
  exact oneLine_framed hcolumn (show OneLine ": " by decide) (oneLine_text h)

/-! ## §2. Readers. -/

/-- What a fault quotes are labels among some tokens. -/
def Fault.Quotes (f : Fault) (tokens : List Token) : Prop :=
  ∀ q ∈ f.cause.quoted, .label q ∈ tokens.map Token.kind

theorem Fault.Quotes.mono {more : List Token} (h : f.Quotes tokens) (hsub : tokens ⊆ more) :
    f.Quotes more := fun q hq => List.map_subset Token.kind hsub (h q hq)

theorem quotes_of_nil (h : f.cause.quoted = []) : f.Quotes tokens := by
  intro q hq
  rw [h] at hq
  cases hq

theorem refuse_quotes {α : Type} {expected : Expected}
    (h : (refuse stop expected tokens : Reading α) = (.error f, rest)) : f.cause.quoted = [] := by
  cases h
  cases tokens <;> rfl

theorem labelList_quotes (h : labelList stop tokens = (.error f, rest)) : f.cause.quoted = [] := by
  have hmore : ∀ {done : List Label} {tokens : List Token},
      moreLabels stop done tokens = (.error f, rest) → f.cause.quoted = [] := by
    intro done tokens h
    fun_induction moreLabels stop done tokens with
    | case1 done comma name span after ih => exact ih h
    | case2 done comma after _ => exact refuse_quotes h
    | case3 done after _ _ => cases h
  unfold labelList at h
  split at h
  · exact hmore h
  · exact refuse_quotes h

theorem endpoint_quotes (h : endpoint stop tokens = (.error f, rest)) : f.cause.quoted = [] := by
  unfold endpoint at h
  split at h
  · cases h
    rfl
  · split at h
    · cases h
    · exact refuse_quotes h
    · next hlabels =>
      cases h
      exact labelList_quotes hlabels
  · cases h
  · exact refuse_quotes h

theorem endpointList_quotes (h : endpointList stop tokens = (.error f, rest)) :
    f.cause.quoted = [] := by
  have hmore : ∀ {done : List Endpoint} {tokens : List Token},
      moreEndpoints stop done tokens = (.error f, rest) → f.cause.quoted = [] := by
    intro done tokens h
    fun_induction moreEndpoints stop done tokens with
    | case1 done comma after e after' hread _ ih => exact ih h
    | case2 done comma after fault after' hread =>
      cases h
      exact endpoint_quotes hread
    | case3 done after _ => cases h
  unfold endpointList at h
  split at h
  · exact hmore h
  · next hread =>
    cases h
    exact endpoint_quotes hread

theorem shapeFault?_quotes {kind : Relation.Kind} {endpoints : List Endpoint} {span : Text.Span}
    (h : shapeFault? kind endpoints span = some f) : f.cause.quoted = [] := by
  unfold shapeFault? at h
  split at h
  · obtain ⟨⟨e, i⟩, -, he⟩ := List.exists_of_findSome?_eq_some h
    cases e with
    | single l => cases he
    | set labels inner =>
      simp only at he
      split at he
      · cases he
      · cases he
        rfl
  · cases h
    cases kind <;> rfl

/-- **An item** that is refused quotes the label that stands where a kind should, or nothing. -/
theorem item_quotes (h : item stop tokens = (.error f, rest)) : f.Quotes tokens := by
  unfold item at h
  split at h
  · unfold nodes at h
    split at h
    · cases h
    · next hread =>
      cases h
      exact quotes_of_nil (labelList_quotes hread)
  · unfold relation at h
    split at h
    · split at h
      · split at h
        · next hshape =>
          cases h
          exact quotes_of_nil (shapeFault?_quotes hshape)
        · cases h
      · exact quotes_of_nil (refuse_quotes h)
      · next hread =>
        cases h
        exact quotes_of_nil (endpointList_quotes hread)
    · exact quotes_of_nil (refuse_quotes h)
  · cases h
    intro q hq
    rw [List.mem_singleton.1 hq]
    exact List.mem_cons_self
  · exact quotes_of_nil (refuse_quotes h)

/-- **Items to the end** that are refused quote a label among all tokens, or nothing. -/
theorem itemsFrom_quotes {done : List Item} (h : itemsFrom stop done tokens = (.error f, rest)) :
    f.Quotes tokens := by
  fun_induction itemsFrom stop done tokens with
  | case1 done => cases h
  | case2 done t tokens i after hread _ ih =>
    obtain ⟨mine, hsplit, -⟩ := item_at hread
    have hafter : skipSemicolons after ⊆ t :: tokens := by
      rw [hsplit]
      exact ((skipSemicolons_suffix after).trans (List.suffix_append mine after)).subset
    exact (ih h).mono hafter
  | case3 done t tokens fault after hread =>
    cases h
    exact item_quotes hread

/-! ## §3. Items. -/

/-- The labels of an item, wherever they stand in it. -/
def Item.labels : Item → List Label
  | .nodes labels _ => labels
  | .relation _ endpoints _ => named endpoints

/-- The labels of an item are among its tokens. -/
theorem Item.At.mem_of_labels {i : Item} {l : Label} (h : i.At tokens) (hl : l ∈ i.labels) :
    .label l.name ∈ tokens.map Token.kind := by
  have hmem : ∀ {labels : List Label} {mine : List Token}, Scattered Label.At labels mine →
      l ∈ labels → .label l.name ∈ mine.map Token.kind := by
    intro labels mine hparts hl
    obtain ⟨its, hits, rfl⟩ := hparts.exists_of_mem hl
    exact List.mem_map.2 ⟨_, hits.subset List.mem_cons_self, rfl⟩
  obtain ⟨-, -, hparts⟩ := h
  cases i with
  | nodes labels span => exact hmem hparts hl
  | relation kind endpoints span =>
    obtain ⟨e, he, hle⟩ := List.mem_flatMap.1 hl
    obtain ⟨its, hits, hat⟩ := Scattered.exists_of_mem hparts he
    exact List.map_subset Token.kind hits.subset (hmem hat.labels hle)

/-- **An item that offends** quotes one of its labels, or nothing. -/
theorem Item.Offends.quotes {declared : List String} {i : Item} (h : i.Offends declared f) :
    ∀ q ∈ f.cause.quoted, ∃ l ∈ i.labels, q = l.name := by
  intro q hq
  cases h with
  | nodes hfirst =>
    obtain ⟨before, l, after, rfl, -, hl⟩ := hfirst
    refine ⟨l, by simp [Item.labels], ?_⟩
    cases hl with
    | empty => cases hq
    | duplicate _ _ => exact List.mem_singleton.1 hq
  | undeclared hfirst =>
    obtain ⟨before, l, after, hsplit, -, hl⟩ := hfirst
    refine ⟨l, by simp [Item.labels, hsplit], ?_⟩
    cases hl
    exact List.mem_singleton.1 hq
  | @shape kind _ _ _ _ => cases kind <;> cases hq

/-! ## §4. Every input. -/

/-- A word has no white space in it. -/
theorem oneLine_of_isWord {word : String} (h : IsWord word.toList) : OneLine word := by
  intro c hc hblank
  obtain ⟨hword, hhyphen⟩ := not_isWordChar_of_isBlank hblank
  rcases isWordChar_or_hyphen h hc with hchar | rfl
  · rw [hword] at hchar
    cases hchar
  · exact absurd rfl hhyphen

/-- Labels among the tokens of a text stay on their line. -/
theorem Fault.Quotes.oneLine {text : String} {stream : TokenStream}
    (hstream : tokenize text = .ok stream) (h : f.Quotes stream.tokens) :
    ∀ q ∈ f.cause.quoted, OneLine q := by
  intro q hq
  obtain ⟨t, ht, hkind⟩ := List.mem_map.1 (h q hq)
  exact oneLine_of_isWord (readable_of_tokenize hstream t ht q hkind).isWord

/-- **A scan** quotes a character that is no white space, or a word. -/
theorem quoted_of_tokenize {text : String} (h : tokenize text = .error f) :
    ∀ q ∈ f.cause.quoted, OneLine q := by
  rcases tokenize_cases text with ⟨_, _, -, -, -, hread⟩
    | ⟨written, gap, bad, rest, cause, -, -, -, hbad, hread⟩
  · rw [h] at hread
    cases hread
  · rw [h] at hread
    cases hread
    intro q hq
    cases hbad with
    | character hblank _ _ _ =>
      rw [List.mem_singleton.1 hq]
      exact oneLine_singleton hblank
    | word hword _ _ =>
      rw [List.mem_singleton.1 hq]
      exact oneLine_of_isWord (by rwa [String.toList_ofList])

/-- **What the fault of a text quotes** stays on its line, whichever stage refuses the text. -/
theorem quoted_of_ofText {text : String} (h : Structure.ofText text = .error f) :
    ∀ q ∈ f.cause.quoted, OneLine q := by
  rcases error_of_bind h with hread | ⟨d, hd, hlowered⟩
  · rcases error_of_bind hread with hscan | ⟨stream, hstream, hread⟩
    · exact quoted_of_tokenize hscan
    · obtain ⟨rest, hitems⟩ := itemsFrom_of_refused hread
      exact (itemsFrom_quotes hitems).oneLine hstream
  · obtain ⟨stream, hstream, hread⟩ := exists_of_bind_ok hd
    rcases toStructure_cases d with ⟨-, t, ht, -⟩
      | ⟨fault, ⟨before, i, after, hsplit, -, hi⟩, herror⟩
    · rw [ht] at hlowered
      cases hlowered
    · rw [herror] at hlowered
      cases hlowered
      -- the item that offends stands among the tokens, and so does the label that it offends by
      have hmem : i ∈ d.items := by
        rw [hsplit]
        simp
      obtain ⟨mine, hmine, hat⟩ := (at_of_ofTokens hread).exists_of_mem hmem
      refine Fault.Quotes.oneLine hstream fun q hq => ?_
      obtain ⟨l, hl, rfl⟩ := hi.quotes q hq
      exact List.map_subset Token.kind hmine.subset (hat.mem_of_labels hl)

/-- **Bytes that are no text** are refused for a byte. -/
theorem cause_of_decode {bytes : ByteArray} (h : decode bytes = .error f) :
    ∃ offset byte, f.cause = .invalidByte offset byte := by
  have hfrom : ∀ {start : Nat} {done : List Char}, decodeFrom bytes start done = .error f →
      ∃ offset byte, f.cause = .invalidByte offset byte := by
    intro start done h
    fun_induction decodeFrom bytes start done with
    | case1 start done hlt c hc ih => exact ih h
    | case2 start done hlt hnone =>
      cases h
      exact ⟨_, _, rfl⟩
    | case3 start done hge => cases h
  exact hfrom h

end Description

end Admissibility
