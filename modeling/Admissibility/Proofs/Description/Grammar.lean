/-
  Admissibility.Proofs.Description.Grammar
  ────────────────────────────────────────
  **Reading accepts exactly the spellings of trees.**

  Every reader is met from both sides.  What it takes from the tokens in front is a spelling of what
  it gives; and in front of tokens that begin with a spelling it succeeds, gives what is spelled up
  to places, and leaves the rest.  A list goes on while a comma follows, so a list is read to its
  end where no comma comes behind it.

  `item_sound`, `item_complete`: one item.
  `itemsFrom_sound`, `itemsFrom_complete`: items to the end, by the recursion of the reader and by
  that of the spelling.
  `reading_is_exact`: whole descriptions.
-/
import Admissibility.Proofs.Description.Spelling

namespace Admissibility.Description

open Admissibility.Text (Span)

variable {stop : Span} {tokens rest : List Token}

/-! ## §1. Lists of labels. -/

/-- The first of some kinds is that of the first token. -/
theorem exists_cons_of_kinds {kind : Token.Kind} {kinds : List Token.Kind}
    (h : tokens.map Token.kind = kind :: kinds) :
    ∃ span after, tokens = ⟨kind, span⟩ :: after ∧ after.map Token.kind = kinds := by
  obtain ⟨t, after, rfl, rfl, hafter⟩ := List.map_eq_cons_iff.1 h
  exact ⟨t.span, after, rfl, hafter⟩

theorem moreLabels_sound {done labels : List Label}
    (h : moreLabels stop done tokens = (.ok labels, rest)) :
    ∃ more : List Label, labels = done.reverse ++ more
      ∧ tokens.map Token.kind = (more.flatMap fun l => .comma :: l.kinds) ++ rest.map Token.kind := by
  fun_induction moreLabels stop done tokens with
  | case1 done _ name span after ih =>
    obtain ⟨more, rfl, hkinds⟩ := ih h
    refine ⟨⟨name, span⟩ :: more, by simp, ?_⟩
    simp [hkinds, Label.kinds]
  | case2 done _ after _ => cases h
  | case3 done after _ _ =>
    cases h
    exact ⟨[], by simp, rfl⟩

theorem labelList_sound {labels : List Label} (h : labelList stop tokens = (.ok labels, rest)) :
    labels ≠ []
      ∧ tokens.map Token.kind = separated Label.kinds labels ++ rest.map Token.kind := by
  unfold labelList at h
  split at h
  · obtain ⟨more, rfl, hkinds⟩ := moreLabels_sound h
    refine ⟨by simp, ?_⟩
    simp [hkinds, separated, Label.kinds]
  · cases h

/-- What does not go on a list. -/
def Ends (kinds : List Token.Kind) : Prop := kinds.head? ≠ some .comma

theorem moreLabels_complete {more done : List Label} {kinds : List Token.Kind} (hends : Ends kinds)
    (h : tokens.map Token.kind = (more.flatMap fun l => .comma :: l.kinds) ++ kinds) :
    ∃ read rest, moreLabels stop done tokens = (.ok (done.reverse ++ read), rest)
      ∧ read.map Label.unplaced = more.map Label.unplaced ∧ rest.map Token.kind = kinds := by
  induction more generalizing tokens done with
  | nil =>
    refine ⟨[], tokens, ?_, rfl, h⟩
    unfold moreLabels
    split
    · exact absurd (congrArg List.head? h).symm hends
    · exact absurd (congrArg List.head? h).symm hends
    · simp
  | cons l more ih =>
    obtain ⟨comma, _, rfl, hlabel⟩ := exists_cons_of_kinds h
    obtain ⟨span, after, rfl, hafter⟩ := exists_cons_of_kinds hlabel
    obtain ⟨read, rest, hread, hsame, hrest⟩ := @ih after (⟨l.name, span⟩ :: done) hafter
    refine ⟨⟨l.name, span⟩ :: read, rest, ?_, ?_, hrest⟩
    · rw [moreLabels, hread]
      simp
    · rw [List.map_cons, List.map_cons, hsame]
      rfl

theorem labelList_complete {labels : List Label} {kinds : List Token.Kind} (hne : labels ≠ [])
    (hends : Ends kinds) (h : tokens.map Token.kind = separated Label.kinds labels ++ kinds) :
    ∃ read rest, labelList stop tokens = (.ok read, rest)
      ∧ read.map Label.unplaced = labels.map Label.unplaced ∧ rest.map Token.kind = kinds := by
  cases labels with
  | nil => exact absurd rfl hne
  | cons l more =>
    obtain ⟨span, after, rfl, hafter⟩ := exists_cons_of_kinds h
    obtain ⟨read, rest, hread, hsame, hrest⟩ := @moreLabels_complete stop after more
      [⟨l.name, span⟩] kinds hends hafter
    refine ⟨⟨l.name, span⟩ :: read, rest, hread, ?_, hrest⟩
    rw [List.map_cons, List.map_cons, hsame]
    rfl

/-! ## §2. Endpoints. -/

theorem endpoint_sound {e : Endpoint} (h : endpoint stop tokens = (.ok e, rest)) :
    e.Filled ∧ tokens.map Token.kind = e.kinds ++ rest.map Token.kind := by
  unfold endpoint at h
  split at h
  · cases h
  · next first after _ =>
    split at h
    · next labels last after' hlabels =>
      cases h
      obtain ⟨hne, hkinds⟩ := labelList_sound hlabels
      refine ⟨hne, ?_⟩
      simp [hkinds, Endpoint.kinds]
    · cases h
    · cases h
  · cases h
    exact ⟨List.cons_ne_nil _ _, rfl⟩
  · cases h

theorem endpoint_complete {e : Endpoint} {kinds : List Token.Kind} (hfilled : e.Filled)
    (h : tokens.map Token.kind = e.kinds ++ kinds) :
    ∃ read rest, endpoint stop tokens = (.ok read, rest)
      ∧ read.unplaced = e.unplaced ∧ rest.map Token.kind = kinds := by
  cases e with
  | single l =>
    obtain ⟨span, after, rfl, hafter⟩ := exists_cons_of_kinds h
    exact ⟨.single ⟨l.name, span⟩, after, rfl, rfl, hafter⟩
  | set labels inner =>
    obtain ⟨first, after, rfl, hafter⟩ := exists_cons_of_kinds h
    have hspelled : after.map Token.kind = separated Label.kinds labels ++ .closeBrace :: kinds := by
      rw [hafter]
      simp
    obtain ⟨read, rest, hread, hsame, hrest⟩ :=
      @labelList_complete stop after labels _ hfilled (by simp [Ends]) hspelled
    obtain ⟨last, rest, rfl, hend⟩ := exists_cons_of_kinds hrest
    refine ⟨.set read (first.upTo last), rest, ?_, ?_, hend⟩
    · -- the set is not empty, so a label follows the brace
      obtain ⟨l, more, rfl⟩ := List.exists_cons_of_ne_nil hfilled
      obtain ⟨span, after, rfl, -⟩ := exists_cons_of_kinds hspelled
      rw [endpoint, hread]
      intro _ _ hbrace
      cases hbrace
    · exact congrArg (Endpoint.set · default) hsame

theorem moreEndpoints_cons {done : List Endpoint} {comma : Span} :
    moreEndpoints stop done (⟨.comma, comma⟩ :: tokens) =
      match endpoint stop tokens with
      | (.ok e, rest) => moreEndpoints stop (e :: done) rest
      | (.error fault, rest) => (.error fault, rest) := by
  rw [moreEndpoints]
  split
  all_goals
    next h => simp only [h]

theorem moreEndpoints_comma {done : List Endpoint} {e : Endpoint} {comma : Span}
    (h : endpoint stop tokens = (.ok e, rest)) :
    moreEndpoints stop done (⟨.comma, comma⟩ :: tokens) = moreEndpoints stop (e :: done) rest := by
  rw [moreEndpoints_cons, h]

theorem moreEndpoints_error {done : List Endpoint} {fault : Fault} {comma : Span}
    (h : endpoint stop tokens = (.error fault, rest)) :
    moreEndpoints stop done (⟨.comma, comma⟩ :: tokens) = (.error fault, rest) := by
  rw [moreEndpoints_cons, h]

theorem moreEndpoints_end {done : List Endpoint} (h : Ends (tokens.map Token.kind)) :
    moreEndpoints stop done tokens = (.ok done.reverse, tokens) := by
  unfold moreEndpoints
  split
  · exact absurd rfl h
  · rfl

theorem moreEndpoints_sound {done endpoints : List Endpoint}
    (h : moreEndpoints stop done tokens = (.ok endpoints, rest)) :
    ∃ more : List Endpoint, endpoints = done.reverse ++ more ∧ (∀ e ∈ more, e.Filled)
      ∧ tokens.map Token.kind = (more.flatMap fun e => .comma :: e.kinds) ++ rest.map Token.kind := by
  fun_induction moreEndpoints stop done tokens with
  | case1 done _ after e after' hread _ ih =>
    obtain ⟨more, rfl, hfilled, hkinds⟩ := ih h
    obtain ⟨he, hspelled⟩ := endpoint_sound hread
    refine ⟨e :: more, by simp, by simpa using ⟨he, hfilled⟩, ?_⟩
    simp [hspelled, hkinds]
  | case2 done _ after fault after' hread => cases h
  | case3 done after _ =>
    cases h
    exact ⟨[], by simp, by simp, rfl⟩

theorem endpointList_sound {endpoints : List Endpoint}
    (h : endpointList stop tokens = (.ok endpoints, rest)) :
    endpoints ≠ [] ∧ (∀ e ∈ endpoints, e.Filled)
      ∧ tokens.map Token.kind = separated Endpoint.kinds endpoints ++ rest.map Token.kind := by
  unfold endpointList at h
  split at h
  · next e after hread =>
    obtain ⟨he, hspelled⟩ := endpoint_sound hread
    obtain ⟨more, rfl, hfilled, hkinds⟩ := moreEndpoints_sound h
    refine ⟨by simp, by simpa using ⟨he, hfilled⟩, ?_⟩
    simp [hspelled, hkinds, separated]
  · cases h

theorem moreEndpoints_complete {more done : List Endpoint} {kinds : List Token.Kind}
    (hfilled : ∀ e ∈ more, e.Filled) (hends : Ends kinds)
    (h : tokens.map Token.kind = (more.flatMap fun e => .comma :: e.kinds) ++ kinds) :
    ∃ read rest, moreEndpoints stop done tokens = (.ok (done.reverse ++ read), rest)
      ∧ read.map Endpoint.unplaced = more.map Endpoint.unplaced ∧ rest.map Token.kind = kinds := by
  induction more generalizing tokens done with
  | nil =>
    refine ⟨[], tokens, ?_, rfl, h⟩
    have hkinds : tokens.map Token.kind = kinds := h
    rw [← hkinds] at hends
    rw [moreEndpoints_end hends, List.append_nil]
  | cons e more ih =>
    have hkinds : tokens.map Token.kind
        = .comma :: (e.kinds ++ ((more.flatMap fun e => .comma :: e.kinds) ++ kinds)) := by
      rw [h]
      simp
    obtain ⟨comma, after, rfl, hafter⟩ := exists_cons_of_kinds hkinds
    obtain ⟨e', after', hread, hsame, hafter'⟩ :=
      @endpoint_complete stop after e _ (hfilled e List.mem_cons_self) hafter
    obtain ⟨read, rest, hmore, hsames, hrest⟩ :=
      @ih after' (e' :: done) (fun u hu => hfilled u (List.mem_cons_of_mem _ hu)) hafter'
    refine ⟨e' :: read, rest, ?_, ?_, hrest⟩
    · rw [moreEndpoints_comma hread, hmore]
      simp
    · rw [List.map_cons, List.map_cons, hsame, hsames]

theorem endpointList_complete {endpoints : List Endpoint} {kinds : List Token.Kind}
    (hne : endpoints ≠ []) (hfilled : ∀ e ∈ endpoints, e.Filled) (hends : Ends kinds)
    (h : tokens.map Token.kind = separated Endpoint.kinds endpoints ++ kinds) :
    ∃ read rest, endpointList stop tokens = (.ok read, rest)
      ∧ read.map Endpoint.unplaced = endpoints.map Endpoint.unplaced
      ∧ rest.map Token.kind = kinds := by
  cases endpoints with
  | nil => exact absurd rfl hne
  | cons e more =>
    rw [separated, List.append_assoc] at h
    obtain ⟨e', after, hread, hsame, hafter⟩ :=
      @endpoint_complete stop tokens e _ (hfilled e List.mem_cons_self) h
    obtain ⟨read, rest, hmore, hsames, hrest⟩ := @moreEndpoints_complete stop after more [e'] kinds
      (fun u hu => hfilled u (List.mem_cons_of_mem _ hu)) hends hafter
    refine ⟨e' :: read, rest, ?_, ?_, hrest⟩
    · rw [endpointList, hread]
      exact hmore
    · rw [List.map_cons, List.map_cons, hsame, hsames]

/-! ## §3. Items. -/

/-- **What an item takes is a spelling of it.** -/
theorem item_sound {i : Item} (h : item stop tokens = (.ok i, rest)) :
    ∃ kinds, i.Spells kinds ∧ tokens.map Token.kind = kinds ++ rest.map Token.kind := by
  unfold item at h
  split at h
  · next first after =>
    unfold nodes at h
    split at h
    · next labels after' hread =>
      cases h
      obtain ⟨hne, hkinds⟩ := labelList_sound hread
      refine ⟨_, .nodes hne, ?_⟩
      simp [hkinds]
    · cases h
  · next kind first after =>
    unfold relation at h
    split at h
    · next _ after' =>
      split at h
      · next endpoints last after'' hread =>
        split at h
        · cases h
        · next hshape =>
          cases h
          obtain ⟨hne, hfilled, hkinds⟩ := endpointList_sound hread
          refine ⟨_, spells_relation_iff.2 ⟨hshape, hne, hfilled, rfl⟩, ?_⟩
          simp [hkinds]
      · cases h
      · cases h
    · cases h
  · cases h
  · cases h

/-- **In front of a spelling of it, an item is read**, up to places. -/
theorem item_complete {i : Item} {kinds more : List Token.Kind} (hspells : i.Spells kinds)
    (hends : Ends more) (h : tokens.map Token.kind = kinds ++ more) :
    ∃ read rest, item stop tokens = (.ok read, rest)
      ∧ read.unplaced = i.unplaced ∧ rest.map Token.kind = more := by
  cases i with
  | nodes labels span =>
    cases hspells with
    | nodes hne =>
      obtain ⟨first, after, rfl, hafter⟩ := exists_cons_of_kinds h
      obtain ⟨read, rest, hread, hsame, hrest⟩ := @labelList_complete stop after _ _ hne hends hafter
      refine ⟨.nodes read (first.upTo ((read.getLast?.map Label.span).getD first)), rest, ?_, ?_,
        hrest⟩
      · rw [item, nodes, hread]
      · exact congrArg (Item.nodes · default) hsame
  | relation kind endpoints span =>
    obtain ⟨-, hne, hfilled, rfl⟩ := (@spells_relation_iff kind endpoints span span kinds).1 hspells
    obtain ⟨first, after, rfl, hafter⟩ := exists_cons_of_kinds h
    obtain ⟨paren, after, rfl, hinside⟩ := exists_cons_of_kinds hafter
    have hlist : after.map Token.kind
        = separated Endpoint.kinds endpoints ++ .closeParen :: more := by
      rw [hinside]
      simp
    obtain ⟨read, behind, hread, hsame, hbehind⟩ :=
      @endpointList_complete stop after _ _ hne hfilled (by simp [Ends]) hlist
    obtain ⟨last, rest, rfl, hrest⟩ := exists_cons_of_kinds hbehind
    have hplaced : (Item.relation kind read (first.upTo last)).unplaced
        = (Item.relation kind endpoints span).unplaced := congrArg (Item.relation kind · default) hsame
    have hshape := ((@spells_relation_iff kind read _ (first.upTo last) _).1
      (hspells.of_unplaced hplaced)).1
    refine ⟨.relation kind read (first.upTo last), rest, ?_, hplaced, hrest⟩
    rw [item, relation, hread]
    simp only [hshape]

/-! ## §4. Descriptions. -/

/-- Semicolons in front are skipped, and nothing else. -/
theorem skipSemicolons_kinds (tokens : List Token) : ∃ semicolons, tokens.map Token.kind
    = List.replicate semicolons .semicolon ++ (skipSemicolons tokens).map Token.kind := by
  unfold skipSemicolons
  induction tokens with
  | nil => exact ⟨0, rfl⟩
  | cons t rest ih =>
    rw [List.dropWhile_cons]
    split
    · next hsemicolon =>
      obtain ⟨semicolons, hrest⟩ := ih
      refine ⟨semicolons + 1, ?_⟩
      rw [List.map_cons, hrest, beq_iff_eq.1 hsemicolon]
      rfl
    · exact ⟨0, rfl⟩

/-- All semicolons are skipped. -/
theorem kinds_skipSemicolons {semicolons : Nat} {kinds : List Token.Kind}
    (hends : kinds.head? ≠ some .semicolon)
    (h : tokens.map Token.kind = List.replicate semicolons .semicolon ++ kinds) :
    (skipSemicolons tokens).map Token.kind = kinds := by
  unfold skipSemicolons
  induction semicolons generalizing tokens with
  | zero =>
    have hkinds : tokens.map Token.kind = kinds := h
    cases tokens with
    | nil => exact hkinds
    | cons t rest =>
      rw [← hkinds] at hends
      have hno : ¬ (t.kind == .semicolon) = true := fun heq => hends (by simp [beq_iff_eq.1 heq])
      rw [List.dropWhile_cons, if_neg hno]
      exact hkinds
  | succ semicolons ih =>
    obtain ⟨span, rest, rfl, hrest⟩ := exists_cons_of_kinds h
    show ((rest.dropWhile fun t => t.kind == .semicolon).map Token.kind) = kinds
    exact ih hrest

/-- An item begins with a keyword. -/
theorem Item.Spells.head {i : Item} {kinds : List Token.Kind} (h : i.Spells kinds) :
    ∃ first more, kinds = first :: more ∧ (first = .node ∨ ∃ kind, first = .relation kind) := by
  cases h with
  | nodes => exact ⟨_, _, rfl, .inl rfl⟩
  | _ => exact ⟨_, _, rfl, .inr ⟨_, rfl⟩⟩

/-- So a comma or a semicolon in front of items belongs to what comes before them. -/
theorem Spells.head {items : List Item} {kinds : List Token.Kind} (h : Spells items kinds) :
    kinds.head? ≠ some .comma ∧ kinds.head? ≠ some .semicolon := by
  cases h with
  | nil => exact ⟨nofun, nofun⟩
  | cons semicolons hitem hitems =>
    obtain ⟨first, more, rfl, rfl | ⟨kind, rfl⟩⟩ := hitem.head
    · exact ⟨nofun, nofun⟩
    · exact ⟨nofun, nofun⟩

theorem itemsFrom_step {done : List Item} {t : Token} :
    itemsFrom stop done (t :: tokens) =
      match item stop (t :: tokens) with
      | (.ok i, rest) => itemsFrom stop (i :: done) (skipSemicolons rest)
      | (.error fault, rest) => (.error fault, rest) := by
  rw [itemsFrom]
  split
  all_goals
    next h => simp only [h]

theorem itemsFrom_cons {done : List Item} {t : Token} {i : Item}
    (h : item stop (t :: tokens) = (.ok i, rest)) :
    itemsFrom stop done (t :: tokens) = itemsFrom stop (i :: done) (skipSemicolons rest) := by
  rw [itemsFrom_step, h]

theorem itemsFrom_error {done : List Item} {t : Token} {fault : Fault}
    (h : item stop (t :: tokens) = (.error fault, rest)) :
    itemsFrom stop done (t :: tokens) = (.error fault, rest) := by
  rw [itemsFrom_step, h]

/-- **What is read is spelled by all tokens.** -/
theorem itemsFrom_sound {done items : List Item}
    (h : itemsFrom stop done tokens = (.ok items, rest)) :
    ∃ more, items = done.reverse ++ more ∧ Spells more (tokens.map Token.kind) := by
  fun_induction itemsFrom stop done tokens with
  | case1 done =>
    cases h
    exact ⟨[], by simp, .nil⟩
  | case2 done t tokens i after hread _ ih =>
    obtain ⟨more, rfl, hmore⟩ := ih h
    obtain ⟨kinds, hitem, hkinds⟩ := item_sound hread
    obtain ⟨semicolons, hafter⟩ := skipSemicolons_kinds after
    refine ⟨i :: more, by simp, ?_⟩
    rw [hkinds, hafter, ← List.append_assoc]
    exact .cons semicolons hitem hmore
  | case3 done t tokens fault after hread => cases h

/-- **What is spelled is read**, up to places. -/
theorem itemsFrom_complete {items done : List Item} {kinds : List Token.Kind}
    (hspells : Spells items kinds) (h : tokens.map Token.kind = kinds) :
    ∃ read, itemsFrom stop done tokens = (.ok (done.reverse ++ read), [])
      ∧ read.map Item.unplaced = items.map Item.unplaced := by
  induction hspells generalizing tokens done with
  | nil =>
    cases List.map_eq_nil_iff.1 h
    refine ⟨[], ?_, rfl⟩
    rw [itemsFrom, List.append_nil]
  | @cons i items kinds more semicolons hitem hitems ih =>
    obtain ⟨hcomma, hsemicolon⟩ := hitems.head
    have hends : Ends (List.replicate semicolons .semicolon ++ more) := by
      cases semicolons with
      | zero => exact hcomma
      | succ n => simp [Ends, List.replicate_succ]
    rw [List.append_assoc] at h
    obtain ⟨i', after, hread, hsame, hafter⟩ := @item_complete stop tokens i _ _ hitem hends h
    obtain ⟨read, hitems', hsames⟩ := @ih (skipSemicolons after) (i' :: done)
      (kinds_skipSemicolons hsemicolon hafter)
    obtain ⟨first, _, rfl, -⟩ := hitem.head
    obtain ⟨span, tokens, rfl, -⟩ := exists_cons_of_kinds h
    refine ⟨i' :: read, ?_, ?_⟩
    · rw [itemsFrom_cons hread, hitems']
      simp
    · rw [List.map_cons, List.map_cons, hsame, hsames]

/-- Places do not matter for the spellings of items. -/
theorem Spells.of_unplaced {items others : List Item} {kinds : List Token.Kind}
    (h : items.map Item.unplaced = others.map Item.unplaced) (hothers : Spells others kinds) :
    Spells items kinds := by
  induction hothers generalizing items with
  | nil =>
    cases List.map_eq_nil_iff.1 h
    exact .nil
  | cons semicolons hitem _ ih =>
    obtain ⟨i, rest, rfl, hi, hrest⟩ := List.map_eq_cons_iff.1 h
    exact .cons semicolons (hitem.of_unplaced hi) (ih hrest)

/-- A text is read as its tokens are. -/
theorem ofText_eq_ofTokens {text : String} {stream : TokenStream}
    (h : tokenize text = .ok stream) : ofText text = (ofTokens stream).1 := by
  show (do (ofTokens (← tokenize text)).1) = _
  rw [h]
  rfl

/-- A description is read from the spellings of its items. -/
theorem ofTokens_of_spells {stream : TokenStream} {items : List Item}
    (h : Spells items (stream.tokens.map Token.kind)) :
    ∃ d, (ofTokens stream).1 = .ok d
      ∧ d.items.map Item.unplaced = items.map Item.unplaced := by
  obtain ⟨read, hread, hsame⟩ := @itemsFrom_complete stream.stop stream.tokens items [] _ h rfl
  refine ⟨⟨read⟩, ?_, hsame⟩
  show (itemsFrom stream.stop [] stream.tokens).1.map Description.mk = _
  rw [hread]
  rfl

/-- A description is what its items are read as. -/
theorem itemsFrom_of_ofTokens {stream : TokenStream} {d : Description}
    (h : (ofTokens stream).1 = .ok d) :
    ∃ rest, itemsFrom stream.stop [] stream.tokens = (.ok d.items, rest) := by
  have hread : (itemsFrom stream.stop [] stream.tokens).1.map Description.mk = .ok d := h
  rcases hresult : itemsFrom stream.stop [] stream.tokens with ⟨fault | items, rest⟩
  all_goals
    rw [hresult] at hread
    cases hread
  exact ⟨rest, rfl⟩

/-- It is refused for what its items are refused for. -/
theorem itemsFrom_of_refused {stream : TokenStream} {fault : Fault}
    (h : (ofTokens stream).1 = .error fault) :
    ∃ rest, itemsFrom stream.stop [] stream.tokens = (.error fault, rest) := by
  have hread : (itemsFrom stream.stop [] stream.tokens).1.map Description.mk = .error fault := h
  rcases hresult : itemsFrom stream.stop [] stream.tokens with ⟨fault | items, rest⟩
  all_goals
    rw [hresult] at hread
    cases hread
  exact ⟨rest, rfl⟩

theorem spells_of_ofTokens {stream : TokenStream} {d : Description}
    (h : (ofTokens stream).1 = .ok d) : Spells d.items (stream.tokens.map Token.kind) := by
  obtain ⟨rest, hread⟩ := itemsFrom_of_ofTokens h
  obtain ⟨more, hmore, hspells⟩ := itemsFrom_sound hread
  rw [hmore]
  exact hspells

/-- **Reading is exact.**  Tokens are read as a description, up to the places of its parts, exactly
when they spell its items; all other tokens are refused; and no tokens spell two different
descriptions. -/
theorem reading_is_exact (stream : TokenStream) :
    (∀ d : Description,
      (∃ e, (ofTokens stream).1 = .ok e ∧ e.items.map Item.unplaced = d.items.map Item.unplaced)
        ↔ Spells d.items (stream.tokens.map Token.kind))
      ∧ ((∃ fault, (ofTokens stream).1 = .error fault)
          ↔ ∀ items, ¬ Spells items (stream.tokens.map Token.kind))
      ∧ ∀ items others, Spells items (stream.tokens.map Token.kind) →
          Spells others (stream.tokens.map Token.kind) →
          items.map Item.unplaced = others.map Item.unplaced := by
  refine ⟨fun d => ⟨fun h => ?_, ofTokens_of_spells⟩, ⟨fun h items hitems => ?_, fun h => ?_⟩, ?_⟩
  · obtain ⟨e, hread, hsame⟩ := h
    exact (spells_of_ofTokens hread).of_unplaced hsame.symm
  · -- what is spelled is read, and not refused
    obtain ⟨fault, hfault⟩ := h
    obtain ⟨e, hread, -⟩ := ofTokens_of_spells hitems
    rw [hfault] at hread
    cases hread
  · cases hread : (ofTokens stream).1 with
    | error fault => exact ⟨fault, rfl⟩
    | ok d => exact absurd (spells_of_ofTokens hread) (h d.items)
  · intro items others hitems hothers
    -- both are what the one reading gives
    obtain ⟨e, hread, hsame⟩ := ofTokens_of_spells hitems
    obtain ⟨e', hread', hsame'⟩ := ofTokens_of_spells hothers
    rw [hread] at hread'
    cases hread'
    exact hsame.symm.trans hsame'

/-- `node A, B;; bounds(A, {B})` -/
def ring : TokenStream where
  tokens := [.node, .label "A", .comma, .label "B", .semicolon, .semicolon, .relation .bounds,
    .openParen, .label "A", .comma, .openBrace, .label "B", .closeBrace, .closeParen].map (⟨·, default⟩)
  stop := default

/-- `node A,` -/
def unfinished : TokenStream where
  tokens := [.node, .label "A", .comma].map (⟨·, default⟩)
  stop := default

theorem ring_reading :
    (∃ e, (ofTokens ring).1 = .ok e ∧ e.items.map Item.unplaced
        = [.nodes [⟨"A", default⟩, ⟨"B", default⟩] default,
          .relation .bounds [.single ⟨"A", default⟩, .set [⟨"B", default⟩] default] default])
      ∧ (∀ items others, Spells items (ring.tokens.map Token.kind) →
          Spells others (ring.tokens.map Token.kind) →
          items.map Item.unplaced = others.map Item.unplaced)
      ∧ ∀ items, ¬ Spells items (unfinished.tokens.map Token.kind) := by
  have hspells : Spells [.nodes [⟨"A", default⟩, ⟨"B", default⟩] default,
      .relation .bounds [.single ⟨"A", default⟩, .set [⟨"B", default⟩] default] default]
      (ring.tokens.map Token.kind) :=
    .cons 2 (.nodes (by simp)) (.cons 0 (.boundsSet (by simp)) .nil)
  have hitem : item unfinished.stop unfinished.tokens
      = (.error ⟨.unexpectedEnd .label, default⟩, []) := rfl
  have hrefused : ∃ fault, (ofTokens unfinished).1 = .error fault :=
    ⟨_, congrArg (fun reading => reading.1.map Description.mk) (itemsFrom_error hitem)⟩
  obtain ⟨hread, -, hunique⟩ := reading_is_exact ring
  exact ⟨(hread ⟨_⟩).2 hspells, hunique, (reading_is_exact unfinished).2.1.1 hrefused⟩

end Admissibility.Description
