/-
  Admissibility.Proofs.Description.Viability
  ──────────────────────────────────────────
  **A syntactic fault stands at the first impossible token.**

  The form of a relation is checked behind its closing parenthesis, so a reader goes on as long as
  the tokens can be completed to items, the form of the last one aside: such an item is drafted.
  Where a reader stops with a syntactic fault, what it has taken begins a drafted item; and since it
  looks one token ahead, it stops there whatever else comes behind the token that it refuses.

  `itemsFrom_drafted`: items with a drafted one behind them are refused for its form at most.
  `itemsFrom_breaks`: where a reader stops, a drafted item can be completed.
  `fault_is_first_impossible`: the token that a syntactic fault blames.
-/
import Mathlib.Data.List.Induction
import Admissibility.Proofs.Description.Lookahead
import Admissibility.Proofs.Description.Standing
import Admissibility.Proofs.Description.Unplaced

namespace Admissibility.Description

open Admissibility.Text (Span)

variable {stop : Span} {tokens rest : List Token} {f : Fault} {α : Type}

/-! ## §1. Drafted items. -/

/-- The spelling of an item whose form is left open: a relation of any kind has endpoints in any
number, and sets anywhere among them. -/
inductive Drafts : List Token.Kind → Prop
  | nodes {labels : List Label} : labels ≠ [] → Drafts (.node :: separated Label.kinds labels)
  | relation {kind : Relation.Kind} {endpoints : List Endpoint} : endpoints ≠ [] →
      (∀ e ∈ endpoints, e.Filled) →
      Drafts (.relation kind :: .openParen :: (separated Endpoint.kinds endpoints ++ [.closeParen]))

/-- The form of a relation is no matter of syntax. -/
theorem gate_of_shapeFault? {kind : Relation.Kind} {endpoints : List Endpoint} {span : Span}
    (h : shapeFault? kind endpoints span = some f) : f.diagnostic.gate = .grammatical := by
  unfold shapeFault? at h
  split at h
  · obtain ⟨⟨e, i⟩, -, he⟩ := List.exists_of_findSome?_eq_some h
    cases e with
    | single l => cases he
    | set labels inner =>
      simp only at he
      split at he
      · cases he
      · cases he
        rfl
  · cases h
    rfl

/-- **A drafted item** is read to its end or refused for its form. -/
theorem item_drafted {kinds : List Token.Kind} (h : Drafts kinds)
    (htokens : tokens.map Token.kind = kinds) :
    (∃ i, item stop tokens = (.ok i, []))
      ∨ ∃ f rest, item stop tokens = (.error f, rest) ∧ f.diagnostic.gate = .grammatical := by
  cases h with
  | nodes hne =>
    obtain ⟨first, after, rfl, hafter⟩ := exists_cons_of_kinds htokens
    rw [← List.append_nil (separated _ _)] at hafter
    obtain ⟨labels, rest, hread, -, hrest⟩ :=
      @labelList_complete stop after _ _ hne (by simp [Ends]) hafter
    cases List.map_eq_nil_iff.1 hrest
    refine .inl ⟨.nodes labels (first.upTo ((labels.getLast?.map Label.span).getD first)), ?_⟩
    rw [item, nodes, hread]
  | @relation kind _ hne hfilled =>
    obtain ⟨first, after, rfl, hafter⟩ := exists_cons_of_kinds htokens
    obtain ⟨paren, after, rfl, hinside⟩ := exists_cons_of_kinds hafter
    obtain ⟨endpoints, behind, hread, -, hbehind⟩ :=
      @endpointList_complete stop after _ _ hne hfilled (by simp [Ends]) hinside
    obtain ⟨last, rest, rfl, hrest⟩ := exists_cons_of_kinds hbehind
    cases List.map_eq_nil_iff.1 hrest
    have hwhole : item stop (⟨.relation kind, first⟩ :: ⟨.openParen, paren⟩ :: after)
        = (formed kind first endpoints last, []) := by
      rw [item, relation_paren, closing, hread]
      rfl
    cases hshape : shapeFault? kind endpoints (first.upTo last) with
    | none =>
      refine .inl ⟨.relation kind endpoints (first.upTo last), hwhole.trans ?_⟩
      simp only [formed, hshape]
    | some f =>
      refine .inr ⟨f, [], hwhole.trans ?_, gate_of_shapeFault? hshape⟩
      simp only [formed, hshape]

theorem Drafts.head {kinds : List Token.Kind} (h : Drafts kinds) :
    ∃ first more, kinds = first :: more ∧ first ≠ .comma ∧ first ≠ .semicolon := by
  cases h with
  | nodes => exact ⟨_, _, rfl, nofun, nofun⟩
  | relation => exact ⟨_, _, rfl, nofun, nofun⟩

/-- Neither a comma nor a semicolon stands in front of items with a drafted one behind them. -/
theorem Spells.head_append {items : List Item} {spelled draft : List Token.Kind}
    (h : Spells items spelled) (hdraft : Drafts draft) :
    (spelled ++ draft).head? ≠ some .comma ∧ (spelled ++ draft).head? ≠ some .semicolon := by
  cases hspelled : spelled with
  | nil =>
    obtain ⟨first, more, rfl, hcomma, hsemicolon⟩ := hdraft.head
    exact ⟨fun heq => hcomma (Option.some.inj heq), fun heq => hsemicolon (Option.some.inj heq)⟩
  | cons kind kinds =>
    rw [hspelled] at h
    exact h.head

/-- **Items with a drafted one behind them** are refused for its form at most. -/
theorem itemsFrom_drafted {items done : List Item} {spelled draft : List Token.Kind}
    (hspells : Spells items spelled) (hdraft : Drafts draft)
    (htokens : tokens.map Token.kind = spelled ++ draft)
    (h : itemsFrom stop done tokens = (.error f, rest)) : f.diagnostic.gate = .grammatical := by
  induction hspells generalizing tokens done with
  | nil =>
    obtain ⟨first, more, hkinds, -⟩ := hdraft.head
    obtain ⟨span, after, rfl, -⟩ := exists_cons_of_kinds (htokens.trans hkinds)
    rcases @item_drafted stop _ _ hdraft htokens with ⟨i, hread⟩ | ⟨g, left, hread, hgate⟩
    · rw [itemsFrom_cons hread, skipSemicolons, List.dropWhile_nil, itemsFrom] at h
      cases h
    · rw [itemsFrom_error hread] at h
      cases h
      exact hgate
  | @cons i items kinds more semicolons hitem hitems ih =>
    obtain ⟨hcomma, hsemicolon⟩ := hitems.head_append hdraft
    have hends : Ends (List.replicate semicolons .semicolon ++ (more ++ draft)) := by
      cases semicolons with
      | zero => exact hcomma
      | succ n => simp [Ends, List.replicate_succ]
    rw [List.append_assoc, List.append_assoc] at htokens
    obtain ⟨i', after, hread, -, hafter⟩ := @item_complete stop tokens i _ _ hitem hends htokens
    obtain ⟨first, _, rfl, -⟩ := hitem.head
    obtain ⟨span, tokens, rfl, -⟩ := exists_cons_of_kinds htokens
    rw [itemsFrom_cons hread] at h
    exact ih (kinds_skipSemicolons hsemicolon hafter) h

/-! ## §2. Where a reader stops. -/

/-- Some kinds spell one of the good things. -/
def Spelled (Good : α → Prop) (spelling : α → List Token.Kind) (kinds : List Token.Kind) : Prop :=
  ∃ a, Good a ∧ kinds = spelling a

/-- A reader stops with a fault at the next token, and the tokens that it has taken can be completed
to something whole. -/
def Breaks (Whole : List Token.Kind → Prop) (stop : Span) (tokens rest : List Token) (f : Fault) :
    Prop :=
  ∃ mine expected more, tokens = mine ++ rest ∧ f = unexpected stop expected rest
    ∧ Whole (mine.map Token.kind ++ more)

variable {Whole Greater : List Token.Kind → Prop}

/-- A token is refused where others would complete what is taken. -/
theorem refuse_breaks {expected : Expected} (before : List Token) (missing : List Token.Kind)
    (hwhole : Whole (before.map Token.kind ++ missing))
    (h : (refuse stop expected tokens : Reading α) = (.error f, rest)) :
    Breaks Whole stop (before ++ tokens) rest f := by
  cases h
  exact ⟨before, expected, missing, rfl, rfl, hwhole⟩

/-- What is whole behind some tokens is part of something greater. -/
theorem Breaks.extend (before : List Token) (more : List Token.Kind)
    (h : Breaks Whole stop tokens rest f)
    (hgreater : ∀ kinds, Whole kinds → Greater (before.map Token.kind ++ (kinds ++ more))) :
    Breaks Greater stop (before ++ tokens) rest f := by
  obtain ⟨mine, expected, more', rfl, rfl, hwhole⟩ := h
  refine ⟨before ++ mine, expected, more' ++ more, by simp, rfl, ?_⟩
  rw [List.map_append, List.append_assoc, ← List.append_assoc (mine.map _)]
  exact hgreater _ hwhole

/-- A label, where one is missing. -/
def someLabel : Label := ⟨"A", default⟩

theorem moreLabels_breaks {done : List Label}
    (h : moreLabels stop done tokens = (.error f, rest)) :
    Breaks (Spelled (fun _ => True) fun labels : List Label =>
      labels.flatMap fun l => .comma :: l.kinds) stop tokens rest f := by
  fun_induction moreLabels stop done tokens with
  | case1 done comma name span after ih =>
    refine (ih h).extend [⟨.comma, comma⟩, ⟨.label name, span⟩] [] ?_
    rintro _ ⟨labels, -, rfl⟩
    exact ⟨⟨name, span⟩ :: labels, trivial, by simp [Label.kinds]⟩
  | case2 done comma after _ =>
    exact refuse_breaks [⟨.comma, comma⟩] someLabel.kinds ⟨[someLabel], trivial, rfl⟩ h
  | case3 done after _ _ => cases h

theorem labelList_breaks (h : labelList stop tokens = (.error f, rest)) :
    Breaks (Spelled (· ≠ []) (separated Label.kinds)) stop tokens rest f := by
  unfold labelList at h
  split at h
  · next name span after =>
    refine (moreLabels_breaks h).extend [⟨.label name, span⟩] [] ?_
    rintro _ ⟨labels, -, rfl⟩
    exact ⟨⟨name, span⟩ :: labels, List.cons_ne_nil _ _, by simp [separated, Label.kinds]⟩
  · exact refuse_breaks [] someLabel.kinds ⟨[someLabel], List.cons_ne_nil _ _, rfl⟩ h

/-- What a list of labels was read from. -/
theorem labelList_split {labels : List Label} (h : labelList stop tokens = (.ok labels, rest)) :
    labels ≠ [] ∧ ∃ mine, tokens = mine ++ rest
      ∧ mine.map Token.kind = separated Label.kinds labels := by
  obtain ⟨hne, hkinds⟩ := labelList_sound h
  obtain ⟨mine, rfl, -⟩ := labelList_takes h
  rw [List.map_append] at hkinds
  exact ⟨hne, mine, rfl, List.append_cancel_right hkinds⟩

theorem endpoint_breaks (h : endpoint stop tokens = (.error f, rest))
    (hgate : f.diagnostic.gate = .syntactic) :
    Breaks (Spelled Endpoint.Filled Endpoint.kinds) stop tokens rest f := by
  unfold endpoint at h
  split at h
  · -- empty braces are no matter of syntax
    cases h
    cases hgate
  · next first after _ =>
    split at h
    · cases h
    · next labels after' _ hread =>
      obtain ⟨hne, mine, rfl, hkinds⟩ := labelList_split hread
      refine refuse_breaks (⟨.openBrace, first⟩ :: mine) [.closeBrace] ?_ h
      exact ⟨.set labels default, hne, by rw [List.map_cons, hkinds]; rfl⟩
    · next hread =>
      cases h
      refine (labelList_breaks hread).extend [⟨.openBrace, first⟩] [.closeBrace] ?_
      rintro _ ⟨labels, hne, rfl⟩
      exact ⟨.set labels default, hne, rfl⟩
  · cases h
  · exact refuse_breaks [] someLabel.kinds ⟨.single someLabel, List.cons_ne_nil _ _, rfl⟩ h

theorem moreEndpoints_breaks {done : List Endpoint}
    (h : moreEndpoints stop done tokens = (.error f, rest))
    (hgate : f.diagnostic.gate = .syntactic) :
    Breaks (Spelled (fun endpoints => ∀ e ∈ endpoints, e.Filled) fun endpoints : List Endpoint =>
      endpoints.flatMap fun e => .comma :: e.kinds) stop tokens rest f := by
  fun_induction moreEndpoints stop done tokens with
  | case1 done comma after e after' hread _ ih =>
    obtain ⟨hfilled, -⟩ := endpoint_sound hread
    obtain ⟨mine, rfl, hat⟩ := endpoint_at hread
    refine (ih h).extend (⟨.comma, comma⟩ :: mine) [] ?_
    rintro _ ⟨endpoints, hall, rfl⟩
    exact ⟨e :: endpoints, List.forall_mem_cons.2 ⟨hfilled, hall⟩, by simp [hat.kinds]⟩
  | case2 done comma after fault after' hread =>
    cases h
    refine (endpoint_breaks hread hgate).extend [⟨.comma, comma⟩] [] ?_
    rintro _ ⟨e, hfilled, rfl⟩
    exact ⟨[e], by simpa using hfilled, by simp⟩
  | case3 done after _ => cases h

/-- Endpoints, one at least, each of which names a label. -/
def AllFilled (endpoints : List Endpoint) : Prop := endpoints ≠ [] ∧ ∀ e ∈ endpoints, e.Filled

theorem endpointList_breaks (h : endpointList stop tokens = (.error f, rest))
    (hgate : f.diagnostic.gate = .syntactic) :
    Breaks (Spelled AllFilled (separated Endpoint.kinds)) stop tokens rest f := by
  unfold endpointList at h
  split at h
  · next e after hread =>
    obtain ⟨hfilled, -⟩ := endpoint_sound hread
    obtain ⟨mine, rfl, hat⟩ := endpoint_at hread
    refine (moreEndpoints_breaks h hgate).extend mine [] ?_
    rintro _ ⟨endpoints, hall, rfl⟩
    refine ⟨e :: endpoints, ⟨List.cons_ne_nil _ _, List.forall_mem_cons.2 ⟨hfilled, hall⟩⟩, ?_⟩
    simp [hat.kinds, separated]
  · next hread =>
    cases h
    refine (endpoint_breaks hread hgate).extend [] [] ?_
    rintro _ ⟨e, hfilled, rfl⟩
    exact ⟨[e], ⟨List.cons_ne_nil _ _, by simpa using hfilled⟩, by simp [separated]⟩

theorem endpointList_split {endpoints : List Endpoint}
    (h : endpointList stop tokens = (.ok endpoints, rest)) :
    AllFilled endpoints ∧ ∃ mine, tokens = mine ++ rest
      ∧ mine.map Token.kind = separated Endpoint.kinds endpoints := by
  obtain ⟨hne, hfilled, hkinds⟩ := endpointList_sound h
  obtain ⟨mine, rfl, -⟩ := endpointList_takes h
  rw [List.map_append] at hkinds
  exact ⟨⟨hne, hfilled⟩, mine, rfl, List.append_cancel_right hkinds⟩

theorem relation_breaks {kind : Relation.Kind} {first : Span}
    (h : relation stop kind first tokens = (.error f, rest))
    (hgate : f.diagnostic.gate = .syntactic) :
    Breaks Drafts stop (⟨.relation kind, first⟩ :: tokens) rest f := by
  unfold relation at h
  split at h
  · next paren after =>
    split at h
    · next endpoints last _ hread =>
      split at h
      · next hshape =>
        cases h
        rw [gate_of_shapeFault? hshape] at hgate
        cases hgate
      · cases h
    · next endpoints after' _ hread =>
      obtain ⟨⟨hne, hfilled⟩, mine, rfl, hkinds⟩ := endpointList_split hread
      refine refuse_breaks (⟨.relation kind, first⟩ :: ⟨.openParen, paren⟩ :: mine) [.closeParen] ?_ h
      rw [List.map_cons, List.map_cons, hkinds]
      exact .relation hne hfilled
    · next hread =>
      cases h
      refine (endpointList_breaks hread hgate).extend
        [⟨.relation kind, first⟩, ⟨.openParen, paren⟩] [.closeParen] ?_
      rintro _ ⟨endpoints, ⟨hne, hfilled⟩, rfl⟩
      exact .relation hne hfilled
  · have hdrafts : Drafts [.relation kind, .openParen, .label someLabel.name, .closeParen] :=
      @Drafts.relation kind [.single someLabel] (List.cons_ne_nil _ _)
        (by simp [Endpoint.Filled, Endpoint.labels])
    exact refuse_breaks [⟨.relation kind, first⟩]
      [.openParen, .label someLabel.name, .closeParen] hdrafts h

/-- **An item** that breaks off can be completed to a drafted one. -/
theorem item_breaks (h : item stop tokens = (.error f, rest))
    (hgate : f.diagnostic.gate = .syntactic) : Breaks Drafts stop tokens rest f := by
  unfold item at h
  split at h
  · next first after =>
    unfold nodes at h
    split at h
    · cases h
    · next hread =>
      cases h
      refine (labelList_breaks hread).extend [⟨.node, first⟩] [] ?_
      rintro _ ⟨labels, hne, rfl⟩
      rw [List.append_nil]
      exact .nodes hne
  · exact relation_breaks h hgate
  · cases h
    cases hgate
  · have hdrafts : Drafts [.node, .label someLabel.name] :=
      @Drafts.nodes [someLabel] (List.cons_ne_nil _ _)
    exact refuse_breaks [] [.node, .label someLabel.name] hdrafts h

/-- Items in any number, and a drafted one behind them. -/
def DraftsLast (kinds : List Token.Kind) : Prop :=
  ∃ items spelled draft, Spells items spelled ∧ Drafts draft ∧ kinds = spelled ++ draft

/-- **Items to the end** that break off can be completed with a drafted one as the last. -/
theorem itemsFrom_breaks {done : List Item} (h : itemsFrom stop done tokens = (.error f, rest))
    (hgate : f.diagnostic.gate = .syntactic) : Breaks DraftsLast stop tokens rest f := by
  fun_induction itemsFrom stop done tokens with
  | case1 done => cases h
  | case2 done t tokens i after hread _ ih =>
    obtain ⟨mine, hsplit, hat⟩ := item_at hread
    obtain ⟨count, hkinds⟩ := skipSemicolons_kinds after
    obtain ⟨semicolons, hafter⟩ := skipSemicolons_suffix after
    rw [← hafter, List.map_append, hafter] at hkinds
    have hsemicolons := List.append_cancel_right hkinds
    rw [hsplit, ← hafter, ← List.append_assoc]
    refine (ih h).extend (mine ++ semicolons) [] ?_
    rintro _ ⟨items, spelled, draft, hspells, hdraft, rfl⟩
    refine ⟨i :: items, _, draft, .cons count hat.spells hspells, hdraft, ?_⟩
    simp [hsemicolons]
  | case3 done t tokens fault after hread =>
    cases h
    refine (item_breaks hread hgate).extend [] [] ?_
    intro kinds hdrafts
    exact ⟨[], [], kinds, .nil, hdrafts, by simp⟩

/-! ## §3. The first impossible token. -/

/-- The mark at which a reader stands, and what it would blame there. -/
theorem exists_mark (stop : Span) (mine rest : List Token) :
    ∃ mark after, TokenStream.marks ⟨mine ++ rest, stop⟩ = mine.map Token.mark ++ mark :: after
      ∧ mark.1 = (rest.map Token.kind).head?
      ∧ ∀ expected, (unexpected stop expected rest).span = mark.2 := by
  cases rest with
  | nil => exact ⟨(none, stop), [], by simp [TokenStream.marks], rfl, fun _ => rfl⟩
  | cons t rest => exact ⟨t.mark, _, by simp [TokenStream.marks]; rfl, rfl, fun _ => rfl⟩

/-- What was refused is refused whatever stands behind the token at which reading stopped. -/
theorem refused_of_prefix {other : TokenStream} {mine : List Token}
    (htakes : Takes (itemsFrom · []) mine (.error f) rest)
    (hbegins : (mine.map Token.mark).map Prod.fst ++ [(rest.map Token.kind).head?]
      <+: other.marks.map Prod.fst) : ∃ g, (ofTokens other).1 = .error g := by
  rw [TokenStream.marks, List.map_append, map_fst_mark, map_fst_mark] at hbegins
  obtain ⟨more, hkinds, hnext⟩ := split_of_prefix hbegins
  obtain ⟨front, behind, -, -, rfl⟩ := List.map_eq_append_iff.1 hkinds
  obtain ⟨g, hread⟩ := htakes.error other.stop (show Alike rest behind from hnext.symm)
  have hrefused : (ofTokens ⟨mine ++ behind, other.stop⟩).1 = .error g := by
    show (itemsFrom other.stop [] (mine ++ behind)).1.map Description.mk = _
    rw [hread]
    rfl
  -- the tokens of the other stream have the same kinds
  have hsame : outcome (ofTokens other).1 = outcome (ofTokens ⟨mine ++ behind, other.stop⟩).1 :=
    outcome_eq_of_kinds (by rw [hkinds, List.map_append])
  rw [hrefused] at hsame
  cases hread : (ofTokens other).1 with
  | error g => exact ⟨g, rfl⟩
  | ok d =>
    rw [hread] at hsame
    cases hsame

/-- What begins items with a drafted one behind them is completed to tokens that are refused for
what they say at most. -/
theorem exists_completed {mine : List Token} {more : List Token.Kind} (stop : Span)
    (h : DraftsLast (mine.map Token.kind ++ more)) :
    ∃ other : TokenStream, mine.map Token.mark <+: other.marks
      ∧ ∀ g, (ofTokens other).1 = .error g → g.diagnostic.gate = .grammatical := by
  obtain ⟨items, spelled, draft, hspells, hdraft, hkinds⟩ := h
  refine ⟨⟨mine ++ more.map (⟨·, default⟩), stop⟩, ?_, fun g hg => ?_⟩
  · rw [TokenStream.marks, List.map_append, List.append_assoc]
    exact List.prefix_append _ _
  · obtain ⟨left, hrefused⟩ := itemsFrom_of_refused hg
    refine itemsFrom_drafted hspells hdraft ?_ hrefused
    rw [← hkinds, List.map_append, List.map_map]
    exact congrArg _ (List.map_id _)

/-- **A syntactic fault stands at the first impossible token.**  It blames a token, or the end of
the text, such that nothing is read that begins with the kinds of the tokens up to it; and the tokens
in front of it can be completed to some that are read, or refused for what they say. -/
theorem fault_is_first_impossible (stream : TokenStream) (f : Fault)
    (h : (ofTokens stream).1 = .error f) (hgate : f.diagnostic.gate = .syntactic) :
    ∃ before mark after, stream.marks = before ++ mark :: after ∧ f.span = mark.2
      ∧ (∀ other : TokenStream,
          before.map Prod.fst ++ [mark.1] <+: other.marks.map Prod.fst →
          ∃ g, (ofTokens other).1 = .error g)
      ∧ ∃ other : TokenStream, before <+: other.marks
          ∧ ∀ g, (ofTokens other).1 = .error g → g.diagnostic.gate = .grammatical := by
  obtain ⟨rest, hread⟩ := itemsFrom_of_refused h
  obtain ⟨mine, htokens, htakes⟩ := itemsFrom_takes hread
  obtain ⟨mine', expected, more, htokens', rfl, hdrafts⟩ := itemsFrom_breaks hread hgate
  cases List.append_cancel_right (htokens.symm.trans htokens')
  obtain ⟨mark, after, hmarks, hkind, hspan⟩ := exists_mark stream.stop mine rest
  rw [← htokens] at hmarks
  refine ⟨mine.map Token.mark, mark, after, hmarks, hspan expected, fun other hbegins => ?_,
    exists_completed stream.stop hdrafts⟩
  rw [hkind] at hbegins
  exact refused_of_prefix htakes hbegins

/-- `bounds(A, B, C, )`, on one line with a character for each token. -/
def overlong : TokenStream where
  tokens := [.relation .bounds, .openParen, .label "A", .comma, .label "B", .comma, .label "C",
    .comma, .closeParen].zipIdx.map fun (kind, i) => ⟨kind, ⟨i, i + 1, 1, i + 1⟩⟩
  stop := ⟨9, 9, 1, 10⟩

theorem overlong_fault :
    (ofTokens overlong).1 = .error ⟨.unexpectedToken .label .closeParen, ⟨8, 9, 1, 9⟩⟩
      ∧ ∃ before mark after, overlong.marks = before ++ mark :: after
        ∧ (⟨8, 9, 1, 9⟩ : Span) = mark.2
        ∧ (∀ other : TokenStream,
            before.map Prod.fst ++ [mark.1] <+: other.marks.map Prod.fst →
            ∃ g, (ofTokens other).1 = .error g)
        ∧ ∃ other : TokenStream, before <+: other.marks
            ∧ ∀ g, (ofTokens other).1 = .error g → g.diagnostic.gate = .grammatical := by
  have hread : (ofTokens overlong).1
      = .error ⟨.unexpectedToken .label .closeParen, ⟨8, 9, 1, 9⟩⟩ := by decide +kernel
  exact ⟨hread, fault_is_first_impossible overlong _ hread rfl⟩

end Admissibility.Description
