/-
  Admissibility.Proofs.Description.Standing
  ─────────────────────────────────────────
  **Where the parts of a tree stand among its tokens.**

  A tree keeps spans only, and each of them runs over some tokens that were read: from the beginning
  of the first of them to the end of the last.  The tokens of a part stand among those of the whole,
  and those of its neighbours before or behind them.  A fault blames a stretch of tokens in the same
  way, or the end of the text.

  `endpoint_at`, `item_at`, `itemsFrom_at`: what is read stands where its tokens are.
  `item_blames`, `itemsFrom_blames`: what a fault blames.
  `at_of_ofTokens`, `blames_of_ofTokens`: whole descriptions.
-/
import Admissibility.Proofs.Description.Grammar

namespace Admissibility.Description

open Admissibility.Text (Span)

variable {stop : Span} {tokens rest mine more : List Token} {α : Type}

/-! ## §1. Stretches of tokens. -/

/-- A span runs over some tokens, from the beginning of the first to the end of the last. -/
def Runs (s : Span) (tokens : List Token) : Prop :=
  ∃ first last, tokens.head? = some first ∧ tokens.getLast? = some last
    ∧ s = first.span.upTo last.span

theorem runs_singleton (t : Token) : Runs t.span [t] := ⟨t, t, rfl, rfl, rfl⟩

theorem runs_between (first : Token) (tokens : List Token) (last : Token) :
    Runs (first.span.upTo last.span) (first :: (tokens ++ [last])) :=
  ⟨first, last, rfl, (List.getLast?_concat : (first :: tokens ++ [last]).getLast? = some last), rfl⟩

/-- Some parts stand among some tokens, one behind the other, each on tokens of its own. -/
inductive Scattered (Holds : α → List Token → Prop) : List α → List Token → Prop
  | nil : Scattered Holds [] []
  | skip {parts : List α} {tokens : List Token} (t : Token) : Scattered Holds parts tokens →
      Scattered Holds parts (t :: tokens)
  | part {a : α} {parts : List α} {mine tokens : List Token} : Holds a mine →
      Scattered Holds parts tokens → Scattered Holds (a :: parts) (mine ++ tokens)

variable {Holds : α → List Token → Prop} {parts others : List α}

theorem Scattered.append (h : Scattered Holds parts tokens) (h' : Scattered Holds others more) :
    Scattered Holds (parts ++ others) (tokens ++ more) := by
  induction h with
  | nil => exact h'
  | skip t _ ih => exact .skip t ih
  | part ha _ ih =>
    rw [List.append_assoc]
    exact .part ha ih

/-- No parts stand among any tokens. -/
theorem scattered_nil (tokens : List Token) : Scattered Holds [] tokens := by
  induction tokens with
  | nil => exact .nil
  | cons t _ ih => exact .skip t ih

theorem Scattered.snoc (h : Scattered Holds parts tokens) (t : Token) :
    Scattered Holds parts (tokens ++ [t]) := by
  rw [← List.append_nil parts]
  exact h.append (scattered_nil [t])

/-! ## §2. Trees and their tokens. -/

/-- A label stands on one token. -/
def Label.At (l : Label) (tokens : List Token) : Prop := tokens = [⟨.label l.name, l.span⟩]

theorem Scattered.label (l : Label) {labels : List Label} (h : Scattered Label.At labels tokens) :
    Scattered Label.At (l :: labels) (⟨.label l.name, l.span⟩ :: tokens) :=
  Scattered.part (show l.At [_] from rfl) h

/-- An endpoint stands on the tokens that spell it, and its labels stand among them. -/
structure Endpoint.At (e : Endpoint) (tokens : List Token) : Prop where
  kinds : tokens.map Token.kind = e.kinds
  runs : Runs e.span tokens
  labels : Scattered Label.At e.labels tokens

/-- Where an item stands. -/
def Item.span : Item → Span
  | .nodes _ span => span
  | .relation _ _ span => span

/-- The labels or endpoints of an item stand among some tokens. -/
def Item.PartsAt : Item → List Token → Prop
  | .nodes labels _ => Scattered Label.At labels
  | .relation _ endpoints _ => Scattered Endpoint.At endpoints

/-- An item stands on tokens that spell it, and its parts stand among them. -/
structure Item.At (i : Item) (tokens : List Token) : Prop where
  spells : i.Spells (tokens.map Token.kind)
  runs : Runs i.span tokens
  parts : i.PartsAt tokens

/-! ## §3. What is read. -/

/-- The last of some labels stands on the last of their tokens. -/
theorem map_span_getLast? (l : Label) {labels : List Label}
    (h : tokens.getLast?.map Token.span = labels.getLast?.map Label.span) :
    ((⟨.label l.name, l.span⟩ : Token) :: tokens).getLast?.map Token.span
      = (l :: labels).getLast?.map Label.span := by
  rw [List.getLast?_cons, List.getLast?_cons, Option.map_some, Option.map_some,
    ← Option.getD_map Token.span, ← Option.getD_map Label.span, h]

theorem moreLabels_at {done labels : List Label}
    (h : moreLabels stop done tokens = (.ok labels, rest)) :
    ∃ more mine, labels = done.reverse ++ more ∧ tokens = mine ++ rest
      ∧ Scattered Label.At more mine
      ∧ mine.getLast?.map Token.span = more.getLast?.map Label.span := by
  fun_induction moreLabels stop done tokens with
  | case1 done comma name span after ih =>
    obtain ⟨more, mine, rfl, rfl, hmore, hlast⟩ := ih h
    refine ⟨⟨name, span⟩ :: more, ⟨.comma, comma⟩ :: ⟨.label name, span⟩ :: mine, by simp, rfl,
      .skip _ (.label ⟨name, span⟩ hmore), ?_⟩
    rw [List.getLast?_cons_cons]
    exact map_span_getLast? ⟨name, span⟩ hlast
  | case2 done _ after _ => cases h
  | case3 done after _ _ =>
    cases h
    exact ⟨[], [], by simp, rfl, .nil, rfl⟩

theorem labelList_at {labels : List Label} (h : labelList stop tokens = (.ok labels, rest)) :
    ∃ mine, tokens = mine ++ rest ∧ Scattered Label.At labels mine
      ∧ mine.getLast?.map Token.span = labels.getLast?.map Label.span := by
  unfold labelList at h
  split at h
  · next name span after =>
    obtain ⟨more, mine, rfl, rfl, hmore, hlast⟩ := moreLabels_at h
    exact ⟨⟨.label name, span⟩ :: mine, rfl, .label ⟨name, span⟩ hmore,
      map_span_getLast? ⟨name, span⟩ hlast⟩
  · cases h

/-- **An endpoint** stands where its tokens are. -/
theorem endpoint_at {e : Endpoint} (h : endpoint stop tokens = (.ok e, rest)) :
    ∃ mine, tokens = mine ++ rest ∧ e.At mine := by
  obtain ⟨-, hkinds⟩ := endpoint_sound h
  suffices hparts : ∃ mine, tokens = mine ++ rest ∧ Runs e.span mine
      ∧ Scattered Label.At e.labels mine by
    obtain ⟨mine, rfl, hruns, hlabels⟩ := hparts
    rw [List.map_append] at hkinds
    exact ⟨mine, rfl, List.append_cancel_right hkinds, hruns, hlabels⟩
  unfold endpoint at h
  split at h
  · cases h
  · next first after _ =>
    split at h
    · next labels last after' hlabels =>
      cases h
      obtain ⟨inner, rfl, hinner, -⟩ := labelList_at hlabels
      have hruns := runs_between ⟨.openBrace, first⟩ inner ⟨.closeBrace, last⟩
      exact ⟨_, by simp, hruns, .skip _ (hinner.snoc _)⟩
    · cases h
    · cases h
  · next name span after =>
    cases h
    exact ⟨[⟨.label name, span⟩], rfl, runs_singleton _, .label ⟨name, span⟩ .nil⟩
  · cases h

theorem moreEndpoints_at {done endpoints : List Endpoint}
    (h : moreEndpoints stop done tokens = (.ok endpoints, rest)) :
    ∃ more mine, endpoints = done.reverse ++ more ∧ tokens = mine ++ rest
      ∧ Scattered Endpoint.At more mine := by
  fun_induction moreEndpoints stop done tokens with
  | case1 done comma after e after' hread _ ih =>
    obtain ⟨more, mine, rfl, rfl, hmore⟩ := ih h
    obtain ⟨first, rfl, he⟩ := endpoint_at hread
    exact ⟨e :: more, ⟨.comma, comma⟩ :: (first ++ mine), by simp, by simp, .skip _ (.part he hmore)⟩
  | case2 done _ after fault after' hread => cases h
  | case3 done after _ =>
    cases h
    exact ⟨[], [], by simp, rfl, .nil⟩

theorem endpointList_at {endpoints : List Endpoint}
    (h : endpointList stop tokens = (.ok endpoints, rest)) :
    ∃ mine, tokens = mine ++ rest ∧ Scattered Endpoint.At endpoints mine := by
  unfold endpointList at h
  split at h
  · next e after hread =>
    obtain ⟨more, mine, rfl, rfl, hmore⟩ := moreEndpoints_at h
    obtain ⟨first, rfl, he⟩ := endpoint_at hread
    exact ⟨first ++ mine, by simp, .part he hmore⟩
  · cases h

/-- **An item** stands where its tokens are. -/
theorem item_at {i : Item} (h : item stop tokens = (.ok i, rest)) :
    ∃ mine, tokens = mine ++ rest ∧ i.At mine := by
  obtain ⟨kinds, hspells, hkinds⟩ := item_sound h
  suffices hparts : ∃ mine, tokens = mine ++ rest ∧ Runs i.span mine ∧ i.PartsAt mine by
    obtain ⟨mine, rfl, hruns, hparts⟩ := hparts
    rw [List.map_append] at hkinds
    exact ⟨mine, rfl, List.append_cancel_right hkinds ▸ hspells, hruns, hparts⟩
  unfold item at h
  split at h
  · next first after =>
    unfold nodes at h
    split at h
    · next labels after' hread =>
      cases h
      obtain ⟨mine, rfl, hlabels, hlast⟩ := labelList_at hread
      refine ⟨⟨.node, first⟩ :: mine, rfl, ⟨⟨.node, first⟩, _, rfl, List.getLast?_cons, ?_⟩,
        .skip _ hlabels⟩
      have hend : (labels.getLast?.map Label.span).getD first
          = (mine.getLast?.getD ⟨.node, first⟩).span := by
        rw [← hlast]
        cases mine.getLast? <;> rfl
      exact congrArg first.upTo hend
    · cases h
  · next kind first after =>
    unfold relation at h
    split at h
    · next paren after' =>
      split at h
      · next endpoints last after'' hread =>
        split at h
        · cases h
        · cases h
          obtain ⟨mine, rfl, hmine⟩ := endpointList_at hread
          have hruns := runs_between ⟨.relation kind, first⟩ (⟨.openParen, paren⟩ :: mine)
            ⟨.closeParen, last⟩
          exact ⟨_, by simp, hruns, .skip _ (.skip _ (hmine.snoc _))⟩
      · cases h
      · cases h
    · cases h
  · cases h
  · cases h

theorem skipSemicolons_suffix (tokens : List Token) : skipSemicolons tokens <:+ tokens :=
  List.dropWhile_suffix _

/-- **Items to the end** stand among all tokens. -/
theorem itemsFrom_at {done items : List Item}
    (h : itemsFrom stop done tokens = (.ok items, rest)) :
    ∃ more, items = done.reverse ++ more ∧ Scattered Item.At more tokens := by
  fun_induction itemsFrom stop done tokens with
  | case1 done =>
    cases h
    exact ⟨[], by simp, .nil⟩
  | case2 done t tokens i after hread _ ih =>
    obtain ⟨more, rfl, hmore⟩ := ih h
    obtain ⟨mine, hsplit, hi⟩ := item_at hread
    obtain ⟨semicolons, hafter⟩ := skipSemicolons_suffix after
    refine ⟨i :: more, by simp, ?_⟩
    rw [hsplit, ← hafter]
    exact .part hi ((scattered_nil semicolons).append hmore)
  | case3 done t tokens fault after hread => cases h

/-! ## §4. What is blamed. -/

theorem Scattered.exists_of_mem {a : α} (h : Scattered Holds parts tokens) (ha : a ∈ parts) :
    ∃ mine, mine <:+: tokens ∧ Holds a mine := by
  induction h with
  | nil => cases ha
  | skip t _ ih =>
    obtain ⟨mine, hmine, hholds⟩ := ih ha
    exact ⟨mine, hmine.trans (List.suffix_cons t _).isInfix, hholds⟩
  | @part b _ first after hb _ ih =>
    rcases List.mem_cons.1 ha with rfl | ha
    · exact ⟨first, (List.prefix_append first after).isInfix, hb⟩
    · obtain ⟨mine, hmine, hholds⟩ := ih ha
      exact ⟨mine, hmine.trans (List.suffix_append first after).isInfix, hholds⟩

/-- A fault blames the end of the text or some of the tokens. -/
def Blames (stop : Span) (tokens : List Token) (s : Span) : Prop :=
  s = stop ∨ ∃ mine, mine <:+: tokens ∧ Runs s mine

variable {f : Fault} {s : Span}

theorem Blames.append (h : Blames stop tokens s) (before : List Token) :
    Blames stop (before ++ tokens) s := by
  refine h.imp_right fun ⟨mine, hmine, hruns⟩ => ⟨mine, ?_, hruns⟩
  exact hmine.trans (List.suffix_append before tokens).isInfix

theorem Blames.cons (h : Blames stop tokens s) (t : Token) : Blames stop (t :: tokens) s :=
  h.append [t]

/-- The first token is blamed. -/
theorem blames_head (t : Token) (rest : List Token) : Blames stop (t :: rest) t.span :=
  .inr ⟨[t], (List.prefix_append [t] rest).isInfix, runs_singleton t⟩

theorem refuse_blames {expected : Expected}
    (h : (refuse stop expected tokens : Reading α) = (.error f, rest)) :
    Blames stop tokens f.span := by
  cases h
  cases tokens with
  | nil => exact .inl rfl
  | cons t rest => exact blames_head t rest

theorem moreLabels_blames {done : List Label}
    (h : moreLabels stop done tokens = (.error f, rest)) : Blames stop tokens f.span := by
  fun_induction moreLabels stop done tokens with
  | case1 done comma name span after ih => exact ((ih h).cons _).cons _
  | case2 done comma after _ => exact (refuse_blames h).cons _
  | case3 done after _ _ => cases h

theorem labelList_blames (h : labelList stop tokens = (.error f, rest)) :
    Blames stop tokens f.span := by
  unfold labelList at h
  split at h
  · exact (moreLabels_blames h).cons _
  · exact refuse_blames h

theorem endpoint_blames (h : endpoint stop tokens = (.error f, rest)) :
    Blames stop tokens f.span := by
  unfold endpoint at h
  split at h
  · next first last _ =>
    -- both braces, with nothing between them
    cases h
    have hruns := runs_between ⟨.openBrace, first⟩ [] ⟨.closeBrace, last⟩
    exact .inr ⟨_, (List.prefix_append _ rest).isInfix, hruns⟩
  · next first after _ =>
    split at h
    · cases h
    · next labels after' _ hlabels =>
      obtain ⟨mine, rfl, -⟩ := labelList_at hlabels
      exact ((refuse_blames h).append mine).cons _
    · next hlabels =>
      cases h
      exact (labelList_blames hlabels).cons _
  · cases h
  · exact refuse_blames h

theorem moreEndpoints_blames {done : List Endpoint}
    (h : moreEndpoints stop done tokens = (.error f, rest)) : Blames stop tokens f.span := by
  fun_induction moreEndpoints stop done tokens with
  | case1 done comma after e after' hread _ ih =>
    obtain ⟨mine, rfl, -⟩ := endpoint_at hread
    exact ((ih h).append mine).cons _
  | case2 done comma after fault after' hread =>
    cases h
    exact (endpoint_blames hread).cons _
  | case3 done after _ => cases h

theorem endpointList_blames (h : endpointList stop tokens = (.error f, rest)) :
    Blames stop tokens f.span := by
  unfold endpointList at h
  split at h
  · next e after hread =>
    obtain ⟨mine, rfl, -⟩ := endpoint_at hread
    exact (moreEndpoints_blames h).append mine
  · next hread =>
    cases h
    exact endpoint_blames hread

/-- The form of a relation is blamed on the whole of it or on one of its endpoints. -/
theorem span_of_shapeFault? {kind : Relation.Kind} {endpoints : List Endpoint} {span : Span}
    (h : shapeFault? kind endpoints span = some f) :
    f.span = span ∨ ∃ e ∈ endpoints, f.span = e.span := by
  unfold shapeFault? at h
  split at h
  · obtain ⟨⟨e, i⟩, hmem, he⟩ := List.exists_of_findSome?_eq_some h
    refine .inr ⟨e, List.mem_of_getElem? (List.mk_mem_zipIdx_iff_getElem?.1 hmem), ?_⟩
    cases e with
    | single l => cases he
    | set labels inner =>
      simp only at he
      split at he
      · cases he
      · cases he
        rfl
  · cases h
    exact .inl rfl

theorem relation_blames {kind : Relation.Kind} {first : Span}
    (h : relation stop kind first tokens = (.error f, rest)) :
    Blames stop (⟨.relation kind, first⟩ :: tokens) f.span := by
  unfold relation at h
  split at h
  · next paren after =>
    split at h
    · next endpoints last _ hread =>
      obtain ⟨mine, rfl, hmine⟩ := endpointList_at hread
      split at h
      · next fault hshape =>
        cases h
        rcases span_of_shapeFault? hshape with hspan | ⟨e, he, hspan⟩
        · have hruns := runs_between ⟨.relation kind, first⟩ (⟨.openParen, paren⟩ :: mine)
            ⟨.closeParen, last⟩
          refine .inr ⟨_, ⟨[], rest, ?_⟩, hspan ▸ hruns⟩
          simp
        · obtain ⟨its, hits, hat⟩ := hmine.exists_of_mem he
          have hblames : Blames stop (mine ++ ⟨.closeParen, last⟩ :: rest) f.span :=
            .inr ⟨its, hits.trans (List.prefix_append _ _).isInfix, hspan ▸ hat.runs⟩
          exact (hblames.cons _).cons _
      · cases h
    · next endpoints after' _ hread =>
      obtain ⟨mine, rfl, -⟩ := endpointList_at hread
      exact (((refuse_blames h).append mine).cons _).cons _
    · next hread =>
      cases h
      exact ((endpointList_blames hread).cons _).cons _
  · exact (refuse_blames h).cons _

/-- **The fault of an item** blames its tokens. -/
theorem item_blames (h : item stop tokens = (.error f, rest)) : Blames stop tokens f.span := by
  unfold item at h
  split at h
  · unfold nodes at h
    split at h
    · cases h
    · next hread =>
      cases h
      exact (labelList_blames hread).cons _
  · exact relation_blames h
  · cases h
    exact blames_head _ _
  · exact refuse_blames h

/-- **The fault of a whole text** blames its tokens, or the end. -/
theorem itemsFrom_blames {done : List Item}
    (h : itemsFrom stop done tokens = (.error f, rest)) : Blames stop tokens f.span := by
  fun_induction itemsFrom stop done tokens with
  | case1 done => cases h
  | case2 done t tokens i after hread _ ih =>
    obtain ⟨mine, hsplit, -⟩ := item_at hread
    obtain ⟨semicolons, hafter⟩ := skipSemicolons_suffix after
    rw [hsplit, ← hafter]
    exact ((ih h).append semicolons).append mine
  | case3 done t tokens fault after hread =>
    cases h
    exact item_blames hread

/-! ## §5. Descriptions. -/

/-- **A description** stands among all tokens. -/
theorem at_of_ofTokens {stream : TokenStream} {d : Description}
    (h : (ofTokens stream).1 = .ok d) : Scattered Item.At d.items stream.tokens := by
  obtain ⟨rest, hread⟩ := itemsFrom_of_ofTokens h
  obtain ⟨more, hmore, hitems⟩ := itemsFrom_at hread
  rw [hmore]
  exact hitems

/-- **What is refused** blames the tokens or the end. -/
theorem blames_of_ofTokens {stream : TokenStream} (h : (ofTokens stream).1 = .error f) :
    Blames stream.stop stream.tokens f.span := by
  obtain ⟨rest, hread⟩ := itemsFrom_of_refused h
  exact itemsFrom_blames hread

end Admissibility.Description
