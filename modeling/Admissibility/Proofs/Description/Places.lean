/-
  Admissibility.Proofs.Description.Places
  ───────────────────────────────────────
  **Every place is faithful.**

  A span covers a piece of a text: it says where the piece begins and ends in bytes, and on which
  line and in which column it begins.  The tokens of a text cover their writings, in the order of
  the text.  Every span of a tree and of a fault runs over such tokens, so it covers a piece of the
  text as well; the span of a part lies inside that of the whole, and behind those of the parts
  before it.

  `covers_of_split`: a position says what is counted in front of it.
  `inOrder_placed`, `covers_of_runs`: tokens at their places, and stretches of them.
  `Scattered.encloses`: parts that stand among tokens.
  `places_are_faithful`: the spans of trees and of faults.
-/
import Mathlib.Data.List.Induction
import Admissibility.Proofs.Description.Scope
import Admissibility.Proofs.Description.Standing

namespace Admissibility.Text

/-! ## §1. Pieces of a text. -/

/-- A span covers a piece of a text, with the line and the column where the piece begins. -/
def Span.Covers (s : Span) (text piece : String) : Prop :=
  ∃ before after : String, text = before ++ piece ++ after
    ∧ s.start = before.utf8ByteSize ∧ s.stop = (before ++ piece).utf8ByteSize
    ∧ s.line = 1 + before.toList.count '\n'
    ∧ s.column = 1 + (before.toList.reverse.takeWhile (· ≠ '\n')).length

namespace Position

theorem advanceAll_offset (p : Position) (cs : List Char) :
    (p.advanceAll cs).offset = p.offset + (String.ofList cs).utf8ByteSize := by
  induction cs generalizing p with
  | nil => rfl
  | cons c cs ih =>
    have hsize : (String.ofList (c :: cs)).utf8ByteSize
        = c.utf8Size + (String.ofList cs).utf8ByteSize := by
      rw [String.ofList_cons, String.utf8ByteSize_append, String.utf8ByteSize_singleton]
    rw [hsize, ← Nat.add_assoc, ← advance_offset]
    exact ih (p.advance c)

/-- An offset counts the bytes in front of it. -/
theorem start_advanceAll_offset (cs : List Char) :
    (start.advanceAll cs).offset = (String.ofList cs).utf8ByteSize :=
  (advanceAll_offset start cs).trans (Nat.zero_add _)

theorem offset_le_advanceAll (p : Position) (cs : List Char) :
    p.offset ≤ (p.advanceAll cs).offset := by
  rw [advanceAll_offset]
  exact Nat.le_add_right _ _

theorem advanceAll_line (p : Position) (cs : List Char) :
    (p.advanceAll cs).line = p.line + cs.count '\n' := by
  induction cs generalizing p with
  | nil => rfl
  | cons c cs ih =>
    have hstep : (p.advance c).line = p.line + if c = '\n' then 1 else 0 := by
      unfold advance
      split <;> rfl
    show ((p.advance c).advanceAll cs).line = _
    rw [ih, hstep, List.count_cons, Nat.add_assoc, Nat.add_comm (List.count _ _)]
    simp only [beq_iff_eq]

/-- A column counts the characters since the last line feed. -/
theorem advanceAll_column (cs : List Char) : (start.advanceAll cs).column
    = 1 + (cs.reverse.takeWhile (· ≠ '\n')).length := by
  induction cs using List.reverseRecOn with
  | nil => rfl
  | append_singleton cs c ih =>
    rw [advanceAll_append, List.reverse_append, List.reverse_singleton, List.singleton_append,
      List.takeWhile_cons]
    show ((start.advanceAll cs).advance c).column = _
    unfold advance
    by_cases hc : c = '\n'
    · simp [hc]
    · simp [hc, ih, Nat.add_comm]

end Position

/-- **A piece of a text** is covered from the place where it begins to the place where it ends. -/
theorem covers_of_split {text : String} {before piece after : List Char}
    (h : text.toList = before ++ (piece ++ after)) :
    (Span.between (Position.start.advanceAll before)
      (Position.start.advanceAll (before ++ piece))).Covers text (String.ofList piece) := by
  refine ⟨String.ofList before, String.ofList after, ?_, ?_, ?_, ?_, ?_⟩
  · rw [← String.ofList_append, ← String.ofList_append, List.append_assoc, ← h, String.ofList_toList]
  · exact Position.start_advanceAll_offset _
  · rw [← String.ofList_append]
    exact Position.start_advanceAll_offset _
  · rw [String.toList_ofList]
    exact Position.advanceAll_line _ _
  · rw [String.toList_ofList]
    exact Position.advanceAll_column _

end Admissibility.Text

namespace Admissibility.Description

open Admissibility.Text (Position Span covers_of_split)

variable {text : String} {tokens mine : List Token} {s s' : Span} {α : Type}

/-! ## §2. Tokens at their places. -/

theorem layout_append (us vs : List Written) : layout (us ++ vs) = layout us ++ layout vs :=
  List.flatMap_append

/-- Some of the tokens of a layout are the tokens of a part of it. -/
theorem placed_eq_append {p : Position} {written : List Written} {first rest : List Token}
    (h : placed p written = first ++ rest) : ∃ us vs, written = us ++ vs ∧ first = placed p us
      ∧ rest = placed (p.advanceAll (layout us)) vs := by
  induction first generalizing p written with
  | nil => exact ⟨[], written, rfl, rfl, h.symm⟩
  | cons t first ih =>
    cases written with
    | nil => cases h
    | cons w written =>
      obtain ⟨rfl, hrest⟩ := List.cons.inj h
      obtain ⟨us, vs, rfl, rfl, rfl⟩ := ih hrest
      refine ⟨w :: us, vs, rfl, rfl, ?_⟩
      rw [advanceAll_layout_cons]

/-- The last token of a layout ends where the layout ends. -/
theorem stop_of_getLast? {p : Position} {written : List Written} {last : Token}
    (h : (placed p written).getLast? = some last) :
    last.span.stop = (p.advanceAll (layout written)).offset := by
  induction written generalizing p with
  | nil => cases h
  | cons w written ih =>
    rw [advanceAll_layout_cons]
    cases written with
    | nil =>
      cases h
      rfl
    | cons v written =>
      rw [placed, placed, List.getLast?_cons_cons] at h
      exact ih h

/-- **A span that runs over a layout** goes from the first writing to the end. -/
theorem between_of_runs {p : Position} {written : List Written} (h : Runs s (placed p written)) :
    ∃ w rest, written = w :: rest
      ∧ s = .between (p.advanceAll w.gap) (p.advanceAll (layout written)) := by
  obtain ⟨first, last, hfirst, hlast, rfl⟩ := h
  cases written with
  | nil => cases hfirst
  | cons w rest =>
    refine ⟨w, rest, rfl, ?_⟩
    cases hfirst
    rw [Span.upTo, stop_of_getLast? hlast]
    rfl

/-- **A stretch of tokens** covers a piece of the text, from the writing of its first token on. -/
theorem covers_of_runs {written : List Written} {last : List Char}
    (htext : text.toList = layout written ++ last) (hmine : mine <:+: placed .start written)
    (h : Runs s mine) : ∃ (w : Written) (rest : List Written),
      mine.map Token.kind = w.kind :: rest.map Written.kind
        ∧ s.Covers text (String.ofList (w.chars ++ layout rest)) := by
  obtain ⟨before, after, hsplit⟩ := hmine
  obtain ⟨us, vs, rfl, hus, -⟩ := placed_eq_append hsplit.symm
  obtain ⟨us, ws, rfl, -, rfl⟩ := placed_eq_append hus.symm
  obtain ⟨w, rest, rfl, rfl⟩ := between_of_runs h
  refine ⟨w, rest, map_kind_placed _ _, ?_⟩
  have hpiece : text.toList
      = (layout us ++ w.gap) ++ ((w.chars ++ layout rest) ++ (layout vs ++ last)) := by
    rw [htext, layout_append, layout_append]
    simp [layout]
  have hcovers := covers_of_split hpiece
  have hstop : (Position.start.advanceAll (layout us)).advanceAll (layout (w :: rest))
      = Position.start.advanceAll (layout us ++ w.gap ++ (w.chars ++ layout rest)) := by
    rw [← Position.advanceAll_append]
    simp [layout]
  rwa [hstop, ← Position.advanceAll_append]

/-- Tokens that stand in a text one behind the other. -/
structure InOrder (tokens : List Token) : Prop where
  apart : tokens.Pairwise fun t u => t.span.stop ≤ u.span.start
  forward : ∀ t ∈ tokens, t.span.start ≤ t.span.stop

theorem InOrder.within (h : InOrder tokens) (hmine : mine <:+: tokens) : InOrder mine where
  apart := h.apart.sublist hmine.sublist
  forward t ht := h.forward t (hmine.subset ht)

/-- No token of a layout begins before the place where the layout begins. -/
theorem offset_le_of_mem_placed {p : Position} {written : List Written} {t : Token}
    (h : t ∈ placed p written) : p.offset ≤ t.span.start ∧ t.span.start ≤ t.span.stop := by
  induction written generalizing p with
  | nil => cases h
  | cons w written ih =>
    have hgap := p.offset_le_advanceAll w.gap
    have hchars := (p.advanceAll w.gap).offset_le_advanceAll w.chars
    rcases List.mem_cons.1 h with rfl | h
    · exact ⟨hgap, hchars⟩
    · exact ⟨(hgap.trans hchars).trans (ih h).1, (ih h).2⟩

/-- **The tokens of a layout** stand one behind the other. -/
theorem inOrder_placed (p : Position) (written : List Written) : InOrder (placed p written) := by
  refine ⟨?_, fun t ht => (offset_le_of_mem_placed ht).2⟩
  induction written generalizing p with
  | nil => exact .nil
  | cons w written ih =>
    exact List.pairwise_cons.2 ⟨fun t ht => (offset_le_of_mem_placed ht).1, ih _⟩

/-! ## §3. Parts inside wholes. -/

/-- A span has others inside it, each behind those before it. -/
structure Encloses (s : Span) (parts : List Span) : Prop where
  inside : ∀ c ∈ parts, s.start ≤ c.start ∧ c.stop ≤ s.stop
  apart : parts.Pairwise fun c d => c.stop ≤ d.start

/-- The tokens that a span runs over lie inside it. -/
theorem Runs.bounds (h : Runs s tokens) (horder : InOrder tokens) {t : Token} (ht : t ∈ tokens) :
    s.start ≤ t.span.start ∧ t.span.stop ≤ s.stop := by
  obtain ⟨first, last, hfirst, hlast, rfl⟩ := h
  refine ⟨?_, ?_⟩
  · obtain ⟨rest, rfl⟩ := List.head?_eq_some_iff.1 hfirst
    rcases List.mem_cons.1 ht with rfl | hrest
    · exact Nat.le_refl _
    · exact (horder.forward first List.mem_cons_self).trans
        ((List.pairwise_cons.1 horder.apart).1 t hrest)
  · obtain ⟨init, rfl⟩ := List.getLast?_eq_some_iff.1 hlast
    rcases List.mem_append.1 ht with hinit | hlast
    · exact ((List.pairwise_append.1 horder.apart).2.2 t hinit last (by simp)).trans
        (horder.forward last (by simp))
    · cases List.mem_singleton.1 hlast
      exact Nat.le_refl _

/-- A span that runs over some tokens begins with one of them and ends with one. -/
theorem Runs.ends (h : Runs s tokens) :
    (∃ t ∈ tokens, s.start = t.span.start) ∧ ∃ t ∈ tokens, s.stop = t.span.stop := by
  obtain ⟨first, last, hfirst, hlast, rfl⟩ := h
  exact ⟨⟨first, List.mem_of_head? hfirst, rfl⟩, last, List.mem_of_getLast? hlast, rfl⟩

variable {Holds : α → List Token → Prop} {parts : List α} {spanOf : α → Span}

/-- Parts that stand among tokens stand one behind the other. -/
theorem Scattered.apart (h : Scattered Holds parts tokens) (horder : InOrder tokens)
    (hruns : ∀ a mine, Holds a mine → Runs (spanOf a) mine) :
    (parts.map spanOf).Pairwise fun c d => c.stop ≤ d.start := by
  induction h with
  | nil => exact .nil
  | skip t _ ih => exact ih (horder.within (List.suffix_cons t _).isInfix)
  | @part a parts mine after ha hparts ih =>
    have hbehind := horder.within (List.suffix_append mine after).isInfix
    refine List.pairwise_cons.2 ⟨fun c hc => ?_, ih hbehind⟩
    obtain ⟨b, hb, rfl⟩ := List.mem_map.1 hc
    obtain ⟨others, hothers, hholds⟩ := hparts.exists_of_mem hb
    obtain ⟨-, last, hlast, hstop⟩ := (hruns a mine ha).ends
    obtain ⟨⟨first, hfirst, hstart⟩, -⟩ := (hruns b others hholds).ends
    rw [hstop, hstart]
    exact (List.pairwise_append.1 horder.apart).2.2 last hlast first (hothers.subset hfirst)

/-- **Parts that stand among the tokens of a whole** lie inside it, one behind the other. -/
theorem Scattered.encloses (h : Scattered Holds parts tokens) (horder : InOrder tokens)
    (hruns : ∀ a mine, Holds a mine → Runs (spanOf a) mine) (hs : Runs s tokens) :
    Encloses s (parts.map spanOf) := by
  refine ⟨fun c hc => ?_, h.apart horder hruns⟩
  obtain ⟨a, ha, rfl⟩ := List.mem_map.1 hc
  obtain ⟨mine, hmine, hholds⟩ := h.exists_of_mem ha
  obtain ⟨⟨first, hfirst, hstart⟩, last, hlast, hstop⟩ := (hruns a mine hholds).ends
  rw [hstart, hstop]
  exact ⟨(hs.bounds horder (hmine.subset hfirst)).1, (hs.bounds horder (hmine.subset hlast)).2⟩

/-! ## §4. Faithful trees. -/

/-- A span runs over tokens of some kinds among those of a text, and covers the piece of the text
from the first writing to the last. -/
structure Stretch (text : String) (tokens : List Token) (s : Span) (kinds : List Token.Kind) :
    Prop where
  runs : ∃ mine, mine <:+: tokens ∧ mine.map Token.kind = kinds ∧ Runs s mine
  covers : ∃ (w : Written) (rest : List Written), kinds = w.kind :: rest.map Written.kind
    ∧ s.Covers text (String.ofList (w.chars ++ layout rest))

/-- The spans of an endpoint and of its labels are faithful. -/
structure Endpoint.Faithful (text : String) (tokens : List Token) (e : Endpoint) : Prop where
  stretch : Stretch text tokens e.span e.kinds
  encloses : Encloses e.span (e.labels.map Label.span)
  labels : ∀ l ∈ e.labels, l.span.Covers text l.name

/-- The spans of an item and of its parts are faithful.  The item runs from its keyword to its last
token, and the semicolons behind it are none of its tokens. -/
inductive Item.Faithful (text : String) (tokens : List Token) : Item → Prop
  | nodes {labels : List Label} {span : Span} {kinds : List Token.Kind} :
      Item.Spells (.nodes labels span) kinds → Stretch text tokens span kinds →
      Encloses span (labels.map Label.span) → (∀ l ∈ labels, l.span.Covers text l.name) →
      Item.Faithful text tokens (.nodes labels span)
  | relation {kind : Relation.Kind} {endpoints : List Endpoint} {span : Span}
      {kinds : List Token.Kind} :
      Item.Spells (.relation kind endpoints span) kinds → Stretch text tokens span kinds →
      Encloses span (endpoints.map Endpoint.span) → (∀ e ∈ endpoints, e.Faithful text tokens) →
      Item.Faithful text tokens (.relation kind endpoints span)

variable {written : List Written} {last : List Char} {l : Label} {e : Endpoint} {i : Item}

theorem stretch_of_runs (htext : text.toList = layout written ++ last)
    (hmine : mine <:+: placed .start written) (h : Runs s mine) :
    Stretch text (placed .start written) s (mine.map Token.kind) :=
  ⟨⟨mine, hmine, rfl, h⟩, covers_of_runs htext hmine h⟩

/-- **A token** covers a writing of its kind. -/
theorem covers_of_mem (htext : text.toList = layout written ++ last) {t : Token}
    (ht : t ∈ placed .start written) :
    ∃ chars, t.kind.Writes chars ∧ t.span.Covers text (String.ofList chars) := by
  obtain ⟨before, after, hsplit⟩ := List.append_of_mem ht
  have hmine : [t] <:+: placed .start written := ⟨before, after, by rw [hsplit]; simp⟩
  obtain ⟨w, rest, hkinds, hcovers⟩ := covers_of_runs htext hmine (runs_singleton t)
  obtain ⟨hkind, hrest⟩ := List.cons.inj hkinds
  rw [List.map_eq_nil_iff.1 hrest.symm] at hcovers
  exact ⟨w.chars, hkind ▸ w.writes, by simpa [layout] using hcovers⟩

/-- **A label** covers its name. -/
theorem Label.At.covers (htext : text.toList = layout written ++ last)
    (hmine : mine <:+: placed .start written) (h : l.At mine) : l.span.Covers text l.name := by
  subst h
  obtain ⟨chars, hwrites, hcovers⟩ := covers_of_mem htext (hmine.subset List.mem_cons_self)
  cases hwrites with
  | label _ _ _ => rwa [String.ofList_toList] at hcovers

theorem Label.At.runs (h : l.At mine) : Runs l.span mine := by
  subst h
  exact runs_singleton _

theorem covers_of_labels (htext : text.toList = layout written ++ last)
    (hmine : mine <:+: placed .start written) {labels : List Label}
    (h : Scattered Label.At labels mine) : ∀ l ∈ labels, l.span.Covers text l.name := by
  intro l hl
  obtain ⟨its, hits, hat⟩ := h.exists_of_mem hl
  exact hat.covers htext (hits.trans hmine)

/-- **An endpoint** that stands among the tokens of a text is faithful. -/
theorem Endpoint.At.faithful (htext : text.toList = layout written ++ last)
    (hmine : mine <:+: placed .start written) (h : e.At mine) :
    e.Faithful text (placed .start written) where
  stretch := h.kinds ▸ stretch_of_runs htext hmine h.runs
  encloses := h.labels.encloses ((inOrder_placed _ _).within hmine) (fun _ _ hl => hl.runs) h.runs
  labels := covers_of_labels htext hmine h.labels

/-- **An item** that stands among the tokens of a text is faithful. -/
theorem Item.At.faithful (htext : text.toList = layout written ++ last)
    (hmine : mine <:+: placed .start written) (h : i.At mine) :
    i.Faithful text (placed .start written) := by
  have horder := (inOrder_placed .start written).within hmine
  have hstretch := stretch_of_runs htext hmine h.runs
  obtain ⟨hspells, hruns, hparts⟩ := h
  cases i with
  | nodes labels span =>
    exact .nodes hspells hstretch (Scattered.encloses hparts horder (fun _ _ hl => hl.runs) hruns)
      (covers_of_labels htext hmine hparts)
  | relation kind endpoints span =>
    refine .relation hspells hstretch
      (Scattered.encloses hparts horder (fun _ _ he => he.runs) hruns) fun e he => ?_
    obtain ⟨its, hits, hat⟩ := Scattered.exists_of_mem hparts he
    exact hat.faithful htext (hits.trans hmine)

/-! ## §5. Faithful faults. -/

/-- A fault of an item blames the item or one of its labels. -/
theorem Item.Offends.span {declared : List String} {f : Fault} (h : i.Offends declared f) :
    f.span = i.span ∨ (∃ labels span, i = .nodes labels span ∧ ∃ l ∈ labels, f.span = l.span)
      ∨ ∃ kind endpoints span, i = .relation kind endpoints span
          ∧ ∃ l ∈ named endpoints, f.span = l.span := by
  cases h with
  | nodes hfirst =>
    obtain ⟨before, l, after, rfl, -, hl⟩ := hfirst
    refine .inr (.inl ⟨_, _, rfl, l, by simp, ?_⟩)
    cases hl <;> rfl
  | undeclared hfirst =>
    obtain ⟨before, l, after, hsplit, -, hl⟩ := hfirst
    refine .inr (.inr ⟨_, _, _, rfl, l, by simp [hsplit], ?_⟩)
    cases hl
    rfl
  | shape _ _ => exact .inl rfl

/-- **A fault of a faithful item** covers a piece of the text. -/
theorem Item.Faithful.covers_of_offends {declared : List String} {f : Fault}
    (h : i.Faithful text tokens) (hf : i.Offends declared f) : ∃ piece, f.span.Covers text piece := by
  rcases hf.span with hspan | ⟨labels, span, rfl, l, hl, hspan⟩
    | ⟨kind, endpoints, span, rfl, l, hl, hspan⟩
  · rw [hspan]
    cases h with
    | nodes _ hstretch _ _ | relation _ hstretch _ _ =>
      obtain ⟨w, rest, -, hcovers⟩ := hstretch.covers
      exact ⟨_, hcovers⟩
  · cases h with
    | nodes _ _ _ hlabels => exact ⟨l.name, hspan ▸ hlabels l hl⟩
  · cases h with
    | relation _ _ _ hendpoints =>
      obtain ⟨e, he, hl⟩ := List.mem_flatMap.1 hl
      exact ⟨l.name, hspan ▸ (hendpoints e he).labels l hl⟩

/-- What is blamed covers a piece of the text, which is empty at the end. -/
theorem Blames.covers (htext : text.toList = layout written ++ last)
    (h : Blames (.empty (Position.start.advanceAll text.toList)) (placed .start written) s) :
    ∃ piece, s.Covers text piece := by
  rcases h with rfl | ⟨mine, hmine, hruns⟩
  · have hend : text.toList = text.toList ++ ([] ++ []) := by simp
    have hcovers := covers_of_split hend
    rw [List.append_nil] at hcovers
    exact ⟨_, hcovers⟩
  · obtain ⟨w, rest, -, hcovers⟩ := covers_of_runs htext hmine hruns
    exact ⟨_, hcovers⟩

/-! ## §6. Every text. -/

/-- **The fault of a scan** covers the character or the word that it stops at. -/
theorem covers_of_tokenize {f : Fault} (h : tokenize text = .error f) :
    ∃ piece, f.span.Covers text piece := by
  rcases tokenize_cases text with ⟨_, _, -, -, -, hread⟩
    | ⟨written, gap, bad, rest, cause, hsplit, -, -, -, hread⟩
  · rw [h] at hread
    cases hread
  · rw [h] at hread
    cases hread
    rw [← List.append_assoc] at hsplit
    refine ⟨String.ofList bad, ?_⟩
    show Span.Covers (.between _ _) text _
    rw [← Position.advanceAll_append]
    exact covers_of_split hsplit

/-- **A tree** that a text is read as is faithful. -/
theorem faithful_of_ofText {d : Description} (h : ofText text = .ok d) :
    ∃ stream, tokenize text = .ok stream
      ∧ (∀ t ∈ stream.tokens, ∃ chars, t.kind.Writes chars
          ∧ t.span.Covers text (String.ofList chars))
      ∧ (∀ i ∈ d.items, i.Faithful text stream.tokens)
      ∧ (d.items.map Item.span).Pairwise fun c d => c.stop ≤ d.start := by
  obtain ⟨stream, hstream, hd⟩ := exists_of_bind_ok h
  obtain ⟨written, last, htext, rfl⟩ := exists_layout_of_tokenize hstream
  have hitems : Scattered Item.At d.items (placed .start written) := at_of_ofTokens hd
  refine ⟨_, hstream, fun t ht => covers_of_mem htext ht, fun i hi => ?_,
    hitems.apart (inOrder_placed _ _) fun _ _ hi => hi.runs⟩
  obtain ⟨mine, hmine, hat⟩ := hitems.exists_of_mem hi
  exact hat.faithful htext hmine

/-- **A fault of reading** covers a piece of the text. -/
theorem covers_of_ofText {f : Fault} (h : ofText text = .error f) :
    ∃ piece, f.span.Covers text piece := by
  rcases error_of_bind h with hscan | ⟨stream, hstream, hread⟩
  · exact covers_of_tokenize hscan
  · obtain ⟨written, last, htext, rfl⟩ := exists_layout_of_tokenize hstream
    exact (blames_of_ofTokens hread).covers htext

/-- **Every place is faithful.**  The tree that a text is read as is made of the tokens of the text,
each of which covers a writing of its kind: every label covers its name, an item runs from its
keyword to its last token and a set from brace to brace, parts lie inside the whole, and neighbours
stand one behind the other.  And whatever a text is refused for, by a scan, a reader or for what it
describes, the fault covers a piece of it. -/
theorem places_are_faithful (text : String) :
    (∀ d, ofText text = .ok d → ∃ stream, tokenize text = .ok stream
        ∧ (∀ t ∈ stream.tokens, ∃ chars, t.kind.Writes chars
            ∧ t.span.Covers text (String.ofList chars))
        ∧ (∀ i ∈ d.items, i.Faithful text stream.tokens)
        ∧ (d.items.map Item.span).Pairwise fun c d => c.stop ≤ d.start)
      ∧ ∀ f, Structure.ofText text = .error f → ∃ piece, f.span.Covers text piece := by
  refine ⟨fun d hd => faithful_of_ofText hd, fun f hf => ?_⟩
  rcases error_of_bind hf with hread | ⟨d, hd, hf⟩
  · exact covers_of_ofText hread
  · -- the item that offends is one of the tree
    obtain ⟨stream, -, -, hitems, -⟩ := faithful_of_ofText hd
    rcases toStructure_cases d with ⟨-, t, ht, -⟩ | ⟨fault, ⟨before, i, after, hsplit, -, hi⟩, herror⟩
    · rw [ht] at hf
      cases hf
    · rw [herror] at hf
      cases hf
      exact (hitems i (by rw [hsplit]; simp)).covers_of_offends hi

/-- What `node A, A` is read as on a second line, behind a comment with a letter of two bytes. -/
def secondLine : Description where
  items := [.nodes [⟨"A", ⟨11, 12, 2, 6⟩⟩, ⟨"A", ⟨14, 15, 2, 9⟩⟩] ⟨6, 15, 2, 1⟩]

theorem secondLine_places :
    (ofText "-- é\nnode A, A" = .ok secondLine
        ∧ ∃ stream, tokenize "-- é\nnode A, A" = .ok stream
          ∧ (∀ t ∈ stream.tokens, ∃ chars, t.kind.Writes chars
              ∧ t.span.Covers "-- é\nnode A, A" (String.ofList chars))
          ∧ (∀ i ∈ secondLine.items, i.Faithful "-- é\nnode A, A" stream.tokens)
          ∧ (secondLine.items.map Item.span).Pairwise fun c d => c.stop ≤ d.start)
      ∧ Structure.ofText "-- é\nnode A, A" = .error ⟨.duplicateNode "A", ⟨14, 15, 2, 9⟩⟩
      ∧ ∃ piece, Span.Covers ⟨14, 15, 2, 9⟩ "-- é\nnode A, A" piece := by
  have hread : ofText "-- é\nnode A, A" = .ok secondLine := by decide +kernel
  have hrefused : Structure.ofText "-- é\nnode A, A"
      = .error ⟨.duplicateNode "A", ⟨14, 15, 2, 9⟩⟩ := by
    show (do (← ofText "-- é\nnode A, A").toStructure) = _
    rw [hread]
    rfl
  obtain ⟨htree, hfault⟩ := places_are_faithful "-- é\nnode A, A"
  exact ⟨⟨hread, htree _ hread⟩, hrefused, hfault _ hrefused⟩

end Admissibility.Description
