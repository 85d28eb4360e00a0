/-
  Admissibility.Proofs.Description.Tiling
  ───────────────────────────────────────
  **Tokens tile a text, and a fault of a scan stands where the text could still be split.**

  The tokens of a text and the gaps between them are cut out of it one behind the other: nothing is
  left out and nothing is told twice.  A word among them is the longest one around its place.  Where
  a text is refused, the part in front of the fault splits into tokens, and the fault covers a
  character that begins no token or a longest word that is a procedural one.

  `longest_of_detached`: a word that nothing before it or behind it belongs to.
  `exists_cut_of_placed`: a token of a layout, cut out of the text.
  `tokens_tile_text`: what becomes of every text.
-/
import Admissibility.Proofs.Description.Places

namespace Admissibility.Description

open Admissibility.Text (Position Span isBlank)

variable {text : String} {cs before word after : List Char}

/-! ## §1. Pieces of a text. -/

/-- Two offsets cut a text in three: what is before them, between them and behind them. -/
structure Cut (text : String) (start stop : Nat) (before piece after : List Char) : Prop where
  split : text.toList = before ++ (piece ++ after)
  start : start = (String.ofList before).utf8ByteSize
  stop : stop = (String.ofList (before ++ piece)).utf8ByteSize

/-- A word with some characters before it and behind it, none of which can be taken to it: no longer
piece around it has the form of a label. -/
structure LongestWord (before word after : List Char) : Prop where
  isLabel : IsLabel word
  longest : ∀ front back, front <:+ before → back <+: after → IsLabel (front ++ (word ++ back)) →
    front = [] ∧ back = []

/-- Nothing at the end of some characters belongs to a word behind them. -/
def Detached (before : List Char) : Prop :=
  ∀ c, before.getLast? = some c → isWordChar c = false ∧ c ≠ '-'

/-- **The longest word** at a place is one that nothing before it or behind it belongs to. -/
theorem longest_of_detached (hword : IsWord word) (hbefore : Detached before)
    (hstop : wordGoesOn after = false) : LongestWord before word after := by
  refine ⟨isLabel_iff.2 hword, fun front back hfront hback hlabel => ?_⟩
  have hlonger := isLabel_iff.1 hlabel
  have hnil : front = [] := by
    by_contra hne
    obtain ⟨init, c, rfl⟩ := List.eq_nil_or_concat front |>.resolve_left hne
    obtain ⟨others, rfl⟩ := hfront
    obtain ⟨hno, hhyphen⟩ := hbefore c (by simp)
    rcases isWordChar_or_hyphen hlonger (c := c) (by simp) with hchar | hchar
    · rw [hno] at hchar
      cases hchar
    · exact hhyphen hchar
  refine ⟨hnil, ?_⟩
  rw [hnil, List.nil_append] at hlonger
  match word, hword with
  | first :: rest, _ =>
    have hgoes : GoesOn back [] := (goesOn_append_iff.1 hlonger.2).2
    cases back with
    | nil => rfl
    | cons c back =>
      -- the word would go on behind its end
      obtain ⟨others, rfl⟩ := hback
      have hmore : wordGoesOn (c :: back) = true := by
        rw [← List.append_nil back]
        exact hgoes.1
      rw [wordGoesOn_append hmore] at hstop
      cases hstop

/-! ## §2. What stands in front of a token. -/

/-- A gap ends in white space. -/
theorem Gap.detached (h : Gap cs) : Detached cs := by
  intro c hc
  suffices hblank : isBlank c = true from not_isWordChar_of_isBlank hblank
  induction h with
  | nil => cases hc
  | @blank first gap hfirst _ ih =>
    cases gap with
    | nil =>
      cases hc
      exact hfirst
    | cons d gap =>
      rw [List.getLast?_cons_cons] at hc
      exact ih hc
  | @comment comment gap _ _ ih =>
    rw [List.getLast?_append_cons] at hc
    cases gap with
    | nil =>
      cases hc
      decide
    | cons d gap =>
      rw [List.getLast?_cons_cons] at hc
      exact ih hc

/-- A symbol is no part of a word. -/
theorem detached_of_symbol {kind : Token.Kind} (hkind : kind.isWord = false) (h : kind.Writes cs) :
    Detached cs := by
  intro c hc
  cases h with
  | node _ | relation _ | label _ _ _ => cases hkind
  | _ =>
    cases hc
    decide

/-- The end of some characters is the end of what is put in front of them. -/
theorem Detached.append (h : Detached cs) (hne : cs ≠ []) (before : List Char) :
    Detached (before ++ cs) := by
  intro c hc
  rw [List.getLast?_append_of_ne_nil before hne] at hc
  exact h c hc

theorem stopped_append {us vs : List Written} :
    Stopped after (us ++ vs) ↔ Stopped (layout vs ++ after) us ∧ Stopped after vs := by
  induction us with
  | nil => exact ⟨fun h => ⟨trivial, h⟩, And.right⟩
  | cons u us ih =>
    rw [List.cons_append, Stopped, Stopped, ih, layout_append, List.append_assoc, and_assoc]

/-- A word goes on at its first character. -/
theorem wordGoesOn_of_isWord (h : IsWord word) (after : List Char) :
    wordGoesOn (word ++ after) = true := by
  match word, h with
  | c :: rest, ⟨hc, _⟩ =>
    have hchar : isWordChar c = true := isWordChar_iff.2 (.inl hc)
    have hhyphen : c ≠ '-' := by
      rintro rfl
      cases hc
    rw [List.cons_append, wordGoesOn_cons, if_neg hhyphen, hchar]

/-- **In front of a word** stands nothing that belongs to it. -/
theorem detached_layout {us : List Written} {gap : List Char} (hgap : Gap gap)
    (hstopped : Stopped (gap ++ (word ++ after)) us) (hword : IsWord word) :
    Detached (layout us ++ gap) := by
  by_cases hnil : gap = []
  · rw [hnil, List.append_nil]
    rw [hnil, List.nil_append] at hstopped
    rcases List.eq_nil_or_concat us with rfl | ⟨us, u, rfl⟩
    · intro c hc
      cases hc
    · -- the token at once in front of the word is complete, so it is no word itself
      rw [List.concat_eq_append, stopped_append] at hstopped
      have hsymbol : u.kind.isWord = false := by
        refine Bool.eq_false_iff.2 fun hu => ?_
        have hcomplete := hstopped.2.1 hu
        rw [show layout [] ++ (word ++ after) = word ++ after from rfl,
          wordGoesOn_of_isWord hword] at hcomplete
        cases hcomplete
      obtain ⟨c, hchars, -⟩ := (writes_symbol_iff hsymbol).1 u.writes
      have hends := (detached_of_symbol hsymbol u.writes).append (by simp [hchars])
        (layout us ++ u.gap)
      rw [List.concat_eq_append, layout_append]
      simpa [layout] using hends
  · exact hgap.detached.append hnil (layout us)

/-! ## §3. Tokens cut out of a text. -/

/-- The byte behind the last of some tokens. -/
def endOf (tokens : List Token) : Nat := (tokens.getLast?.map fun t => t.span.stop).getD 0

theorem endOf_placed (us : List Written) :
    endOf (placed .start us) = (String.ofList (layout us)).utf8ByteSize := by
  unfold endOf
  cases hlast : (placed .start us).getLast? with
  | none =>
    rw [List.getLast?_eq_none_iff] at hlast
    cases us with
    | nil => rfl
    | cons u us => cases hlast
  | some t =>
    rw [Option.map_some, Option.getD_some, stop_of_getLast? hlast]
    exact Position.start_advanceAll_offset _

/-- **A token of a layout** is cut out of the text, and so is the gap in front of it. -/
theorem exists_cut_of_placed {written : List Written} {last : List Char}
    (htext : text.toList = layout written ++ last) {first rest : List Token} {t : Token}
    (h : placed .start written = first ++ t :: rest) :
    ∃ (us vs : List Written) (w : Written), written = us ++ w :: vs ∧ t.kind = w.kind
      ∧ Cut text (endOf first) t.span.start (layout us) w.gap (w.chars ++ (layout vs ++ last))
      ∧ Cut text t.span.start t.span.stop (layout us ++ w.gap) w.chars (layout vs ++ last) := by
  obtain ⟨us, ws, rfl, rfl, hrest⟩ := placed_eq_append h
  cases ws with
  | nil => cases hrest
  | cons w vs =>
    obtain ⟨rfl, -⟩ := List.cons.inj hrest
    have hsplit : text.toList = layout us ++ (w.gap ++ (w.chars ++ (layout vs ++ last))) := by
      rw [htext, layout_append, List.append_assoc, layout_cons_append]
    have hstart : ((Position.start.advanceAll (layout us)).advanceAll w.gap).offset
        = (String.ofList (layout us ++ w.gap)).utf8ByteSize := by
      rw [← Position.advanceAll_append, Position.start_advanceAll_offset]
    have hstop : (((Position.start.advanceAll (layout us)).advanceAll w.gap).advanceAll
        w.chars).offset = (String.ofList (layout us ++ w.gap ++ w.chars)).utf8ByteSize := by
      rw [← Position.advanceAll_append, ← Position.advanceAll_append, ← List.append_assoc,
        Position.start_advanceAll_offset]
    exact ⟨us, vs, w, rfl, rfl, ⟨hsplit, endOf_placed us, hstart⟩,
      ⟨by rw [hsplit, List.append_assoc], hstart, hstop⟩⟩

/-! ## §4. Tiled texts. -/

/-- A token covers its writing: a label itself, a keyword in some case of its letters, a symbol.  A
word is a longest one, and stands for the relation kind that its writing introduces. -/
def Token.Covers (t : Token) (text : String) : Prop :=
  ∃ before chars after, Cut text t.span.start t.span.stop before chars after ∧ t.kind.Writes chars
    ∧ (t.kind.isWord = true → LongestWord before chars after
        ∧ t.kind.relation? = Relation.Kind.ofKeyword? (String.ofList chars))

/-- The tokens of a text and the gaps between them are all of the text, one behind the other. -/
structure Tiled (text : String) (stream : TokenStream) : Prop where
  forward : ∀ t ∈ stream.tokens, t.span.start < t.span.stop
  apart : stream.tokens.Pairwise fun t u => t.span.stop ≤ u.span.start
  covers : ∀ t ∈ stream.tokens, t.Covers text
  /-- In front of a token, from the end of the one before it, stands a gap. -/
  gaps : ∀ first t rest, stream.tokens = first ++ t :: rest →
    ∃ before gap after, Cut text (endOf first) t.span.start before gap after ∧ Gap gap
  /-- Behind the last token stands a gap to the end. -/
  last : ∃ before gap, Cut text (endOf stream.tokens) text.utf8ByteSize before gap [] ∧ LastGap gap
  /-- The end is told by the empty span behind the text. -/
  stop : stream.stop.start = text.utf8ByteSize ∧ stream.stop.stop = text.utf8ByteSize

/-- A word stands for the relation kind that its writing introduces. -/
theorem relation?_of_writes {kind : Token.Kind} (hkind : kind.isWord = true) (h : kind.Writes cs) :
    kind.relation? = Relation.Kind.ofKeyword? (String.ofList cs) := by
  obtain ⟨-, hread⟩ := (writes_word_iff hkind).1 h
  rw [← relation?_keyword?]
  rcases ofWord?_eq_some_iff.1 hread with ⟨hnode, rfl⟩ | ⟨r, hr, rfl⟩ | ⟨hkeyword, -, rfl⟩
  · rw [hnode]
    rfl
  · rw [keyword?_eq_some_iff.2 (.inr ⟨r, hr, rfl⟩)]
    rfl
  · rw [keyword?_eq_none_iff.2 hkeyword]
    rfl

/-- A token is written in one character at least. -/
theorem ne_nil_of_writes {kind : Token.Kind} (h : kind.Writes cs) : cs ≠ [] := by
  rintro rfl
  cases hkind : kind.isWord with
  | true => exact ((writes_word_iff hkind).1 h).1
  | false =>
    obtain ⟨c, hc, -⟩ := (writes_symbol_iff hkind).1 h
    cases hc

theorem utf8ByteSize_lt_append (before : List Char) (hne : cs ≠ []) :
    (String.ofList before).utf8ByteSize < (String.ofList (before ++ cs)).utf8ByteSize := by
  obtain ⟨c, cs, rfl⟩ := List.exists_cons_of_ne_nil hne
  have hpos := c.utf8Size_pos
  rw [String.ofList_append, String.ofList_cons, String.utf8ByteSize_append,
    String.utf8ByteSize_append, String.utf8ByteSize_singleton]
  omega

/-- **A layout tiles its text.** -/
theorem tiled_layout {written : List Written} {last : List Char}
    (htext : text.toList = layout written ++ last) (hstopped : Stopped last written)
    (hlast : LastGap last) :
    Tiled text ⟨placed .start written, .empty (Position.start.advanceAll text.toList)⟩ := by
  have hsize : (Position.start.advanceAll text.toList).offset = text.utf8ByteSize := by
    rw [Position.start_advanceAll_offset, String.ofList_toList]
  refine ⟨fun t ht => ?_, (inOrder_placed _ _).apart, fun t ht => ?_, fun first t rest h => ?_, ?_,
    ⟨hsize, hsize⟩⟩
  · obtain ⟨first, rest, hsplit⟩ := List.append_of_mem ht
    obtain ⟨us, vs, w, -, -, -, hcut⟩ := exists_cut_of_placed htext hsplit
    rw [hcut.start, hcut.stop]
    exact utf8ByteSize_lt_append _ (ne_nil_of_writes w.writes)
  · obtain ⟨first, rest, hsplit⟩ := List.append_of_mem ht
    obtain ⟨us, vs, w, rfl, hkind, -, hcut⟩ := exists_cut_of_placed htext hsplit
    refine ⟨_, _, _, hcut, hkind ▸ w.writes, fun hword => ?_⟩
    rw [hkind] at hword ⊢
    obtain ⟨hbefore, hstop, -⟩ := stopped_append.1 hstopped
    rw [layout_cons_append] at hbefore
    have hchars := ((writes_word_iff hword).1 w.writes).1
    exact ⟨longest_of_detached hchars (detached_layout w.isGap hbefore hchars) (hstop hword),
      relation?_of_writes hword w.writes⟩
  · obtain ⟨us, vs, w, -, -, hcut, -⟩ := exists_cut_of_placed htext h
    exact ⟨_, _, _, hcut, w.isGap⟩
  · refine ⟨layout written, last, ⟨?_, endOf_placed written, ?_⟩, hlast⟩
    · rw [htext, List.append_nil]
    · rw [← htext, String.ofList_toList]

/-! ## §5. Texts that are refused. -/

/-- A fault of a scan: the text in front of it splits into tokens, and it covers a character that
begins no token or a longest word that is a procedural one in some case of its letters. -/
def Stuck (text : String) (f : Fault) : Prop :=
  ∃ before bad after, Cut text f.span.start f.span.stop before bad after
    ∧ (∃ stream, tokenize (String.ofList before) = .ok stream)
    ∧ ((∃ c, bad = [c] ∧ c.isAlpha = false ∧ c ≠ '_' ∧ c ∉ ['(', ')', '{', '}', ',', ';']
          ∧ isBlank c = false ∧ ¬ ((c = '/' ∨ c = '-') ∧ after.head? = some c)
          ∧ f.diagnostic.gate = .syntactic ∧ f.diagnostic.found = some (String.singleton c))
        ∨ (LongestWord before bad after ∧ (String.ofList bad).toLower ∈ proceduralWords
          ∧ f.diagnostic.gate = .grammatical ∧ f.diagnostic.found = some (String.ofList bad)))

/-- What completes a word completes it when the text ends earlier. -/
theorem Stopped.of_append {written : List Written} (h : Stopped (cs ++ after) written) :
    Stopped cs written := by
  induction written with
  | nil => trivial
  | cons w rest ih =>
    obtain ⟨hstop, hrest⟩ := h
    refine ⟨fun hword => Bool.eq_false_iff.2 fun hgoes => ?_, ih hrest⟩
    have hlonger := wordGoesOn_append hgoes after
    rw [List.append_assoc, hstop hword] at hlonger
    cases hlonger

/-- The text in front of a fault splits into tokens. -/
theorem exists_tokenize_front {written : List Written} {gap : List Char} (hgap : Gap gap)
    (hstopped : Stopped (gap ++ after) written) :
    ∃ stream, tokenize (String.ofList (layout written ++ gap)) = .ok stream :=
  ⟨_, tokenize_layout hstopped.of_append (.closed hgap)⟩

/-- A character that stands for no token is none of the symbols. -/
theorem not_mem_of_symbol? {c : Char} (h : symbol? c = none) :
    c ∉ ['(', ')', '{', '}', ',', ';'] := by
  intro hc
  simp only [List.mem_cons, List.not_mem_nil, or_false] at hc
  rcases hc with rfl | rfl | rfl | rfl | rfl | rfl <;> cases h

/-- **What stops a scan** behind a layout and a gap is where the text is stuck. -/
theorem stuck_of_blocks {written : List Written} {gap bad : List Char} {f : Fault}
    (htext : text.toList = layout written ++ (gap ++ (bad ++ after)))
    (hstopped : Stopped (gap ++ (bad ++ after)) written) (hgap : Gap gap)
    (hbad : Blocks after bad f.cause)
    (hspan : f.span = .between (Position.start.advanceAll (layout written ++ gap))
      (Position.start.advanceAll (layout written ++ gap ++ bad))) : Stuck text f := by
  have hcut : Cut text f.span.start f.span.stop (layout written ++ gap) bad after := by
    refine ⟨by rw [htext, List.append_assoc], ?_, ?_⟩
    · rw [hspan]
      exact Position.start_advanceAll_offset _
    · rw [hspan]
      exact Position.start_advanceAll_offset _
  refine ⟨_, _, _, hcut, exists_tokenize_front hgap hstopped, ?_⟩
  obtain ⟨cause, span⟩ := f
  cases hbad with
  | @character c hblank hopens hstarts hsymbol =>
    obtain ⟨halpha, hunderscore⟩ := Bool.or_eq_false_iff.1 hstarts
    refine .inl ⟨c, rfl, halpha, by simpa using hunderscore, not_mem_of_symbol? hsymbol, hblank,
      fun h => ?_, rfl, rfl⟩
    rw [opensComment, h.2] at hopens
    rcases h.1 with rfl | rfl <;> cases hopens
  | word hword hstop hprocedural =>
    exact .inr ⟨longest_of_detached hword (detached_layout hgap hstopped hword) hstop, hprocedural,
      rfl, rfl⟩

/-! ## §6. Every text. -/

/-- **Tokens tile the text, and faults of a scan are exact.**  Where a text splits into tokens, they
and the gaps between them are all of it, each token covers its writing, a word among them is the
longest one around its place, and the end is told behind the text.  Where it does not, the text in
front of the fault does, and the fault covers exactly what no text may hold there. -/
theorem tokens_tile_text (text : String) :
    (∀ stream, tokenize text = .ok stream → Tiled text stream)
      ∧ ∀ f, tokenize text = .error f → Stuck text f := by
  rcases tokenize_cases text with ⟨written, last, htext, hstopped, hlast, hread⟩
    | ⟨written, gap, bad, rest, cause, htext, hstopped, hgap, hbad, hread⟩
  · rw [hread]
    refine ⟨fun stream h => ?_, fun f h => (by cases h)⟩
    cases h
    exact tiled_layout htext hstopped hlast
  · rw [hread]
    refine ⟨fun stream h => (by cases h), fun f h => ?_⟩
    cases h
    exact stuck_of_blocks htext hstopped hgap hbad (by rw [← Position.advanceAll_append])

/-- A label with a hyphen in it and a comment right behind it, and a procedural word with a hyphen
behind it that is no part of it. -/
theorem hyphens_tiling :
    (tokenize "NODE A-b--x\n; --é" = .ok
          ⟨[⟨.node, ⟨0, 4, 1, 1⟩⟩, ⟨.label "A-b", ⟨5, 8, 1, 6⟩⟩, ⟨.semicolon, ⟨12, 13, 2, 1⟩⟩],
            ⟨18, 18, 2, 6⟩⟩
        ∧ Tiled "NODE A-b--x\n; --é"
          ⟨[⟨.node, ⟨0, 4, 1, 1⟩⟩, ⟨.label "A-b", ⟨5, 8, 1, 6⟩⟩, ⟨.semicolon, ⟨12, 13, 2, 1⟩⟩],
            ⟨18, 18, 2, 6⟩⟩)
      ∧ tokenize "A,Step-(" = .error ⟨.proceduralWord "Step", ⟨2, 6, 1, 3⟩⟩
      ∧ Stuck "A,Step-(" ⟨.proceduralWord "Step", ⟨2, 6, 1, 3⟩⟩ := by
  have hread : tokenize "NODE A-b--x\n; --é" = .ok
      ⟨[⟨.node, ⟨0, 4, 1, 1⟩⟩, ⟨.label "A-b", ⟨5, 8, 1, 6⟩⟩, ⟨.semicolon, ⟨12, 13, 2, 1⟩⟩],
        ⟨18, 18, 2, 6⟩⟩ := by decide +kernel
  have hrefused : tokenize "A,Step-(" = .error ⟨.proceduralWord "Step", ⟨2, 6, 1, 3⟩⟩ := by
    decide +kernel
  obtain ⟨htiled, -⟩ := tokens_tile_text "NODE A-b--x\n; --é"
  obtain ⟨-, hstuck⟩ := tokens_tile_text "A,Step-("
  exact ⟨⟨hread, htiled _ hread⟩, hrefused, hstuck _ hrefused⟩

end Admissibility.Description
