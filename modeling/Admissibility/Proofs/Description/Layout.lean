/-
  Admissibility.Proofs.Description.Layout
  ───────────────────────────────────────
  **A text is its tokens with gaps between them.**

  A layout is a list of tokens, each with a gap in front of it and a writing of its own.  A scan
  goes through a layout token by token and gives each of them at its place, as long as no word is
  carried on by what comes behind it.  And every text begins with such a layout: it ends behind it,
  or there stands a character or a word that no text may hold, which is the fault.

  `scan_gap`, `scan_layout`: what a scan makes of gaps and of a layout.
  `exists_layout`: the layout that a text begins with.
  `tokenize_cases`: what becomes of a text.
  `lexing_undoes_layout`: gaps and the case of keywords do not matter.
-/
import Mathlib.Data.List.Chain
import Admissibility.Proofs.Description.Lexicon
import Admissibility.Proofs.Description.Unplaced

namespace Admissibility.Description

open Admissibility.Text (Position Span isBlank)

variable {cs after : List Char}

/-! ## §1. Scanning gaps. -/

/-- Inside a comment everything is skipped up to the end of the line. -/
theorem scan_line (h : '\n' ∉ cs) (p : Position) (done : List Token) (after : List Char) :
    scan .comment p done (cs ++ after) = scan .comment (p.advanceAll cs) done after := by
  induction cs generalizing p with
  | nil => rfl
  | cons c cs ih =>
    obtain ⟨hc, hcs⟩ := not_or.1 (mt List.mem_cons.2 h)
    rw [List.cons_append, scan_cons, step, if_neg (Ne.symm hc)]
    exact ih hcs (p.advance c)

theorem scan_comment (h : IsComment cs) (p : Position) (done : List Token) (after : List Char) :
    scan .gap p done (cs ++ after) = scan .comment (p.advanceAll cs) done after := by
  cases h with
  | @intro mark line hmark hline =>
    have hopens : opensComment mark (mark :: line ++ after) = true :=
      opensComment_iff.2 ⟨hmark, line ++ after, rfl⟩
    have hblank : isBlank mark = false := by rcases hmark with rfl | rfl <;> decide
    have hfeed : mark ≠ '\n' := by rcases hmark with rfl | rfl <;> decide
    -- the second mark is skipped like the rest of the line
    have hmore : '\n' ∉ mark :: line := by simp [hfeed.symm, hline]
    rw [List.cons_append, scan_cons, step, hblank, hopens]
    exact scan_line hmore (p.advance mark) done after

/-- **A gap** is skipped. -/
theorem scan_gap (h : Gap cs) (p : Position) (done : List Token) (after : List Char) :
    scan .gap p done (cs ++ after) = scan .gap (p.advanceAll cs) done after := by
  induction h generalizing p with
  | nil => rfl
  | blank hc _ ih => exact (scan_blank hc p done _).trans (ih _)
  | @comment comment gap hcomment _ ih =>
    rw [List.append_assoc, scan_comment hcomment, List.cons_append, scan_cons, step, if_pos rfl,
      Position.advanceAll_append]
    exact ih _

/-- What may stand behind the last token is skipped to the end. -/
theorem scan_lastGap (h : LastGap cs) (p : Position) (done : List Token) :
    scan .gap p done cs = .ok ⟨done.reverse, .empty (p.advanceAll cs)⟩ := by
  cases h with
  | closed hgap =>
    rw [← List.append_nil cs, scan_gap hgap, List.append_nil]
    rfl
  | @unclosed gap comment hgap hcomment =>
    rw [scan_gap hgap, ← List.append_nil comment, scan_comment hcomment, List.append_nil,
      Position.advanceAll_append]
    rfl

/-! ## §2. Scanning a layout. -/

/-- A token as it stands in a text: the gap in front of it, and how it is written. -/
structure Written where
  gap : List Char
  kind : Token.Kind
  chars : List Char
  isGap : Gap gap
  writes : kind.Writes chars

/-- The characters of some tokens with their gaps. -/
def layout (tokens : List Written) : List Char := tokens.flatMap fun w => w.gap ++ w.chars

/-- Some tokens at the places where they stand, from a place on. -/
def placed (p : Position) : List Written → List Token
  | [] => []
  | w :: rest =>
    let first := p.advanceAll w.gap
    let last := first.advanceAll w.chars
    ⟨w.kind, .between first last⟩ :: placed last rest

/-- No word among some tokens is carried on by what comes behind it, with some more characters
behind the last of them. -/
def Stopped (after : List Char) : List Written → Prop
  | [] => True
  | w :: rest =>
    (w.kind.isWord = true → wordGoesOn (layout rest ++ after) = false) ∧ Stopped after rest

theorem layout_cons_append (w : Written) (tokens : List Written) (after : List Char) :
    layout (w :: tokens) ++ after = w.gap ++ (w.chars ++ (layout tokens ++ after)) := by
  simp [layout]

theorem advanceAll_layout_cons (p : Position) (w : Written) (tokens : List Written) :
    p.advanceAll (layout (w :: tokens))
      = ((p.advanceAll w.gap).advanceAll w.chars).advanceAll (layout tokens) := by
  simp [layout, Position.advanceAll_append]

theorem map_kind_placed (p : Position) (tokens : List Written) :
    (placed p tokens).map Token.kind = tokens.map Written.kind := by
  induction tokens generalizing p with
  | nil => rfl
  | cons w rest ih => exact congrArg (w.kind :: ·) (ih _)

/-- **A token** is read at its place, where nothing carries it on. -/
theorem scan_writing {kind : Token.Kind} (h : kind.Writes cs)
    (hstop : kind.isWord = true → wordGoesOn after = false) (p : Position) (done : List Token) :
    scan .gap p done (cs ++ after)
      = scan .gap (p.advanceAll cs) (⟨kind, .between p (p.advanceAll cs)⟩ :: done) after := by
  cases hkind : kind.isWord with
  | true =>
    obtain ⟨hword, hread⟩ := (writes_word_iff hkind).1 h
    rw [scan_word hword (hstop hkind), hread]
  | false =>
    obtain ⟨c, rfl, hc⟩ := (writes_symbol_iff hkind).1 h
    exact scan_symbol hc p done after

/-- **A layout** is read as its tokens, each at its place. -/
theorem scan_layout {tokens : List Written} (h : Stopped after tokens) (p : Position)
    (done : List Token) : scan .gap p done (layout tokens ++ after)
      = scan .gap (p.advanceAll (layout tokens)) ((placed p tokens).reverse ++ done) after := by
  induction tokens generalizing p done with
  | nil => rfl
  | cons w rest ih =>
    obtain ⟨hstop, hrest⟩ := h
    rw [layout_cons_append, scan_gap w.isGap, scan_writing w.writes hstop, ih hrest,
      advanceAll_layout_cons]
    simp [placed]

/-! ## §3. Every text. -/

/-- What stops a scan in a gap, with what stands behind it: a character that begins no token, or a
procedural word. -/
inductive Blocks (after : List Char) : List Char → Cause → Prop
  | character {c : Char} : isBlank c = false → opensComment c after = false →
      startsWord c = false → symbol? c = none → Blocks after [c] (.unexpectedCharacter c)
  | word {word : List Char} : IsWord word → wordGoesOn after = false →
      (String.ofList word).toLower ∈ proceduralWords →
      Blocks after word (.proceduralWord (String.ofList word))

/-- **What stops a scan** is the fault. -/
theorem scan_blocks {cause : Cause} (h : Blocks after cs cause) (p : Position) (done : List Token) :
    scan .gap p done (cs ++ after) = .error ⟨cause, .between p (p.advanceAll cs)⟩ := by
  cases h with
  | character hblank hopens hstarts hsymbol =>
    rw [List.singleton_append, scan_cons, step, hblank, hopens, hstarts, hsymbol]
    rfl
  | word hword hstop hprocedural => rw [scan_word hword hstop, ofWord?_eq_none_iff.2 hprocedural]

/-- What may stand behind a layout that cannot be made longer: the end of the text, or a gap and
something that stops the scan. -/
def Final (cs : List Char) : Prop :=
  LastGap cs ∨ ∃ gap bad rest cause, cs = gap ++ (bad ++ rest) ∧ Gap gap ∧ Blocks rest bad cause

/-- The longest word at the beginning of a text. -/
theorem exists_word {c : Char} (hc : startsWord c = true) (cs : List Char) :
    ∃ word rest, c :: cs = word ++ rest ∧ IsWord word ∧ wordGoesOn rest = false := by
  have hlongest : ∃ more rest, cs = more ++ rest ∧ GoesOn more rest ∧ wordGoesOn rest = false := by
    induction cs with
    | nil => exact ⟨[], [], rfl, trivial, rfl⟩
    | cons d cs ih =>
      cases hd : wordGoesOn (d :: cs) with
      | false => exact ⟨[], d :: cs, rfl, trivial, hd⟩
      | true =>
        obtain ⟨more, rest, rfl, hmore, hstop⟩ := ih
        exact ⟨d :: more, rest, rfl, ⟨hd, hmore⟩, hstop⟩
  obtain ⟨more, rest, rfl, hmore, hstop⟩ := hlongest
  exact ⟨c :: more, rest, rfl, ⟨hc, hmore.complete hstop⟩, hstop⟩

/-- Behind a gap stands a token, or something that stops the scan. -/
theorem exists_writing {c : Char} {more : List Char} (hblank : isBlank c = false)
    (hopens : opensComment c more = false) :
    (∃ (kind : Token.Kind) (chars rest : List Char), c :: more = chars ++ rest ∧ chars ≠ []
        ∧ kind.Writes chars ∧ (kind.isWord = true → wordGoesOn rest = false))
      ∨ ∃ bad rest cause, c :: more = bad ++ rest ∧ Blocks rest bad cause := by
  by_cases hstarts : startsWord c = true
  · obtain ⟨word, rest, hsplit, hword, hstop⟩ := exists_word hstarts more
    cases hread : Token.Kind.ofWord? (String.ofList word) with
    | none =>
      exact .inr ⟨word, rest, _, hsplit, .word hword hstop (ofWord?_eq_none_iff.1 hread)⟩
    | some kind =>
      have hwrites := (writes_word_iff (isWord_of_ofWord? hread)).2 ⟨hword, hread⟩
      refine .inl ⟨kind, word, rest, hsplit, ?_, hwrites, fun _ => hstop⟩
      rintro rfl
      exact hword
  · cases hsymbol : symbol? c with
    | none =>
      have hno := Bool.eq_false_iff.2 hstarts
      exact .inr ⟨[c], more, _, rfl, .character hblank hopens hno hsymbol⟩
    | some kind =>
      have hkind := isWord_of_symbol? hsymbol
      have hwrites := (writes_symbol_iff hkind).2 ⟨c, rfl, hsymbol⟩
      refine .inl ⟨kind, [c], more, rfl, List.cons_ne_nil _ _, hwrites, fun hword => ?_⟩
      rw [hkind] at hword
      cases hword

/-- **The layout that a text begins with.** -/
theorem exists_layout (cs : List Char) :
    ∃ tokens left, cs = layout tokens ++ left ∧ Stopped left tokens ∧ Final left := by
  obtain ⟨gap, left, rfl, hgap, rfl | hcomment | ⟨c, more, rfl, hblank, hopens⟩⟩ := exists_gap cs
  · exact ⟨[], gap ++ [], rfl, trivial, .inl (.closed (by simpa using hgap))⟩
  · exact ⟨[], gap ++ left, rfl, trivial, .inl (.unclosed hgap hcomment)⟩
  rcases exists_writing hblank hopens with ⟨kind, chars, rest, hsplit, hne, hwrites, hstop⟩
    | ⟨bad, rest, cause, hsplit, hbad⟩
  · have hshorter : rest.length < (gap ++ c :: more).length := by
      have := List.length_pos_iff.2 hne
      rw [hsplit]
      simp only [List.length_append]
      omega
    obtain ⟨tokens, left, rfl, hstopped, hfinal⟩ := exists_layout rest
    refine ⟨⟨gap, kind, chars, hgap, hwrites⟩ :: tokens, left, ?_, ⟨hstop, hstopped⟩, hfinal⟩
    rw [layout_cons_append, hsplit]
  · have hfinal : Final (gap ++ c :: more) := .inr ⟨gap, bad, rest, cause, by rw [hsplit], hgap, hbad⟩
    exact ⟨[], gap ++ c :: more, rfl, trivial, hfinal⟩
termination_by cs.length

/-- A text that is a layout to its end splits into the tokens of the layout. -/
theorem tokenize_layout {tokens : List Written} {last : List Char} (hstopped : Stopped last tokens)
    (hlast : LastGap last) : tokenize (String.ofList (layout tokens ++ last))
      = .ok ⟨placed .start tokens, .empty (Position.start.advanceAll (layout tokens ++ last))⟩ := by
  rw [tokenize, String.toList_ofList, scan_layout hstopped, scan_lastGap hlast,
    List.append_nil, List.reverse_reverse, Position.advanceAll_append]

/-- **What becomes of a text**: it splits into the tokens of a layout with the empty span at its
end, or is refused for what stands behind a layout and a gap. -/
theorem tokenize_cases (text : String) :
    (∃ tokens last, text.toList = layout tokens ++ last ∧ Stopped last tokens ∧ LastGap last
      ∧ tokenize text
          = .ok ⟨placed .start tokens, .empty (Position.start.advanceAll text.toList)⟩)
    ∨ ∃ tokens gap bad rest cause, text.toList = layout tokens ++ (gap ++ (bad ++ rest))
      ∧ Stopped (gap ++ (bad ++ rest)) tokens ∧ Gap gap ∧ Blocks rest bad cause
      ∧ let p := Position.start.advanceAll (layout tokens ++ gap)
        tokenize text = .error ⟨cause, .between p (p.advanceAll bad)⟩ := by
  obtain ⟨tokens, left, hsplit, hstopped, hlast | ⟨gap, bad, rest, cause, rfl, hgap, hbad⟩⟩ :=
    exists_layout text.toList
  · refine .inl ⟨tokens, left, hsplit, hstopped, hlast, ?_⟩
    rw [hsplit, ← tokenize_layout hstopped hlast, ← hsplit, String.ofList_toList]
  · refine .inr ⟨tokens, gap, bad, rest, cause, hsplit, hstopped, hgap, hbad, ?_⟩
    rw [tokenize, hsplit, scan_layout hstopped, scan_gap hgap, Position.advanceAll_append]
    exact scan_blocks hbad _ _

/-- A text that splits into tokens is a layout of them. -/
theorem exists_layout_of_tokenize {text : String} {stream : TokenStream}
    (h : tokenize text = .ok stream) :
    ∃ written last, text.toList = layout written ++ last
      ∧ stream = ⟨placed .start written, .empty (Position.start.advanceAll text.toList)⟩ := by
  rcases tokenize_cases text with ⟨written, last, hsplit, -, -, hread⟩
    | ⟨_, _, _, _, _, -, -, -, -, hread⟩
  · rw [h] at hread
    cases hread
    exact ⟨written, last, hsplit, rfl⟩
  · rw [h] at hread
    cases hread

theorem readable_of_writes {name : String} (h : (Token.Kind.label name).Writes cs) :
    ReadableName name := by
  obtain ⟨hword, hread⟩ := (writes_word_iff rfl).1 h
  cases h with
  | label _ _ _ =>
    rw [String.ofList_toList] at hread
    exact ⟨hword, hread⟩

/-- **The labels of a text** are words that are read as these labels again. -/
theorem readable_of_tokenize {text : String} {stream : TokenStream}
    (h : tokenize text = .ok stream) : ∀ t ∈ stream.tokens, t.Readable := by
  obtain ⟨written, last, -, rfl⟩ := exists_layout_of_tokenize h
  intro t ht name hname
  have hkind : t.kind ∈ written.map Written.kind := by
    rw [← map_kind_placed .start written]
    exact List.mem_map_of_mem ht
  obtain ⟨w, -, hw⟩ := List.mem_map.1 hkind
  have hwrites := w.writes
  rw [hw, hname] at hwrites
  exact readable_of_writes hwrites

/-! ## §4. Lexing undoes layout. -/

/-- Two words one after the other have a gap between them. -/
def Apart (tokens : List Written) : Prop :=
  tokens.IsChain fun u v => u.kind.isWord = true → v.kind.isWord = true → v.gap ≠ []

/-- A gap is enough to complete a word, and so is a symbol. -/
theorem stopped_of_apart {tokens : List Written} {last : List Char} (h : Apart tokens)
    (hlast : LastGap last) : Stopped last tokens := by
  induction tokens with
  | nil => trivial
  | cons u rest ih =>
    cases rest with
    | nil => exact ⟨fun _ => hlast.stops, trivial⟩
    | cons v rest =>
      obtain ⟨hgap, hrest⟩ := List.isChain_cons_cons.1 h
      refine ⟨fun hu => ?_, ih hrest⟩
      rw [layout_cons_append]
      by_cases hnil : v.gap = []
      · -- nothing is between the two, so the second is no word
        have hsymbol : v.kind.isWord = false := Bool.eq_false_iff.2 fun hv => hgap hu hv hnil
        rw [hnil]
        exact stops_of_symbol hsymbol v.writes _
      · exact v.isGap.stops hnil _

/-- **Lexing undoes layout.**  Any tokens, written one after the other with any gaps in front of
them and behind the last, but some gap between two words, make a text that splits into exactly
these tokens, with the end of the text behind them.  And what the text is read as, or why it is
refused, is the same for any other writings and gaps of the same tokens. -/
theorem lexing_undoes_layout (tokens : List Written) (last : List Char) (hapart : Apart tokens)
    (hlast : LastGap last) :
    (∃ stream, tokenize (String.ofList (layout tokens ++ last)) = .ok stream
        ∧ stream.tokens.map Token.kind = tokens.map Written.kind
        ∧ stream.stop = .empty (Position.start.advanceAll (layout tokens ++ last)))
      ∧ ∀ (others : List Written) (last' : List Char), Apart others → LastGap last' →
          others.map Written.kind = tokens.map Written.kind →
          outcome (ofText (String.ofList (layout others ++ last')))
            = outcome (ofText (String.ofList (layout tokens ++ last))) := by
  have hread : ∀ (tokens : List Written) (last : List Char), Apart tokens → LastGap last →
      ∃ stream, tokenize (String.ofList (layout tokens ++ last)) = .ok stream
        ∧ stream.tokens.map Token.kind = tokens.map Written.kind
        ∧ stream.stop = .empty (Position.start.advanceAll (layout tokens ++ last)) :=
    fun tokens last hapart hlast =>
      ⟨_, tokenize_layout (stopped_of_apart hapart hlast) hlast, map_kind_placed _ _, rfl⟩
  refine ⟨hread tokens last hapart hlast, fun others last' hapart' hlast' hkinds => ?_⟩
  obtain ⟨stream, hstream, hstreamKinds, -⟩ := hread tokens last hapart hlast
  obtain ⟨other, hother, hotherKinds, -⟩ := hread others last' hapart' hlast'
  rw [ofText_eq_ofTokens hstream, ofText_eq_ofTokens hother]
  exact outcome_eq_of_kinds (by rw [hotherKinds, hkinds, hstreamKinds])

/-- `outer-ring` with a gap in front of it. -/
def outerRing (gap : List Char) (isGap : Gap gap) : Written where
  gap := gap
  kind := .label "outer-ring"
  chars := "outer-ring".toList
  isGap := isGap
  writes := .label (isLabel_iff.2 (by decide)) (by decide +kernel) (by decide +kernel)

/-- `node outer-ring;` -/
def spaced : List Written :=
  [⟨[], .node, "node".toList, .nil, .node (by decide +kernel)⟩,
    outerRing [' '] (.blank (by decide) .nil), ⟨[], .semicolon, [';'], .nil, .semicolon⟩]

/-- `NoDe--all` and `outer-ring;` on the next line: the comment follows the keyword at once. -/
def commented : List Written :=
  [⟨[], .node, "NoDe".toList, .nil, .node (by decide +kernel)⟩,
    outerRing ("--all".toList ++ ['\n']) (.comment (.intro (.inr rfl) (by decide)) .nil),
    ⟨[], .semicolon, [';'], .nil, .semicolon⟩]

theorem spaced_lexing :
    (∃ stream, tokenize "NoDe--all\nouter-ring;// done" = .ok stream
        ∧ stream.tokens.map Token.kind = [.node, .label "outer-ring", .semicolon]
        ∧ stream.stop = ⟨28, 28, 2, 19⟩)
      ∧ outcome (ofText "node outer-ring;") = outcome (ofText "NoDe--all\nouter-ring;// done") := by
  have hdone : IsComment "// done".toList := .intro (.inl rfl) (by decide)
  obtain ⟨⟨stream, hstream, hkinds, hstop⟩, hsame⟩ := lexing_undoes_layout commented
    "// done".toList (by simp [Apart, commented, outerRing, Token.Kind.isWord]) (.unclosed .nil hdone)
  have hlayout : String.ofList (layout commented ++ "// done".toList)
      = "NoDe--all\nouter-ring;// done" := by decide +kernel
  have hplain : String.ofList (layout spaced ++ []) = "node outer-ring;" := by decide +kernel
  have hothers := hsame spaced [] (by simp [Apart, spaced, outerRing, Token.Kind.isWord])
    (.closed .nil) rfl
  rw [hplain, hlayout] at hothers
  rw [hlayout] at hstream
  exact ⟨⟨stream, hstream, hkinds, hstop⟩, hothers⟩

end Admissibility.Description
