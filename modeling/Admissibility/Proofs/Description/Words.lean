/-
  Admissibility.Proofs.Description.Words
  ──────────────────────────────────────
  **What printed words and symbols are read as.**

  A scan looks at most two characters ahead, so a piece of text is read the same wherever it stands,
  as long as what comes after it does not carry its last word on.  `Reads chars kinds after` says
  that a scan in a gap reads some characters in front of `after` as tokens of some kinds and is in a
  gap again behind them.  Pieces are read one after the other, so what a printed text is read as is
  put together from its parts.

  `reads_word`, `Reads.append`, `Reads.intercalate`: the pieces of a printed text.
  `tokenize_of_reads`: a whole text.
-/
import Admissibility.Description.Scan

namespace Admissibility.Description

open Admissibility.Text (Position Span isBlank)

variable {cs ds after : List Char} {kinds more : List Token.Kind}

/-! ## §1. Words. -/

/-- A word goes on at each of some characters, with those behind them and what comes after in
view. -/
def GoesOn : List Char → List Char → Prop
  | [], _ => True
  | c :: cs, after => wordGoesOn (c :: (cs ++ after)) = true ∧ GoesOn cs after

/-- Characters that are read as one word, however the text goes on after it. -/
def IsWord : List Char → Prop
  | [] => False
  | c :: cs => startsWord c = true ∧ GoesOn cs []

instance decidableGoesOn : (cs after : List Char) → Decidable (GoesOn cs after)
  | [], _ => .isTrue trivial
  | _ :: cs, after =>
    have := decidableGoesOn cs after
    inferInstanceAs (Decidable (_ ∧ _))

instance (cs : List Char) : Decidable (IsWord cs) :=
  match cs with
  | [] => .isFalse id
  | _ :: _ => inferInstanceAs (Decidable (_ ∧ _))

theorem startsWord_iff {c : Char} : startsWord c = true ↔
    (65 ≤ c.toNat ∧ c.toNat ≤ 90) ∨ (97 ≤ c.toNat ∧ c.toNat ≤ 122) ∨ c.toNat = 95 := by
  have hunderscore : c = '_' ↔ c.toNat = 95 := ⟨fun h => h ▸ rfl, fun h => Char.toNat_inj.1 h⟩
  show ((decide (c.val ≥ 'A'.val ∧ c.val ≤ 'Z'.val)
    || decide (c.val ≥ 'a'.val) && decide (c.val ≤ 'z'.val)) || c == '_') = true ↔ _
  simp only [Bool.or_eq_true, Bool.and_eq_true, decide_eq_true_eq, beq_iff_eq, hunderscore, or_assoc]
  rfl

theorem isWordChar_iff {c : Char} : isWordChar c = true ↔
    startsWord c = true ∨ (48 ≤ c.toNat ∧ c.toNat ≤ 57) := by
  have hdigit : c.isDigit = true ↔ 48 ≤ c.toNat ∧ c.toNat ≤ 57 := by
    simp only [Char.isDigit, Bool.and_eq_true, decide_eq_true_eq]
    rfl
  simp only [isWordChar, startsWord, Char.isAlphanum, Bool.or_eq_true, hdigit, or_right_comm]

theorem wordGoesOn_cons (c : Char) (rest : List Char) :
    wordGoesOn (c :: rest) = if c = '-' then rest.head?.any isWordChar else isWordChar c := by
  by_cases hc : c = '-'
  · subst hc
    cases rest <;> rfl
  · rw [if_neg hc]
    unfold wordGoesOn
    split
    · next h => exact absurd (List.cons.inj h).1 hc
    · next h => cases h; rfl
    · next h => cases h

theorem GoesOn.append (h : GoesOn cs []) (after : List Char) : GoesOn cs after := by
  induction cs with
  | nil => trivial
  | cons c cs ih =>
    obtain ⟨hc, hcs⟩ := h
    refine ⟨?_, ih hcs⟩
    rw [wordGoesOn_cons] at hc ⊢
    -- a hyphen has a character behind it already
    cases cs with
    | nil =>
      split at hc
      · cases hc
      · next hne => rw [if_neg hne, hc]
    | cons d cs => exact hc

/-- A word that is complete needs nothing of what comes after it. -/
theorem GoesOn.complete (h : GoesOn cs after) (hstop : wordGoesOn after = false) :
    GoesOn cs [] := by
  induction cs with
  | nil => trivial
  | cons c cs ih =>
    obtain ⟨hc, hcs⟩ := h
    refine ⟨?_, ih hcs⟩
    rw [wordGoesOn_cons] at hc ⊢
    cases cs with
    | cons d cs => exact hc
    | nil =>
      split at hc
      · -- a hyphen at the end would have a word character after it, with which the word goes on
        cases after with
        | nil => cases hc
        | cons d after =>
          have hd : isWordChar d = true := hc
          rw [wordGoesOn_cons] at hstop
          split at hstop
          · next hhyphen =>
            rw [hhyphen] at hd
            cases hd
          · rw [hd] at hstop
            cases hstop
      · next hne => rw [if_neg hne, hc]

/-- What carries a word on carries it on whatever comes behind. -/
theorem wordGoesOn_append (h : wordGoesOn cs = true) (after : List Char) :
    wordGoesOn (cs ++ after) = true := by
  cases cs with
  | nil => cases h
  | cons c cs =>
    rw [List.cons_append, wordGoesOn_cons]
    rw [wordGoesOn_cons] at h
    cases cs with
    | cons d cs => exact h
    | nil =>
      -- a hyphen alone carries nothing on
      split at h
      · cases h
      · next hne => rw [if_neg hne, h]

theorem goesOn_append_iff {more after : List Char} :
    GoesOn (cs ++ more) after ↔ GoesOn cs (more ++ after) ∧ GoesOn more after := by
  induction cs with
  | nil => exact ⟨fun h => ⟨trivial, h⟩, And.right⟩
  | cons c cs ih =>
    show wordGoesOn (c :: (cs ++ more ++ after)) = true ∧ GoesOn (cs ++ more) after
      ↔ (wordGoesOn (c :: (cs ++ (more ++ after))) = true ∧ GoesOn cs (more ++ after))
        ∧ GoesOn more after
    rw [ih, List.append_assoc, and_assoc]

/-- A word consists of word characters and hyphens. -/
theorem isWordChar_or_hyphen (h : IsWord cs) {c : Char} (hc : c ∈ cs) :
    isWordChar c = true ∨ c = '-' := by
  match cs, h with
  | first :: rest, ⟨hfirst, hrest⟩ =>
    rcases List.mem_cons.1 hc with rfl | hc
    · exact .inl (isWordChar_iff.2 (.inl hfirst))
    · obtain ⟨before, behind, rfl⟩ := List.append_of_mem hc
      -- the word goes on at the character
      have hgoes : wordGoesOn (c :: (behind ++ [])) = true := (goesOn_append_iff.1 hrest).2.1
      rw [wordGoesOn_cons] at hgoes
      split at hgoes
      · next hhyphen => exact .inr hhyphen
      · exact .inl hgoes

/-! ## §2. Reading on. -/

/-- The rest of a word is read, and its last letter completes it or not. -/
theorem scan_letters {start : Position} {letters : List Char} (hcs : GoesOn cs after) (p : Position)
    (done : List Token) :
    ((letter start letters p (cs ++ after)).bind fun (mode, token?) =>
        scan mode p (token?.toList ++ done) (cs ++ after))
      = (letter start (cs.reverse ++ letters) (p.advanceAll cs) after).bind fun (mode, token?) =>
        scan mode (p.advanceAll cs) (token?.toList ++ done) after := by
  -- by the rest of the word, which the letters before it grow by
  induction cs generalizing letters p with
  | nil => rfl
  | cons c cs ih =>
    obtain ⟨hc, hrest⟩ := hcs
    have hletter : letter start letters p (c :: cs ++ after) = .ok (.word start letters, none) := by
      rw [letter, List.cons_append, if_pos hc]
    rw [hletter]
    show scan (.word start letters) p done (c :: (cs ++ after)) = _
    rw [scan_cons, List.reverse_cons, List.append_assoc, List.singleton_append]
    exact ih hrest (p.advance c)

theorem scan_blank {c : Char} (hc : isBlank c = true) (p : Position) (done : List Token)
    (after : List Char) : scan .gap p done (c :: after) = scan .gap (p.advance c) done after := by
  rw [scan_cons, step, if_pos hc]
  rfl

theorem scan_symbol {c : Char} {kind : Token.Kind} (hc : symbol? c = some kind) (p : Position)
    (done : List Token) (after : List Char) : scan .gap p done (c :: after)
      = scan .gap (p.advance c) (⟨kind, .between p (p.advance c)⟩ :: done) after := by
  -- none of the symbols is white space, opens a comment or starts a word
  have hplain : isBlank c = false ∧ opensComment c after = false ∧ startsWord c = false := by
    unfold symbol? at hc
    split at hc
    all_goals
      first
        | exact ⟨by decide, rfl, by decide⟩
        | cases hc
  obtain ⟨hblank, hcomment, hword⟩ := hplain
  simp only [scan_cons, step, hblank, hcomment, hword, hc]
  rfl

/-- White space is no part of a word. -/
theorem not_isWordChar_of_isBlank {c : Char} (hc : isBlank c = true) :
    isWordChar c = false ∧ c ≠ '-' := by
  simp only [isBlank, Text.blankRanges, List.any_cons, List.any_nil, Bool.or_eq_true,
    Bool.and_eq_true, decide_eq_true_eq, Bool.or_false] at hc
  refine ⟨?_, ?_⟩
  · rw [← Bool.not_eq_true, isWordChar_iff, startsWord_iff]
    omega
  · rintro rfl
    revert hc
    decide

/-- The first character of a word is no white space and opens no comment. -/
theorem plain_of_startsWord {c : Char} (hc : startsWord c = true) (rest : List Char) :
    isBlank c = false ∧ opensComment c rest = false := by
  refine ⟨?_, ?_⟩
  · rw [← Bool.not_eq_true]
    intro hblank
    have hno := (not_isWordChar_of_isBlank hblank).1
    rw [isWordChar_iff.2 (.inl hc)] at hno
    cases hno
  · have hslash : c ≠ '/' := by
      rintro rfl
      revert hc
      decide
    have hhyphen : c ≠ '-' := by
      rintro rfl
      revert hc
      decide
    simp [opensComment, hslash, hhyphen]

/-- **A word** is read to its end, where nothing carries it on, and makes its token or the fault. -/
theorem scan_word {word : List Char} (hword : IsWord word) (hstop : wordGoesOn after = false)
    (p : Position) (done : List Token) : scan .gap p done (word ++ after) =
      match Token.Kind.ofWord? (String.ofList word) with
      | some kind =>
        scan .gap (p.advanceAll word) (⟨kind, .between p (p.advanceAll word)⟩ :: done) after
      | none => .error ⟨.proceduralWord (String.ofList word), .between p (p.advanceAll word)⟩ := by
  match word, hword with
  | c :: cs, ⟨hc, hcs⟩ =>
    obtain ⟨hblank, hcomment⟩ := plain_of_startsWord hc (cs ++ after)
    have hspelled : (cs.reverse ++ [c]).reverse = c :: cs := by simp
    show scan .gap p done (c :: (cs ++ after)) = _
    simp only [scan_cons, step, hblank, hcomment, hc]
    refine (scan_letters (hcs.append after) (p.advance c) done).trans ?_
    simp only [letter, hstop, hspelled]
    cases Token.Kind.ofWord? (String.ofList (c :: cs)) <;> rfl

/-! ## §3. Pieces of a text. -/

/-- A scan in a gap reads some characters as tokens of some kinds, and is in a gap behind them. -/
def Reads (chars : List Char) (kinds : List Token.Kind) (after : List Char) : Prop :=
  ∀ (p : Position) (done : List Token), ∃ tokens : List Token, tokens.map Token.kind = kinds
    ∧ scan .gap p done (chars ++ after)
      = scan .gap (p.advanceAll chars) (tokens.reverse ++ done) after

theorem Reads.nil (after : List Char) : Reads [] [] after := fun _ _ => ⟨[], rfl, rfl⟩

/-- **One after the other**: two pieces are read as the tokens of the first and then those of the
second. -/
theorem Reads.append (h : Reads cs kinds (ds ++ after)) (h' : Reads ds more after) :
    Reads (cs ++ ds) (kinds ++ more) after := by
  intro p done
  obtain ⟨tokens, hkinds, hscan⟩ := h p done
  obtain ⟨tokens', hkinds', hscan'⟩ := h' (p.advanceAll cs) (tokens.reverse ++ done)
  refine ⟨tokens ++ tokens', by rw [List.map_append, hkinds, hkinds'], ?_⟩
  rw [List.append_assoc, hscan, hscan', Position.advanceAll_append, List.reverse_append,
    List.append_assoc]

theorem reads_blank {c : Char} (hc : isBlank c = true) (after : List Char) : Reads [c] [] after :=
  fun p done => ⟨[], rfl, scan_blank hc p done after⟩

theorem reads_symbol {c : Char} {kind : Token.Kind} (hc : symbol? c = some kind)
    (after : List Char) : Reads [c] [kind] after :=
  fun p done => ⟨[_], rfl, scan_symbol hc p done after⟩

/-- **A word** is read as its token where nothing carries it on. -/
theorem reads_word {word : String} {kind : Token.Kind} (hword : IsWord word.toList)
    (hkind : Token.Kind.ofWord? word = some kind) (hstop : wordGoesOn after = false) :
    Reads word.toList [kind] after := by
  intro p done
  refine ⟨[⟨kind, .between p (p.advanceAll word.toList)⟩], rfl, ?_⟩
  rw [scan_word hword hstop, String.ofList_toList, hkind]
  rfl

/-- Pieces with separators between them. -/
theorem Reads.intercalate {α : Type} {separator : List Char} {mark : List Token.Kind}
    {chars : α → List Char} {kinds : α → List Token.Kind} {list : List α}
    (hseparator : ∀ after, Reads separator mark after)
    (hends : ∀ after, wordGoesOn (separator ++ after) = false)
    (hlist : ∀ a ∈ list, ∀ after, wordGoesOn after = false → Reads (chars a) (kinds a) after)
    (hstop : wordGoesOn after = false) :
    Reads (separator.intercalate (list.map chars)) (mark.intercalate (list.map kinds)) after := by
  induction list with
  | nil => exact .nil after
  | cons a rest ih =>
    have hrest := ih fun b hb => hlist b (List.mem_cons_of_mem _ hb)
    have hhead := hlist a List.mem_cons_self
    cases rest with
    | nil =>
      rw [List.map_singleton, List.map_singleton, List.intercalate_singleton,
        List.intercalate_singleton]
      exact hhead after hstop
    | cons b rest =>
      rw [List.map_cons, List.map_cons, List.map_cons, List.map_cons, List.intercalate_cons_cons,
        List.intercalate_cons_cons]
      exact .append (.append (hhead _ (hends _)) (hseparator _)) hrest

/-- **A whole text** that is read as some kinds splits into tokens of these kinds. -/
theorem tokenize_of_reads {text : String} (h : Reads text.toList kinds []) :
    ∃ stream, tokenize text = .ok stream ∧ stream.tokens.map Token.kind = kinds := by
  obtain ⟨tokens, hkinds, hscan⟩ := h .start []
  rw [List.append_nil] at hscan
  refine ⟨_, hscan, ?_⟩
  rw [List.append_nil, List.reverse_reverse]
  exact hkinds

/-! ## §4. Names that can be read. -/

/-- A name that is read as a label. -/
structure ReadableName (name : String) : Prop where
  isWord : IsWord name.toList
  ofWord? : Token.Kind.ofWord? name = some (.label name)

theorem ReadableName.ne_empty {name : String} (h : ReadableName name) : name ≠ "" := by
  intro hempty
  have hword := h.isWord
  rw [hempty] at hword
  exact hword

/-- A token whose label, if it is one, is read as this label. -/
def Token.Readable (t : Token) : Prop := ∀ name, t.kind = .label name → ReadableName name

end Admissibility.Description
