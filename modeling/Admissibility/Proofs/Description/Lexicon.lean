/-
  Admissibility.Proofs.Description.Lexicon
  ────────────────────────────────────────
  **How tokens and the gaps between them are written.**

  A symbol is written as itself, a keyword in any case of its letters, and a label as it is, in the
  form of a word that is neither a keyword nor a procedural word.  Between tokens stand white space
  and comments, each of which goes on to the end of its line.

  `isLabel_iff`: the form of a label, and what is read as one word.
  `keyword?_eq_some_iff`, `relation?_keyword?`: the table of keywords, and the relations in it.
  `writes_word_iff`, `writes_symbol_iff`: the writings of tokens, and what is read as a token.
  `Gap.stops`: nothing of a gap carries a word on.
  `exists_gap`: any text begins with a gap that cannot be made longer.
-/
import Admissibility.Proofs.Description.Words

namespace Admissibility.Description

open Admissibility.Text (isBlank)

variable {cs after : List Char}

/-! ## §1. Words. -/

/-- The form of a label, `[A-Za-z_][A-Za-z0-9_]*(-[A-Za-z0-9_]+)*`: a letter or an underscore, word
characters, and groups of word characters with a hyphen in front of each. -/
def IsLabel (cs : List Char) : Prop :=
  ∃ (first : Char) (more : List Char) (groups : List (List Char)),
    cs = first :: (more ++ groups.flatMap ('-' :: ·)) ∧ startsWord first = true
      ∧ (∀ c ∈ more, isWordChar c = true) ∧ ∀ g ∈ groups, g ≠ [] ∧ ∀ c ∈ g, isWordChar c = true

theorem not_isWordChar_hyphen : isWordChar '-' = false := by decide

/-- Word characters carry a word on. -/
theorem goesOn_append {more : List Char} (hmore : ∀ c ∈ more, isWordChar c = true)
    (h : GoesOn cs after) : GoesOn (more ++ cs) after := by
  induction more with
  | nil => exact h
  | cons c more ih =>
    obtain ⟨hc, hmore⟩ := List.forall_mem_cons.1 hmore
    refine ⟨?_, ih hmore⟩
    rw [wordGoesOn_cons]
    split
    · next hhyphen =>
      rw [hhyphen, not_isWordChar_hyphen] at hc
      cases hc
    · exact hc

theorem goesOn_groups {groups : List (List Char)}
    (hgroups : ∀ g ∈ groups, g ≠ [] ∧ ∀ c ∈ g, isWordChar c = true) :
    GoesOn (groups.flatMap ('-' :: ·)) [] := by
  induction groups with
  | nil => trivial
  | cons g groups ih =>
    obtain ⟨⟨hne, hg⟩, hgroups⟩ := List.forall_mem_cons.1 hgroups
    rw [List.flatMap_cons, List.cons_append]
    refine ⟨?_, goesOn_append hg (ih hgroups)⟩
    -- a word character comes behind the hyphen
    obtain ⟨c, g, rfl⟩ := List.exists_cons_of_ne_nil hne
    exact hg c List.mem_cons_self

/-- What carries a word on splits at its hyphens. -/
theorem groups_of_goesOn (h : GoesOn cs []) : ∃ (more : List Char) (groups : List (List Char)),
    cs = more ++ groups.flatMap ('-' :: ·) ∧ (∀ c ∈ more, isWordChar c = true)
      ∧ ∀ g ∈ groups, g ≠ [] ∧ ∀ c ∈ g, isWordChar c = true := by
  have not_hyphen := not_isWordChar_hyphen
  induction cs with
  | nil => exact ⟨[], [], rfl, by simp, by simp⟩
  | cons c cs ih =>
    obtain ⟨hc, hcs⟩ := h
    obtain ⟨more, groups, rfl, hmore, hgroups⟩ := ih hcs
    rw [wordGoesOn_cons] at hc
    split at hc
    · next hhyphen =>
      subst hhyphen
      refine ⟨[], more :: groups, rfl, by simp, List.forall_mem_cons.2 ⟨⟨?_, hmore⟩, hgroups⟩⟩
      rintro rfl
      -- the hyphen would have another one behind it, or nothing
      cases groups with
      | nil => cases hc
      | cons g groups =>
        rw [show isWordChar '-' = true from hc] at not_hyphen
        cases not_hyphen
    · exact ⟨c :: more, groups, rfl, List.forall_mem_cons.2 ⟨hc, hmore⟩, hgroups⟩

/-- **The form of a label** is that of one word. -/
theorem isLabel_iff : IsLabel cs ↔ IsWord cs := by
  constructor
  · rintro ⟨first, more, groups, rfl, hfirst, hmore, hgroups⟩
    exact ⟨hfirst, goesOn_append hmore (goesOn_groups hgroups)⟩
  · intro h
    match cs, h with
    | c :: cs, ⟨hc, hcs⟩ =>
      obtain ⟨more, groups, rfl, hmore, hgroups⟩ := groups_of_goesOn hcs
      exact ⟨c, more, groups, rfl, hc, hmore, hgroups⟩

/-! ## §2. The case of letters. -/

theorem toNat_toLower (c : Char) : c.toLower.toNat
    = if 65 ≤ c.toNat ∧ c.toNat ≤ 90 then c.toNat + 32 else c.toNat := by
  have hupper : (c.val ≥ 'A'.val ∧ c.val ≤ 'Z'.val) ↔ (65 ≤ c.toNat ∧ c.toNat ≤ 90) := Iff.rfl
  unfold Char.toLower
  split
  · next h =>
    rw [if_pos (hupper.1 h)]
    have hle : c.val.toNat ≤ 90 := (hupper.1 h).2
    show (c.val + ('a'.val - 'A'.val)).toNat = c.val.toNat + 32
    rw [UInt32.toNat_add]
    show (c.val.toNat + 32) % 4294967296 = _
    omega
  · next h => rw [if_neg fun h' => h (hupper.2 h')]

theorem startsWord_toLower (c : Char) : startsWord c.toLower = startsWord c := by
  rw [Bool.eq_iff_iff, startsWord_iff, startsWord_iff, toNat_toLower]
  split <;> omega

theorem isWordChar_toLower (c : Char) : isWordChar c.toLower = isWordChar c := by
  rw [Bool.eq_iff_iff, isWordChar_iff, isWordChar_iff, startsWord_toLower, toNat_toLower]
  exact or_congr_right (by split <;> omega)

theorem toLower_eq_hyphen_iff (c : Char) : c.toLower = '-' ↔ c = '-' := by
  rw [← Char.toNat_inj, ← Char.toNat_inj, toNat_toLower]
  show _ = 45 ↔ _ = 45
  split <;> omega

theorem goesOn_toLower_iff : GoesOn (cs.map Char.toLower) [] ↔ GoesOn cs [] := by
  induction cs with
  | nil => exact Iff.rfl
  | cons c cs ih =>
    rw [List.map_cons]
    refine and_congr ?_ ih
    rw [List.append_nil, List.append_nil, wordGoesOn_cons, wordGoesOn_cons, isWordChar_toLower]
    simp only [toLower_eq_hyphen_iff]
    cases cs with
    | nil => exact Iff.rfl
    | cons d cs =>
      rw [List.map_cons, List.head?_cons, List.head?_cons, Option.any_some, Option.any_some,
        isWordChar_toLower]

/-- **The case of letters** does not matter for what is read as one word. -/
theorem isWord_toLower_iff {word : String} :
    IsWord word.toLower.toList ↔ IsWord word.toList := by
  show IsWord (word.map Char.toLower).toList ↔ _
  rw [String.toList_map]
  cases word.toList with
  | nil => exact Iff.rfl
  | cons c cs =>
    rw [List.map_cons]
    exact and_congr (by rw [startsWord_toLower]) goesOn_toLower_iff

/-! ## §3. Tokens. -/

/-- The words that introduce items, in lower case. -/
def keywords : List String := "node" :: Relation.Kind.all.map Relation.Kind.keyword

/-- The writings of a token. -/
inductive Token.Kind.Writes : Token.Kind → List Char → Prop
  /-- Keywords are written in any case of their letters. -/
  | node {word : String} : word.toLower = "node" → Token.Kind.Writes .node word.toList
  | relation {kind : Relation.Kind} {word : String} : word.toLower = kind.keyword →
      Token.Kind.Writes (.relation kind) word.toList
  /-- A label is written in its own case. -/
  | label {name : String} : IsLabel name.toList → name.toLower ∉ keywords →
      name.toLower ∉ proceduralWords → Token.Kind.Writes (.label name) name.toList
  | openParen : Token.Kind.Writes .openParen ['(']
  | closeParen : Token.Kind.Writes .closeParen [')']
  | openBrace : Token.Kind.Writes .openBrace ['{']
  | closeBrace : Token.Kind.Writes .closeBrace ['}']
  | comma : Token.Kind.Writes .comma [',']
  | semicolon : Token.Kind.Writes .semicolon [';']

/-- The tokens that are words. -/
def Token.Kind.isWord : Token.Kind → Bool
  | .node | .relation _ | .label _ => true
  | _ => false

theorem ofKeyword?_eq_some_iff {word : String} {kind : Relation.Kind} :
    Relation.Kind.ofKeyword? word = some kind ↔ word.toLower = kind.keyword := by
  constructor
  · intro h
    have hfound := List.find?_some h
    exact (beq_iff_eq.1 hfound).symm
  · intro h
    unfold Relation.Kind.ofKeyword?
    rw [h]
    cases kind <;> rfl

theorem mem_keywords_iff {word : String} :
    word ∈ keywords ↔ word = "node" ∨ ∃ kind : Relation.Kind, word = kind.keyword := by
  unfold keywords
  rw [List.mem_cons, List.mem_map]
  refine or_congr_right ⟨fun ⟨kind, _, h⟩ => ⟨kind, h.symm⟩, fun ⟨kind, h⟩ => ?_⟩
  exact ⟨kind, kind.mem_all, h.symm⟩

/-- No keyword is a procedural word. -/
theorem not_procedural_of_mem_keywords {word : String} (h : word ∈ keywords) :
    word ∉ proceduralWords := by
  have hall : ∀ w ∈ keywords, w ∉ proceduralWords := by decide
  exact hall word h

/-- **The keywords of a scan** are `node` and the keywords of the relation kinds. -/
theorem keyword?_eq_some_iff {word : String} {kind : Token.Kind} :
    keyword? word = some kind ↔ (word = "node" ∧ kind = .node)
      ∨ ∃ r : Relation.Kind, word = r.keyword ∧ kind = .relation r := by
  constructor
  · intro h
    unfold keyword? at h
    split at h
    · exact .inl ⟨rfl, (Option.some.inj h).symm⟩
    · exact .inr ⟨.memberOf, rfl, (Option.some.inj h).symm⟩
    · exact .inr ⟨.bounds, rfl, (Option.some.inj h).symm⟩
    · exact .inr ⟨.inverts, rfl, (Option.some.inj h).symm⟩
    · cases h
  · rintro (⟨rfl, rfl⟩ | ⟨r, rfl, rfl⟩)
    · rfl
    · cases r <;> rfl

theorem keyword?_eq_none_iff {word : String} : keyword? word = none ↔ word ∉ keywords := by
  rw [mem_keywords_iff, Option.eq_none_iff_forall_ne_some]
  constructor
  · rintro h (hnode | ⟨r, hr⟩)
    · exact h _ (keyword?_eq_some_iff.2 (.inl ⟨hnode, rfl⟩))
    · exact h _ (keyword?_eq_some_iff.2 (.inr ⟨r, hr, rfl⟩))
  · intro h kind hkind
    rcases keyword?_eq_some_iff.1 hkind with ⟨hnode, -⟩ | ⟨r, hr, -⟩
    · exact h (.inl hnode)
    · exact h (.inr ⟨r, hr⟩)

/-- **A word introduces a relation kind** in a scan where it does so by itself. -/
theorem relation?_keyword? (word : String) :
    (keyword? word.toLower).bind Token.Kind.relation? = Relation.Kind.ofKeyword? word := by
  refine Option.ext fun r => ?_
  rw [ofKeyword?_eq_some_iff, Option.bind_eq_some_iff]
  constructor
  · rintro ⟨kind, hkind, hr⟩
    rcases keyword?_eq_some_iff.1 hkind with ⟨-, rfl⟩ | ⟨r', hword, rfl⟩
    · cases hr
    · cases hr
      exact hword
  · intro hword
    exact ⟨.relation r, keyword?_eq_some_iff.2 (.inr ⟨r, hword, rfl⟩), rfl⟩

theorem ofWord?_eq_none_iff {word : String} :
    Token.Kind.ofWord? word = none ↔ word.toLower ∈ proceduralWords := by
  unfold Token.Kind.ofWord?
  rw [← List.contains_iff_mem]
  split
  · next h => exact iff_of_true rfl h
  · next h => exact iff_of_false nofun h

/-- **What a word is read as**, by its lower case. -/
theorem ofWord?_eq_some_iff {word : String} {kind : Token.Kind} :
    Token.Kind.ofWord? word = some kind ↔
      (word.toLower = "node" ∧ kind = .node)
        ∨ (∃ r : Relation.Kind, word.toLower = r.keyword ∧ kind = .relation r)
        ∨ (word.toLower ∉ keywords ∧ word.toLower ∉ proceduralWords ∧ kind = .label word) := by
  by_cases hprocedural : word.toLower ∈ proceduralWords
  · -- such a word is no keyword
    rw [ofWord?_eq_none_iff.2 hprocedural]
    refine iff_of_false nofun ?_
    rintro (⟨hnode, -⟩ | ⟨r, hr, -⟩ | ⟨-, hno, -⟩)
    · exact not_procedural_of_mem_keywords (mem_keywords_iff.2 (.inl hnode)) hprocedural
    · exact not_procedural_of_mem_keywords (mem_keywords_iff.2 (.inr ⟨r, hr⟩)) hprocedural
    · exact hno hprocedural
  · have hread : Token.Kind.ofWord? word = some ((keyword? word.toLower).getD (.label word)) :=
      if_neg fun h => hprocedural (List.contains_iff_mem.1 h)
    rw [hread, Option.some_inj]
    cases hkeyword : keyword? word.toLower with
    | none =>
      have hno := keyword?_eq_none_iff.1 hkeyword
      constructor
      · rintro rfl
        exact .inr (.inr ⟨hno, hprocedural, rfl⟩)
      · rintro (⟨hnode, -⟩ | ⟨r, hr, -⟩ | ⟨-, -, rfl⟩)
        · exact absurd (mem_keywords_iff.2 (.inl hnode)) hno
        · exact absurd (mem_keywords_iff.2 (.inr ⟨r, hr⟩)) hno
        · rfl
    | some found =>
      have hfound : found = kind ↔ keyword? word.toLower = some kind := by
        rw [hkeyword, Option.some_inj]
      rw [Option.getD_some, hfound, keyword?_eq_some_iff]
      constructor
      · exact fun h => h.elim .inl fun hr => .inr (.inl hr)
      · rintro (hnode | hr | ⟨hno, -⟩)
        · exact .inl hnode
        · exact .inr hr
        · rw [keyword?_eq_none_iff.2 hno] at hkeyword
          cases hkeyword

theorem isWord_of_ofWord? {word : String} {kind : Token.Kind}
    (h : Token.Kind.ofWord? word = some kind) : kind.isWord = true := by
  rcases ofWord?_eq_some_iff.1 h with ⟨-, rfl⟩ | ⟨_, -, rfl⟩ | ⟨-, -, rfl⟩ <;> rfl

theorem isWord_of_symbol? {c : Char} {kind : Token.Kind} (h : symbol? c = some kind) :
    kind.isWord = false := by
  unfold symbol? at h
  split at h <;> cases h <;> rfl

/-- **A token that is a word** is written as a word that is read as the token. -/
theorem writes_word_iff {kind : Token.Kind} (hkind : kind.isWord = true) : kind.Writes cs ↔
    IsWord cs ∧ Token.Kind.ofWord? (String.ofList cs) = some kind := by
  constructor
  · intro h
    cases h with
    | @node word hword =>
      rw [String.ofList_toList]
      refine ⟨isWord_toLower_iff.1 ?_, ofWord?_eq_some_iff.2 (.inl ⟨hword, rfl⟩)⟩
      rw [hword]
      decide
    | @relation r word hword =>
      rw [String.ofList_toList]
      refine ⟨isWord_toLower_iff.1 ?_, ofWord?_eq_some_iff.2 (.inr (.inl ⟨r, hword, rfl⟩))⟩
      rw [hword]
      cases r <;> decide
    | label hlabel hkeyword hprocedural =>
      rw [String.ofList_toList]
      exact ⟨isLabel_iff.1 hlabel, ofWord?_eq_some_iff.2 (.inr (.inr ⟨hkeyword, hprocedural, rfl⟩))⟩
    | _ => cases hkind
  · rintro ⟨hword, hread⟩
    generalize hspelled : String.ofList cs = word at hread
    obtain rfl : cs = word.toList := by rw [← hspelled, String.toList_ofList]
    rcases ofWord?_eq_some_iff.1 hread with ⟨hnode, rfl⟩ | ⟨r, hr, rfl⟩ | ⟨hkeyword, hprocedural, rfl⟩
    · exact .node hnode
    · exact .relation hr
    · exact .label (isLabel_iff.2 hword) hkeyword hprocedural

/-- **Any other token** is written as the symbol that stands for it. -/
theorem writes_symbol_iff {kind : Token.Kind} (hkind : kind.isWord = false) : kind.Writes cs ↔
    ∃ c, cs = [c] ∧ symbol? c = some kind := by
  constructor
  · intro h
    cases h with
    | node _ | relation _ | label _ _ _ => cases hkind
    | _ => exact ⟨_, rfl, rfl⟩
  · rintro ⟨c, rfl, hc⟩
    unfold symbol? at hc
    split at hc <;> cases hc <;> constructor

/-! ## §4. Gaps. -/

/-- A comment without the end of its line: two slashes or two hyphens, and what is behind them. -/
inductive IsComment : List Char → Prop
  | intro {mark : Char} {line : List Char} : mark = '/' ∨ mark = '-' → '\n' ∉ line →
      IsComment (mark :: mark :: line)

/-- What may stand in front of a token: white space, and comments with the end of their lines. -/
inductive Gap : List Char → Prop
  | nil : Gap []
  | blank {c : Char} {gap : List Char} : isBlank c = true → Gap gap → Gap (c :: gap)
  | comment {comment gap : List Char} : IsComment comment → Gap gap →
      Gap (comment ++ '\n' :: gap)

/-- What may stand behind the last token: a gap, which may end in a comment on the last line. -/
inductive LastGap : List Char → Prop
  | closed {gap : List Char} : Gap gap → LastGap gap
  | unclosed {gap comment : List Char} : Gap gap → IsComment comment → LastGap (gap ++ comment)

/-- No comment carries a word on, though it may begin with a hyphen. -/
theorem IsComment.stops (h : IsComment cs) (after : List Char) : wordGoesOn (cs ++ after) = false := by
  cases h with
  | intro hmark _ => rcases hmark with rfl | rfl <;> rfl

theorem stops_of_isBlank {c : Char} (hc : isBlank c = true) (after : List Char) :
    wordGoesOn (c :: after) = false := by
  obtain ⟨hword, hhyphen⟩ := not_isWordChar_of_isBlank hc
  rw [wordGoesOn_cons, if_neg hhyphen, hword]

/-- **A gap** carries no word on. -/
theorem Gap.stops (h : Gap cs) (hne : cs ≠ []) (after : List Char) :
    wordGoesOn (cs ++ after) = false := by
  cases h with
  | nil => exact absurd rfl hne
  | blank hc _ => exact stops_of_isBlank hc _
  | comment hcomment _ =>
    rw [List.append_assoc]
    exact hcomment.stops _

theorem LastGap.stops (h : LastGap cs) : wordGoesOn cs = false := by
  cases h with
  | closed hgap =>
    by_cases hnil : cs = []
    · rw [hnil]
      rfl
    · rw [← List.append_nil cs]
      exact hgap.stops hnil []
  | @unclosed gap comment hgap hcomment =>
    by_cases hnil : gap = []
    · rw [hnil, List.nil_append, ← List.append_nil comment]
      exact hcomment.stops []
    · exact hgap.stops hnil comment

/-- A symbol carries no word on. -/
theorem stops_of_symbol {kind : Token.Kind} (hkind : kind.isWord = false) (h : kind.Writes cs)
    (after : List Char) : wordGoesOn (cs ++ after) = false := by
  cases h with
  | node _ | relation _ | label _ _ _ => cases hkind
  | _ => rfl

theorem opensComment_iff {c : Char} {rest : List Char} : opensComment c rest = true ↔
    (c = '/' ∨ c = '-') ∧ ∃ line, rest = c :: line := by
  simp [opensComment, List.head?_eq_some_iff]

/-- **What a gap leaves**: nothing, a comment that the text ends in, or something that is no white
space and opens no comment. -/
theorem exists_gap (cs : List Char) : ∃ gap rest, cs = gap ++ rest ∧ Gap gap
    ∧ (rest = [] ∨ IsComment rest
        ∨ ∃ c more, rest = c :: more ∧ isBlank c = false ∧ opensComment c more = false) := by
  match cs with
  | [] => exact ⟨[], [], rfl, .nil, .inl rfl⟩
  | c :: more =>
    by_cases hblank : isBlank c = true
    · obtain ⟨gap, rest, rfl, hgap, hrest⟩ := exists_gap more
      exact ⟨c :: gap, rest, rfl, .blank hblank hgap, hrest⟩
    by_cases hopens : opensComment c more = true
    · obtain ⟨hmark, line, rfl⟩ := opensComment_iff.1 hopens
      -- the comment goes on to the first line feed, if there is one
      by_cases hfeed : '\n' ∈ line
      · obtain ⟨text, below, rfl, hno⟩ := List.eq_append_cons_of_mem hfeed
        obtain ⟨gap, rest, rfl, hgap, hrest⟩ := exists_gap below
        exact ⟨c :: c :: text ++ '\n' :: gap, rest, by simp, .comment (.intro hmark hno) hgap, hrest⟩
      · exact ⟨[], c :: c :: line, rfl, .nil, .inr (.inl (.intro hmark hfeed))⟩
    · refine ⟨[], c :: more, rfl, .nil, .inr (.inr ⟨c, more, rfl, ?_, ?_⟩)⟩
      · exact Bool.eq_false_iff.2 hblank
      · exact Bool.eq_false_iff.2 hopens
termination_by cs.length

end Admissibility.Description
