/-
  Admissibility.Proofs.Report.Json
  ────────────────────────────────
  **The JSON report tells what it is made from, whatever the labels are.**

  A label may hold anything: quotes, line feeds, brackets.  Its literal has no line feed and ends
  with a quote, so that the lines of a document can be told, and a bracket at the end of a line is
  never that of a label.  A block then ends at its first line, or, where that one opens a bracket,
  at the next line that is not indented; and a comma is behind every block but the last.  So blocks
  below each other can be told, level by level.

  `Delimited.append_inj`: the first of two blocks.
  `commas_inj`, `bracket_inj`: blocks between brackets.
  `sound_jsonBlock`: the blocks of a report are of that form.
  `json_report_inj`: what two equal reports have in common.
-/
import Admissibility.Proofs.Report
import Admissibility.Proofs.Text.JsonString
import Admissibility.Report.Json

namespace Admissibility.Report

open Text.JsonString (quote quote_inj not_mem_quote)

namespace Block

variable {b c : Block} {blocks others : List Block}

/-! ## §1. Lines. -/

/-- The last character of a line. -/
def lastChar (line : String) : Option Char := line.toList.getLast?

/-- A line with a bracket at its end: there is more of the block. -/
def Opens (line : String) : Prop := lastChar line = some '[' ∨ lastChar line = some '\x7b'

instance (line : String) : Decidable (Opens line) :=
  inferInstanceAs (Decidable (lastChar line = some '[' ∨ lastChar line = some '\x7b'))

/-- A line that begins with a blank. -/
def Indented (line : String) : Prop := line.toList.head? = some ' '

instance (line : String) : Decidable (Indented line) :=
  inferInstanceAs (Decidable (line.toList.head? = some ' '))

/-- A line of a document: not empty and without a line feed. -/
def Plain (line : String) : Prop := line ≠ "" ∧ '\n' ∉ line.toList

instance (line : String) : Decidable (Plain line) :=
  inferInstanceAs (Decidable (line ≠ "" ∧ '\n' ∉ line.toList))

theorem lastChar_append {line : String} (before : String) (h : line ≠ "") :
    lastChar (before ++ line) = lastChar line := by
  have hne : line.toList ≠ [] := fun hnil => h (String.toList_injective hnil)
  unfold lastChar
  rw [String.toList_append, List.getLast?_append_of_ne_nil _ hne]

theorem Plain.append {line other : String} (h : Plain line) (h' : '\n' ∉ other.toList) :
    Plain (line ++ other) := by
  refine ⟨fun hempty => h.1 (String.append_eq_empty_iff.1 hempty).1, ?_⟩
  rw [String.toList_append, List.mem_append, not_or]
  exact ⟨h.2, h'⟩

theorem Plain.indent {line : String} (h : Plain line) : Plain ("  " ++ line) :=
  Plain.append (by decide) h.2

/-! ## §2. Blocks that show their end. -/

/-- A block that is one line, or that lasts from a line with an opening bracket to the next line
that is not indented. -/
inductive Delimited : Block → Prop
  | line {line : String} : ¬ Opens line → Delimited [line]
  | nested {first last : String} {inner : List String} : Opens first →
      (∀ line ∈ inner, Indented line) → ¬ Indented last → Delimited (first :: (inner ++ [last]))

/-- **The first block** shows its end, whatever stands below it. -/
theorem Delimited.append_inj {rest more : List String} (hb : Delimited b) (hc : Delimited c)
    (h : b ++ rest = c ++ more) : b = c ∧ rest = more := by
  cases hb with
  | @line line hline =>
    cases hc with
    | @line other _ =>
      obtain ⟨rfl, hrest⟩ := List.cons.inj h
      exact ⟨rfl, hrest⟩
    | nested hopens _ _ => exact absurd ((List.cons.inj h).1 ▸ hopens) hline
  | @nested first last inner hopens hinner hlast =>
    cases hc with
    | line hother => exact absurd ((List.cons.inj h).1 ▸ hopens) hother
    | @nested first' last' inner' _ hinner' hlast' =>
      rw [List.cons_append, List.cons_append, List.append_assoc, List.append_assoc] at h
      obtain ⟨rfl, hbehind⟩ := List.cons.inj h
      -- the last line is the first one that is not indented
      obtain ⟨rfl, rfl⟩ := cut_unique hbehind (allFit_iff.2 hinner) (allFit_iff.2 hinner') hlast
        hlast'
      exact ⟨rfl, (List.cons.inj (List.append_cancel_left hbehind)).2⟩

theorem Delimited.exists_concat (h : Delimited b) : ∃ body last, b = body ++ [last] := by
  cases h with
  | @line line _ => exact ⟨[], line, rfl⟩
  | @nested first last inner _ _ _ => exact ⟨first :: inner, last, rfl⟩

/-! ## §3. Commas. -/

theorem withComma_concat (body : List String) (last : String) :
    withComma (body ++ [last]) = body ++ [last ++ ","] := by
  induction body with
  | nil => rfl
  | cons line body ih =>
    have hstep : ∀ {rest : List String}, rest ≠ [] → withComma (line :: rest)
        = line :: withComma rest := by
      intro rest hne
      cases rest with
      | nil => exact absurd rfl hne
      | cons _ _ => rfl
    rw [List.cons_append, hstep (List.append_ne_nil_of_right_ne_nil _ (List.cons_ne_nil _ _)), ih,
      List.cons_append]

theorem lastChar_comma (line : String) : lastChar (line ++ ",") = some ',' :=
  lastChar_append line (by decide)

/-- A comma leaves the end of a block where it is. -/
theorem delimited_withComma (h : Delimited b) : Delimited (withComma b) := by
  cases h with
  | @line line _ =>
    apply Delimited.line
    unfold Opens
    rw [lastChar_comma]
    decide
  | @nested first last inner hopens hinner hlast =>
    rw [← List.cons_append, withComma_concat, List.cons_append]
    apply Delimited.nested hopens hinner
    intro hindented
    unfold Indented at hindented hlast
    rw [String.toList_append, List.head?_append] at hindented
    cases hhead : last.toList.head? with
    | none =>
      rw [hhead] at hindented
      cases hindented
    | some d =>
      rw [hhead] at hindented hlast
      exact hlast hindented

theorem withComma_inj (hb : Delimited b) (hc : Delimited c) (h : withComma b = withComma c) :
    b = c := by
  obtain ⟨body, last, rfl⟩ := hb.exists_concat
  obtain ⟨body', last', rfl⟩ := hc.exists_concat
  rw [withComma_concat, withComma_concat] at h
  obtain ⟨rfl, hlast⟩ := List.append_inj' h rfl
  rw [(String.append_left_inj _).1 (List.cons.inj hlast).1]

/-! ## §4. Values. -/

/-- The block of a value: it shows its end, there is no comma behind it, and its lines are lines of
a document. -/
structure Sound (b : Block) : Prop where
  delimited : Delimited b
  uncomma : b.getLast?.bind lastChar ≠ some ','
  plain : ∀ line ∈ b, Plain line

theorem getLast?_nested (first last : String) (inner : List String) :
    (first :: (inner ++ [last])).getLast? = some last := by
  rw [← List.cons_append, List.getLast?_concat]

/-- A value on one line, by the last character of it. -/
theorem Sound.line {line : String} {last : Char} (hplain : Plain line)
    (hlast : lastChar line = some last) (hsquare : last ≠ '[') (hcurly : last ≠ '\x7b')
    (hcomma : last ≠ ',') : Sound [line] := by
  refine ⟨.line ?_, ?_, ?_⟩
  · unfold Opens
    rw [hlast]
    simp [hsquare, hcurly]
  · show lastChar line ≠ some ','
    simp [hlast, hcomma]
  · simpa using hplain

theorem sound_string (s : String) : Sound (string s) := by
  have hlast : lastChar (quote s) = some '"' := lastChar_append _ (by decide)
  refine Sound.line ⟨?_, not_mem_quote (by decide)⟩ hlast (by decide) (by decide) (by decide)
  intro hempty
  rw [hempty] at hlast
  cases hlast

theorem sound_number (n : Nat) : Sound (number n) := by
  have hdigit : ∀ c ∈ n.repr.toList, c.isDigit = true := fun c => Text.isDigit_of_mem_repr
  have hne : n.repr.toList ≠ [] := by
    rw [Nat.repr_eq_ofList_toDigits, String.toList_ofList]
    exact Nat.toDigits_ne_nil
  have hlast : lastChar n.repr = some (n.repr.toList.getLast hne) :=
    List.getLast?_eq_some_getLast hne
  have hlastDigit := hdigit _ (List.getLast_mem hne)
  -- no digit is one of the characters that count
  have hother : ∀ d : Char, d.isDigit = false → n.repr.toList.getLast hne ≠ d := by
    intro d hd heq
    rw [heq, hd] at hlastDigit
    cases hlastDigit
  refine Sound.line ⟨fun hempty => hne (congrArg String.toList hempty), fun hfeed => ?_⟩ hlast
    (hother _ (by decide)) (hother _ (by decide)) (hother _ (by decide))
  have := hdigit _ hfeed
  revert this
  decide

theorem sound_member (key : String) (h : Sound b) : Sound (member key b) := by
  have hkey : Plain (quote key ++ ": ") :=
    Plain.append ((sound_string key).plain _ List.mem_cons_self) (by decide)
  obtain ⟨hdelimited, huncomma, hplain⟩ := h
  cases hdelimited with
  | @line line hline =>
    have hne := (hplain line List.mem_cons_self).1
    refine ⟨.line ?_, ?_, ?_⟩
    · unfold Opens
      rw [lastChar_append _ hne]
      exact hline
    · show lastChar (quote key ++ ": " ++ line) ≠ some ','
      rw [lastChar_append _ hne]
      exact huncomma
    · intro last hlast
      rw [List.mem_singleton.1 hlast]
      exact hkey.append (hplain line List.mem_cons_self).2
  | @nested first last inner hopens hinner hlast =>
    have hne := (hplain first List.mem_cons_self).1
    refine ⟨.nested ?_ hinner hlast, ?_, ?_⟩
    · unfold Opens
      rw [lastChar_append _ hne]
      exact hopens
    · show (List.getLast? (_ :: (inner ++ [last]))).bind lastChar ≠ some ','
      rw [getLast?_nested] at huncomma ⊢
      exact huncomma
    · intro line hline
      rcases List.mem_cons.1 hline with rfl | hbehind
      · exact hkey.append (hplain first List.mem_cons_self).2
      · exact hplain line (List.mem_cons_of_mem _ hbehind)

/-! ## §5. Blocks between brackets. -/

/-- Blocks below each other with commas between them. -/
def commas : List Block → List String
  | [] => []
  | [block] => block
  | block :: blocks => withComma block ++ commas blocks

theorem inner_eq (blocks : List Block) : inner blocks = (commas blocks).map ("  " ++ ·) := by
  induction blocks with
  | nil => rfl
  | cons block blocks ih =>
    cases blocks with
    | nil => rfl
    | cons _ _ =>
      show (withComma block).map ("  " ++ ·) ++ inner _ = _
      rw [ih, ← List.map_append]
      rfl

/-- The last of some blocks is told from any other by the comma. -/
theorem Sound.ne_withComma_append (hb : Sound b) (hc : Sound c) (rest : List String) :
    b ≠ withComma c ++ rest := by
  intro h
  rw [← List.append_nil b] at h
  obtain ⟨heq, -⟩ := hb.delimited.append_inj (delimited_withComma hc.delimited) h
  obtain ⟨body, last, rfl⟩ := hc.delimited.exists_concat
  have huncomma := hb.uncomma
  rw [heq, withComma_concat, List.getLast?_concat] at huncomma
  exact huncomma (lastChar_comma last)

theorem commas_ne_nil (hb : Sound b) : commas (b :: blocks) ≠ [] := by
  intro h
  cases blocks with
  | nil =>
    cases hb.delimited with
    | line _ => cases h
    | nested _ _ _ => cases h
  | cons c blocks =>
    have hnil := (List.append_eq_nil_iff.1 (show withComma b ++ commas _ = [] from h)).1
    obtain ⟨body, last, rfl⟩ := hb.delimited.exists_concat
    rw [withComma_concat] at hnil
    exact absurd (List.append_eq_nil_iff.1 hnil).2 (List.cons_ne_nil _ _)

/-- **Blocks with commas between them** can be told, from the first one on. -/
theorem commas_inj (hblocks : ∀ b ∈ blocks, Sound b) (hothers : ∀ b ∈ others, Sound b)
    (h : commas blocks = commas others) : blocks = others := by
  induction blocks generalizing others with
  | nil =>
    cases others with
    | nil => rfl
    | cons c others => exact absurd h.symm (commas_ne_nil (hothers c List.mem_cons_self))
  | cons b blocks ih =>
    have hb := hblocks b List.mem_cons_self
    cases others with
    | nil => exact absurd h (commas_ne_nil hb)
    | cons c others =>
      have hc := hothers c List.mem_cons_self
      cases blocks with
      | nil =>
        cases others with
        | nil => exact congrArg (fun block => [block]) h
        | cons d others => exact absurd h (hb.ne_withComma_append hc _)
      | cons a blocks =>
        cases others with
        | nil => exact absurd h.symm (hc.ne_withComma_append hb _)
        | cons d others =>
          obtain ⟨hfirst, hrest⟩ := (delimited_withComma hb.delimited).append_inj
            (delimited_withComma hc.delimited) h
          have hbehind := ih (fun e he => hblocks e (List.mem_cons_of_mem _ he))
            (fun e he => hothers e (List.mem_cons_of_mem _ he)) hrest
          rw [withComma_inj hb.delimited hc.delimited hfirst, hbehind]

/-- Two lines that can stand around blocks. -/
structure Encloses (first last : String) : Prop where
  opens : Opens first
  closes : ¬ Opens last
  flush : ¬ Indented last
  uncomma : lastChar last ≠ some ','
  plain : Plain first ∧ Plain last

theorem encloses_square : Encloses "[" "]" := by constructor <;> decide

theorem encloses_curly : Encloses "\x7b" "\x7d" := by constructor <;> decide

theorem plain_of_mem_commas {line : String} (hblocks : ∀ b ∈ blocks, Sound b)
    (hline : line ∈ commas blocks) : Plain line := by
  induction blocks with
  | nil => cases hline
  | cons b blocks ih =>
    have hb := hblocks b List.mem_cons_self
    cases blocks with
    | nil => exact hb.plain line hline
    | cons c blocks =>
      rcases List.mem_append.1 (show line ∈ withComma b ++ commas _ from hline) with hfirst | hrest
      · obtain ⟨body, last, rfl⟩ := hb.delimited.exists_concat
        rw [withComma_concat] at hfirst
        rcases List.mem_append.1 hfirst with hbody | hlast
        · exact hb.plain line (List.mem_append_left _ hbody)
        · rw [List.mem_singleton.1 hlast]
          exact Plain.append (hb.plain last (by simp)) (by decide)
      · exact ih (fun d hd => hblocks d (List.mem_cons_of_mem _ hd)) hrest

theorem sound_bracket {first last : String} (hends : Encloses first last)
    (hblocks : ∀ b ∈ blocks, Sound b) : Sound (bracket first last blocks) := by
  unfold Block.bracket
  cases blocks with
  | nil =>
    have hlast := lastChar_append first hends.plain.2.1
    refine ⟨.line ?_, ?_, ?_⟩
    · unfold Opens
      rw [hlast]
      exact hends.closes
    · show lastChar (first ++ last) ≠ some ','
      rw [hlast]
      exact hends.uncomma
    · intro line hline
      rw [List.mem_singleton.1 hline]
      exact hends.plain.1.append hends.plain.2.2
  | cons b blocks =>
    rw [if_neg (by simp), inner_eq, List.cons_append]
    refine ⟨.nested hends.opens ?_ hends.flush, ?_, ?_⟩
    · intro line hline
      obtain ⟨line, -, rfl⟩ := List.mem_map.1 hline
      unfold Indented
      rw [String.toList_append]
      rfl
    · rw [getLast?_nested]
      exact hends.uncomma
    · intro line hline
      rcases List.mem_cons.1 hline with rfl | hline
      · exact hends.plain.1
      · rcases List.mem_append.1 hline with hinner | hline
        · obtain ⟨line, hmem, rfl⟩ := List.mem_map.1 hinner
          exact (plain_of_mem_commas hblocks hmem).indent
        · rw [List.mem_singleton.1 hline]
          exact hends.plain.2

/-- **Blocks between brackets** can be told. -/
theorem bracket_inj {first last : String} (hblocks : ∀ b ∈ blocks, Sound b)
    (hothers : ∀ b ∈ others, Sound b)
    (h : bracket first last blocks = bracket first last others) : blocks = others := by
  have hlong : ∀ (b : Block) (blocks : List Block),
      (bracket first last (b :: blocks)).length ≠ (bracket first last []).length := by
    intro b blocks
    simp [bracket]
  cases blocks with
  | nil =>
    cases others with
    | nil => rfl
    | cons c others => exact absurd (congrArg List.length h.symm) (hlong c others)
  | cons b blocks =>
    cases others with
    | nil => exact absurd (congrArg List.length h) (hlong b blocks)
    | cons c others =>
      have hinner : inner (b :: blocks) = inner (c :: others) :=
        List.append_cancel_right (List.cons.inj h).2
      rw [inner_eq, inner_eq] at hinner
      have hindent : ∀ x y : String, "  " ++ x = "  " ++ y → x = y := fun x y =>
        (String.append_right_inj _).1
      exact commas_inj hblocks hothers ((List.map_inj_right hindent).1 hinner)

theorem string_inj {s t : String} (h : string s = string t) : s = t :=
  quote_inj (List.cons.inj h).1

theorem number_inj {n m : Nat} (h : number n = number m) : n = m :=
  Nat.repr_injective (List.cons.inj h).1

theorem member_inj {key : String} (h : member key b = member key c) : b = c := by
  cases b with
  | nil =>
    cases c with
    | nil => rfl
    | cons _ _ => cases h
  | cons first rest =>
    cases c with
    | nil => cases h
    | cons first' rest' =>
      obtain ⟨hfirst, rfl⟩ := List.cons.inj h
      rw [(String.append_right_inj _).1 hfirst]

theorem sound_of_mem_strings {texts : List String} : ∀ b ∈ texts.map string, Sound b := by
  intro b hb
  obtain ⟨s, -, rfl⟩ := List.mem_map.1 hb
  exact sound_string s

theorem sound_strings (texts : List String) : Sound (array (texts.map string)) :=
  sound_bracket encloses_square sound_of_mem_strings

/-- An array of texts. -/
theorem strings_inj {texts others : List String}
    (h : array (texts.map string) = array (others.map string)) : texts = others := by
  have htexts := bracket_inj sound_of_mem_strings sound_of_mem_strings h
  exact (List.map_inj_right fun _ _ => string_inj).1 htexts

/-- Two members, as facts and counts have them. -/
theorem sound_pair {key other : String} (hb : Sound b) (hc : Sound c) :
    ∀ m ∈ [member key b, member other c], Sound m := by
  simp only [List.forall_mem_cons]
  exact ⟨sound_member key hb, sound_member other hc, List.forall_mem_nil _⟩

/-- An object of two members tells both. -/
theorem object_pair_inj {key other : String} {b' c' : Block} (hb : Sound b) (hc : Sound c)
    (hb' : Sound b') (hc' : Sound c')
    (h : object [member key b, member other c] = object [member key b', member other c']) :
    b = b' ∧ c = c' := by
  have hmembers := bracket_inj (sound_pair hb hc) (sound_pair hb' hc') h
  obtain ⟨hfirst, hrest⟩ := List.cons.inj hmembers
  exact ⟨member_inj hfirst, member_inj (List.cons.inj hrest).1⟩

end Block

/-! ## §6. The report. -/

open Block

/-- The facts that a report tells. -/
def facts (w : Witness) : List Fact := (w.violation?.map Violation.facts).getD []

/-- The labels that a report tells. -/
def labels (w : Witness) : List String := (w.violation?.map Violation.labels).getD []

/-- The labels are those of the facts. -/
theorem labels_eq (w : Witness) : labels w = distinctLabels ((facts w).flatMap Fact.endpoints) := by
  cases w with
  | admissible _ =>
    show [] = distinctLabels []
    unfold distinctLabels sortLabels
    rw [List.mergeSort_nil]
    rfl
  | inadmissible _ => rfl

/-- The members of a report. -/
def members (w : Witness) : List Block :=
  member "verdict" (string w.verdict.name) :: (evidenceMembers w
    ++ [member "relations" (array ((facts w).map factBlock)),
      member "labels" (array ((labels w).map string))])

theorem jsonBlock_eq (w : Witness) : jsonBlock w = object (members w) := rfl

theorem sound_factBlock (f : Fact) : Sound (factBlock f) :=
  sound_bracket encloses_curly (sound_pair (sound_string _) (sound_strings _))

theorem sound_facts {list : List Fact} : ∀ b ∈ list.map factBlock, Sound b := by
  intro b hb
  obtain ⟨f, -, rfl⟩ := List.mem_map.1 hb
  exact sound_factBlock f

theorem sound_evidence (w : Witness) : ∀ b ∈ evidenceMembers w, Sound b := by
  cases w with
  | admissible checked =>
    simp only [evidenceMembers, List.forall_mem_cons]
    exact ⟨sound_member _ (sound_bracket encloses_curly
      (sound_pair (sound_number _) (sound_number _))), List.forall_mem_nil _⟩
  | inadmissible v =>
    simp only [evidenceMembers, List.forall_mem_cons]
    exact ⟨sound_member _ (sound_string _), List.forall_mem_nil _⟩

theorem sound_members (w : Witness) : ∀ b ∈ members w, Sound b := by
  unfold members
  simp only [List.forall_mem_cons, List.forall_mem_append]
  exact ⟨sound_member _ (sound_string _), sound_evidence w,
    sound_member _ (sound_bracket encloses_square sound_facts), sound_member _ (sound_strings _),
    List.forall_mem_nil _⟩

/-- **The blocks of a report** show their ends. -/
theorem sound_jsonBlock (w : Witness) : Sound (jsonBlock w) :=
  sound_bracket encloses_curly (sound_members w)

theorem factBlock_inj {f g : Fact} (h : factBlock f = factBlock g) : f = g := by
  obtain ⟨hkind, hlist⟩ := object_pair_inj (sound_string _) (sound_strings _) (sound_string _)
    (sound_strings _) h
  have hkinds := Relation.Kind.keyword_inj (string_inj hkind)
  have hendpoints := strings_inj hlist
  obtain ⟨kind, endpoints⟩ := f
  obtain ⟨kind', endpoints'⟩ := g
  cases hkinds
  cases hendpoints
  rfl

theorem verdict_name_inj {v v' : Verdict} (h : v.name = v'.name) : v = v' := by
  cases v <;> cases v'
  case admissible.admissible | inadmissible.inadmissible => rfl
  all_goals exact absurd h (by decide)

/-- The evidence that a member tells. -/
theorem evidence_inj {w u : Witness} (hverdict : w.verdict = u.verdict)
    (h : evidenceMembers w = evidenceMembers u) :
    w.constraint? = u.constraint? ∧ w.checked? = u.checked? := by
  cases w with
  | admissible checked =>
    cases u with
    | admissible other =>
      have hobject := member_inj (List.cons.inj h).1
      obtain ⟨hfirst, hsecond⟩ := object_pair_inj (sound_number _) (sound_number _)
        (sound_number _) (sound_number _) hobject
      have hboundaries := number_inj hfirst
      have hinversions := number_inj hsecond
      obtain ⟨boundaries, inversions⟩ := checked
      obtain ⟨boundaries', inversions'⟩ := other
      cases hboundaries
      cases hinversions
      exact ⟨rfl, rfl⟩
    | inadmissible _ => cases hverdict
  | inadmissible v =>
    cases u with
    | admissible _ => cases hverdict
    | inadmissible v' =>
      have hname := string_inj (member_inj (List.cons.inj h).1)
      exact ⟨congrArg some (constraint_name_inj hname), rfl⟩

theorem length_evidenceMembers (w : Witness) : (evidenceMembers w).length = 1 := by
  cases w <;> rfl

/-- **The block of a report** tells the verdict, the evidence and the facts. -/
theorem jsonBlock_inj {w u : Witness} (h : jsonBlock w = jsonBlock u) :
    w.verdict = u.verdict ∧ w.constraint? = u.constraint? ∧ w.checked? = u.checked?
      ∧ facts w = facts u := by
  rw [jsonBlock_eq, jsonBlock_eq] at h
  have hmembers := bracket_inj (sound_members w) (sound_members u) h
  obtain ⟨hfirst, hbehind⟩ := List.cons.inj hmembers
  obtain ⟨hevidence, hrest⟩ := List.append_inj hbehind
    ((length_evidenceMembers w).trans (length_evidenceMembers u).symm)
  have hverdict := verdict_name_inj (string_inj (member_inj hfirst))
  have hfacts := bracket_inj sound_facts sound_facts (member_inj (List.cons.inj hrest).1)
  obtain ⟨hconstraint, hchecked⟩ := evidence_inj hverdict hevidence
  exact ⟨hverdict, hconstraint, hchecked, (List.map_inj_right fun _ _ => factBlock_inj).1 hfacts⟩

/-- The block of a report is made from nothing else. -/
theorem jsonBlock_congr {w u : Witness} (hverdict : w.verdict = u.verdict)
    (hconstraint : w.constraint? = u.constraint?) (hchecked : w.checked? = u.checked?)
    (hfacts : facts w = facts u) : jsonBlock w = jsonBlock u := by
  have hevidence : evidenceMembers w = evidenceMembers u := by
    cases w with
    | admissible checked =>
      cases u with
      | admissible other => rw [Option.some.inj hchecked]
      | inadmissible _ => cases hverdict
    | inadmissible v =>
      cases u with
      | admissible _ => cases hverdict
      | inadmissible v' =>
        have hname : v.constraint = v'.constraint := Option.some.inj hconstraint
        show [member "class" (string v.constraint.name)] = _
        rw [hname]
        rfl
  rw [jsonBlock_eq, jsonBlock_eq]
  unfold members
  rw [hverdict, hevidence, labels_eq, labels_eq, hfacts]

/-- The text of a report tells its lines. -/
theorem jsonBlock_eq_of_json {w u : Witness} (h : json w = json u) : jsonBlock w = jsonBlock u := by
  have hpieces : ∀ w, ∀ p ∈ (jsonBlock w).map String.toList, '\n' ∉ p ∧ p ≠ [] := by
    intro w p hp
    obtain ⟨line, hline, rfl⟩ := List.mem_map.1 hp
    obtain ⟨hne, hfeed⟩ := (sound_jsonBlock w).plain line hline
    exact ⟨hfeed, fun hnil => hne (String.toList_injective hnil)⟩
  have hchars := congrArg String.toList h
  unfold json at hchars
  rw [String.toList_intercalate, String.toList_intercalate,
    show "\n".toList = '\n' :: [] by decide] at hchars
  have hlines := Text.intercalate_inj (hpieces w) (hpieces u) hchars
  exact (List.map_inj_right fun _ _ => String.toList_injective).1 hlines

/-- **JSON reports are unambiguous.**  Whatever the labels and counts are, two witnesses have the
same report exactly where they have the same verdict, breach the same constraint, count the same
checks and tell the same facts, kind by kind and endpoint by endpoint in order.  The labels of the
two reports are then the same too. -/
theorem json_report_inj (w u : Witness) :
    (json w = json u ↔ w.verdict = u.verdict ∧ w.constraint? = u.constraint?
        ∧ w.checked? = u.checked? ∧ facts w = facts u)
      ∧ (json w = json u → labels w = labels u) := by
  have htold : json w = json u → w.verdict = u.verdict ∧ w.constraint? = u.constraint?
      ∧ w.checked? = u.checked? ∧ facts w = facts u :=
    fun h => jsonBlock_inj (jsonBlock_eq_of_json h)
  refine ⟨⟨htold, ?_⟩, ?_⟩
  · rintro ⟨hverdict, hconstraint, hchecked, hfacts⟩
    unfold json
    rw [jsonBlock_congr hverdict hconstraint hchecked hfacts]
  · intro h
    rw [labels_eq, labels_eq, (htold h).2.2.2]

/-- A label that imitates what stands between two labels does not pass for them.  What a report
leaves out, here the endpoints that an inversion has beside its fact, does not count. -/
theorem imitation_reports :
    let told : List String → List String → Witness := fun endpoints names =>
      .inadmissible (.inversionArity endpoints ⟨.inverts, names⟩)
    json (told [] ["A\",\n        \"B"]) ≠ json (told [] ["A", "B"])
      ∧ told ["\t"] ["A", "B"] ≠ told [] ["A", "B"]
      ∧ json (told ["\t"] ["A", "B"]) = json (told [] ["A", "B"])
      ∧ labels (told ["\t"] ["A", "B"]) = labels (told [] ["A", "B"]) := by
  intro told
  obtain ⟨hsame, hlabels⟩ := json_report_inj (told ["\t"] ["A", "B"]) (told [] ["A", "B"])
  have hequal := hsame.2 ⟨rfl, rfl, rfl, rfl⟩
  refine ⟨fun h => ?_, by decide, hequal, hlabels hequal⟩
  obtain ⟨-, -, -, hfacts⟩ := (json_report_inj _ _).1.1 h
  exact absurd hfacts (by decide)

end Admissibility.Report
