/-
  Admissibility.Proofs.Scenario.Fixture
  ─────────────────────────────────────
  **A fixture holds exactly the cases that its text marks.**

  The text of a fixture is a list of lines, some of which are markers.  The first marker whose
  name is empty or was there before is what is wrong with a fixture; without one, the cases are the
  markers in order, and the text of a case is what stands between its marker and the next one.  As
  every line is kept, a line of a case is a line of the fixture a fixed number of lines further
  down.

  `defectAfter?_cases`: the check of the names finds the first marker that does not fit.
  `mem_sections`: the sections of a text are its markers with the lines up to the next one.
  `splitOn_textOfLines`, `splitOn_of_lines`: lines by their line feeds.
  `loading_is_exact`: what a text is read as.
-/
import Admissibility.Proofs.Misfit
import Admissibility.Scenario.Fixture

namespace Admissibility.Scenario.Fixture

open Admissibility.Text (lines trim)

variable {ls before after : List (List Char)} {line : List Char} {name : String}

/-! ## §1. Markers. -/

/-- The name in a marker, by its characters. -/
theorem marker?_eq_some_iff : marker? line = some name ↔
    ∃ rest, trim line = '/' :: '/' :: '#' :: rest ∧ name.toList = trim rest := by
  unfold marker?
  constructor
  · intro h
    split at h
    · next rest htrim =>
      cases h
      exact ⟨rest, htrim, String.toList_ofList⟩
    · cases h
  · intro h
    obtain ⟨rest, htrim, hname⟩ := h
    rw [htrim]
    show some (String.ofList (trim rest)) = some name
    rw [← hname, String.ofList_toList]

/-- A line that is no marker. -/
def unmarked (line : List Char) : Bool := (marker? line).isNone

theorem unmarked_of_eq_none (h : marker? line = none) : unmarked line = true := by
  unfold unmarked
  rw [h]
  rfl

theorem not_unmarked_of_eq_some (h : marker? line = some name) : ¬ unmarked line = true := by
  unfold unmarked
  rw [h]
  exact Bool.false_ne_true

/-! ## §2. The first marker that does not fit. -/

/-- Where a line is a marker, its name is not empty and not that of a marker above it. -/
def NameFits (before : List (List Char)) (line : List Char) : Prop :=
  ∀ name, marker? line = some name → name ≠ "" ∧ name ∉ before.filterMap marker?

/-- What is wrong with a marker below some lines. -/
inductive NameWrong (before : List (List Char)) (line : List Char) : Defect → Prop
  | emptyName : marker? line = some "" → NameWrong before line .emptyName
  | repeatedName {name : String} : marker? line = some name → name ≠ "" →
      name ∈ before.filterMap marker? → NameWrong before line (.repeatedName name)

theorem NameWrong.not_fits {defect : Defect} (h : NameWrong before line defect) :
    ¬ NameFits before line := by
  intro hfits
  cases h with
  | emptyName hmarker => exact (hfits "" hmarker).1 rfl
  | repeatedName hmarker _ hmem => exact (hfits _ hmarker).2 hmem

theorem NameWrong.unique {defect other : Defect} (h : NameWrong before line defect)
    (h' : NameWrong before line other) : defect = other := by
  cases h with
  | emptyName hmarker =>
    cases h' with
    | emptyName _ => rfl
    | repeatedName hmarker' hne _ =>
      rw [hmarker] at hmarker'
      exact absurd (Option.some.inj hmarker').symm hne
  | repeatedName hmarker hne _ =>
    cases h' with
    | emptyName hmarker' =>
      rw [hmarker] at hmarker'
      exact absurd (Option.some.inj hmarker') hne
    | repeatedName hmarker' _ _ =>
      rw [hmarker] at hmarker'
      rw [Option.some.inj hmarker']

/-- **The check of the names**, from some line on, where all markers above it fit. -/
theorem defectAfter?_cases {names : List String}
    (hnames : ∀ name, name ∈ names ↔ name ∈ before.filterMap marker?)
    (hbefore : AllFit NameFits before) (rest : List (List Char)) :
    (AllFit NameFits (before ++ rest) ∧ defectAfter? names (rest.filterMap marker?) = none)
      ∨ ∃ defect, FirstMisfit NameFits NameWrong (before ++ rest) defect
          ∧ defectAfter? names (rest.filterMap marker?) = some defect := by
  induction rest generalizing before names with
  | nil =>
    rw [List.append_nil]
    exact .inl ⟨hbefore, rfl⟩
  | cons line rest ih =>
    cases hmarker : marker? line with
    | none =>
      have hfits : NameFits before line := by
        intro name hname
        rw [hmarker] at hname
        cases hname
      have hsame : ∀ name, name ∈ names ↔ name ∈ (before ++ [line]).filterMap marker? := by
        intro name
        rw [List.filterMap_append, hnames]
        simp [hmarker]
      rw [List.filterMap_cons_none hmarker, List.append_cons]
      exact ih hsame (allFit_append_singleton.2 ⟨hbefore, hfits⟩)
    | some name =>
      rw [List.filterMap_cons_some hmarker]
      unfold defectAfter?
      by_cases hempty : name = ""
      · subst hempty
        rw [if_pos rfl]
        exact .inr ⟨_, ⟨before, line, rest, rfl, hbefore, .emptyName hmarker⟩, rfl⟩
      · rw [if_neg hempty]
        by_cases hmem : name ∈ names
        · rw [if_pos hmem]
          exact .inr ⟨_, ⟨before, line, rest, rfl, hbefore,
            .repeatedName hmarker hempty ((hnames name).1 hmem)⟩, rfl⟩
        · rw [if_neg hmem, List.append_cons]
          have hfits : NameFits before line := by
            intro other hother
            rw [hmarker] at hother
            cases hother
            exact ⟨hempty, fun h => hmem ((hnames name).2 h)⟩
          have hmore : ∀ other, other ∈ name :: names
              ↔ other ∈ (before ++ [line]).filterMap marker? := by
            intro other
            rw [List.filterMap_append, List.mem_cons, hnames]
            simp [hmarker, or_comm]
          exact ih hmore (allFit_append_singleton.2 ⟨hbefore, hfits⟩)

/-! ## §3. Sections. -/

theorem sections_cons_none (h : marker? line = none) (rest : List (List Char)) :
    sections (line :: rest) = (line :: (sections rest).1, (sections rest).2) := by
  rw [sections, h]

theorem sections_cons_some (h : marker? line = some name) (rest : List (List Char)) :
    sections (line :: rest) = ([], (name, (sections rest).1) :: (sections rest).2) := by
  rw [sections, h]

theorem map_fst_sections (ls : List (List Char)) :
    (sections ls).2.map Prod.fst = ls.filterMap marker? := by
  induction ls with
  | nil => rfl
  | cons line rest ih =>
    cases hmarker : marker? line with
    | none => rw [sections_cons_none hmarker, List.filterMap_cons_none hmarker, ih]
    | some name =>
      rw [sections_cons_some hmarker, List.filterMap_cons_some hmarker, List.map_cons, ih]

/-- The lines in front of the first marker. -/
theorem sections_fst (ls : List (List Char)) : (sections ls).1 = ls.takeWhile unmarked := by
  induction ls with
  | nil => rfl
  | cons line rest ih =>
    cases hmarker : marker? line with
    | none =>
      rw [sections_cons_none hmarker, List.takeWhile_cons_of_pos (unmarked_of_eq_none hmarker), ih]
    | some name =>
      rw [sections_cons_some hmarker, List.takeWhile_cons_of_neg (not_unmarked_of_eq_some hmarker)]

/-- **A case** of a name, with its marker on the line of a number and its own lines: those strictly
between the marker and the next one, or the end. -/
def CaseAt (ls : List (List Char)) (m : Nat) (name : String) (body : List (List Char)) : Prop :=
  ls[m]?.bind marker? = some name
    ∧ ∃ after, ls.drop (m + 1) = body ++ after ∧ (∀ l ∈ body, marker? l = none)
      ∧ ∀ l ∈ after.head?, marker? l ≠ none

/-- The lines up to the next marker are those in front of it, where there is one. -/
theorem eq_takeWhile_iff {body rest : List (List Char)} : body = rest.takeWhile unmarked ↔
    ∃ after, rest = body ++ after ∧ (∀ l ∈ body, marker? l = none)
      ∧ ∀ l ∈ after.head?, marker? l ≠ none := by
  constructor
  · intro h
    refine ⟨rest.dropWhile unmarked, ?_, ?_, ?_⟩
    · rw [h, List.takeWhile_append_dropWhile]
    · intro l hl
      have hall := List.all_eq_true.1 (List.all_takeWhile (p := unmarked) (l := rest))
      exact Option.isNone_iff_eq_none.1 (hall l (h ▸ hl))
    · intro l hl hnone
      have hstop := List.head?_dropWhile_not unmarked rest
      rw [Option.mem_def.1 hl] at hstop
      exact absurd ((unmarked_of_eq_none hnone).symm.trans hstop) (by decide)
  · intro h
    obtain ⟨after, rfl, hbody, hafter⟩ := h
    rw [List.takeWhile_append_of_pos fun l hl => unmarked_of_eq_none (hbody l hl)]
    cases after with
    | nil => simp
    | cons l after =>
      have hne : ¬ unmarked l = true := fun h => hafter l rfl (Option.isNone_iff_eq_none.1 h)
      rw [List.takeWhile_cons_of_neg hne, List.append_nil]

/-- Every marker has a case. -/
theorem exists_caseAt {m : Nat} (h : ls[m]?.bind marker? = some name) :
    ∃ body, CaseAt ls m name body :=
  ⟨(ls.drop (m + 1)).takeWhile unmarked, h, eq_takeWhile_iff.1 rfl⟩

theorem caseAt_zero {body rest : List (List Char)} : CaseAt (line :: rest) 0 name body ↔
    marker? line = some name ∧ body = rest.takeWhile unmarked := by
  unfold CaseAt
  rw [eq_takeWhile_iff]
  exact Iff.rfl

/-- **The sections** of some lines are their cases. -/
theorem mem_sections {body : List (List Char)} :
    (name, body) ∈ (sections ls).2 ↔ ∃ m, CaseAt ls m name body := by
  induction ls with
  | nil =>
    constructor
    · intro h
      cases h
    · intro h
      obtain ⟨m, hmarker, -⟩ := h
      cases hmarker
  | cons line rest ih =>
    -- the first line is the marker, or one behind it is
    have hsplit : (∃ m, CaseAt (line :: rest) m name body)
        ↔ CaseAt (line :: rest) 0 name body ∨ (name, body) ∈ (sections rest).2 := by
      rw [ih]
      constructor
      · intro h
        obtain ⟨m, hm⟩ := h
        cases m with
        | zero => exact .inl hm
        | succ m => exact .inr ⟨m, hm⟩
      · intro h
        rcases h with hfirst | ⟨m, hm⟩
        · exact ⟨0, hfirst⟩
        · exact ⟨m + 1, hm⟩
    rw [hsplit, caseAt_zero]
    cases hmarker : marker? line with
    | none =>
      rw [sections_cons_none hmarker]
      simp
    | some other =>
      rw [sections_cons_some hmarker, List.mem_cons, sections_fst, Prod.mk.injEq,
        Option.some.injEq, @eq_comm _ name]

/-! ## §4. Lines by their line feeds. -/

/-- No line has a line feed in it. -/
theorem not_mem_of_mem_lines {cs : List Char} : ∀ l ∈ lines cs, '\n' ∉ l := by
  fun_induction lines cs with
  | case1 => simp
  | case2 rest ih => simpa using ih
  | case3 rest ih => simpa using ih
  | case4 c rest hfeed hreturn l others hlines ih =>
    rw [hlines] at ih
    obtain ⟨hl, hothers⟩ := List.forall_mem_cons.1 ih
    refine List.forall_mem_cons.2 ⟨?_, hothers⟩
    rw [List.mem_cons, not_or]
    exact ⟨fun h => hfeed h.symm, hl⟩
  | case5 c rest hfeed hreturn hlines ih =>
    simp only [List.mem_singleton, forall_eq]
    exact fun h => hfeed h.symm

theorem eq_nil_of_lines_eq_nil {cs : List Char} (h : lines cs = []) : cs = [] := by
  fun_cases lines cs with
  | case1 => rfl
  | case2 rest => simp [lines] at h
  | case3 rest => simp [lines] at h
  | case4 c rest hfeed hreturn l others hlines => simp [lines, hlines] at h
  | case5 c rest hfeed hreturn hlines => simp [lines, hlines] at h

theorem splitOn_feed (rest : List Char) :
    ('\n' :: rest).splitOn '\n' = [] :: rest.splitOn '\n' := by
  have hempty : '\n' ∉ ([] : List Char) := List.not_mem_nil
  exact List.splitOn_append_cons_self_of_not_mem hempty rest

theorem splitOn_cons {c : Char} (h : c ≠ '\n') (rest : List Char) :
    (c :: rest).splitOn '\n' = (rest.splitOn '\n').modifyHead (c :: ·) := by
  rw [List.splitOn_cons_eq_if_modifyHead, if_neg (by simpa using h)]

/-- **The lines of a text** are what stands between its line feeds, but for a carriage return. -/
theorem splitOn_of_lines {cs : List Char} {i : Nat} (h : (lines cs)[i]? = some line) :
    (cs.splitOn '\n')[i]? = some line ∨ (cs.splitOn '\n')[i]? = some (line ++ ['\r']) := by
  fun_induction lines cs generalizing i line with
  | case1 => cases h
  | case2 rest ih =>
    rw [splitOn_feed]
    cases i with
    | zero => exact .inl h
    | succ i => exact ih h
  | case3 rest ih =>
    rw [splitOn_cons (by decide), splitOn_feed]
    cases i with
    | zero =>
      cases h
      exact .inr rfl
    | succ i => exact ih h
  | case4 c rest hfeed hreturn l others hlines ih =>
    rw [splitOn_cons hfeed]
    rw [hlines] at ih
    -- the character goes in front of the first piece, and the others stay
    cases hpieces : rest.splitOn '\n' with
    | nil => exact absurd hpieces (List.splitOn_ne_nil _ _)
    | cons piece pieces =>
      rw [hpieces] at ih
      cases i with
      | zero =>
        cases h
        rcases ih (i := 0) rfl with hsame | hreturn
        · cases hsame
          exact .inl rfl
        · cases hreturn
          exact .inr rfl
      | succ i => exact ih (i := i + 1) h
  | case5 c rest hfeed hreturn hlines ih =>
    rw [splitOn_cons hfeed, eq_nil_of_lines_eq_nil hlines]
    cases i with
    | zero => exact .inl h
    | succ i => cases h

/-- Cutting lines that were put together gives them back. -/
theorem splitOn_textOfLines {body : List (List Char)} (h : ∀ l ∈ body, '\n' ∉ l) :
    (textOfLines body).toList.splitOn '\n' = body ++ [[]] := by
  unfold textOfLines
  rw [String.toList_ofList]
  induction body with
  | nil => rfl
  | cons l body ih =>
    obtain ⟨hl, hbody⟩ := List.forall_mem_cons.1 h
    rw [List.flatMap_cons, List.append_assoc, List.singleton_append,
      List.splitOn_append_cons_self_of_not_mem hl, ih hbody]
    rfl

theorem eq_textOfLines_iff {text : String} {body : List (List Char)} :
    text = textOfLines body ↔ text.toList = body.flatMap (· ++ ['\n']) := by
  unfold textOfLines
  constructor
  · intro h
    rw [h, String.toList_ofList]
  · intro h
    rw [← h, String.ofList_toList]

/-- **A line of a case** is the line of the text that far behind the marker. -/
theorem line_of_caseAt {cs : List Char} {m k : Nat} {body : List (List Char)}
    (hcase : CaseAt (lines cs) m name body)
    (hk : k + 1 < ((textOfLines body).toList.splitOn '\n').length)
    (hline : ((textOfLines body).toList.splitOn '\n')[k]? = some line) :
    (lines cs)[m + 1 + k]? = some line := by
  obtain ⟨-, after, hdrop, -, -⟩ := hcase
  have hfeed : ∀ l ∈ body, '\n' ∉ l := by
    intro l hl
    have hmem : l ∈ (lines cs).drop (m + 1) := by
      rw [hdrop]
      exact List.mem_append_left _ hl
    exact not_mem_of_mem_lines l (List.mem_of_mem_drop hmem)
  rw [splitOn_textOfLines hfeed, List.length_append] at hk
  have hlt : k < body.length := by simpa using hk
  rw [splitOn_textOfLines hfeed, List.getElem?_append_left hlt] at hline
  rw [← List.getElem?_drop, hdrop, List.getElem?_append_left hlt, hline]

/-! ## §5. The cases of a fixture. -/

variable {source text : String} {f : Fixture}

/-- The text of a name is what the fixture holds under it. -/
theorem get?_eq_some_iff : f.get? name = some text ↔ (name, text) ∈ f.cases := by
  unfold get?
  rw [List.lookup_eq_some_iff]
  constructor
  · intro h
    obtain ⟨front, back, hcases, -⟩ := h
    rw [hcases]
    exact List.mem_append_right _ List.mem_cons_self
  · intro h
    obtain ⟨front, back, hcases⟩ := List.append_of_mem h
    refine ⟨front, back, hcases, fun p hp => ?_⟩
    -- no name is held twice
    have hdistinct := f.distinct
    rw [hcases, List.map_append, List.map_cons, List.nodup_append] at hdistinct
    have hne := hdistinct.2.2 p.1 (List.mem_map_of_mem hp) name List.mem_cons_self
    simpa using Ne.symm hne

theorem isSome_get?_iff : (f.get? name).isSome = true ↔ name ∈ f.names := by
  rw [Option.isSome_iff_exists]
  simp only [get?_eq_some_iff, names, List.mem_map, Prod.exists, exists_and_right, exists_eq_right]

theorem mem_casesOf : (name, text) ∈ casesOf source ↔
    ∃ m body, CaseAt (lines source.toList) m name body ∧ text = textOfLines body := by
  unfold casesOf
  rw [List.mem_map]
  constructor
  · intro h
    obtain ⟨⟨other, body⟩, hmem, heq⟩ := h
    cases heq
    obtain ⟨m, hm⟩ := mem_sections.1 hmem
    exact ⟨m, body, hm, rfl⟩
  · intro h
    obtain ⟨m, body, hm, rfl⟩ := h
    exact ⟨(name, body), mem_sections.2 ⟨m, hm⟩, rfl⟩

theorem map_fst_casesOf (source : String) :
    (casesOf source).map Prod.fst = (lines source.toList).filterMap marker? := by
  unfold casesOf
  rw [← map_fst_sections, List.map_map]
  rfl

/-- **What a text is read as**: its cases, or what is wrong with the first marker that does not
fit. -/
theorem ofSource_cases (source : String) :
    (AllFit NameFits (lines source.toList)
        ∧ ∃ f, ofSource source = .ok f ∧ f.cases = casesOf source)
      ∨ ∃ defect, FirstMisfit NameFits NameWrong (lines source.toList) defect
          ∧ ofSource source = .error (.malformed defect) := by
  have hnothing : ∀ name : String, name ∈ ([] : List String) ↔
      name ∈ ([] : List (List Char)).filterMap marker? := fun _ => Iff.rfl
  have hchecked := defectAfter?_cases hnothing allFit_nil (lines source.toList)
  rw [← map_fst_casesOf] at hchecked
  unfold ofSource ofText
  rcases hchecked with ⟨hall, hnone⟩ | ⟨defect, hfirst, hsome⟩
  · refine .inl ⟨hall, ?_⟩
    split
    · next defect hdefect => exact absurd (hnone.symm.trans hdefect) (by simp)
    · exact ⟨_, rfl, rfl⟩
  · refine .inr ⟨defect, hfirst, ?_⟩
    split
    · next other hother =>
      cases hsome.symm.trans hother
      rfl
    · next hother => exact absurd (hsome.symm.trans hother) (by simp)

/-- **A refusal** is for the first marker that does not fit. -/
theorem ofSource_eq_error_iff {fault : Fault} : ofSource source = .error fault ↔
    ∃ defect, fault = .malformed defect
      ∧ FirstMisfit NameFits NameWrong (lines source.toList) defect := by
  rcases ofSource_cases source with ⟨hall, f, hok, -⟩ | ⟨defect, hfirst, herror⟩
  · rw [hok]
    constructor
    · intro h
      cases h
    · intro h
      obtain ⟨defect, -, hfirst⟩ := h
      exact absurd hall (hfirst.not_allFit fun _ _ _ h => h.not_fits)
  · rw [herror]
    constructor
    · intro h
      cases h
      exact ⟨defect, rfl, hfirst⟩
    · intro h
      obtain ⟨other, rfl, hother⟩ := h
      rw [FirstMisfit.unique (fun _ _ _ h => h.not_fits) (fun _ _ _ _ h h' => h.unique h') hfirst
        hother]

/-- A text is read where all of its markers fit. -/
theorem exists_ofSource_iff :
    (∃ f, ofSource source = .ok f) ↔ AllFit NameFits (lines source.toList) := by
  rcases ofSource_cases source with ⟨hall, f, hok, -⟩ | ⟨defect, hfirst, herror⟩
  · exact ⟨fun _ => hall, fun _ => ⟨f, hok⟩⟩
  · rw [herror]
    constructor
    · intro h
      obtain ⟨f, hf⟩ := h
      cases hf
    · intro h
      exact absurd h (hfirst.not_allFit fun _ _ _ h => h.not_fits)

theorem cases_of_ofSource (h : ofSource source = .ok f) : f.cases = casesOf source := by
  rcases ofSource_cases source with ⟨-, g, hok, hcases⟩ | ⟨defect, -, herror⟩
  · rw [hok] at h
    cases h
    exact hcases
  · rw [herror] at h
    cases h

theorem get?_of_ofSource (h : ofSource source = .ok f) : f.get? name = some text ↔
    ∃ m body, CaseAt (lines source.toList) m name body ∧ text = textOfLines body := by
  rw [get?_eq_some_iff, cases_of_ofSource h, mem_casesOf]

/-- **Loading is exact.**  A line is a marker where it starts with `//#`, white space aside, and the
rest of it is the name.  A text is refused exactly where a marker has an empty name or the name of a
marker above it, and for what is wrong with the first such one.  Else its names are those of the
markers, in order; they are the names that have a text; and the text of a name is made of the lines
strictly between its marker and the next one, or the end, with a line feed behind each.  So the
line of number `k` in a case, both counted from 0, is the line `m + 1 + k` of the source, the marker
being on line `m`; and by line feeds alone it is the same line again, but for a carriage return. -/
theorem loading_is_exact (source : String) :
    (∀ line name, marker? line = some name ↔
        ∃ rest, trim line = '/' :: '/' :: '#' :: rest ∧ name.toList = trim rest)
      ∧ (∀ fault, ofSource source = .error fault ↔ ∃ defect, fault = .malformed defect
          ∧ FirstMisfit NameFits NameWrong (lines source.toList) defect)
      ∧ ((∃ f, ofSource source = .ok f) ↔ AllFit NameFits (lines source.toList))
      ∧ ∀ f, ofSource source = .ok f →
          f.names = (lines source.toList).filterMap marker?
          ∧ (∀ name, (f.get? name).isSome = true ↔ name ∈ f.names)
          ∧ (∀ name text, f.get? name = some text ↔ ∃ m body,
              CaseAt (lines source.toList) m name body ∧ text.toList = body.flatMap (· ++ ['\n']))
          ∧ ∀ name text m k line, f.get? name = some text →
              (lines source.toList)[m]?.bind marker? = some name →
              k + 1 < (text.toList.splitOn '\n').length →
              (text.toList.splitOn '\n')[k]? = some line →
              (lines source.toList)[m + 1 + k]? = some line
                ∧ ((source.toList.splitOn '\n')[m + 1 + k]? = some line
                  ∨ (source.toList.splitOn '\n')[m + 1 + k]? = some (line ++ ['\r'])) := by
  refine ⟨fun line name => marker?_eq_some_iff, fun fault => ofSource_eq_error_iff,
    exists_ofSource_iff, fun f hf => ⟨?_, fun name => isSome_get?_iff, fun name text => ?_, ?_⟩⟩
  · unfold names
    rw [cases_of_ofSource hf, map_fst_casesOf]
  · rw [get?_of_ofSource hf]
    simp only [eq_textOfLines_iff]
  · intro name text m k line htext hmarker hk hline
    -- the text of the name is that of the case at this marker
    obtain ⟨body, hcase⟩ := exists_caseAt hmarker
    have hsame := (get?_of_ofSource hf).2 ⟨m, body, hcase, rfl⟩
    rw [htext] at hsame
    cases hsame
    have hfound := line_of_caseAt hcase hk hline
    exact ⟨hfound, splitOn_of_lines hfound⟩

/-- A line above all markers, white space around a marker and in a case, a case without lines, and a
last line that does not end. -/
def threeCases : String := "-- top\n \t//#  a \r\nnode A;\r\n\n//#b\n//# c\nnode C"

theorem threeCases_loading : ∃ f, ofSource threeCases = .ok f
    ∧ f.names = ["a", "b", "c"] ∧ (f.get? "d").isSome = false
    ∧ f.get? "a" = some "node A;\n\n" ∧ f.get? "b" = some "" ∧ f.get? "c" = some "node C\n"
    ∧ (lines threeCases.toList)[1]?.bind marker? = some "a"
    ∧ ("node A;\n\n".toList.splitOn '\n')[0]? = some "node A;".toList
    ∧ (lines threeCases.toList)[2]? = some "node A;".toList := by
  have hrun : (ofSource threeCases).toOption.map (fun f => (f.get? "a", f.get? "b", f.get? "c"))
      = some (some "node A;\n\n", some "", some "node C\n") := by decide +kernel
  have hmarker : (lines threeCases.toList)[1]?.bind marker? = some "a" := by decide +kernel
  have hline : ("node A;\n\n".toList.splitOn '\n')[0]? = some "node A;".toList := by
    decide +kernel
  obtain ⟨-, -, -, hread⟩ := loading_is_exact threeCases
  cases hf : ofSource threeCases with
  | error fault =>
    rw [hf] at hrun
    cases hrun
  | ok f =>
    rw [hf] at hrun
    have htexts := Option.some.inj hrun
    obtain ⟨ha, hrest⟩ := Prod.mk.inj htexts
    obtain ⟨hb, hc⟩ := Prod.mk.inj hrest
    obtain ⟨hnames, hknown, -, hplace⟩ := hread f hf
    have hlist : f.names = ["a", "b", "c"] := hnames.trans (by decide +kernel)
    have hunknown : ¬ (f.get? "d").isSome = true := by
      rw [hknown, hlist]
      decide
    obtain ⟨hfound, -⟩ := hplace "a" _ 1 0 _ ha hmarker (by decide +kernel) hline
    exact ⟨f, rfl, hlist, by simpa using hunknown, ha, hb, hc, hmarker, hline, hfound⟩

end Admissibility.Scenario.Fixture
