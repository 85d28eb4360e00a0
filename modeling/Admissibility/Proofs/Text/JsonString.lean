/-
  Admissibility.Proofs.Text.JsonString
  ────────────────────────────────────
  **String literals of JSON can be told.**

  The written forms of characters are a code in which no word begins another one, so that a text is
  read off the words of its characters.  The characters that are escaped are few, and their words
  begin with a backslash, which stands for nothing else; every other character is its own word.

  `flatMap_inj`: texts in a code in which no word begins another one.
  `quote_inj`: literals.
  `not_mem_quote`: no control character is in a literal.
-/
import Admissibility.Text.JsonString

namespace Admissibility.Text

/-! ## §1. Codes. -/

/-- **A code in which no word begins another one** tells the texts that are written in it. -/
theorem flatMap_inj {α β : Type} {code : α → List β} (hne : ∀ a, code a ≠ [])
    (hfree : ∀ a b, code a <+: code b → a = b) {text other : List α}
    (h : text.flatMap code = other.flatMap code) : text = other := by
  induction text generalizing other with
  | nil =>
    cases other with
    | nil => rfl
    | cons b other =>
      rw [List.flatMap_nil, List.flatMap_cons] at h
      exact absurd (List.append_eq_nil_iff.1 h.symm).1 (hne b)
  | cons a text ih =>
    cases other with
    | nil =>
      rw [List.flatMap_nil, List.flatMap_cons] at h
      exact absurd (List.append_eq_nil_iff.1 h).1 (hne a)
    | cons b other =>
      rw [List.flatMap_cons, List.flatMap_cons] at h
      have hfirst : code a <+: code b ++ other.flatMap code := ⟨text.flatMap code, h⟩
      have hsecond : code b <+: code b ++ other.flatMap code := List.prefix_append _ _
      -- the first words begin the same text, so one of them begins the other
      have heq : a = b := by
        rcases List.prefix_or_prefix_of_prefix hfirst hsecond with hab | hba
        · exact hfree a b hab
        · exact (hfree b a hba).symm
      subst heq
      rw [ih (List.append_cancel_left h)]

namespace JsonString

/-! ## §2. The words of characters. -/

/-- The characters that do not stand as they are. -/
def escaped : List Char := '"' :: '\\' :: (List.range 0x20).map Char.ofNat

theorem mem_escaped_of_lt {c : Char} (h : c.toNat < 0x20) : c ∈ escaped := by
  have hmem : Char.ofNat c.toNat ∈ (List.range 0x20).map Char.ofNat :=
    List.mem_map_of_mem (List.mem_range.2 h)
  rw [Char.ofNat_toNat] at hmem
  exact List.mem_cons_of_mem _ (List.mem_cons_of_mem _ hmem)

/-- A character that is not escaped is its own word. -/
theorem escape_of_not_mem {c : Char} (h : c ∉ escaped) : (escape c).toList = [c] := by
  have hcontrol : ¬ c.toNat < 0x20 := fun hlt => h (mem_escaped_of_lt hlt)
  unfold escape
  split
  case h_8 =>
    rw [if_neg hcontrol]
    exact String.toList_singleton c
  all_goals exact absurd (by decide) h

/-- The words of the escaped characters: a backslash first, and no control character. -/
theorem escape_of_mem : ∀ c ∈ escaped, (escape c).toList.head? = some '\\'
    ∧ ∀ d ∈ (escape c).toList, ¬ d.toNat < 0x20 := by
  -- run over the list: a search over all characters is too long
  have hall : (escaped.all fun c => (escape c).toList.head? == some '\\' &&
      (escape c).toList.all fun d => decide (¬ d.toNat < 0x20)) = true := by decide +kernel
  intro c hc
  have hword := List.all_eq_true.1 hall c hc
  rw [Bool.and_eq_true, beq_iff_eq, List.all_eq_true] at hword
  exact ⟨hword.1, fun d hd => of_decide_eq_true (hword.2 d hd)⟩

theorem eq_of_prefix_of_mem : ∀ c ∈ escaped, ∀ d ∈ escaped,
    (escape c).toList <+: (escape d).toList → c = d := by
  have hall : (escaped.all fun c => escaped.all fun d =>
      !(escape c).toList.isPrefixOf (escape d).toList || c == d) = true := by decide +kernel
  intro c hc d hd hprefix
  have hpair := List.all_eq_true.1 (List.all_eq_true.1 hall c hc) d hd
  rw [List.isPrefixOf_iff_prefix.2 hprefix] at hpair
  exact eq_of_beq hpair

theorem escape_ne_nil (c : Char) : (escape c).toList ≠ [] := by
  by_cases hc : c ∈ escaped
  · intro hnil
    have hhead := (escape_of_mem c hc).1
    rw [hnil] at hhead
    cases hhead
  · rw [escape_of_not_mem hc]
    exact List.cons_ne_nil c []

/-- A word that begins another one begins with the same character. -/
theorem head?_eq_of_prefix {c d : Char} (h : (escape c).toList <+: (escape d).toList) :
    (escape c).toList.head? = (escape d).toList.head? := by
  obtain ⟨rest, hrest⟩ := h
  rw [← hrest, List.head?_append, Option.or_of_isSome]
  exact List.isSome_head?.2 (escape_ne_nil c)

/-- **No word begins another one.** -/
theorem eq_of_prefix {c d : Char} (h : (escape c).toList <+: (escape d).toList) : c = d := by
  have hhead := head?_eq_of_prefix h
  have hbackslash : '\\' ∈ escaped := by decide
  by_cases hc : c ∈ escaped
  · by_cases hd : d ∈ escaped
    · exact eq_of_prefix_of_mem c hc d hd h
    · -- the backslash is a word of its own for no character
      rw [(escape_of_mem c hc).1, escape_of_not_mem hd] at hhead
      cases hhead
      exact absurd hbackslash hd
  · by_cases hd : d ∈ escaped
    · rw [(escape_of_mem d hd).1, escape_of_not_mem hc] at hhead
      cases hhead
      exact absurd hbackslash hc
    · rw [escape_of_not_mem hc, escape_of_not_mem hd] at hhead
      cases hhead
      rfl

/-! ## §3. Literals. -/

theorem toList_quote (s : String) :
    (quote s).toList = '"' :: (s.toList.flatMap (fun c => (escape c).toList) ++ ['"']) := by
  unfold quote
  rw [String.toList_append, String.toList_append, String.toList_join, List.flatMap_map]
  rfl

/-- **Literals** can be told. -/
theorem quote_inj {s t : String} (h : quote s = quote t) : s = t := by
  have hchars := congrArg String.toList h
  rw [toList_quote, toList_quote] at hchars
  have hwords := List.append_cancel_right (List.cons.inj hchars).2
  exact String.toList_injective (flatMap_inj escape_ne_nil (fun _ _ => eq_of_prefix) hwords)

/-- No control character is in a literal. -/
theorem not_mem_quote {s : String} {c : Char} (hc : c.toNat < 0x20) : c ∉ (quote s).toList := by
  have hne : c ≠ '"' := by
    intro heq
    subst heq
    exact absurd hc (by decide)
  have hword : ∀ d, c ∉ (escape d).toList := by
    intro d hmem
    by_cases hd : d ∈ escaped
    · exact (escape_of_mem d hd).2 c hmem hc
    · rw [escape_of_not_mem hd, List.mem_singleton] at hmem
      exact hd (hmem ▸ mem_escaped_of_lt hc)
  rw [toList_quote]
  simp only [List.mem_cons, List.mem_append, List.mem_flatMap, List.not_mem_nil, or_false, not_or,
    not_exists, not_and]
  exact ⟨hne, fun d _ => hword d, hne⟩

end JsonString

end Admissibility.Text
