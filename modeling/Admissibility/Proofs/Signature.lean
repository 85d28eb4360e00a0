/-
  Admissibility.Proofs.Signature
  ──────────────────────────────
  **Signatures order as the sorted lists of labels do.**

  A signature is one text, but it is compared as if it were the list of its labels.  That is so
  because the comma comes before every character of a label, the hyphen too: where one label ends
  and another one goes on, the comma decides as the end of the label would.

  `commas_lt`: of two lists of texts without the separator, the lesser one makes the lesser text.
  `compare_signature`: a signature compares as its sorted labels do.
  `compare_key_inversionArity`: and so does the whole key of an inversion by itself.
  `signature_is_faithful`: what a signature tells of its labels.
-/
import Admissibility.Proofs.Description.Lexicon
import Admissibility.Proofs.Precedence

namespace Admissibility

open Text (Ahead bytes)

/-! ## §1. Texts with a separator between them. -/

namespace Text

/-- Of two lists in order, the first differs from the second at some place, or the second goes on
where the first ends. -/
theorem ahead_or_extends {α : Type} [LT α] {first second : List α} (h : first < second) :
    Ahead first second ∨ ∃ c rest, second = first ++ c :: rest := by
  induction first generalizing second with
  | nil =>
    cases second with
    | nil => cases h
    | cons c rest => exact .inr ⟨c, rest, rfl⟩
  | cons x first ih =>
    cases second with
    | nil => cases h
    | cons y second =>
      rcases List.cons_lt_cons_iff.1 h with hlt | ⟨rfl, hrest⟩
      · exact .inl (.of_lt hlt first second)
      · rcases ih hrest with hahead | ⟨c, rest, rfl⟩
        · exact .inl (hahead.cons x)
        · exact .inr ⟨c, rest, rfl⟩

/-- What stands behind the first of some texts: the others, with the separator in front. -/
def behind (d : Char) : List String → List Char
  | [] => []
  | name :: names => d :: [d].intercalate ((name :: names).map String.toList)

theorem intercalate_cons_eq (d : Char) (name : String) (names : List String) :
    [d].intercalate ((name :: names).map String.toList) = name.toList ++ behind d names := by
  cases names with
  | nil => simp [behind]
  | cons next names =>
    rw [List.map_cons, List.map_cons, List.intercalate_cons_cons, List.append_assoc]
    rfl

/-- What goes on with a character behind the separator is greater than what stands behind a text. -/
theorem behind_lt_cons {c d : Char} (h : d < c) (names : List String) (rest : List Char) :
    behind d names < c :: rest := by
  cases names with
  | nil => exact List.nil_lt_cons c rest
  | cons name names => exact List.Lex.rel h

/-- **The lesser list makes the lesser text**, where the separator comes before every character of
the greater list and none of its texts is empty. -/
theorem commas_lt {d : Char} {names others : List String} (h : names < others)
    (hothers : ∀ name ∈ others, name.toList ≠ [] ∧ ∀ c ∈ name.toList, d < c) :
    [d].intercalate (names.map String.toList) < [d].intercalate (others.map String.toList) := by
  induction names generalizing others with
  | nil =>
    cases others with
    | nil => cases h
    | cons b others =>
      obtain ⟨hne, -⟩ := hothers b List.mem_cons_self
      rw [intercalate_cons_eq]
      cases hb : b.toList with
      | nil => exact absurd hb hne
      | cons c rest => exact List.nil_lt_cons c _
  | cons a names ih =>
    cases others with
    | nil => cases h
    | cons b others =>
      obtain ⟨hb, hrest⟩ := List.forall_mem_cons.1 hothers
      rw [intercalate_cons_eq, intercalate_cons_eq]
      rcases List.cons_lt_cons_iff.1 h with hlt | ⟨rfl, hlt⟩
      · rcases ahead_or_extends (String.lt_iff.1 hlt) with hahead | ⟨c, more, heq⟩
        · exact (hahead.append _ _).lt
        · -- the second name goes on, and the separator or the end is less than what it goes on with
          have hd : d < c := hb.2 c (by rw [heq]; simp)
          rw [heq, List.append_assoc]
          exact List.append_left_lt (behind_lt_cons hd names _)
      · apply List.append_left_lt
        cases others with
        | nil => cases hlt
        | cons next' others =>
          cases names with
          | nil => exact List.nil_lt_cons d _
          | cons next names => exact List.cons_lt_cons_iff.2 (.inr ⟨rfl, ih hlt hrest⟩)

end Text

/-! ## §2. Labels and commas. -/

/-- Each label of a list has the form that descriptions give to labels. -/
def AreLabels (labels : List String) : Prop :=
  ∀ label ∈ labels, Description.IsLabel label.toList

/-- **The comma comes before** every character of a label. -/
theorem comma_lt_of_isLabel {cs : List Char} (h : Description.IsLabel cs) :
    cs ≠ [] ∧ ∀ c ∈ cs, ',' < c := by
  have hword : Description.IsWord cs := Description.isLabel_iff.1 h
  constructor
  · intro hnil
    rw [hnil] at hword
    exact hword
  · intro c hc
    show 44 < c.toNat
    rcases Description.isWordChar_or_hyphen hword hc with hchar | hhyphen
    · rw [Description.isWordChar_iff, Description.startsWord_iff] at hchar
      omega
    · rw [hhyphen]
      decide

variable {first second : List String}

theorem comma_lt_of_sortLabels (h : AreLabels first) : ∀ label ∈ sortLabels first,
    label.toList ≠ [] ∧ ∀ c ∈ label.toList, ',' < c := by
  intro label hlabel
  exact comma_lt_of_isLabel (h label ((sortLabels_perm first).mem_iff.1 hlabel))

theorem signature_lt (hsecond : AreLabels second) (h : sortLabels first < sortLabels second) :
    signature first < signature second := by
  rw [String.lt_iff, signature, signature, String.toList_intercalate, String.toList_intercalate]
  exact Text.commas_lt h (comma_lt_of_sortLabels hsecond)

/-! ## §3. Comparisons. -/

/-- **Signatures compare** as the sorted lists of their labels. -/
theorem compare_signature (hfirst : AreLabels first) (hsecond : AreLabels second) :
    compare (signature first) (signature second)
      = compare (sortLabels first) (sortLabels second) := by
  cases hcompare : compare (sortLabels first) (sortLabels second) with
  | lt => exact compare_eq_lt_iff.2 (signature_lt hsecond (compare_list_eq_lt_iff.1 hcompare))
  | eq =>
    have hsorted : sortLabels first = sortLabels second := Std.LawfulEqOrd.eq_of_compare hcompare
    rw [signature, signature, hsorted]
    exact Std.ReflOrd.compare_self
  | gt =>
    have hless : sortLabels second < sortLabels first :=
      compare_list_eq_lt_iff.1 (Std.OrientedCmp.gt_iff_lt.1 hcompare)
    exact Std.OrientedCmp.gt_iff_lt.2 (compare_eq_lt_iff.2 (signature_lt hfirst hless))

/-- The labels of a signature can be told, but for their order. -/
theorem signature_eq_iff (hfirst : AreLabels first) (hsecond : AreLabels second) :
    signature first = signature second ↔ first.Perm second := by
  constructor
  · intro h
    have hsorted : sortLabels first = sortLabels second := by
      apply Std.LawfulEqOrd.eq_of_compare
      rw [← compare_signature hfirst hsecond, h]
      exact Std.ReflOrd.compare_self
    exact (sortLabels_perm first).symm.trans (hsorted ▸ sortLabels_perm second)
  · intro h
    rw [signature, signature, sortLabels_eq_of_perm h]

/-- The empty text, which stands for the least of no labels, comes before every label. -/
theorem compare_empty_label {label : String} {rest : List String} (h : AreLabels first)
    (hsorted : sortLabels first = label :: rest) : compare "" label = .lt := by
  have hne := (comma_lt_of_sortLabels h label (by rw [hsorted]; simp)).1
  rw [compare_eq_lt_iff, String.lt_iff]
  cases hchars : label.toList with
  | nil => exact absurd hchars hne
  | cons c rest => exact List.nil_lt_cons c rest

/-- **The key of an inversion by itself** compares as its sorted endpoints do: the least endpoint,
which comes first in the key, is the first of them. -/
theorem compare_key_inversionArity (hfirst : AreLabels first) (hsecond : AreLabels second)
    (f g : Fact) : compare (Violation.inversionArity first f).key
        (Violation.inversionArity second g).key
      = compare (sortLabels first) (sortLabels second) := by
  show (compare ((sortLabels first).head?.getD "") ((sortLabels second).head?.getD "")).then
    ((compare (signature first) (signature second)).then (compare 1 1)) = _
  rw [compare_signature hfirst hsecond]
  cases hx : sortLabels first with
  | nil =>
    cases hy : sortLabels second with
    | nil => rfl
    | cons y ys =>
      show (compare "" y).then _ = _
      rw [compare_empty_label hsecond hy]
      rfl
  | cons x xs =>
    cases hy : sortLabels second with
    | nil =>
      show (compare x "").then _ = _
      rw [Std.OrientedCmp.gt_iff_lt.2 (compare_empty_label hfirst hx)]
      rfl
    | cons y ys =>
      show (compare x y).then ((compare (x :: xs) (y :: ys)).then .eq) = _
      rw [List.compare_cons_cons]
      cases compare x y with
      | lt => rfl
      | eq => simp
      | gt => rfl

/-! ## §4. What a signature tells. -/

/-- **Signatures are faithful.**  The signatures of two lists of labels compare as the sorted lists
do, whether by characters or by bytes.  They are equal exactly when the lists have the same labels,
each as often; the order in which labels are listed does not matter.  So inversions by themselves
are reported in the order of their sorted endpoints. -/
theorem signature_is_faithful (first second : List String) (hfirst : AreLabels first)
    (hsecond : AreLabels second) :
    compare (signature first) (signature second) = compare (sortLabels first) (sortLabels second)
      ∧ (bytes (signature first) < bytes (signature second)
          ↔ (sortLabels first).map bytes < (sortLabels second).map bytes)
      ∧ (signature first = signature second ↔ first.Perm second)
      ∧ (∀ others, first.Perm others → signature others = signature first)
      ∧ ∀ f g : Fact, compare (Violation.inversionArity first f).key
            (Violation.inversionArity second g).key
          = compare (sortLabels first) (sortLabels second) := by
  have hcompare := compare_signature hfirst hsecond
  refine ⟨hcompare, ?_, signature_eq_iff hfirst hsecond, ?_,
    compare_key_inversionArity hfirst hsecond⟩
  · rw [Text.bytes_lt_iff, Text.map_bytes_lt_iff, ← compare_eq_lt_iff, hcompare,
      compare_list_eq_lt_iff]
  · intro others h
    rw [signature, signature, sortLabels_eq_of_perm h]

/-- A label that begins another one, which goes on with a hyphen: the comma comes before it. -/
theorem hyphen_signature :
    AreLabels ["b", "a"] ∧ AreLabels ["a-b"] ∧ signature ["b", "a"] = "a,b"
      ∧ bytes (signature ["b", "a"]) < bytes (signature ["a-b"])
      ∧ signature ["b", "a"] ≠ signature ["a-b"]
      ∧ signature ["a", "b"] = signature ["b", "a"] := by
  have hpair : AreLabels ["b", "a"] := by
    intro label hlabel
    rw [Description.isLabel_iff]
    revert label
    decide
  have hsingle : AreLabels ["a-b"] := by
    intro label hlabel
    rw [Description.isLabel_iff]
    revert label
    decide
  have hsorted : sortLabels ["b", "a"] = ["a", "b"] := by
    rw [sortLabels_eq_insertionSort]
    decide
  have hsorted' : sortLabels ["a-b"] = ["a-b"] := sortLabels_eq_self (List.pairwise_singleton _ _)
  obtain ⟨-, hbytes, hequal, hperm, -⟩ := signature_is_faithful ["b", "a"] ["a-b"] hpair hsingle
  rw [hsorted, hsorted'] at hbytes
  refine ⟨hpair, hsingle, by rw [signature, hsorted]; rfl, hbytes.2 (by decide), ?_,
    hperm ["a", "b"] (by decide)⟩
  intro h
  exact absurd (hequal.1 h).length_eq (by decide)

end Admissibility
