/-
  Admissibility.Proofs.Text.Pieces
  ────────────────────────────────
  **Texts that are put together from pieces.**

  A text stays on its line when its only white space is the blank, and so does one that is put
  together from texts that do.  A text tells its pieces where what stands between them begins with a
  character that none of them holds: the first place of that character ends the first piece.

  `OneLine`: texts that stay on their line.
  `terminated_inj`, `intercalate_inj`, `repr_append_inj`: pieces that can be told.
-/
import Std.Data.String.ToNat
import Admissibility.Proofs.Misfit
import Admissibility.Text.Blank

namespace Admissibility.Text

variable {cs ds : List Char}

/-! ## §1. Texts that stay on their line. -/

/-- A text stays on its line: there is no white space in it but the blank. -/
def OneLine (text : String) : Prop := ∀ c ∈ text.toList, isBlank c = true → c = ' '

instance (text : String) : Decidable (OneLine text) :=
  List.decidableBAll (fun c => isBlank c = true → c = ' ') text.toList

@[simp] theorem oneLine_append {s t : String} : OneLine (s ++ t) ↔ OneLine s ∧ OneLine t := by
  unfold OneLine
  rw [String.toList_append]
  exact List.forall_mem_append

/-- Something in the middle of some words. -/
theorem oneLine_framed {before quoted behind : String} (hbefore : OneLine before)
    (hquoted : OneLine quoted) (hbehind : OneLine behind) : OneLine (before ++ quoted ++ behind) :=
  oneLine_append.2 ⟨oneLine_append.2 ⟨hbefore, hquoted⟩, hbehind⟩

/-- No line feed is in it, and no other white space but the blank. -/
theorem OneLine.not_mem {text : String} (h : OneLine text) {c : Char} (hc : isBlank c = true)
    (hne : c ≠ ' ') : c ∉ text.toList := fun hmem => hne (h c hmem hc)

theorem oneLine_singleton {c : Char} (hc : isBlank c = false) : OneLine (String.singleton c) := by
  intro d hd hblank
  rw [String.toList_singleton, List.mem_singleton] at hd
  rw [hd, hc] at hblank
  cases hblank

theorem isDigit_of_mem_repr {n : Nat} {c : Char} (hc : c ∈ n.repr.toList) : c.isDigit = true := by
  rw [Nat.repr_eq_ofList_toDigits, String.toList_ofList] at hc
  exact Nat.isDigit_of_mem_toDigits (by decide) (by decide) hc

theorem oneLine_repr (n : Nat) : OneLine n.repr := by
  intro c hc hblank
  have hdigit := Char.isDigit_iff_toNat.1 (isDigit_of_mem_repr hc)
  simp only [isBlank, blankRanges, List.any_cons, List.any_nil, Bool.or_eq_true, Bool.and_eq_true,
    decide_eq_true_eq, Bool.or_false] at hblank
  have hlow : '0'.toNat = 48 := rfl
  have hhigh : '9'.toNat = 57 := rfl
  omega

/-- Texts with a separator between them. -/
theorem oneLine_intercalate {separator : String} {texts : List String}
    (hseparator : OneLine separator) (htexts : ∀ t ∈ texts, OneLine t) :
    OneLine (separator.intercalate texts) := by
  induction texts with
  | nil => exact fun c hc => (by cases hc)
  | cons first rest ih =>
    obtain ⟨hfirst, hrest⟩ := List.forall_mem_cons.1 htexts
    cases rest with
    | nil => rwa [String.intercalate_singleton]
    | cons second rest =>
      rw [String.intercalate_cons_cons, oneLine_append, oneLine_append]
      exact ⟨⟨hfirst, hseparator⟩, ih hrest⟩

/-! ## §2. Pieces that can be told. -/

variable {d : Char}

/-- **The first piece** ends at the first place of a character that it does not hold. -/
theorem append_cons_inj {rest more : List Char} (hcs : d ∉ cs) (hds : d ∉ ds) :
    cs ++ d :: rest = ds ++ d :: more ↔ cs = ds ∧ rest = more := by
  constructor
  · intro h
    have hfits : ∀ {piece : List Char}, d ∉ piece → AllFit (fun _ c => c ≠ d) piece := fun hpiece =>
      allFit_iff.2 fun c hc heq => hpiece (heq ▸ hc)
    obtain ⟨rfl, -⟩ := cut_unique h (hfits hcs) (hfits hds) (fun hne => hne rfl) (fun hne => hne rfl)
    exact ⟨rfl, (List.cons.inj (List.append_cancel_left h)).2⟩
  · rintro ⟨rfl, rfl⟩
    rfl

/-- **Pieces with an end behind each** that begins with a character that none of them holds. -/
theorem terminated_inj {rest : List Char} {pieces others : List (List Char)}
    (hpieces : ∀ p ∈ pieces, d ∉ p) (hothers : ∀ p ∈ others, d ∉ p)
    (h : pieces.flatMap (· ++ d :: rest) = others.flatMap (· ++ d :: rest)) : pieces = others := by
  induction pieces generalizing others with
  | nil =>
    cases others with
    | nil => rfl
    | cons q others => simp at h
  | cons p pieces ih =>
    cases others with
    | nil => simp at h
    | cons q others =>
      obtain ⟨hp, hbehind⟩ := List.forall_mem_cons.1 hpieces
      obtain ⟨hq, hbehind'⟩ := List.forall_mem_cons.1 hothers
      simp only [List.flatMap_cons, List.append_assoc, List.cons_append] at h
      obtain ⟨rfl, htail⟩ := (append_cons_inj hp hq).1 h
      rw [ih hbehind hbehind' (List.append_cancel_left htail)]

/-- With the separator behind the last piece too, it ends every piece. -/
theorem intercalate_append (separator : List Char) {pieces : List (List Char)} (hne : pieces ≠ []) :
    separator.intercalate pieces ++ separator = pieces.flatMap (· ++ separator) := by
  induction pieces with
  | nil => exact absurd rfl hne
  | cons p pieces ih =>
    cases pieces with
    | nil => simp
    | cons q pieces =>
      rw [List.intercalate_cons_cons, List.append_assoc, ih (List.cons_ne_nil _ _)]
      rfl

theorem intercalate_ne_nil {separator : List Char} {pieces : List (List Char)} (hne : pieces ≠ [])
    (hpieces : ∀ p ∈ pieces, p ≠ []) : separator.intercalate pieces ≠ [] := by
  match pieces, hne with
  | [p], _ => simpa using hpieces p (by simp)
  | p :: q :: pieces, _ =>
    rw [List.intercalate_cons_cons, List.append_assoc]
    exact List.append_ne_nil_of_left_ne_nil (hpieces p (by simp)) _

/-- **Pieces with a separator between them** that begins with a character that none of them holds.
None of them is empty, since no piece and one empty piece make the same text. -/
theorem intercalate_inj {rest : List Char} {pieces others : List (List Char)}
    (hpieces : ∀ p ∈ pieces, d ∉ p ∧ p ≠ []) (hothers : ∀ p ∈ others, d ∉ p ∧ p ≠ [])
    (h : (d :: rest).intercalate pieces = (d :: rest).intercalate others) : pieces = others := by
  by_cases hnil : pieces = []
  · by_contra hne
    rw [hnil] at h hne
    exact intercalate_ne_nil (Ne.symm hne) (fun p hp => (hothers p hp).2) h.symm
  · by_cases hnil' : others = []
    · rw [hnil'] at h
      exact absurd h (intercalate_ne_nil hnil fun p hp => (hpieces p hp).2)
    · have hends : pieces.flatMap (· ++ d :: rest) = others.flatMap (· ++ d :: rest) := by
        rw [← intercalate_append _ hnil, ← intercalate_append _ hnil', h]
      exact terminated_inj (fun p hp => (hpieces p hp).1) (fun p hp => (hothers p hp).1) hends

/-- **A number** in front of a character that is no digit. -/
theorem repr_append_inj {n m : Nat} {rest more : List Char} (hd : d.isDigit = false)
    (h : n.repr.toList ++ d :: rest = m.repr.toList ++ d :: more) : n = m ∧ rest = more := by
  have hno : ∀ k : Nat, d ∉ k.repr.toList := by
    intro k hk
    rw [isDigit_of_mem_repr hk] at hd
    cases hd
  obtain ⟨hdigits, hrest⟩ := (append_cons_inj (hno n) (hno m)).1 h
  exact ⟨Nat.repr_injective (String.toList_inj.1 hdigits), hrest⟩

end Admissibility.Text
