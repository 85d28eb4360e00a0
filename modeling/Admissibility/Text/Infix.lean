/-
  Admissibility.Text.Infix
  ────────────────────────
  **Looking for a fragment in a text.**

  `contains_iff`: a fragment is found exactly where it is an infix of the text.
-/

namespace Admissibility.Text

/-- What is left of a text from each of its places on, the empty end included. -/
def suffixes : List Char → List (List Char)
  | [] => [[]]
  | c :: rest => (c :: rest) :: suffixes rest

theorem mem_suffixes {s text : List Char} : s ∈ suffixes text ↔ s <:+ text := by
  induction text with
  | nil => simp [suffixes]
  | cons c rest ih => rw [suffixes, List.mem_cons, ih, List.suffix_cons_iff]

/-- Whether a fragment stands somewhere in a text. -/
def contains (text fragment : String) : Bool :=
  (suffixes text.toList).any (fragment.toList.isPrefixOf ·)

theorem contains_iff {text fragment : String} :
    contains text fragment = true ↔ fragment.toList <:+: text.toList := by
  simp only [contains, List.any_eq_true, List.isPrefixOf_iff_prefix, mem_suffixes,
    List.infix_iff_prefix_suffix, and_comm]

end Admissibility.Text
