/-
  Admissibility.Proofs.Sorted
  ───────────────────────────
  **Sorted lists without repetitions.**

  Labels and nodes are listed in ascending order and each once: a list is sorted and then the runs
  of equal elements are cut down to one.  Such a list is determined by what is in it, so it does
  not matter in which order, or how often, its elements were given.

  `eq_of_ascending`: two ascending lists with the same elements are equal.
  `mergeSort_eq_insertionSort`: sorting by merging and by inserting come to the same.
  `ascending_distinctLabels`, `mem_distinctLabels`: the labels of a list, ascending, each once.
  `sortLabels_eq_of_perm`: sorting forgets the order of a list of labels.
-/
import Mathlib.Data.List.Sort
import Admissibility.Violation

namespace Admissibility

/-! ## §1. Cutting down runs. -/

theorem eraseRepsBy_loop_eq {α : Type} (r : α → α → Bool) (a : α) (list done : List α) :
    List.eraseRepsBy.loop r a list done = done.reverse ++ List.eraseRepsBy.loop r a list [] := by
  induction list generalizing a done with
  | nil => simp [List.eraseRepsBy.loop]
  | cons b rest ih =>
    simp only [List.eraseRepsBy.loop]
    split
    · exact ih a done
    · rw [ih b (a :: done), ih b [a], List.reverse_cons, List.append_assoc]
      rfl

/-- One step of the cut: the first element goes where the second repeats it. -/
theorem eraseReps_cons_cons {α : Type} [BEq α] (a b : α) (list : List α) :
    (a :: b :: list).eraseReps
      = if a == b then (a :: list).eraseReps else a :: (b :: list).eraseReps := by
  show List.eraseRepsBy.loop (· == ·) a (b :: list) [] = _
  simp only [List.eraseRepsBy.loop]
  split
  · next h => rw [h]; rfl
  · next h =>
    rw [h, eraseRepsBy_loop_eq]
    rfl

section Runs

variable {α : Type} [BEq α] [LawfulBEq α]

theorem mem_eraseReps {list : List α} {c : α} : c ∈ list.eraseReps ↔ c ∈ list := by
  -- a step looks at two elements, so lists of none and of one come first
  match list with
  | [] => exact Iff.rfl
  | [a] => exact Iff.rfl
  | a :: b :: list =>
    rw [eraseReps_cons_cons]
    by_cases h : a = b
    · subst h
      rw [if_pos (beq_self_eq_true a), mem_eraseReps, List.mem_cons, List.mem_cons, List.mem_cons]
      exact ⟨.inr, fun hc => hc.elim .inl id⟩
    · rw [if_neg (by simpa using h), List.mem_cons, mem_eraseReps, List.mem_cons (l := b :: list)]
termination_by list.length

/-- The cut of a sorted list never has an element twice. -/
theorem pairwise_eraseReps {R : α → α → Prop} (antisymm : ∀ a b, R a b → R b a → a = b)
    {list : List α} (h : list.Pairwise R) :
    list.eraseReps.Pairwise fun a b => R a b ∧ a ≠ b := by
  match list with
  | [] => exact .nil
  | [a] => exact List.pairwise_singleton _ a
  | a :: b :: list =>
    obtain ⟨ha, hb⟩ := List.pairwise_cons.1 h
    rw [eraseReps_cons_cons]
    by_cases hab : a = b
    · subst hab
      rw [if_pos (beq_self_eq_true a)]
      exact pairwise_eraseReps antisymm hb
    · rw [if_neg (by simpa using hab)]
      refine List.pairwise_cons.2 ⟨fun c hc => ?_, pairwise_eraseReps antisymm hb⟩
      have hmem : c ∈ b :: list := mem_eraseReps.1 hc
      refine ⟨ha c hmem, fun hac => ?_⟩
      -- an element that comes back after another one would have to equal that one
      subst hac
      rcases List.mem_cons.1 hmem with hcb | hcl
      · exact hab hcb
      · exact hab (antisymm a b (ha b List.mem_cons_self) ((List.pairwise_cons.1 hb).1 a hcl))
termination_by list.length

end Runs

/-! ## §2. Ascending lists. -/

/-- **Determined by its elements**: two ascending lists with the same elements are equal. -/
theorem eq_of_ascending {α : Type} {R : α → α → Prop} (irrefl : ∀ a, ¬ R a a)
    (asymm : ∀ a b, R a b → ¬ R b a) {first second : List α} (hfirst : first.Pairwise R)
    (hsecond : second.Pairwise R) (h : ∀ a, a ∈ first ↔ a ∈ second) : first = second := by
  -- without repetitions, lists with the same elements are permutations of each other
  have nodup : ∀ {list : List α}, list.Pairwise R → list.Nodup := by
    intro list hl
    refine hl.imp ?_
    intro a b hab heq
    subst heq
    exact irrefl a hab
  have perm : first.Perm second :=
    (List.perm_ext_iff_of_nodup (nodup hfirst) (nodup hsecond)).2 h
  exact perm.eq_of_pairwise (fun a b _ _ hab hba => absurd hba (asymm a b hab)) hfirst hsecond

/-- Numbering a list gives ascending numbers. -/
theorem ascending_zipIdx {α : Type} (list : List α) :
    list.zipIdx.Pairwise fun a b => a.2 < b.2 := by
  -- the numbers alone are a range
  have h : (list.zipIdx.map Prod.snd).Pairwise (· < ·) := by
    rw [List.zipIdx_map_snd]
    exact List.pairwise_lt_range'
  exact List.pairwise_map.1 h

/-! ## §3. Two ways to sort. -/

/-- **Merging is inserting**, also where elements tie without being equal (as numbers that are no
nodes do, which have no labels): both ways to sort leave them in the order given.  Insertion goes by
the list alone, so it can be carried out on closed lists, where merging is stuck at its measure. -/
theorem mergeSort_eq_insertionSort {α : Type} {le : α → α → Bool}
    (trans : ∀ a b c, le a b = true → le b c = true → le a c = true)
    (total : ∀ a b, (le a b || le b a) = true) (list : List α) :
    list.mergeSort le = list.insertionSort fun a b => le a b = true := by
  induction list with
  | nil => simp
  | cons a list ih =>
    obtain ⟨front, back, hsorted, hrest, hfront⟩ := List.mergeSort_cons trans total a list
    have hback : ∀ b ∈ back, le a b = true := by
      have h := List.pairwise_mergeSort trans total (a :: list)
      rw [hsorted] at h
      exact (List.pairwise_cons.1 (List.pairwise_append.1 h).2.1).1
    have hpast : ∀ b ∈ front, (decide ¬ le a b = true) = true := by simpa using hfront
    rw [List.insertionSort_cons, ← ih, hsorted, hrest, List.orderedInsert_eq_take_drop,
      List.takeWhile_append_of_pos hpast, List.dropWhile_append_of_pos hpast]
    cases back with
    | nil => simp
    | cons b back => simp [hback b List.mem_cons_self]

section Labelled

variable {α : Type} (label : α → String)

theorem label_le_trans (a b c : α) (hab : decide (label a ≤ label b) = true)
    (hbc : decide (label b ≤ label c) = true) : decide (label a ≤ label c) = true :=
  decide_eq_true (String.le_trans (of_decide_eq_true hab) (of_decide_eq_true hbc))

theorem label_le_total (a b : α) :
    (decide (label a ≤ label b) || decide (label b ≤ label a)) = true := by
  simpa using String.le_total (label a) (label b)

end Labelled

/-! ## §4. Sorted labels. -/

theorem sortLabels_eq_insertionSort (labels : List String) :
    sortLabels labels = labels.insertionSort fun a b => decide (a ≤ b) = true :=
  mergeSort_eq_insertionSort (label_le_trans id) (label_le_total id) labels

theorem pairwise_sortLabels (labels : List String) : (sortLabels labels).Pairwise (· ≤ ·) :=
  (List.pairwise_mergeSort (label_le_trans id) (label_le_total id) labels).imp of_decide_eq_true

theorem sortLabels_perm (labels : List String) : (sortLabels labels).Perm labels :=
  List.mergeSort_perm _ _

theorem sortLabels_eq_of_perm {labels others : List String} (h : labels.Perm others) :
    sortLabels labels = sortLabels others :=
  ((sortLabels_perm labels).trans (h.trans (sortLabels_perm others).symm)).eq_of_pairwise
    (fun _ _ _ _ hab hba => String.le_antisymm hab hba)
    (pairwise_sortLabels labels) (pairwise_sortLabels others)

/-- A sorted list is its own sorting. -/
theorem sortLabels_eq_self {labels : List String} (h : labels.Pairwise (· ≤ ·)) :
    sortLabels labels = labels :=
  (sortLabels_perm labels).eq_of_pairwise (fun _ _ _ _ hab hba => String.le_antisymm hab hba)
    (pairwise_sortLabels labels) h

theorem ascending_distinctLabels (labels : List String) :
    (distinctLabels labels).Pairwise (· < ·) :=
  (pairwise_eraseReps (fun _ _ hab hba => String.le_antisymm hab hba)
    (pairwise_sortLabels labels)).imp fun h => Std.lt_of_le_of_ne h.1 h.2

theorem mem_distinctLabels {labels : List String} {label : String} :
    label ∈ distinctLabels labels ↔ label ∈ labels :=
  mem_eraseReps.trans (sortLabels_perm labels).mem_iff

/-- An ascending list of labels is what the labels of any list with the same elements come to. -/
theorem eq_distinctLabels {ascending labels : List String} (h : ascending.Pairwise (· < ·))
    (hmem : ∀ label, label ∈ ascending ↔ label ∈ labels) : ascending = distinctLabels labels :=
  eq_of_ascending String.lt_irrefl (fun _ _ => String.lt_asymm) h (ascending_distinctLabels labels)
    fun label => (hmem label).trans mem_distinctLabels.symm

theorem distinctLabels_eq {labels others : List String}
    (h : ∀ label, label ∈ labels ↔ label ∈ others) : distinctLabels labels = distinctLabels others :=
  eq_distinctLabels (ascending_distinctLabels labels) fun label => mem_distinctLabels.trans (h label)

end Admissibility
