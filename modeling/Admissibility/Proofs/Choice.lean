/-
  Admissibility.Proofs.Choice
  ───────────────────────────
  **The chosen violation does not depend on the order in which violations are found.**

  The keys of different violations can be equal, since a key is made of sorted and joined labels.
  Such violations are told apart by their whole content, field by field, so that only a violation
  ties with itself and the choice among any violations is settled by which ones they are.

  `Violation.compare_eq_derived`: the content is compared sort by sort and then field by field.
  `Violations.first?_eq_intoFirst?`: the two ways to choose scan alike.
  `Violations.choice_is_canonical`: both ways to choose agree on the least violation that was
  pushed, in a total order where only equal violations tie, whatever the order of pushing.
-/
import Admissibility.Proofs.Sorted
import Admissibility.Proofs.Violation

namespace Admissibility

/-! ## §1. Violations field by field. -/

namespace Violation

/-- Violations of one sort compare field by field, in the order of the fields; others by sort. -/
def derived : Violation → Violation → Ordering
  | .boundaryMembership boundary bounded chain facts,
    .boundaryMembership boundary' bounded' chain' facts' =>
    (compare boundary boundary').then ((compare bounded bounded').then
      ((compare chain chain').then (compare facts facts')))
  | .inversionArity endpoints fact, .inversionArity endpoints' fact' =>
    (compare endpoints endpoints').then (compare fact fact')
  | .inversionOverlap node first second, .inversionOverlap node' first' second' =>
    (compare node node').then ((compare first first').then (compare second second'))
  | v, w => compare v.rank w.rank

/-- A violation counts by its key, and by its fields where keys are equal. -/
def keyed (v w : Violation) : Ordering := (compare v.key w.key).then (v.derived w)

/-- **The content of violations** is compared sort by sort, and within a sort field by field. -/
theorem compare_eq_derived (v w : Violation) : compare v w = v.derived w := by
  have hparts : compare v w = (compare v.rank w.rank).then
      ((compare v.texts w.texts).then (compare v.facts w.facts)) := rfl
  rw [hparts]
  cases v <;> cases w
  case boundaryMembership.boundaryMembership =>
    simp [derived, rank, texts, facts, Ordering.then_assoc]
  case inversionArity.inversionArity => simp [derived, rank, texts, facts]
  case inversionOverlap.inversionOverlap => simp [derived, rank, texts, facts]
  -- the sorts are different, so their places decide
  all_goals rfl

theorem precedence_eq_keyed (v w : Violation) : precedence v w = v.keyed w := by
  rw [keyed, ← compare_eq_derived]
  rfl

/-- Keys do not tell apart inversions with the same endpoints in different orders. -/
theorem key_inversionArity_of_perm {endpoints others : List String} (h : endpoints.Perm others)
    (fact fact' : Fact) :
    (inversionArity endpoints fact).key = (inversionArity others fact').key := by
  simp only [key, leastLabel, Admissibility.signature, sortLabels_eq_of_perm h]

theorem keyed_eq_derived {v w : Violation} (h : v.key = w.key) : v.keyed w = v.derived w := by
  rw [keyed, h, Std.ReflOrd.compare_self]
  rfl

end Violation

/-! ## §2. Collections as lists. -/

namespace Violations

open Violation

/-- The collection after some pushes on an empty one. -/
def pushAll (pushed : List Violation) : Violations := pushed.foldl push empty

theorem toList_found_foldl (vs : Violations) (pushed : List Violation) :
    (pushed.foldl push vs).found.toList = vs.found.toList ++ pushed := by
  induction pushed generalizing vs with
  | nil => simp
  | cons v rest ih => rw [List.foldl_cons, ih]; simp [push]

@[simp] theorem toList_found_pushAll (pushed : List Violation) :
    (pushAll pushed).found.toList = pushed := by
  rw [pushAll, toList_found_foldl]
  rfl

/-- In both scans, of two violations that tie the one in front stays. -/
theorem better_some (best v : Violation) :
    better (some best) v = some (if (precedence v best).isLT then v else best) := by
  rw [better, show precedence v best = (precedence best v).swap from Std.OrientedCmp.eq_swap]
  cases precedence best v <;> rfl

theorem foldl_better_some (best : Violation) (violations : List Violation) :
    violations.foldl better (some best) = some (violations.foldl
      (fun best w => if (precedence w best).isLT then w else best) best) := by
  induction violations generalizing best with
  | nil => rfl
  | cons v rest ih => rw [List.foldl_cons, better_some, ih, List.foldl_cons]

/-- **Both ways to choose agree.** -/
theorem first?_eq_intoFirst? (vs : Violations) : vs.first? = vs.intoFirst? := by
  rw [first?, intoFirst?, ← Array.foldl_toList]
  cases vs.found.toList with
  | nil => rfl
  | cons best rest => exact foldl_better_some best rest

theorem intoFirst?_pushAll (pushed : List Violation) :
    (pushAll pushed).intoFirst? = least pushed := by
  rw [intoFirst?, toList_found_pushAll]

/-- The choice is made from what was pushed. -/
theorem first?_pushAll (pushed : List Violation) : (pushAll pushed).first? = least pushed := by
  rw [first?_eq_intoFirst?, intoFirst?_pushAll]

/-- What is reported of a structure is the choice from a collection of what was found in it. -/
theorem witness_eq_of_pushAll (s : Structure) (violations : List Violation) :
    s.witness violations = match (pushAll violations).intoFirst? with
      | some violation => .inadmissible violation
      | none => .admissible ⟨s.boundaries.length, (s.relationsOf .inverts).length⟩ := by
  rw [intoFirst?_pushAll]
  rfl

/-! ## §3. The choice. -/

/-- **The choice among violations is canonical.**  Whatever is pushed, both ways to choose give the
same violation, and none only where nothing was pushed.  The chosen violation is one of those
pushed, no other one of them counts before it, and pushing the same violations in another order
changes nothing.  Counting is by key and then by fields: a total order where nothing but equal
violations ties. -/
theorem choice_is_canonical (pushed : List Violation) :
    (pushAll pushed).first? = (pushAll pushed).intoFirst?
      ∧ ((pushAll pushed).first? = none ↔ pushed = [])
      ∧ (∀ v, (pushAll pushed).first? = some v ↔ v ∈ pushed ∧ ∀ w ∈ pushed, v.keyed w ≠ .gt)
      ∧ (∀ others, pushed.Perm others → (pushAll others).first? = (pushAll pushed).first?
          ∧ (pushAll others).intoFirst? = (pushAll pushed).intoFirst?)
      ∧ ∀ u v w : Violation, v.keyed u = (u.keyed v).swap ∧ (u.keyed v = .eq ↔ u = v)
          ∧ (u.keyed v ≠ .gt → v.keyed w ≠ .gt → u.keyed w ≠ .gt) := by
  refine ⟨first?_eq_intoFirst? _, ?_, fun v => ?_, fun others h => ?_, fun u v w => ⟨?_, ?_, ?_⟩⟩
  · rw [first?_pushAll, least_eq_none_iff]
  · rw [first?_pushAll, least_eq_some_iff]
    simp only [← precedence_eq_keyed, ← Ordering.isLE_iff_ne_gt]
    exact ⟨fun h => ⟨h.mem, h.le⟩, fun h => ⟨h.1, h.2⟩⟩
  · simp only [first?_pushAll, intoFirst?_pushAll]
    exact ⟨least_eq_of_perm h.symm, least_eq_of_perm h.symm⟩
  · rw [← precedence_eq_keyed, ← precedence_eq_keyed]
    exact Std.OrientedCmp.eq_swap
  · rw [← precedence_eq_keyed]
    exact Std.LawfulEqCmp.compare_eq_iff_eq
  · simp only [← precedence_eq_keyed, ← Ordering.isLE_iff_ne_gt]
    exact Std.TransCmp.isLE_trans

/-- An inversion of three nodes told in two orders: the keys are equal, and the fields decide in
whichever order the two are pushed. -/
theorem told_twice_choice :
    let told : List String → Violation := fun endpoints =>
      .inversionArity endpoints ⟨.inverts, endpoints⟩
    let v := told ["X", "Y", "Z"]
    let w := told ["Z", "Y", "X"]
    v.key = w.key ∧ v ≠ w ∧ (pushAll [w, v]).first? = some v
      ∧ (pushAll [v, w]).intoFirst? = some v := by
  intro told v w
  obtain ⟨hagree, -, hchosen, hperm, horder⟩ := choice_is_canonical [w, v]
  have hkey : v.key = w.key := key_inversionArity_of_perm (by decide) _ _
  have hle : v.keyed w ≠ .gt := by
    rw [keyed_eq_derived hkey]
    decide
  have hself : v.keyed v ≠ .gt := by
    rw [(horder v v v).2.1.2 rfl]
    decide
  have hfirst : (pushAll [w, v]).first? = some v :=
    (hchosen v).2 ⟨by simp, by simp [hle, hself]⟩
  refine ⟨hkey, by decide, hfirst, ?_⟩
  rw [(hperm [v, w] (List.Perm.swap v w [])).2, ← hagree, hfirst]

end Violations

end Admissibility
