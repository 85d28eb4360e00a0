/-
  Admissibility.Proofs.Misfit
  ───────────────────────────
  **The first element of a list that does not fit.**

  Whether an element fits may depend on those before it.  A loop over a list that stops at the first
  element that does not fit, and says what is wrong with it, runs to the end exactly when all fit.

  `cut_unique`: the first misfit is where it is.
  `foldlM_cases`, `mapM_cases`: such loops, from what they do at one element.
-/
import Mathlib.Data.List.Forall2

namespace Admissibility

variable {α ε σ : Type} {Fits : List α → α → Prop} {Wrong : List α → α → ε → Prop}
variable {list before after before' after' : List α} {a a' : α} {e e' : ε}

/-- Every element of a list fits behind those before it. -/
def AllFit (Fits : List α → α → Prop) (list : List α) : Prop :=
  ∀ before a after, list = before ++ a :: after → Fits before a

/-- What is wrong with the first element of a list that does not fit. -/
def FirstMisfit (Fits : List α → α → Prop) (Wrong : List α → α → ε → Prop) (list : List α)
    (e : ε) : Prop :=
  ∃ before a after, list = before ++ a :: after ∧ AllFit Fits before ∧ Wrong before a e

theorem allFit_nil : AllFit Fits [] := by
  intro before a after h
  simp at h

theorem allFit_append_singleton :
    AllFit Fits (list ++ [a]) ↔ AllFit Fits list ∧ Fits list a := by
  constructor
  · intro h
    refine ⟨fun before b after hsplit => h before b (after ++ [a]) ?_, h list a [] rfl⟩
    rw [hsplit, List.append_assoc, List.cons_append]
  · rintro ⟨hlist, ha⟩ before b after hsplit
    rcases List.eq_nil_or_concat after with rfl | ⟨after, c, rfl⟩
    · obtain ⟨rfl, hb⟩ := List.append_inj' hsplit rfl
      cases hb
      exact ha
    · have hcut : list ++ [a] = (before ++ b :: after) ++ [c] := by
        rw [hsplit, List.concat_eq_append, List.append_assoc, List.cons_append]
      exact hlist before b after (List.append_inj' hcut rfl).1

/-- Where it does not matter what is before an element. -/
theorem allFit_iff {P : α → Prop} : AllFit (fun _ => P) list ↔ ∀ a ∈ list, P a := by
  constructor
  · intro h a ha
    obtain ⟨before, after, hsplit⟩ := List.append_of_mem ha
    exact h before a after hsplit
  · rintro h before a after rfl
    exact h a (by simp)

/-- **The first misfit** is where it is. -/
theorem cut_unique (h : before ++ a :: after = before' ++ a' :: after')
    (hfit : AllFit Fits before) (hfit' : AllFit Fits before') (ha : ¬ Fits before a)
    (ha' : ¬ Fits before' a') : before = before' ∧ a = a' := by
  rcases List.append_eq_append_iff.1 h with ⟨more, rfl, hmore⟩ | ⟨more, rfl, hmore⟩
  · cases more with
    | nil => exact ⟨by rw [List.append_nil], (List.cons.inj hmore).1⟩
    | cons b more =>
      -- the one would be among those that fit
      cases (List.cons.inj hmore).1
      exact absurd (hfit' before a more rfl) ha
  · cases more with
    | nil => exact ⟨by rw [List.append_nil], (List.cons.inj hmore).1.symm⟩
    | cons b more =>
      cases (List.cons.inj hmore).1
      exact absurd (hfit before' a' more rfl) ha'

theorem FirstMisfit.not_allFit (hwrong : ∀ before a e, Wrong before a e → ¬ Fits before a)
    (h : FirstMisfit Fits Wrong list e) : ¬ AllFit Fits list := by
  obtain ⟨before, a, after, rfl, -, ha⟩ := h
  exact fun hall => hwrong before a e ha (hall before a after rfl)

theorem FirstMisfit.unique (hwrong : ∀ before a e, Wrong before a e → ¬ Fits before a)
    (hone : ∀ before a e e', Wrong before a e → Wrong before a e' → e = e')
    (h : FirstMisfit Fits Wrong list e) (h' : FirstMisfit Fits Wrong list e') : e = e' := by
  obtain ⟨before, a, after, rfl, hfit, ha⟩ := h
  obtain ⟨before', a', after', hsplit, hfit', ha'⟩ := h'
  obtain ⟨rfl, rfl⟩ := cut_unique hsplit hfit hfit' (hwrong _ _ _ ha) (hwrong _ _ _ ha')
  exact hone _ _ _ _ ha ha'

variable (Fits Wrong) in
/-- **A loop that stops at the first misfit**, with what it keeps of the elements that fit. -/
theorem foldlM_cases (f : σ → α → Except ε σ) (Kept : List α → σ → Prop) {s : σ}
    (hstep : ∀ before a s, Kept before s →
      (Fits before a ∧ ∃ t, f s a = .ok t ∧ Kept (before ++ [a]) t)
        ∨ ∃ e, Wrong before a e ∧ f s a = .error e)
    (hbefore : AllFit Fits before) (hs : Kept before s) (list : List α) :
    (AllFit Fits (before ++ list) ∧ ∃ t, list.foldlM f s = .ok t ∧ Kept (before ++ list) t)
      ∨ ∃ e, FirstMisfit Fits Wrong (before ++ list) e ∧ list.foldlM f s = .error e := by
  induction list generalizing before s with
  | nil =>
    rw [List.append_nil]
    exact .inl ⟨hbefore, s, rfl, hs⟩
  | cons a rest ih =>
    rw [List.foldlM_cons]
    rcases hstep before a s hs with ⟨ha, t, ht, hkept⟩ | ⟨e, he, herror⟩
    · rw [ht, List.append_cons]
      exact ih (allFit_append_singleton.2 ⟨hbefore, ha⟩) hkept
    · rw [herror]
      exact .inr ⟨e, ⟨before, a, rest, rfl, hbefore, he⟩, rfl⟩

/-- **A map that stops at the first misfit**, where what is before an element does not matter. -/
theorem mapM_cases {β : Type} {f : α → Except ε β} {P : α → Prop} {Q : α → ε → Prop}
    {R : α → β → Prop}
    (hstep : ∀ a, (P a ∧ ∃ b, f a = .ok b ∧ R a b) ∨ ∃ e, Q a e ∧ f a = .error e)
    (list : List α) :
    ((∀ a ∈ list, P a) ∧ ∃ bs, list.mapM f = .ok bs ∧ List.Forall₂ R list bs)
      ∨ ∃ e, FirstMisfit (fun _ => P) (fun _ => Q) list e ∧ list.mapM f = .error e := by
  induction list with
  | nil => exact .inl ⟨by simp, [], rfl, .nil⟩
  | cons a rest ih =>
    rw [List.mapM_cons]
    rcases hstep a with ⟨ha, b, hb, hr⟩ | ⟨e, he, herror⟩
    · rw [hb]
      rcases ih with ⟨hall, bs, hbs, hrs⟩ | ⟨e, ⟨before, c, after, rfl, hfit, hc⟩, herror⟩
      · rw [hbs]
        exact .inl ⟨List.forall_mem_cons.2 ⟨ha, hall⟩, b :: bs, rfl, .cons hr hrs⟩
      · rw [herror]
        refine .inr ⟨e, ⟨a :: before, c, after, rfl, ?_, hc⟩, rfl⟩
        exact allFit_iff.2 (List.forall_mem_cons.2 ⟨ha, allFit_iff.1 hfit⟩)
    · rw [herror]
      exact .inr ⟨e, ⟨[], a, rest, rfl, allFit_nil, he⟩, rfl⟩

/-- The first misfit of the first part that has one. -/
theorem FirstMisfit.flatMap {β : Type} {parts : List β} {g : β → List α} {P : α → Prop}
    {Q : α → ε → Prop} (h : FirstMisfit (fun _ b => ∀ a ∈ g b, P a)
      (fun _ b => FirstMisfit (fun _ => P) (fun _ => Q) (g b)) parts e) :
    FirstMisfit (fun _ => P) (fun _ => Q) (parts.flatMap g) e := by
  obtain ⟨before, b, after, rfl, hfit, inner, a, others, hb, hinner, ha⟩ := h
  refine ⟨before.flatMap g ++ inner, a, others ++ after.flatMap g, by simp [hb], ?_, ha⟩
  refine allFit_iff.2 fun x hx => ?_
  rcases List.mem_append.1 hx with hx | hx
  · obtain ⟨c, hc, hxc⟩ := List.mem_flatMap.1 hx
    exact allFit_iff.1 hfit c hc x hxc
  · exact allFit_iff.1 hinner x hx

end Admissibility
