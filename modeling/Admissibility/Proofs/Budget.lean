/-
  Admissibility.Proofs.Budget
  ───────────────────────────
  **An exhausted budget stays exhausted.**

  A charge that fails is counted like any other, so what is spent is the sum of all charges so far,
  up to the largest count.  It never gets less: where one charge fails, each later one fails too.

  `getElem?_answers`: a charge is answered by where the budget stands behind it.
  `total_take_mono`: the sum of the charges so far never gets less.
  `exhaustion_lasts`: which charges on a fresh budget fail.
-/
import Admissibility.Proofs.Calls
import Admissibility.Proofs.Metered

namespace Admissibility.Budget

variable {b : Budget} {charges : List Nat}

/-! ## §1. Charges one by one. -/

/-- What a charge is answered after which a budget stands like this. -/
def standing (b : Budget) : Except Stop Unit :=
  if b.Overspent then .error (.budgetExceeded b.limit) else .ok ()

/-- What each of some charges is answered.  They are made one after the other, whether or not one
before them failed. -/
def answers (b : Budget) (charges : List Nat) : List (Except Stop Unit) :=
  Calls.answers (fun b steps => (Metered.spend steps).run.run b) b charges

/-- **Every charge of a run** is answered by where the budget stands behind it. -/
theorem getElem?_answers (b : Budget) (charges : List Nat) (k : Nat) :
    (b.answers charges)[k]? = if k < charges.length then
      some (b.chargeAll (charges.take (k + 1))).standing else none := by
  rw [answers, Calls.getElem?_answers]
  by_cases hk : k < charges.length
  · rw [if_pos hk, List.getElem?_eq_getElem hk, List.take_succ_eq_append_getElem hk, chargeAll,
      List.foldl_append]
    rfl
  · rw [if_neg hk, List.getElem?_eq_none (Nat.le_of_not_lt hk)]
    rfl

/-! ## §2. The sum so far. -/

/-- **The sum never gets less** from one charge to a later one. -/
theorem total_take_mono (charges : List Nat) {j k : Nat} (h : j ≤ k) :
    total (charges.take j) ≤ total (charges.take k) := by
  have hsplit : charges.take j ++ (charges.take k).drop j = charges.take k := by
    rw [← Nat.min_eq_left h, ← List.take_take, Nat.min_eq_left h]
    exact List.take_append_drop j (charges.take k)
  rw [← hsplit, total_append]
  omega

/-- A fresh budget after some charges. -/
theorem chargeAll_start (limit : Nat) (charges : List Nat) :
    chargeAll ⟨limit, 0⟩ charges = ⟨limit, min (total charges) maxCount⟩ := by
  rw [chargeAll_eq (Nat.zero_le _), Nat.zero_add]

/-- The answers of a fresh budget, by the sum up to each charge. -/
theorem getElem?_answers_start (limit : Nat) (charges : List Nat) (k : Nat) :
    (answers ⟨limit, 0⟩ charges)[k]? = if k < charges.length then
      some (if limit < min (total (charges.take (k + 1))) maxCount then
        .error (.budgetExceeded limit) else .ok ()) else none := by
  rw [getElem?_answers, chargeAll_start]
  rfl

/-- A charge that fails has the sum up to it above the limit. -/
theorem exceeds_of_error {limit k : Nat} {stop : Stop}
    (h : (answers ⟨limit, 0⟩ charges)[k]? = some (.error stop)) :
    limit < min (total (charges.take (k + 1))) maxCount ∧ stop = .budgetExceeded limit := by
  rw [getElem?_answers_start] at h
  split at h
  · split at h
    · next hexceeds =>
      cases h
      exact ⟨hexceeds, rfl⟩
    · cases h
  · cases h

/-- A limit that the largest count does not exceed lets every charge pass. -/
theorem eq_ok_of_mem_answers {limit : Nat} (h : maxCount ≤ limit) {answer : Except Stop Unit}
    (hmem : answer ∈ answers ⟨limit, 0⟩ charges) : answer = .ok () := by
  obtain ⟨k, hk⟩ := List.mem_iff_getElem?.1 hmem
  have hwithin : ¬ limit < min (total (charges.take (k + 1))) maxCount := by omega
  rw [getElem?_answers_start, if_neg hwithin] at hk
  split at hk
  · cases hk
    rfl
  · cases hk

/-! ## §3. Runs of charges. -/

/-- Charges that are made up to the first that fails: their sum decides whether there is one. -/
theorem pay_start (limit : Nat) (charges : List Nat) :
    ((Metered.pay charges).run.run ⟨limit, 0⟩).1
      = if min (total charges) maxCount ≤ limit then .ok ()
        else .error (.budgetExceeded limit) := by
  have hcosts : Metered.Costs (Metered.pay charges) charges () := by
    show Metered.pay charges = Metered.pay charges >>= fun _ => pure ()
    rw [bind_pure_unit]
  exact hcosts.run_start limit

/-- **Exhaustion lasts.**  On a fresh budget, a charge fails exactly when the sum of all charges up
to it, those that failed included, counted up to the largest count, is above the limit; it fails
with the limit.  Behind a charge that fails every other one fails, one of no steps too.  What is
spent is the sum, which does not wrap around.  Where charges are made up to the first that fails,
the sum alone decides how that ends.  A budget without a limit lets every charge pass. -/
theorem exhaustion_lasts (limit : Nat) (charges : List Nat) :
    (∀ k, (answers ⟨limit, 0⟩ charges)[k]? = if k < charges.length then
        some (if limit < min (total (charges.take (k + 1))) maxCount then
          .error (.budgetExceeded limit) else .ok ()) else none)
      ∧ (∀ j k stop, j ≤ k → k < charges.length →
          (answers ⟨limit, 0⟩ charges)[j]? = some (.error stop) →
          (answers ⟨limit, 0⟩ charges)[k]? = some (.error stop))
      ∧ chargeAll ⟨limit, 0⟩ charges = ⟨limit, min (total charges) maxCount⟩
      ∧ (∀ others, total others = total charges →
          chargeAll ⟨limit, 0⟩ others = chargeAll ⟨limit, 0⟩ charges
            ∧ ((Metered.pay others).run.run ⟨limit, 0⟩).1
              = ((Metered.pay charges).run.run ⟨limit, 0⟩).1)
      ∧ ∀ answer ∈ unlimited.answers charges, answer = .ok () := by
  refine ⟨getElem?_answers_start limit charges, ?_, chargeAll_start limit charges, ?_, ?_⟩
  · intro j k stop hjk hk hj
    obtain ⟨hexceeds, hstop⟩ := exceeds_of_error hj
    have hsum : total (charges.take (j + 1)) ≤ total (charges.take (k + 1)) :=
      total_take_mono charges (Nat.succ_le_succ hjk)
    have hlater : limit < min (total (charges.take (k + 1))) maxCount := by omega
    rw [getElem?_answers_start, if_pos hk, if_pos hlater, hstop]
  · intro others hsum
    rw [chargeAll_start, chargeAll_start, pay_start, pay_start, hsum]
    exact ⟨rfl, rfl⟩
  · intro answer hmem
    exact eq_ok_of_mem_answers (Nat.le_refl maxCount) hmem

/-- A charge that fits no more, one of no steps behind it, and the same sum in one charge. -/
theorem overdrawn_run :
    (answers ⟨3, 0⟩ [2, 1, 1, 0])[2]? = some (.error (.budgetExceeded 3))
      ∧ (answers ⟨3, 0⟩ [2, 1, 1, 0])[3]? = some (.error (.budgetExceeded 3))
      ∧ total [4] = total [2, 1, 1, 0]
      ∧ ((Metered.pay [4]).run.run ⟨3, 0⟩).1 = ((Metered.pay [2, 1, 1, 0]).run.run ⟨3, 0⟩).1
      ∧ ∀ answer ∈ unlimited.answers [maxCount, 1], answer = .ok () := by
  have hfails : (answers ⟨3, 0⟩ [2, 1, 1, 0])[2]? = some (.error (.budgetExceeded 3)) := rfl
  obtain ⟨-, hlasts, -, hsum, -⟩ := exhaustion_lasts 3 [2, 1, 1, 0]
  obtain ⟨-, -, -, -, hfree⟩ := exhaustion_lasts 3 [maxCount, 1]
  exact ⟨hfails, hlasts 2 3 _ (by decide) (by decide) hfails, by decide,
    (hsum [4] (by decide)).2, hfree⟩

end Admissibility.Budget
