/-
  Admissibility.Proofs.Metered
  ────────────────────────────
  **What a metered computation costs.**

  The traversals charge steps as they go and stop at the first charge that fails.  None of them
  ever looks at the budget, so each one charges the same list of steps whatever the budget is, and
  comes to the same result if it is not stopped.  `Costs x charges a` says so in one equation: `x`
  is the computation that pays `charges` and then gives `a`.

  `Costs.run_of_affords`, `Costs.run_of_not_affords`: such a computation succeeds exactly when the
  budget affords its charges, and fails with the limit of the budget otherwise.
  `Budget.affords_iff`: a budget affords a list of charges by their sum and what was spent before.
-/
import Admissibility.Budget

namespace Admissibility

/-! ## §1. What a budget affords. -/

namespace Budget

/-- A list of charges that a budget pays without being overspent. -/
def Affords (b : Budget) (charges : List Nat) : Prop :=
  charges ≠ [] → ¬ (b.chargeAll charges).Overspent

theorem affords_nil (b : Budget) : b.Affords [] := fun h => absurd rfl h

@[simp] theorem chargeAll_nil (b : Budget) : b.chargeAll [] = b := rfl

@[simp] theorem chargeAll_cons (b : Budget) (steps : Nat) (rest : List Nat) :
    b.chargeAll (steps :: rest) = (b.charge steps).chargeAll rest := rfl

@[simp] theorem total_nil : total [] = 0 := rfl

@[simp] theorem total_cons (steps : Nat) (rest : List Nat) :
    total (steps :: rest) = steps + total rest := rfl

theorem total_append (charges more : List Nat) :
    total (charges ++ more) = total charges + total more := by
  induction charges with
  | nil => simp
  | cons steps rest ih =>
    rw [List.cons_append, total_cons, total_cons, ih]
    omega

/-- Charges told by one sum for each element of a list. -/
theorem total_flatMap {α : Type} (price : α → List Nat) (list : List α) :
    total (list.flatMap price) = total (list.map fun a => total (price a)) := by
  induction list with
  | nil => rfl
  | cons a rest ih => rw [List.flatMap_cons, total_append, ih, List.map_cons, total_cons]

/-- The order of charges does not matter for their sum. -/
theorem total_perm {charges more : List Nat} (h : charges.Perm more) :
    total charges = total more := by
  induction h with
  | nil => rfl
  | cons steps _ ih => rw [total_cons, total_cons, ih]
  | swap a b rest =>
    simp only [total_cons]
    omega
  | trans _ _ ih₁ ih₂ => rw [ih₁, ih₂]

/-- **No recovery**: once a charge overspends a budget, further charges leave it overspent. -/
theorem overspent_chargeAll {b : Budget} (hb : b.spent ≤ maxCount) (h : b.Overspent)
    (charges : List Nat) : (b.chargeAll charges).Overspent := by
  show (b.chargeAll charges).limit < (b.chargeAll charges).spent
  -- what is spent only grows, up to the cap, and the limit lies below both
  have hlt : b.limit < b.spent := h
  rw [limit_chargeAll, spent_chargeAll b hb]
  omega

theorem affords_cons_iff (b : Budget) (steps : Nat) (rest : List Nat) :
    b.Affords (steps :: rest) ↔ ¬ (b.charge steps).Overspent ∧ (b.charge steps).Affords rest := by
  -- the end of the whole list is the end of the rest, and an overspent budget stays overspent
  have hmax : (b.charge steps).spent ≤ maxCount := Nat.min_le_right _ _
  constructor
  · intro h
    have hend : ¬ ((b.charge steps).chargeAll rest).Overspent := h (List.cons_ne_nil _ _)
    exact ⟨fun hover => hend (overspent_chargeAll hmax hover rest), fun _ => hend⟩
  · intro h _
    obtain ⟨hfirst, hrest⟩ := h
    cases rest with
    | nil => exact hfirst
    | cons next rest => exact hrest (List.cons_ne_nil _ _)

/-- **The sum decides**: a budget affords charges exactly when there are none, or their sum and what
was spent before, counted up to the largest count, stay within the limit. -/
theorem affords_iff {b : Budget} (hb : b.spent ≤ maxCount) (charges : List Nat) :
    b.Affords charges ↔ charges = [] ∨ min (b.spent + total charges) maxCount ≤ b.limit := by
  have hover : ¬ (b.chargeAll charges).Overspent
      ↔ min (b.spent + total charges) maxCount ≤ b.limit := by
    show ¬ ((b.chargeAll charges).limit < (b.chargeAll charges).spent) ↔ _
    rw [limit_chargeAll, spent_chargeAll b hb]
    exact Nat.not_lt
  unfold Affords
  rw [hover, Decidable.or_iff_not_imp_left]

/-- A fresh budget affords charges by their sum alone. -/
theorem affords_start_iff (limit : Nat) (charges : List Nat) :
    Affords ⟨limit, 0⟩ charges ↔ min (total charges) maxCount ≤ limit := by
  rw [affords_iff (Nat.zero_le _), Nat.zero_add]
  -- no charges have the sum 0, which every limit allows
  refine or_iff_right_of_imp fun hnil => ?_
  rw [hnil]
  exact Nat.zero_le _

/-- A budget after some charges. -/
theorem chargeAll_eq {b : Budget} (hb : b.spent ≤ maxCount) (charges : List Nat) :
    b.chargeAll charges = ⟨b.limit, min (b.spent + total charges) maxCount⟩ := by
  rw [← spent_chargeAll b hb, ← limit_chargeAll b charges]

end Budget

/-! ## §2. Computations with fixed charges. -/

namespace Metered

/-- Spends each charge of a list in order. -/
def pay : List Nat → Metered Unit
  | [] => pure ()
  | steps :: rest => do
    spend steps
    pay rest

/-- The computation pays some charges and then gives a result, whatever the budget. -/
def Costs {α : Type} (x : Metered α) (charges : List Nat) (a : α) : Prop :=
  x = (do pay charges; pure a)

theorem pay_append (charges more : List Nat) :
    pay (charges ++ more) = (do pay charges; pay more) := by
  induction charges with
  | nil => rfl
  | cons steps rest ih => rw [List.cons_append, pay, pay, ih, bind_assoc]

theorem pay_run_of_affords {charges : List Nat} {b : Budget} (h : b.Affords charges) :
    (pay charges).run.run b = (.ok (), b.chargeAll charges) := by
  induction charges generalizing b with
  | nil => rfl
  | cons steps rest ih =>
    obtain ⟨hfirst, hrest⟩ := (b.affords_cons_iff steps rest).1 h
    show ((spend steps >>= fun _ => pay rest).run.run b) = _
    rw [ExceptT.run_bind, StateT.run_bind, spend_run, if_neg hfirst]
    exact ih hrest

theorem pay_run_of_not_affords {charges : List Nat} {b : Budget} (h : ¬ b.Affords charges) :
    ((pay charges).run.run b).1 = .error (.budgetExceeded b.limit) := by
  induction charges generalizing b with
  | nil => exact absurd b.affords_nil h
  | cons steps rest ih =>
    show ((spend steps >>= fun _ => pay rest).run.run b).1 = _
    rw [ExceptT.run_bind, StateT.run_bind, spend_run]
    -- either the first charge fails already, or it is paid and a later one fails
    by_cases hfirst : (b.charge steps).Overspent
    · rw [if_pos hfirst]
      rfl
    · rw [if_neg hfirst]
      exact ih fun hrest => h ((b.affords_cons_iff steps rest).2 ⟨hfirst, hrest⟩)

namespace Costs

variable {α β : Type} {x : Metered α} {charges more : List Nat} {a : α} {b : Budget}

theorem pure (a : α) : Costs (Pure.pure a) [] a := rfl

theorem spend (steps : Nat) : Costs (Metered.spend steps) [steps] () := by
  show Metered.spend steps
      = ((Metered.spend steps >>= fun _ => Pure.pure ()) >>= fun _ => Pure.pure ())
  rw [bind_pure_unit, bind_pure_unit]

theorem bind {f : α → Metered β} {c : β} (hx : Costs x charges a) (hf : Costs (f a) more c) :
    Costs (x >>= f) (charges ++ more) c := by
  show x >>= f = pay (charges ++ more) >>= fun _ => Pure.pure c
  rw [show x = pay charges >>= fun _ => Pure.pure a from hx, bind_assoc, pay_append, bind_assoc]
  congr 1
  funext _
  rw [pure_bind]
  exact hf

theorem run_of_affords (hx : Costs x charges a) (h : b.Affords charges) :
    x.run.run b = (.ok a, b.chargeAll charges) := by
  rw [show x = pay charges >>= fun _ => Pure.pure a from hx, ExceptT.run_bind, StateT.run_bind,
    pay_run_of_affords h]
  rfl

theorem run_of_not_affords (hx : Costs x charges a) (h : ¬ b.Affords charges) :
    (x.run.run b).1 = .error (.budgetExceeded b.limit) := by
  have hpay := pay_run_of_not_affords h
  rw [show x = pay charges >>= fun _ => Pure.pure a from hx, ExceptT.run_bind, StateT.run_bind]
  -- the payment fails, and the error passes through the rest
  cases hrun : (pay charges).run.run b with
  | mk result final =>
    rw [hrun] at hpay
    cases (show result = .error (.budgetExceeded b.limit) from hpay)
    rfl

/-- A run that is not stopped gives the result of the computation. -/
theorem eq_of_run_ok (hx : Costs x charges a) {c : α} (h : (x.run.run b).1 = .ok c) :
    c = a ∧ b.Affords charges := by
  by_cases hb : b.Affords charges
  · rw [hx.run_of_affords hb] at h
    exact ⟨(Except.ok.inj h).symm, hb⟩
  · rw [hx.run_of_not_affords hb] at h
    cases h

/-- The outcome of a run from a fresh budget. -/
theorem run_start (hx : Costs x charges a) (limit : Nat) :
    (x.run.run ⟨limit, 0⟩).1
      = if min (Budget.total charges) maxCount ≤ limit then .ok a
        else .error (.budgetExceeded limit) := by
  by_cases h : Budget.Affords ⟨limit, 0⟩ charges
  · rw [hx.run_of_affords h, if_pos ((Budget.affords_start_iff _ _).1 h)]
  · rw [hx.run_of_not_affords h, if_neg fun hle => h ((Budget.affords_start_iff _ _).2 hle)]

/-- Going through a list pays for its elements one after the other. -/
theorem filterMapM {f : α → Metered (Option β)} {price : α → List Nat} {value : α → Option β}
    {list : List α} (h : ∀ a ∈ list, Costs (f a) (price a) (value a)) :
    Costs (list.filterMapM f) (list.flatMap price) (list.filterMap value) := by
  induction list with
  | nil => exact Costs.pure []
  | cons a rest ih =>
    have hhead := h a List.mem_cons_self
    have htail := ih fun c hc => h c (List.mem_cons_of_mem _ hc)
    rw [List.filterMapM_cons, List.flatMap_cons]
    -- the head is paid first; what it gives decides only whether its value is kept
    refine hhead.bind ?_
    cases hv : value a with
    | none =>
      rw [List.filterMap_cons_none hv]
      exact htail
    | some c =>
      rw [List.filterMap_cons_some hv, ← List.append_nil (rest.flatMap price)]
      exact htail.bind (Costs.pure _)

end Costs

end Metered

end Admissibility
