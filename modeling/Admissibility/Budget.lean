/-
  Admissibility.Budget
  ────────────────────
  **Step budgets and the computations that spend them.**

  A budget counts steps against a limit.  The count stands still at the largest 64-bit number, and
  what a failed charge asked for stays counted, so an overspent budget never recovers.  A metered
  computation hands a budget on from step to step and stops at the first charge that fails.

  `spent_chargeAll`: a run of charges costs what one charge of their sum costs.
  `Metered.spend_run`: spending succeeds exactly while the budget is not overspent.
-/

namespace Admissibility

/-! ## §1. Budgets. -/

/-- The largest number of 64 bits, at which counts stand still. -/
def maxCount : Nat := 0xffffffffffffffff

/-- A count of steps against a limit. -/
structure Budget where
  limit : Nat
  spent : Nat := 0
  deriving DecidableEq, Repr, Inhabited

namespace Budget

/-- The budget that no count exceeds. -/
def unlimited : Budget := ⟨maxCount, 0⟩

/-- Counts some more steps. -/
def charge (b : Budget) (steps : Nat) : Budget := { b with spent := min (b.spent + steps) maxCount }

/-- More was spent than the limit allows. -/
def Overspent (b : Budget) : Prop := b.limit < b.spent

instance (b : Budget) : Decidable b.Overspent := inferInstanceAs (Decidable (b.limit < b.spent))

/-- The steps of all charges of a list together. -/
def total (charges : List Nat) : Nat := charges.foldr (· + ·) 0

/-- Counts the steps of each charge of a list. -/
def chargeAll (b : Budget) (charges : List Nat) : Budget := charges.foldl charge b

@[simp] theorem limit_charge (b : Budget) (steps : Nat) : (b.charge steps).limit = b.limit := rfl

@[simp] theorem spent_charge (b : Budget) (steps : Nat) :
    (b.charge steps).spent = min (b.spent + steps) maxCount := rfl

@[simp] theorem limit_chargeAll (b : Budget) (charges : List Nat) :
    (b.chargeAll charges).limit = b.limit := by
  unfold chargeAll
  induction charges generalizing b with
  | nil => rfl
  | cons a rest ih => rw [List.foldl_cons, ih, limit_charge]

theorem spent_chargeAll (b : Budget) (h : b.spent ≤ maxCount) (charges : List Nat) :
    (b.chargeAll charges).spent = min (b.spent + total charges) maxCount := by
  unfold chargeAll
  induction charges generalizing b with
  | nil => rw [List.foldl_nil, total, List.foldr_nil, Nat.add_zero, Nat.min_eq_left h]
  | cons a rest ih =>
    rw [List.foldl_cons, ih _ (Nat.min_le_right _ _), spent_charge, total, total, List.foldr_cons]
    omega

end Budget

/-! ## §2. Metered computations. -/

/-- What stops a traversal. -/
inductive Stop where
  /-- The budget with this limit is overspent. -/
  | budgetExceeded (limit : Nat)
  /-- A set of nodes with this capacity does not fit into the address space. -/
  | allocationFailed (entries : Nat)
  deriving DecidableEq, Repr

/-- The wording of a stop. -/
def Stop.message : Stop → String
  | .budgetExceeded limit => s!"closure step budget of {limit} exhausted"
  | .allocationFailed entries => s!"could not allocate node set for {entries} entries"

/-- A computation that spends steps from a budget.  The budget is there after a stop too. -/
abbrev Metered (α : Type) : Type := ExceptT Stop (StateM Budget) α

namespace Metered

/-- Spends some steps. -/
def spend (steps : Nat) : Metered Unit :=
  ExceptT.mk fun b =>
    let b := b.charge steps
    (if b.Overspent then .error (.budgetExceeded b.limit) else .ok (), b)

theorem spend_run (steps : Nat) (b : Budget) :
    (spend steps).run.run b =
      (if (b.charge steps).Overspent then .error (.budgetExceeded b.limit) else .ok (),
        b.charge steps) :=
  rfl

end Metered

end Admissibility
