/-
  Admissibility.Limits
  ────────────────────
  **What one validation may consume.**

  A limit bounds the number of nodes, of relations, or of the steps of all traversals together.
  Passing one is an error and never a verdict.
-/
import Admissibility.Budget

namespace Admissibility

/-! ## §1. Limits. -/

/-- Upper bounds on one validation. -/
structure Limits where
  maxNodes : Nat := 1000000
  maxRelations : Nat := 4000000
  maxClosureSteps : Nat := 64000000
  deriving DecidableEq, Repr, Inhabited

/-! ## §2. Exhaustion. -/

/-- What a validation can run out of. -/
inductive Resource where
  | nodes
  | relations
  | closureSteps
  | memory
  deriving DecidableEq, Repr, Inhabited

/-- The name of a resource in messages. -/
def Resource.name : Resource → String
  | .nodes => "nodes"
  | .relations => "relations"
  | .closureSteps => "closure steps"
  | .memory => "memory"

/-- A resource whose limit is passed. -/
structure Exhausted where
  resource : Resource
  limit : Nat
  deriving DecidableEq, Repr, Inhabited

/-- The wording of an exhaustion. -/
def Exhausted.message (e : Exhausted) : String :=
  s!"resource exhausted: {e.resource.name} (limit {e.limit})"

/-- The exhaustion that a stopped traversal stands for. -/
def Stop.exhausted : Stop → Exhausted
  | .budgetExceeded limit => ⟨.closureSteps, limit⟩
  | .allocationFailed entries => ⟨.memory, entries⟩

end Admissibility
