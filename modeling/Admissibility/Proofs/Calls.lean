/-
  Admissibility.Proofs.Calls
  ──────────────────────────
  **Calls that go on, whatever they are answered.**

  Something with a state is called again and again.  Each call is answered and leaves the state that
  the next one meets; no answer ends the sequence, a refusal neither.

  `getElem?_answers`: each call is answered from the state that those before it left.
-/

namespace Admissibility.Calls

variable {State Input Answer : Type}

/-- The state that some calls leave. -/
def left (call : State → Input → Answer × State) (s : State) (inputs : List Input) : State :=
  inputs.foldl (fun s input => (call s input).2) s

/-- What each of some calls is answered. -/
def answers (call : State → Input → Answer × State) (s : State) : List Input → List Answer
  | [] => []
  | input :: rest => (call s input).1 :: answers call (call s input).2 rest

/-- **Each call** is answered from the state that those before it left. -/
theorem getElem?_answers (call : State → Input → Answer × State) (s : State) (inputs : List Input)
    (k : Nat) : (answers call s inputs)[k]?
      = inputs[k]?.map fun input => (call (left call s (inputs.take k)) input).1 := by
  induction inputs generalizing s k with
  | nil => rfl
  | cons input rest ih =>
    cases k with
    | zero => rfl
    | succ k =>
      -- the later calls go on from what the first one left
      show (answers call (call s input).2 rest)[k]? = _
      rw [ih]
      rfl

end Admissibility.Calls
