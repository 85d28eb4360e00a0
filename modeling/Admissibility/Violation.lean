/-
  Admissibility.Violation
  ───────────────────────
  **What makes a structure inadmissible, told in labels.**

  A violation names labels and never numbers of nodes, so structures that differ only in numbering
  have the same violations.  Violations are ordered by a key of labels first and by their whole
  content after that; `Violation.least` picks the one to report.  `Violations` collects what is
  found, and its choice can be looked at at any time.

  `Violation.precedence` is a linear order: the instances beside it say that it is transitive and
  that only equal violations tie.
-/
import Admissibility.Relation

namespace Admissibility

/-! ## §1. Sorted labels. -/

/-- The same labels in ascending order. -/
def sortLabels (labels : List String) : List String :=
  labels.mergeSort (fun a b => decide (a ≤ b))

/-- The labels of a list in ascending order, each once. -/
def distinctLabels (labels : List String) : List String := (sortLabels labels).eraseReps

/-- A list of labels as one text: sorted, with commas between them. -/
def signature (labels : List String) : String := ",".intercalate (sortLabels labels)

/-! ## §2. Facts. -/

/-- A relation in terms of labels. -/
structure Fact where
  kind : Relation.Kind
  endpoints : List String
  deriving DecidableEq, Repr, Inhabited

namespace Fact

/-- The signature of the endpoints. -/
def signature (f : Fact) : String := Admissibility.signature f.endpoints

/-- The fact as a description states it. -/
def text (f : Fact) : String := f.kind.keyword ++ "(" ++ ", ".intercalate f.endpoints ++ ")"

/-- Facts compare by kind, then by endpoints. -/
instance : Ord Fact := ⟨compareLex (compareOn kind) (compareOn endpoints)⟩

end Fact

/-! ## §3. Violations. -/

/-- The two constraints on a structure. -/
inductive Constraint where
  /-- No boundary is transitively a member of what it bounds. -/
  | boundaryExclusion
  /-- Every inversion pairs two distinct nodes, and no node is in two inversions. -/
  | inversionAtomicity
  deriving DecidableEq, Repr, Inhabited

/-- The name of a constraint in reports. -/
def Constraint.name : Constraint → String
  | .boundaryExclusion => "boundary-exclusion"
  | .inversionAtomicity => "inversion-atomicity"

/-- One breach of a constraint. -/
inductive Violation where
  /-- A boundary with a member-of chain into the nodes it bounds, which are listed in ascending
  order; the facts are the `bounds` relation and the links of the chain. -/
  | boundaryMembership (boundary : String) (bounded chain : List String) (facts : List Fact)
  /-- An inversion that does not pair two distinct nodes. -/
  | inversionArity (endpoints : List String) (fact : Fact)
  /-- A node in two inversions. -/
  | inversionOverlap (node : String) (first second : Fact)
  deriving DecidableEq, Repr, Inhabited

namespace Violation

/-- The constraint that is breached. -/
def constraint : Violation → Constraint
  | .boundaryMembership .. => .boundaryExclusion
  | .inversionArity .. | .inversionOverlap .. => .inversionAtomicity

/-- The offending relations, in the order of the report. -/
def facts : Violation → List Fact
  | .boundaryMembership _ _ _ facts => facts
  | .inversionArity _ fact => [fact]
  | .inversionOverlap _ first second => [first, second]

/-- The boundary, where one is violated. -/
def boundary? : Violation → Option String
  | .boundaryMembership boundary .. => some boundary
  | _ => none

/-- The chain from a boundary into the nodes that it bounds. -/
def chain? : Violation → Option (List String)
  | .boundaryMembership _ _ chain _ => some chain
  | _ => none

/-- The node in two inversions. -/
def shared? : Violation → Option String
  | .inversionOverlap node .. => some node
  | _ => none

/-- Every label that the offending relations name, in ascending order. -/
def labels (v : Violation) : List String := distinctLabels (v.facts.flatMap Fact.endpoints)

/-! ## §4. The order of violations. -/

/-- What violations are ordered by first. -/
structure Key where
  /-- The label that the violation is about. -/
  primary : String
  signature : String
  /-- The place of the sort of violation. -/
  rank : Nat
  deriving DecidableEq, Repr, Inhabited

/-- Keys compare by label, then by signature, then by sort. -/
instance : Ord Key :=
  ⟨compareLex (compareOn Key.primary) (compareLex (compareOn Key.signature) (compareOn Key.rank))⟩

/-- The place of the sort of a violation among the three sorts. -/
def rank : Violation → Nat
  | .boundaryMembership .. => 0
  | .inversionArity .. => 1
  | .inversionOverlap .. => 2

/-- The least label of a list; the empty text for none. -/
def leastLabel (labels : List String) : String := (sortLabels labels).head?.getD ""

/-- The key of a violation: the boundary and the bounded labels, or the least endpoint and all
endpoints, or the shared node and the two signatures with the smaller in front. -/
def key : Violation → Key
  | .boundaryMembership boundary bounded _ _ => ⟨boundary, Admissibility.signature bounded, 0⟩
  | .inversionArity endpoints _ => ⟨leastLabel endpoints, Admissibility.signature endpoints, 1⟩
  | .inversionOverlap node first second =>
    ⟨node, ";".intercalate (sortLabels [first.signature, second.signature]), 2⟩

/-- The label lists that a violation holds beside its facts, in the order in which they count. -/
def texts : Violation → List (List String)
  | .boundaryMembership boundary bounded chain _ => [[boundary], bounded, chain]
  | .inversionArity endpoints _ => [endpoints]
  | .inversionOverlap node _ _ => [[node]]

/-- Violations compare by sort, then by label lists, then by facts. -/
instance : Ord Violation :=
  ⟨compareLex (compareOn rank) (compareLex (compareOn texts) (compareOn facts))⟩

/-- The order in which violations are reported: by key, and equal keys by the whole content. -/
def precedence : Violation → Violation → Ordering :=
  compareLex (compareOn key) compare

/-- The first of some violations in the order of precedence. -/
def least : List Violation → Option Violation
  | [] => none
  | v :: vs => some (vs.foldl (fun best w => if (precedence w best).isLT then w else best) v)

end Violation

/-! ## §5. The order is linear. -/

instance : Std.TransOrd Relation.Kind :=
  inferInstanceAs (Std.TransCmp (compareOn Relation.Kind.rank))

instance : Std.LawfulEqOrd Relation.Kind where
  eq_of_compare h := Relation.Kind.rank_injective (Std.LawfulEqOrd.eq_of_compare h)

instance : Std.TransOrd Fact :=
  inferInstanceAs (Std.TransCmp (compareLex (compareOn Fact.kind) (compareOn Fact.endpoints)))

instance : Std.LawfulEqOrd Fact where
  eq_of_compare {a b} h := by
    obtain ⟨hk, he⟩ := Ordering.then_eq_eq.1 h
    cases a
    cases b
    cases Std.LawfulEqOrd.eq_of_compare hk
    cases Std.LawfulEqOrd.eq_of_compare he
    rfl

instance : Std.TransOrd Violation.Key :=
  inferInstanceAs (Std.TransCmp (compareLex (compareOn Violation.Key.primary)
    (compareLex (compareOn Violation.Key.signature) (compareOn Violation.Key.rank))))

instance : Std.TransOrd Violation :=
  inferInstanceAs (Std.TransCmp (compareLex (compareOn Violation.rank)
    (compareLex (compareOn Violation.texts) (compareOn Violation.facts))))

theorem Violation.eq_of_parts {v w : Violation} (hr : v.rank = w.rank) (ht : v.texts = w.texts)
    (hf : v.facts = w.facts) : v = w := by
  cases v <;> cases w <;> simp_all [Violation.rank, Violation.texts, Violation.facts]

instance : Std.LawfulEqOrd Violation where
  eq_of_compare h := by
    obtain ⟨hr, hrest⟩ := Ordering.then_eq_eq.1 h
    obtain ⟨ht, hf⟩ := Ordering.then_eq_eq.1 hrest
    exact Violation.eq_of_parts (Std.LawfulEqOrd.eq_of_compare hr)
      (Std.LawfulEqOrd.eq_of_compare ht) (Std.LawfulEqOrd.eq_of_compare hf)

instance : Std.TransCmp Violation.precedence :=
  inferInstanceAs (Std.TransCmp (compareLex (compareOn Violation.key) compare))

instance : Std.LawfulEqCmp Violation.precedence where
  eq_of_compare h := Std.LawfulEqOrd.eq_of_compare (Ordering.then_eq_eq.1 h).2

/-! ## §6. Collections. -/

/-- The violations found so far, in the order in which they were found. -/
structure Violations where
  found : Array Violation := #[]
  deriving DecidableEq, Repr, Inhabited

namespace Violations

def empty : Violations := {}

/-- Adds a violation behind the others. -/
def push (vs : Violations) (v : Violation) : Violations := ⟨vs.found.push v⟩

def size (vs : Violations) : Nat := vs.found.size

def isEmpty (vs : Violations) : Bool := vs.found.isEmpty

/-- The best violation with one more to choose from; the one in front where two tie. -/
def better : Option Violation → Violation → Option Violation
  | none, v => some v
  | some best, v => some (if (Violation.precedence best v).isGT then v else best)

/-- The first violation in the order of precedence, with the collection as it stands. -/
def first? (vs : Violations) : Option Violation := vs.found.foldl better none

/-- The first violation in the order of precedence, taken out of a collection that is used up. -/
def intoFirst? (vs : Violations) : Option Violation := Violation.least vs.found.toList

end Violations

end Admissibility
