/-
  Admissibility.Relation
  ──────────────────────
  **The three kinds of relation and what a relation is.**

  A structure relates its nodes in three ways: `member-of(x, y)` places x inside y,
  `bounds(b, s)` makes b a boundary of s, and `inverts(x, y)` pairs x with y.  Each kind has a
  keyword, by which a description names it, and a rule on how many endpoints it takes.  Nodes are
  numbered from 0 in the order of their declaration, and endpoints are such numbers.

  `Kind.ofKeyword?_keyword`: reading a kind's keyword gives that kind back.
-/

namespace Admissibility

namespace Relation

/-! ## §1. Kinds. -/

/-- The closed set of relation kinds. -/
inductive Kind where
  /-- In `member-of(x, y)`, x is a member of y. -/
  | memberOf
  /-- In `bounds(b, s)`, b bounds s. -/
  | bounds
  /-- In `inverts(x, y)`, x and y are exchanged with each other. -/
  | inverts
  deriving DecidableEq, Repr, Inhabited

namespace Kind

/-- Every kind, in the order in which kinds compare. -/
def all : List Kind := [.memberOf, .bounds, .inverts]

/-- The place of a kind in `all`. -/
def rank : Kind → Nat
  | .memberOf => 0
  | .bounds => 1
  | .inverts => 2

instance : Ord Kind := ⟨compareOn rank⟩

/-- The word that introduces the kind in a description. -/
def keyword : Kind → String
  | .memberOf => "member-of"
  | .bounds => "bounds"
  | .inverts => "inverts"

/-- The kind that a word introduces; the case of ASCII letters does not matter. -/
def ofKeyword? (word : String) : Option Kind :=
  all.find? (fun kind => kind.keyword == word.toLower)

/-- The number of endpoints that the kind fixes; an inversion lists as many as it likes. -/
def fixedArity : Kind → Option Nat
  | .memberOf | .bounds => some 2
  | .inverts => none

/-- A number of endpoints that a declared relation of the kind can have. -/
def Takes (kind : Kind) (count : Nat) : Prop :=
  match kind.fixedArity with
  | some arity => count = arity
  | none => 0 < count

instance (kind : Kind) (count : Nat) : Decidable (kind.Takes count) := by
  unfold Takes
  split <;> infer_instance

theorem rank_injective {a b : Kind} (h : a.rank = b.rank) : a = b := by
  cases a <;> cases b <;> simp_all [rank]

theorem mem_all (kind : Kind) : kind ∈ all := by
  cases kind <;> decide

theorem ofKeyword?_keyword (kind : Kind) : ofKeyword? kind.keyword = some kind := by
  cases kind <;> decide +kernel

end Kind

end Relation

/-! ## §2. Relations. -/

/-- A relation between nodes.  In `member-of` and `bounds` the first endpoint is the source and
the second the target. -/
structure Relation where
  kind : Relation.Kind
  /-- The related nodes, in the order of the declaration. -/
  endpoints : List Nat
  /-- The line of the declaration, counted from 1. -/
  line : Nat
  deriving DecidableEq, Repr, Inhabited

namespace Relation

/-- The number of endpoints. -/
def arity (r : Relation) : Nat := r.endpoints.length

/-- The first endpoint: the member, or the boundary. -/
def source? (r : Relation) : Option Nat := r.endpoints[0]?

/-- The second endpoint: the container, or the bounded node. -/
def target? (r : Relation) : Option Nat := r.endpoints[1]?

/-- Source and target together. -/
def ends? (r : Relation) : Option (Nat × Nat) :=
  match r.endpoints with
  | x :: y :: _ => some (x, y)
  | _ => none

/-- A relation that a structure of `nodeCount` nodes can hold: its endpoints are nodes, and there
are as many of them as its kind takes. -/
structure Fits (r : Relation) (nodeCount : Nat) : Prop where
  endpoint_lt : ∀ e ∈ r.endpoints, e < nodeCount
  takes : r.kind.Takes r.endpoints.length

theorem Fits.mono {r : Relation} {m n : Nat} (h : r.Fits m) (hmn : m ≤ n) : r.Fits n :=
  ⟨fun e he => Nat.lt_of_lt_of_le (h.endpoint_lt e he) hmn, h.takes⟩

end Relation

end Admissibility
