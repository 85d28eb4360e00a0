/-
  Admissibility.Structure
  ───────────────────────
  **Structures: labelled nodes and the relations among them.**

  A structure grows from `empty` by `declare`, which adds a node under a new label, and `relate`,
  which adds a relation between nodes that are there.  Either refuses what would break the rules
  of a structure and then gives no structure back, so a refusal leaves nothing behind.

  The rules are part of the type: a label names at most one node and is not empty, the label
  table knows exactly the declared labels, and every relation fits.

  `lookup_eq_some_iff`: a label is looked up to the one node that bears it.
  `label_injective`: two nodes do not share a label.
-/
import Std.Data.TreeMap.Lemmas
import Admissibility.Relation

namespace Admissibility

/-! ## §1. Structures. -/

/-- Nodes with their labels, and the relations among them, both in order of declaration. -/
structure Structure where
  /-- The label of each node. -/
  labels : Array String
  relations : Array Relation
  /-- The node that bears a label. -/
  ids : Std.TreeMap String Nat
  ids_iff : ∀ (label : String) (id : Nat), ids[label]? = some id ↔ labels[id]? = some label
  label_ne_empty : ∀ label ∈ labels, label ≠ ""
  fits : ∀ r ∈ relations, r.Fits labels.size

namespace Structure

/-- The structure without nodes. -/
def empty : Structure where
  labels := #[]
  relations := #[]
  ids := {}
  ids_iff := by simp
  label_ne_empty := by simp
  fits := by simp

instance : Inhabited Structure := ⟨empty⟩

/-- The number of nodes. -/
def nodeCount (s : Structure) : Nat := s.labels.size

/-- The number of relations. -/
def relationCount (s : Structure) : Nat := s.relations.size

/-- The label of a node; `?` for a number that is no node of the structure. -/
def label (s : Structure) (id : Nat) : String := (s.labels[id]?).getD "?"

/-- The node that bears a label. -/
def lookup (s : Structure) (label : String) : Option Nat := s.ids[label]?

/-- The relations of one kind with their numbers, in order of declaration. -/
def relationsOf (s : Structure) (kind : Relation.Kind) : List (Nat × Relation) :=
  s.relations.toList.zipIdx.filterMap fun (r, id) => if r.kind = kind then some (id, r) else none

/-- The source and target of every relation of one kind, in order of declaration. -/
def edges (s : Structure) (kind : Relation.Kind) : List (Nat × Nat) :=
  s.relations.toList.filterMap fun r => if r.kind = kind then r.ends? else none

/-! ## §2. Growing a structure. -/

/-- Why a node or a relation is refused. -/
inductive Refusal where
  | emptyLabel
  | duplicateLabel (label : String)
  /-- An endpoint that is no node of the structure. -/
  | unknownNode (id : Nat)
  /-- A kind that fixes the number of its endpoints is given another number. -/
  | arityMismatch (kind : Relation.Kind) (expected found : Nat)
  /-- A kind that lists its endpoints freely is given none. -/
  | noEndpoints (kind : Relation.Kind)
  deriving DecidableEq, Repr

/-- The wording of a refusal. -/
def Refusal.message : Refusal → String
  | .emptyLabel => "node label must not be empty"
  | .duplicateLabel label => s!"node '{label}' is already declared"
  | .unknownNode id => s!"unknown node: n{id}"
  | .arityMismatch kind expected found =>
    s!"{kind.keyword} takes {expected} endpoints, found {found}"
  | .noEndpoints kind => s!"{kind.keyword} requires at least one endpoint"

/-- The structure with one more node, under a label that no node bears. -/
def addNode (s : Structure) (label : String) (nonempty : label ≠ "")
    (fresh : s.ids[label]? = none) : Structure :=
  let id := s.labels.size
  { labels := s.labels.push label
    relations := s.relations
    ids := s.ids.insert label id
    ids_iff := by
      intro l x
      rw [Std.TreeMap.getElem?_insert, Array.getElem?_push]
      by_cases hl : label = l
      · subst hl
        have hnone : ∀ j, s.labels[j]? ≠ some label := fun j hj => by
          rw [← s.ids_iff, fresh] at hj
          cases hj
        by_cases hx : x = s.labels.size
        · simp [hx, id]
        · simp [hx, hnone, Ne.symm hx, id]
      · by_cases hx : x = s.labels.size
        · subst hx
          have : s.ids[l]? ≠ some s.labels.size := fun h => by
            rw [s.ids_iff] at h
            simp at h
          simp [hl, this]
        · simp [hx, hl, s.ids_iff]
    label_ne_empty := by
      intro l hl
      rcases Array.mem_push.1 hl with h | rfl
      · exact s.label_ne_empty l h
      · exact nonempty
    fits := fun r hr => (s.fits r hr).mono (by simp) }

/-- The structure with one more relation, which fits. -/
def addRelation (s : Structure) (r : Relation) (fitting : r.Fits s.labels.size) : Structure where
  labels := s.labels
  relations := s.relations.push r
  ids := s.ids
  ids_iff := s.ids_iff
  label_ne_empty := s.label_ne_empty
  fits := by
    intro q hq
    rcases Array.mem_push.1 hq with h | rfl
    · exact s.fits q h
    · exact fitting

/-- Adds a node, and gives it the next number. -/
def declare (s : Structure) (label : String) : Except Refusal (Nat × Structure) :=
  if nonempty : label = "" then .error .emptyLabel
  else
    match fresh : s.ids[label]? with
    | some _ => .error (.duplicateLabel label)
    | none => .ok (s.nodeCount, s.addNode label nonempty fresh)

/-- Why a number of endpoints is refused. -/
def Refusal.ofArity (kind : Relation.Kind) (found : Nat) : Refusal :=
  match kind.fixedArity with
  | some expected => .arityMismatch kind expected found
  | none => .noEndpoints kind

/-- Adds a relation, and gives it the next number.  The leftmost endpoint that is no node is
refused first, and after that a number of endpoints that the kind does not take. -/
def relate (s : Structure) (r : Relation) : Except Refusal (Nat × Structure) :=
  match known : r.endpoints.find? (fun e => s.labels.size ≤ e) with
  | some unknown => .error (.unknownNode unknown)
  | none =>
    if takes : r.kind.Takes r.endpoints.length then
      .ok (s.relationCount, s.addRelation r ⟨fun e he => by
        simpa using List.find?_eq_none.1 known e he, takes⟩)
    else .error (.ofArity r.kind r.endpoints.length)

/-! ## §3. Labels and nodes. -/

theorem lookup_eq_some_iff (s : Structure) (label : String) (id : Nat) :
    s.lookup label = some id ↔ s.labels[id]? = some label :=
  s.ids_iff label id

theorem label_of_lt (s : Structure) {id : Nat} (h : id < s.nodeCount) :
    s.labels[id]? = some (s.label id) := by
  unfold nodeCount at h
  simp [label, h]

theorem label_injective (s : Structure) {x y : Nat} (hx : x < s.nodeCount)
    (hy : y < s.nodeCount) (h : s.label x = s.label y) : x = y := by
  have ex := (s.ids_iff _ _).2 (s.label_of_lt hx)
  have ey := (s.ids_iff _ _).2 (s.label_of_lt hy)
  rw [h, ey] at ex
  exact (Option.some.inj ex).symm

end Structure

end Admissibility
