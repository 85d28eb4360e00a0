/-
  Admissibility.Proofs.Membership.Route
  ─────────────────────────────────────
  **Routes along member-of relations, and which of two comes first.**

  A route lists the nodes of a member-of chain.  Of two routes the shorter one comes first, and of
  two equally long ones the one with the lesser sequence of labels.  This order is what a search
  level by level respects: going on from two routes, to whatever nodes, keeps them in order.

  `Structure.Route.chain`, `Structure.Chain.exists_route`: routes are the witnesses of `Chain`.
  `Structure.Sooner.extend`: the routes behind an earlier route come before those behind a later.
-/
import Mathlib.Data.List.Chain
import Mathlib.Data.List.Lex
import Mathlib.Data.String.Basic
import Admissibility.Membership.Search
import Admissibility.Proofs.Adjacency

namespace Admissibility

/-! ## §1. Lists of equal length. -/

theorem append_lt_append_of_lt {a b : List String} (hlen : a.length = b.length) (h : a < b)
    (c d : List String) : a ++ c < b ++ d := by
  induction a generalizing b with
  | nil =>
    cases b with
    | nil => exact absurd h (List.lt_irrefl [])
    | cons y b => cases hlen
  | cons x a ih =>
    cases b with
    | nil => cases hlen
    | cons y b =>
      rw [List.cons_append, List.cons_append, List.cons_lt_cons_iff]
      rcases List.cons_lt_cons_iff.1 h with hxy | ⟨hxy, hab⟩
      · exact .inl hxy
      · exact .inr ⟨hxy, ih (Nat.succ.inj hlen) hab⟩

namespace Structure

variable {s : Structure} {source x y : Nat}

/-! ## §2. Routes. -/

/-- The nodes of a chain of member-of relations from a source. -/
structure Route (s : Structure) (source : Nat) (nodes : List Nat) : Prop where
  head : nodes.head? = some source
  linked : nodes.IsChain fun x y => (x, y) ∈ s.edges .memberOf

theorem Route.start (s : Structure) (source : Nat) : s.Route source [source] :=
  ⟨rfl, .singleton source⟩

/-- A route goes on along a relation from its last node. -/
theorem Route.extend {nodes : List Nat} (h : s.Route source nodes)
    (hlast : nodes.getLast? = some x) (hedge : (x, y) ∈ s.edges .memberOf) :
    s.Route source (nodes ++ [y]) := by
  refine ⟨?_, ?_⟩
  · rw [List.head?_append, h.head]
    rfl
  · -- the only new link is from the last node of the route
    refine List.isChain_append.2 ⟨h.linked, .singleton y, ?_⟩
    intro u hu v hv
    rw [hlast] at hu
    cases hu
    cases hv
    exact hedge

/-- The last relation of a route of two nodes or more, and the route before it. -/
theorem Route.split {nodes : List Nat} (h : s.Route source (nodes ++ [y])) (hne : nodes ≠ []) :
    ∃ x, nodes.getLast? = some x ∧ (x, y) ∈ s.edges .memberOf ∧ s.Route source nodes := by
  obtain ⟨hlinked, -, hedge⟩ := List.isChain_append.1 h.linked
  obtain ⟨x, hx⟩ := Option.isSome_iff_exists.1 (List.getLast?_isSome.2 hne)
  refine ⟨x, hx, hedge x hx y rfl, ?_, hlinked⟩
  obtain ⟨z, hz⟩ := Option.isSome_iff_exists.1 (List.isSome_head?.2 hne)
  have hhead := h.head
  rw [List.head?_append, hz] at hhead
  rw [hz]
  exact hhead

theorem Chain.lt_source (h : s.Chain x y) : x < s.nodeCount := by
  cases h with
  | refl hx => exact hx
  | step hedge _ => exact (edge_lt hedge).1

theorem Chain.lt_target (h : s.Chain x y) : y < s.nodeCount := by
  induction h with
  | refl hx => exact hx
  | step _ _ ih => exact ih

/-- One more relation in front of a chain's route. -/
theorem Chain.exists_route (h : s.Chain x y) :
    ∃ nodes, s.Route x nodes ∧ nodes.getLast? = some y := by
  induction h with
  | refl _ => exact ⟨[_], Route.start s _, rfl⟩
  | @step u v w hedge _ ih =>
    obtain ⟨nodes, hroute, hlast⟩ := ih
    cases nodes with
    | nil => cases hlast
    | cons v' nodes =>
      cases hroute.head
      exact ⟨u :: v :: nodes, ⟨rfl, List.isChain_cons_cons.2 ⟨hedge, hroute.linked⟩⟩, by
        rw [List.getLast?_cons_cons]
        exact hlast⟩

theorem Route.chain {nodes : List Nat} (hx : x < s.nodeCount) (h : s.Route x nodes)
    (hlast : nodes.getLast? = some y) : s.Chain x y := by
  -- the route without its first node is one from the second
  induction nodes generalizing x with
  | nil => cases hlast
  | cons u rest ih =>
    cases h.head
    cases rest with
    | nil =>
      cases hlast
      exact .refl hx
    | cons v rest =>
      obtain ⟨hedge, hlinked⟩ := List.isChain_cons_cons.1 h.linked
      rw [List.getLast?_cons_cons] at hlast
      exact .step hedge (ih (edge_lt hedge).2 ⟨rfl, hlinked⟩ hlast)

/-- A route stays among the nodes of the structure. -/
theorem Route.lt {nodes : List Nat} (hsource : source < s.nodeCount) (h : s.Route source nodes) :
    ∀ z ∈ nodes, z < s.nodeCount := by
  intro z hz
  obtain ⟨front, back, rfl⟩ := List.append_of_mem hz
  -- the part of the route up to the node is a route as well
  have hpart : s.Route source (front ++ [z]) := by
    refine ⟨?_, (List.isChain_split.1 h.linked).1⟩
    have hhead := h.head
    cases front <;> exact hhead
  exact (hpart.chain hsource List.getLast?_concat).lt_target

/-- **Cutting out a loop**: a route that comes back to a node is a route without what lies between. -/
theorem Route.cut {front loop back : List Nat} (h : s.Route source (front ++ x :: (loop ++ x :: back))) :
    s.Route source (front ++ x :: back) := by
  obtain ⟨hfront, hrest⟩ := List.isChain_split.1 h.linked
  have hback : (x :: back).IsChain fun x y => (x, y) ∈ s.edges .memberOf :=
    (List.isChain_split.1 (show (x :: loop ++ x :: back).IsChain _ from hrest)).2
  refine ⟨?_, List.isChain_split.2 ⟨hfront, hback⟩⟩
  have hhead := h.head
  cases front <;> exact hhead

/-! ## §3. The order of routes. -/

/-- The first route is shorter, or as long and of lesser labels. -/
def Sooner (s : Structure) (first second : List Nat) : Prop :=
  first.length < second.length
    ∨ first.length = second.length ∧ first.map s.label < second.map s.label

/-- The first route is shorter, or as long and of labels that are not greater. -/
def NoLater (s : Structure) (first second : List Nat) : Prop :=
  first.length < second.length
    ∨ first.length = second.length ∧ first.map s.label ≤ second.map s.label

variable {first second third : List Nat}

theorem NoLater.refl (s : Structure) (nodes : List Nat) : s.NoLater nodes nodes :=
  .inr ⟨rfl, le_rfl⟩

theorem Sooner.noLater (h : s.Sooner first second) : s.NoLater first second :=
  h.imp_right fun ⟨hlen, hlt⟩ => ⟨hlen, le_of_lt hlt⟩

theorem NoLater.length_le (h : s.NoLater first second) : first.length ≤ second.length := by
  rcases h with h | ⟨h, -⟩ <;> omega

theorem Sooner.length_le (h : s.Sooner first second) : first.length ≤ second.length :=
  h.noLater.length_le

theorem NoLater.trans (h : s.NoLater first second) (h' : s.NoLater second third) :
    s.NoLater first third := by
  rcases h with h | ⟨hlen, hle⟩
  · exact .inl (Nat.lt_of_lt_of_le h h'.length_le)
  · rcases h' with h' | ⟨hlen', hle'⟩
    · exact .inl (hlen ▸ h')
    · exact .inr ⟨hlen.trans hlen', le_trans hle hle'⟩

theorem Sooner.trans_noLater (h : s.Sooner first second) (h' : s.NoLater second third) :
    s.Sooner first third := by
  rcases h with h | ⟨hlen, hlt⟩
  · exact .inl (Nat.lt_of_lt_of_le h h'.length_le)
  · rcases h' with h' | ⟨hlen', hle'⟩
    · exact .inl (hlen ▸ h')
    · exact .inr ⟨hlen.trans hlen', lt_of_lt_of_le hlt hle'⟩

theorem Sooner.not_noLater (h : s.Sooner first second) : ¬ s.NoLater second first := by
  intro hle
  have hlen := h.length_le
  have hlen' := hle.length_le
  -- equally long, each of the two would have the lesser labels
  rcases h with h | ⟨-, hlt⟩
  · omega
  · rcases hle with hle | ⟨-, hle⟩
    · omega
    · exact absurd hle (not_le_of_gt hlt)

/-- A route comes no later than whatever lies behind it. -/
theorem noLater_append (s : Structure) (nodes more : List Nat) : s.NoLater nodes (nodes ++ more) := by
  cases more with
  | nil =>
    rw [List.append_nil]
    exact .refl s nodes
  | cons x more => exact .inl (by simp)

/-- **Order is kept behind routes**: whatever comes behind an earlier route is earlier. -/
theorem Sooner.extend (h : s.Sooner first second) (x y : Nat) :
    s.Sooner (first ++ [x]) (second ++ [y]) := by
  unfold Sooner
  rw [List.length_append, List.length_append, List.map_append, List.map_append]
  rcases h with h | ⟨hlen, hlt⟩
  · exact .inl (Nat.add_lt_add_right h 1)
  · refine .inr ⟨congrArg (· + 1) hlen, append_lt_append_of_lt ?_ hlt _ _⟩
    rw [List.length_map, List.length_map, hlen]

/-- Routes in order are in order before their last nodes. -/
theorem NoLater.dropLast (h : s.NoLater first second) (hne : first ≠ []) :
    s.NoLater first.dropLast second.dropLast := by
  have hpos := List.length_pos_iff.2 hne
  have hlen := h.length_le
  by_cases hle : s.NoLater first.dropLast second.dropLast
  · exact hle
  · -- the second would come sooner before its last node, and so it would as a whole
    have hne' : second ≠ [] := List.length_pos_iff.1 (Nat.lt_of_lt_of_le hpos hlen)
    have hsooner : s.Sooner second.dropLast first.dropLast := by
      unfold NoLater at hle
      rw [not_or, not_and, List.length_dropLast, List.length_dropLast] at hle
      have heq : second.length - 1 = first.length - 1 := by omega
      refine .inr ⟨by rw [List.length_dropLast, List.length_dropLast, heq], ?_⟩
      exact lt_of_not_ge (hle.2 heq.symm)
    have hbehind := hsooner.extend (second.getLast hne') (first.getLast hne)
    rw [List.dropLast_append_getLast, List.dropLast_append_getLast] at hbehind
    exact absurd h hbehind.not_noLater

/-- Behind one route, the order is that of the labels of the next nodes. -/
theorem sooner_extend_of_lt (nodes : List Nat) (h : s.label x < s.label y) :
    s.Sooner (nodes ++ [x]) (nodes ++ [y]) := by
  refine .inr ⟨by rw [List.length_append, List.length_append]; rfl, ?_⟩
  rw [List.map_append, List.map_append]
  exact List.Lex.append_left _ (.rel h) _

theorem NoLater.eq_or_sooner (h : s.NoLater first second) :
    s.Sooner first second ∨ first.length = second.length ∧ first.map s.label = second.map s.label := by
  rcases h with h | ⟨hlen, hle⟩
  · exact .inl (.inl h)
  · rcases lt_or_eq_of_le hle with hlt | heq
    · exact .inl (.inr ⟨hlen, hlt⟩)
    · exact .inr ⟨hlen, heq⟩

theorem NoLater.extend (h : s.NoLater first second) (hxy : s.label x ≤ s.label y) :
    s.NoLater (first ++ [x]) (second ++ [y]) := by
  rcases h.eq_or_sooner with h | ⟨hlen, heq⟩
  · exact (h.extend x y).noLater
  · rcases lt_or_eq_of_le hxy with hlt | hsame
    · refine .inr ⟨by rw [List.length_append, List.length_append, hlen]; rfl, ?_⟩
      rw [List.map_append, List.map_append, heq]
      exact le_of_lt (List.Lex.append_left _ (.rel hlt) _)
    · refine .inr ⟨by rw [List.length_append, List.length_append, hlen]; rfl, ?_⟩
      rw [List.map_append, List.map_append, heq, List.map_singleton, List.map_singleton, hsame]

end Structure

/-! ## §4. Trails. -/

namespace Membership.Trail

@[simp] theorem nodes_extend (t : Trail) (id : Nat) : (t.extend id).nodes = t.nodes ++ [id] := by
  simp [nodes, extend]

theorem getLast?_nodes (t : Trail) : t.nodes.getLast? = some t.last := by
  simp [nodes]

theorem length_nodes_extend (t : Trail) (id : Nat) :
    (t.extend id).nodes.length = t.nodes.length + 1 := by
  simp

theorem nodes_ne_nil (t : Trail) : t.nodes ≠ [] := by
  simp [nodes]

end Membership.Trail

end Admissibility
