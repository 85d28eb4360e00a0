/-
  Admissibility.Proofs.Membership.Taken
  ─────────────────────────────────────
  **Which nodes a search takes, told without the search.**

  A search takes a node when some route to it comes no later than every route into the targets does
  before its last node: the nodes whose first routes come before the parent of the target that is
  found, and that parent.  Without any route into the targets these are all nodes that the source
  reaches.  Each of them is taken, and paid for, once.

  `Ended.mem_taken_iff`: the trails taken by a whole run.
  `chain_taken`: the search from a node, with the nodes that it pays for.
-/
import Admissibility.Proofs.Membership.Search

namespace Admissibility

open Metered (Costs)

/-- A search passes through a node on its way into a set: some route to the node comes no later
than any route into the set does before its last node. -/
def Structure.Passes (s : Structure) (source : Nat) (targets : NodeSet) (x : Nat) : Prop :=
  ∃ route, s.Route source route ∧ route.getLast? = some x
    ∧ ∀ other, s.Leads source targets other → s.NoLater route other.dropLast

namespace Membership

variable {s : Structure} {source x : Nat} {targets visited : NodeSet} {done queue : List Trail}

/-- A route that comes no later than the trail in front ends where a taken trail or that one ends. -/
theorem Frontier.taken_of_noLater {trail : Trail} {route : List Nat}
    (h : Frontier s source targets visited done (trail :: queue)) (hroute : s.Route source route)
    (hlast : route.getLast? = some x) (hle : s.NoLater route trail.nodes) :
    ∃ t ∈ done ++ [trail], t.last = x := by
  rcases h.covers hroute with ⟨t, ht, hlast', -⟩ | ⟨t, ht, first, rest, rfl, hlast', hfirst⟩
  · rw [hlast] at hlast'
    exact ⟨t, List.mem_append_left _ ht, (Option.some.inj hlast').symm⟩
  have hbefore : s.NoLater t.nodes (first ++ rest) := hfirst.trans (Structure.noLater_append s _ _)
  rcases List.mem_cons.1 ht with rfl | hqueue
  · -- the trail in front is as long as the route, so nothing of the route lies behind it
    have hnil : rest = [] := by
      have hlen := hfirst.length_le
      have hlen' := hle.length_le
      rw [List.length_append] at hlen'
      exact List.length_eq_zero_iff.1 (by omega)
    rw [hnil, List.append_nil, hlast'] at hlast
    exact ⟨t, List.mem_append_right _ List.mem_cons_self, Option.some.inj hlast⟩
  · -- a trail behind the one in front would come before it
    exact absurd (hbefore.trans hle) (h.front_sooner hqueue).not_noLater

/-- The trails taken before a run ends, and the one taken last, come no later than any route into
the targets does before its last node. -/
theorem Frontier.noLater_dropLast {trail t : Trail} {before after other : List Nat} {id : Nat}
    (h : Frontier s source targets visited done (trail :: queue))
    (hids : (ofStructure s).containersOf trail.last = before ++ id :: after)
    (htarget : targets.contains id = true)
    (hbefore : ∀ x ∈ before, visited.contains x = true ∨ targets.contains x = false)
    (ht : t ∈ done ++ [trail]) (hother : s.Leads source targets other) :
    s.NoLater t.nodes other.dropLast := by
  have hchain : s.NoLater (trail.extend id).nodes other :=
    (h.shortest hids htarget hbefore).2 other hother
  rw [Trail.nodes_extend] at hchain
  have hparent := hchain.dropLast (by simp)
  rw [List.dropLast_concat] at hparent
  rcases List.mem_append.1 ht with hdone | hlast
  · have hsooner := (List.pairwise_append.1 h.sorted).2.2 t hdone trail List.mem_cons_self
    exact (hsooner.trans_noLater hparent).noLater
  · cases List.mem_singleton.1 hlast
    exact hparent

/-- **Each node once**: the trails that a run takes end in different nodes. -/
theorem Ended.nodup {answer : Option (List Nat)} (h : Ended s source targets done answer) :
    (done.map Trail.last).Nodup := by
  cases h with
  | exhausted hfrontier =>
    have hdistinct := hfrontier.distinct
    rw [List.append_nil] at hdistinct
    exact List.pairwise_map.2 hdistinct
  | @reached visited done queue trail _ _ _ hfrontier =>
    refine List.pairwise_map.2 (hfrontier.distinct.sublist ?_)
    exact (List.singleton_sublist.2 List.mem_cons_self).append_left done

/-- **Exactly the nodes passed**: a run takes a trail to each of them and to no others. -/
theorem Ended.mem_taken_iff {answer : Option (List Nat)} (h : Ended s source targets done answer) :
    x ∈ done.map Trail.last ↔ s.Passes source targets x := by
  rw [List.mem_map]
  cases h with
  | exhausted hfrontier =>
    constructor
    · intro hx
      obtain ⟨t, ht, rfl⟩ := hx
      refine ⟨t.nodes, hfrontier.route t (List.mem_append_left _ ht), t.getLast?_nodes, ?_⟩
      exact fun other hother => absurd hother (hfrontier.exhausted other)
    · intro hx
      obtain ⟨route, hroute, hlast, -⟩ := hx
      rcases hfrontier.covers hroute with ⟨t, ht, hlast', -⟩ | ⟨t, ht, -⟩
      · rw [hlast] at hlast'
        exact ⟨t, ht, (Option.some.inj hlast').symm⟩
      · cases ht
  | @reached visited done queue trail before after id hfrontier hids htarget hbefore =>
    constructor
    · intro hx
      obtain ⟨t, ht, rfl⟩ := hx
      have hfound : t ∈ done ++ trail :: queue := by
        rcases List.mem_append.1 ht with hdone | hlast
        · exact List.mem_append_left _ hdone
        · exact List.mem_append_right _ (List.mem_singleton.1 hlast ▸ List.mem_cons_self)
      exact ⟨t.nodes, hfrontier.route t hfound, t.getLast?_nodes,
        fun other hother => hfrontier.noLater_dropLast hids htarget hbefore ht hother⟩
    · intro hx
      obtain ⟨route, hroute, hlast, hfirst⟩ := hx
      -- the chain that is found is one of the routes into the targets
      have hparent := hfirst _ (hfrontier.shortest hids htarget hbefore).1
      rw [Trail.nodes_extend, List.dropLast_concat] at hparent
      exact hfrontier.taken_of_noLater hroute hlast hparent

/-- The steps that passing through a node costs. -/
def passPrice (m : Membership) (id : Nat) : Nat := 1 + (m.containersOf id).length

/-- **The search from a node** pays once for each node that it passes through. -/
theorem chain_taken (hsource : source < s.nodeCount) (targets : NodeSet) :
    ∃ (taken : List Nat) (answer : Option (List Nat)),
      Costs ((ofStructure s).chain source targets) (taken.map (ofStructure s).passPrice) answer
        ∧ s.Answers source targets answer ∧ taken.Nodup
        ∧ ∀ x, x ∈ taken ↔ s.Passes source targets x := by
  unfold chain
  by_cases htarget : targets.contains source = true
  · rw [if_pos htarget]
    have hanswer : s.Answers source targets (some [source]) := answers_source htarget
    refine ⟨[], _, Costs.pure _, hanswer, .nil, fun x => iff_of_false List.not_mem_nil ?_⟩
    -- nothing comes no later than the empty list of nodes before the source
    intro hx
    obtain ⟨route, hroute, -, hfirst⟩ := hx
    have hlen := (hfirst [source] hanswer.1).length_le
    cases route with
    | nil => cases hroute.head
    | cons y rest => cases hlen
  · rw [if_neg htarget]
    have hbegin := Frontier.begin hsource (Bool.eq_false_iff.2 htarget)
    obtain ⟨taken, answer, hcosts, hended⟩ := search_ended [⟨source, []⟩] [] hbegin
    refine ⟨taken.map Trail.last, answer, ?_, hended.answers, hended.nodup,
      fun x => hended.mem_taken_iff⟩
    rw [List.map_map]
    exact hcosts

end Membership

end Admissibility
