/-
  Admissibility.Proofs.Membership.Search
  ──────────────────────────────────────
  **The chain that a search finds comes before every other route into its targets.**

  The search takes trails in the order in which it found them.  `Frontier` is its invariant: all
  trails found so far are routes from the source, in strictly ascending order and to different
  nodes; each was found by going on from a trail that was taken; and wherever a taken trail leads
  on to, a trail that comes no later than this continuation has been found.  So every route from
  the source is covered, in full by a trail that was taken or up to some node by one that was not.

  `explore_spec`: what looking through the containers of one node comes to.
  `Frontier.onward`, `Frontier.shortest`: one step keeps the invariant, or ends with the first
  route of all.
  `search_ended`: a whole run, with the trails that it takes and pays for.
-/
import Admissibility.Proofs.Membership.Route
import Admissibility.Proofs.Metered
import Admissibility.Proofs.NodeSet

namespace Admissibility

open Metered (Costs)

/-! ## §1. Routes into a set. -/

namespace Structure

/-- A route from a source that ends in a set. -/
structure Leads (s : Structure) (source : Nat) (targets : NodeSet) (nodes : List Nat) : Prop
    extends s.Route source nodes where
  last : ∃ target, nodes.getLast? = some target ∧ targets.contains target = true

/-- **Routes witness chains**: some route leads into a set exactly when a node of the set can be
reached. -/
theorem exists_leads_iff {s : Structure} {source : Nat} {targets : NodeSet}
    (hsource : source < s.nodeCount) : (∃ nodes, s.Leads source targets nodes) ↔
      ∃ target, targets.contains target = true ∧ s.Chain source target := by
  constructor
  · intro h
    obtain ⟨nodes, hroute, target, hlast, htarget⟩ := h
    exact ⟨target, htarget, hroute.chain hsource hlast⟩
  · intro h
    obtain ⟨target, htarget, hchain⟩ := h
    obtain ⟨nodes, hroute, hlast⟩ := hchain.exists_route
    exact ⟨nodes, hroute, target, hlast, htarget⟩

/-- What a search for the first route into a set has to come to. -/
def Answers (s : Structure) (source : Nat) (targets : NodeSet) : Option (List Nat) → Prop
  | none => ∀ nodes, ¬ s.Leads source targets nodes
  | some nodes => s.Leads source targets nodes ∧
      ∀ other, s.Leads source targets other → s.NoLater nodes other

/-- There is no answer exactly when no route leads into the set. -/
theorem Answers.eq_none_iff {s : Structure} {source : Nat} {targets : NodeSet}
    {answer : Option (List Nat)} (h : s.Answers source targets answer) :
    answer = none ↔ ¬ ∃ nodes, s.Leads source targets nodes := by
  cases answer with
  | none =>
    refine ⟨fun _ hleads => ?_, fun _ => rfl⟩
    obtain ⟨nodes, hnodes⟩ := hleads
    exact h nodes hnodes
  | some chain => exact ⟨fun hnone => (by cases hnone), fun hno => absurd ⟨chain, h.1⟩ hno⟩

end Structure

namespace Membership

variable {s : Structure} {source : Nat} {targets visited : NodeSet} {done queue : List Trail}

/-! ## §2. Looking through one node's containers. -/

/-- The outcome of looking through some containers behind a trail. -/
inductive Explored (targets visited : NodeSet) (trail : Trail) (worklist : List Trail)
    (ids : List Nat) : Exploration → Prop
  /-- None of them is a new target; the new ones among them join the worklist. -/
  | onward {visited' : NodeSet} {fresh : List Nat} :
      fresh.Sublist ids →
      (∀ x ∈ fresh, visited.contains x = false ∧ targets.contains x = false) →
      (∀ x ∈ ids, x ∈ fresh ∨ visited.contains x = true) →
      visited'.capacity = visited.capacity →
      (∀ x, visited'.contains x = true ↔ visited.contains x = true ∨ x ∈ fresh) →
      Explored targets visited trail worklist ids
        (.onward visited' ((fresh.map trail.extend).reverse ++ worklist))
  /-- One of them is a target, and those in front of it are not, or were visited before. -/
  | reached {before after : List Nat} {id : Nat} :
      ids = before ++ id :: after →
      targets.contains id = true →
      (∀ x ∈ before, visited.contains x = true ∨ targets.contains x = false) →
      Explored targets visited trail worklist ids (.reached (trail.extend id))

/-- A container that was visited before changes nothing. -/
theorem Explored.seen {trail : Trail} {worklist : List Trail} {id : Nat} {ids : List Nat}
    {outcome : Exploration} (hseen : visited.contains id = true)
    (h : Explored targets visited trail worklist ids outcome) :
    Explored targets visited trail worklist (id :: ids) outcome := by
  cases h with
  | onward hsub hfresh hall hcapacity hcontains =>
    refine .onward (hsub.cons id) hfresh (fun x hx => ?_) hcapacity hcontains
    rcases List.mem_cons.1 hx with heq | hx
    · exact .inr (heq ▸ hseen)
    · exact hall x hx
  | @reached before after target hids htarget hbefore =>
    have hids' : id :: ids = (id :: before) ++ target :: after := by
      rw [hids]
      rfl
    refine .reached hids' htarget fun x hx => ?_
    rcases List.mem_cons.1 hx with heq | hx
    · exact .inl (heq ▸ hseen)
    · exact hbefore x hx

/-- A container that is visited for the first time and no target is the first of the new ones. -/
theorem Explored.fresh {visited₁ : NodeSet} {trail : Trail} {worklist : List Trail} {id : Nat}
    {ids : List Nat} {outcome : Exploration} (hinsert : visited.insert? id = some visited₁)
    (hmiss : targets.contains id = false)
    (h : Explored targets visited₁ trail (trail.extend id :: worklist) ids outcome) :
    Explored targets visited trail worklist (id :: ids) outcome := by
  have hnew := (NodeSet.new_of_insert? hinsert).2
  have hcontains₁ : ∀ x, visited₁.contains x = true ↔ x = id ∨ visited.contains x = true :=
    fun _ => NodeSet.contains_of_insert? hinsert
  cases h with
  | @onward visited' fresh hsub hfresh hall hcapacity hcontains =>
    -- the trail to the head of the list is the first of the new ones
    have hlist : (fresh.map trail.extend).reverse ++ trail.extend id :: worklist
        = ((id :: fresh).map trail.extend).reverse ++ worklist := by simp
    rw [hlist]
    refine .onward (hsub.cons_cons id) (fun x hx => ?_) (fun x hx => ?_)
      (hcapacity.trans (NodeSet.capacity_insert? hinsert)) (fun x => ?_)
    · rcases List.mem_cons.1 hx with heq | hx
      · exact heq ▸ ⟨hnew, hmiss⟩
      · refine ⟨Bool.eq_false_iff.2 fun hvisited => ?_, (hfresh x hx).2⟩
        have hvisited₁ := (hcontains₁ x).2 (.inr hvisited)
        rw [(hfresh x hx).1] at hvisited₁
        cases hvisited₁
    · rcases List.mem_cons.1 hx with heq | hx
      · exact .inl (heq ▸ List.mem_cons_self)
      · rcases hall x hx with hfirst | hvisited₁
        · exact .inl (List.mem_cons_of_mem _ hfirst)
        · rcases (hcontains₁ x).1 hvisited₁ with heq | hvisited
          · exact .inl (heq ▸ List.mem_cons_self)
          · exact .inr hvisited
    · rw [hcontains, hcontains₁, List.mem_cons]
      exact or_assoc.trans or_left_comm
  | @reached before after target hids htarget hbefore =>
    have hids' : id :: ids = (id :: before) ++ target :: after := by
      rw [hids]
      rfl
    refine .reached hids' htarget fun x hx => ?_
    rcases List.mem_cons.1 hx with heq | hx
    · exact .inr (heq ▸ hmiss)
    · rcases hbefore x hx with hvisited₁ | hmiss'
      · rcases (hcontains₁ x).1 hvisited₁ with heq | hvisited
        · exact .inr (heq ▸ hmiss)
        · exact .inl hvisited
      · exact .inr hmiss'

theorem explore_spec (targets visited : NodeSet) (trail : Trail) (worklist : List Trail)
    {ids : List Nat} (hlt : ∀ x ∈ ids, x < visited.capacity) :
    Explored targets visited trail worklist ids
      (explore targets trail visited worklist ids) := by
  induction ids generalizing visited worklist with
  | nil =>
    show Explored targets visited trail worklist []
      (.onward visited (([].map trail.extend).reverse ++ worklist))
    exact .onward .slnil (by simp) (by simp) rfl (by simp)
  | cons id ids ih =>
    have hid := hlt id List.mem_cons_self
    have hrest : ∀ x ∈ ids, x < visited.capacity := fun x hx => hlt x (List.mem_cons_of_mem _ hx)
    unfold explore
    split
    · next h => exact (ih visited worklist hrest).seen (NodeSet.insert?_eq_none_iff.1 h hid)
    · next visited₁ h =>
      split
      · next htarget =>
        have hids : id :: ids = [] ++ id :: ids := rfl
        exact .reached hids htarget (by simp)
      · next hmiss =>
        have hrest₁ : ∀ x ∈ ids, x < visited₁.capacity := by
          rw [NodeSet.capacity_insert? h]
          exact hrest
        exact (ih visited₁ (trail.extend id :: worklist) hrest₁).fresh h
          (Bool.eq_false_iff.2 hmiss)

/-! ## §3. The invariant. -/

/-- The state of a search that has taken the trails of one list and found those of another too. -/
structure Frontier (s : Structure) (source : Nat) (targets visited : NodeSet)
    (done queue : List Trail) : Prop where
  capacity : visited.capacity = s.nodeCount
  start : ⟨source, []⟩ ∈ done ++ queue
  sorted : (done ++ queue).Pairwise fun t u => s.Sooner t.nodes u.nodes
  distinct : (done ++ queue).Pairwise fun t u => t.last ≠ u.last
  route : ∀ t ∈ done ++ queue, s.Route source t.nodes
  parent : ∀ u ∈ done ++ queue, u = ⟨source, []⟩ ∨
    ∃ t ∈ done, ∃ id ∈ (ofStructure s).containersOf t.last, u = t.extend id
  visited_iff : ∀ x, visited.contains x = true ↔ ∃ t ∈ done ++ queue, t.last = x
  missed : ∀ t ∈ done ++ queue, targets.contains t.last = false
  closed : ∀ t ∈ done, ∀ id ∈ (ofStructure s).containersOf t.last,
    ∃ u ∈ done ++ queue, u.last = id ∧ s.NoLater u.nodes (t.extend id).nodes

/-- The search begins with the trail that goes nowhere. -/
theorem Frontier.begin (hsource : source < s.nodeCount)
    (hmiss : targets.contains source = false) :
    Frontier s source targets ((NodeSet.empty (ofStructure s).nodeCount).insert source) []
      [⟨source, []⟩] := by
  have hcapacity : (NodeSet.empty (ofStructure s).nodeCount).capacity = s.nodeCount := by
    rw [NodeSet.capacity_empty, nodeCount_ofStructure]
  refine ⟨?_, by simp, by simp, by simp, ?_, by simp, ?_, ?_, by simp⟩
  · rw [NodeSet.capacity_insert, hcapacity]
  · intro t ht
    cases List.mem_singleton.1 ht
    exact Structure.Route.start s source
  · intro x
    rw [NodeSet.contains_insert, hcapacity, NodeSet.contains_empty]
    simp [hsource, eq_comm]
  · intro t ht
    cases List.mem_singleton.1 ht
    exact hmiss

/-- **Every route is covered**: by a trail that was taken and ends where it ends, or up to one of
its nodes by a trail that is still waiting. -/
theorem Frontier.covers (h : Frontier s source targets visited done queue) {nodes : List Nat}
    (hroute : s.Route source nodes) :
    (∃ t ∈ done, nodes.getLast? = some t.last ∧ s.NoLater t.nodes nodes)
      ∨ ∃ t ∈ queue, ∃ first rest, nodes = first ++ rest ∧ first.getLast? = some t.last
          ∧ s.NoLater t.nodes first := by
  -- a trail that was found covers a route up to where it ends
  have found : ∀ {u : Trail} {nodes : List Nat}, u ∈ done ++ queue →
      nodes.getLast? = some u.last → s.NoLater u.nodes nodes →
      (∃ t ∈ done, nodes.getLast? = some t.last ∧ s.NoLater t.nodes nodes)
        ∨ ∃ t ∈ queue, ∃ first rest, nodes = first ++ rest ∧ first.getLast? = some t.last
            ∧ s.NoLater t.nodes first := by
    intro u nodes hu hlast hle
    rcases List.mem_append.1 hu with hdone | hqueue
    · exact .inl ⟨u, hdone, hlast, hle⟩
    · exact .inr ⟨u, hqueue, nodes, [], (List.append_nil _).symm, hlast, hle⟩
  -- by the number of relations of the route, from the source on
  induction nodes using List.reverseRecOn with
  | nil => cases hroute.head
  | append_singleton nodes y ih =>
    by_cases hne : nodes = []
    · subst hne
      cases hroute.head
      exact found h.start rfl (Structure.NoLater.refl s _)
    · obtain ⟨x, hx, hedge, hroute'⟩ := hroute.split hne
      rcases ih hroute' with ⟨t, ht, hlast, hle⟩ | ⟨t, ht, first, rest, hnodes, hlast, hle⟩
      · -- a taken trail to the node before leads on to a trail that was found
        rw [hx] at hlast
        cases hlast
        obtain ⟨u, hu, rfl, hule⟩ := h.closed t ht y (mem_containersOf.2 hedge)
        rw [Trail.nodes_extend] at hule
        exact found hu (List.getLast?_concat ..) (hule.trans (hle.extend le_rfl))
      · -- a waiting trail covers the longer route as far as it did the shorter one
        exact .inr ⟨t, ht, first, rest ++ [y], by rw [hnodes, List.append_assoc], hlast, hle⟩

/-- With no trail waiting, every route ends where a taken trail ends, which is not in the set. -/
theorem Frontier.exhausted (h : Frontier s source targets visited done []) (nodes : List Nat) :
    ¬ s.Leads source targets nodes := by
  intro hleads
  obtain ⟨hroute, target, hlast, htarget⟩ := hleads
  rcases h.covers hroute with ⟨t, ht, hlast', -⟩ | ⟨t, ht, -⟩
  · rw [hlast] at hlast'
    cases hlast'
    rw [h.missed t (List.mem_append_left _ ht)] at htarget
    cases htarget
  · cases ht

/-- The trail in front comes before the other waiting ones. -/
theorem Frontier.front_sooner {trail : Trail}
    (h : Frontier s source targets visited done (trail :: queue)) {u : Trail} (hu : u ∈ queue) :
    s.Sooner trail.nodes u.nodes :=
  (List.pairwise_cons.1 (List.pairwise_append.1 h.sorted).2.1).1 u hu

/-- **Every trail found comes before whatever lies behind the trail in front.** -/
theorem Frontier.sooner_behind {trail : Trail}
    (h : Frontier s source targets visited done (trail :: queue)) {u : Trail}
    (hu : u ∈ done ++ trail :: queue) (id : Nat) : s.Sooner u.nodes (trail.extend id).nodes := by
  obtain ⟨-, -, hcross⟩ := List.pairwise_append.1 h.sorted
  have hstep : s.Sooner trail.nodes (trail.extend id).nodes := by
    refine .inl ?_
    rw [Trail.length_nodes_extend]
    exact Nat.lt_succ_self _
  rcases List.mem_append.1 hu with hdone | hwait
  · -- a taken trail comes before the one in front already
    exact (hcross u hdone trail List.mem_cons_self).trans_noLater hstep.noLater
  rcases List.mem_cons.1 hwait with heq | hqueue
  · rw [heq]
    exact hstep
  rcases h.parent u hu with hstart | ⟨t, ht, id', -, hextend⟩
  · -- the trail that goes nowhere is shorter than any that goes on
    subst hstart
    refine .inl ?_
    rw [Trail.length_nodes_extend]
    exact Nat.lt_succ_of_le (List.length_pos_iff.2 trail.nodes_ne_nil)
  · -- the waiting trail was found from a trail taken before the one in front
    rw [hextend, Trail.nodes_extend, Trail.nodes_extend]
    exact (hcross t ht trail List.mem_cons_self).extend id' id

/-! ## §4. One step. -/

/-- What holds of the trails found before a step and of the new ones holds after it. -/
theorem forall_found {P : Trail → Prop} {trail : Trail} {fresh : List Nat}
    (hold : ∀ t ∈ done ++ trail :: queue, P t) (hnew : ∀ id ∈ fresh, P (trail.extend id)) :
    ∀ t ∈ done ++ [trail] ++ (queue ++ fresh.map trail.extend), P t := by
  intro t ht
  have hlist : done ++ [trail] ++ (queue ++ fresh.map trail.extend)
      = done ++ trail :: queue ++ fresh.map trail.extend := by simp
  rw [hlist] at ht
  rcases List.mem_append.1 ht with hfound | hfresh
  · exact hold t hfound
  · obtain ⟨id, hid, rfl⟩ := List.mem_map.1 hfresh
    exact hnew id hid

/-- **The step keeps the invariant**: the trail in front is taken and the new ones behind it wait
at the end. -/
theorem Frontier.onward {trail : Trail} {visited' : NodeSet} {fresh : List Nat}
    (h : Frontier s source targets visited done (trail :: queue))
    (hsub : fresh.Sublist ((ofStructure s).containersOf trail.last))
    (hfresh : ∀ x ∈ fresh, visited.contains x = false ∧ targets.contains x = false)
    (hall : ∀ x ∈ (ofStructure s).containersOf trail.last, x ∈ fresh ∨ visited.contains x = true)
    (hcapacity : visited'.capacity = visited.capacity)
    (hvisited : ∀ x, visited'.contains x = true ↔ visited.contains x = true ∨ x ∈ fresh) :
    Frontier s source targets visited' (done ++ [trail]) (queue ++ fresh.map trail.extend) := by
  have hlist : done ++ [trail] ++ (queue ++ fresh.map trail.extend)
      = done ++ trail :: queue ++ fresh.map trail.extend := by simp
  have htrail : trail ∈ done ++ trail :: queue := List.mem_append_right _ List.mem_cons_self
  have htaken : trail ∈ done ++ [trail] := List.mem_append_right _ List.mem_cons_self
  have hascending := (ascending_containersOf s trail.last).sublist hsub
  refine ⟨hcapacity.trans h.capacity, ?_, ?_, ?_, forall_found h.route fun id hid => ?_,
    forall_found (fun u hu => ?_) fun id hid => .inr ⟨trail, htaken, id, hsub.subset hid, rfl⟩,
    fun x => ?_, forall_found h.missed fun id hid => (hfresh id hid).2, ?_⟩
  · rw [hlist]
    exact List.mem_append_left _ h.start
  · rw [hlist]
    refine List.pairwise_append.2 ⟨h.sorted, ?_, ?_⟩
    · -- the new trails stand in the order of their labels
      refine List.pairwise_map.2 (hascending.imp ?_)
      intro x y hxy
      rw [Trail.nodes_extend, Trail.nodes_extend]
      exact Structure.sooner_extend_of_lt _ hxy
    · intro u hu v hv
      obtain ⟨id, -, rfl⟩ := List.mem_map.1 hv
      exact h.sooner_behind hu id
  · rw [hlist]
    refine List.pairwise_append.2 ⟨h.distinct, ?_, ?_⟩
    · exact List.pairwise_map.2 (Structure.nodup_of_ascending hascending)
    · -- the nodes visited before are those in which the old trails end
      intro u hu v hv heq
      obtain ⟨id, hid, rfl⟩ := List.mem_map.1 hv
      have hseen := (h.visited_iff id).2 ⟨u, hu, heq⟩
      rw [(hfresh id hid).1] at hseen
      cases hseen
  · -- the new trails are routes
    rw [Trail.nodes_extend]
    exact (h.route trail htrail).extend trail.getLast?_nodes (mem_containersOf.1 (hsub.subset hid))
  · -- the parents of the old trails were taken before
    rcases h.parent u hu with hstart | ⟨t, ht, hid⟩
    · exact .inl hstart
    · exact .inr ⟨t, List.mem_append_left _ ht, hid⟩
  · -- the nodes visited are those in which a trail ends
    rw [hvisited, h.visited_iff, hlist]
    constructor
    · intro hx
      rcases hx with ⟨t, ht, hx⟩ | hx
      · exact ⟨t, List.mem_append_left _ ht, hx⟩
      · exact ⟨trail.extend x, List.mem_append_right _ (List.mem_map_of_mem hx), rfl⟩
    · intro hx
      obtain ⟨t, ht, rfl⟩ := hx
      rcases List.mem_append.1 ht with hold | hnew
      · exact .inl ⟨t, hold, rfl⟩
      · obtain ⟨id, hid, rfl⟩ := List.mem_map.1 hnew
        exact .inr hid
  · rw [hlist]
    intro t ht id hid
    rcases List.mem_append.1 ht with hdone | hlast
    · obtain ⟨u, hu, hrest⟩ := h.closed t hdone id hid
      exact ⟨u, List.mem_append_left _ hu, hrest⟩
    · -- a container of the trail just taken is new, or a trail to it was found before
      cases List.mem_singleton.1 hlast
      rcases hall id hid with hnew | hold
      · exact ⟨trail.extend id, List.mem_append_right _ (List.mem_map_of_mem hnew), rfl,
          Structure.NoLater.refl s _⟩
      · obtain ⟨u, hu, rfl⟩ := (h.visited_iff id).1 hold
        exact ⟨u, List.mem_append_left _ hu, rfl, (h.sooner_behind hu _).noLater⟩

/-- **Least label**: of the targets behind the trail in front, the first one found comes first in
the order of labels. -/
theorem Frontier.label_le {trail : Trail} {before after : List Nat} {id y : Nat}
    (h : Frontier s source targets visited done (trail :: queue))
    (hids : (ofStructure s).containersOf trail.last = before ++ id :: after)
    (hbefore : ∀ x ∈ before, visited.contains x = true ∨ targets.contains x = false)
    (hy : y ∈ (ofStructure s).containersOf trail.last) (htarget : targets.contains y = true) :
    s.label id ≤ s.label y := by
  have hsorted := ascending_containersOf s trail.last
  rw [hids] at hy hsorted
  rcases List.mem_append.1 hy with hfront | hback
  · -- in front of the one found, there are only nodes visited before and nodes that are no targets
    rcases hbefore y hfront with hseen | hmiss
    · obtain ⟨u, hu, rfl⟩ := (h.visited_iff y).1 hseen
      rw [h.missed u hu] at htarget
      cases htarget
    · rw [hmiss] at htarget
      cases htarget
  · rcases List.mem_cons.1 hback with heq | hafter
    · rw [heq]
    · exact le_of_lt ((List.pairwise_cons.1 (List.pairwise_append.1 hsorted).2.1).1 y hafter)

/-- **The first target found ends the first route of all.** -/
theorem Frontier.shortest {trail : Trail} {before after : List Nat} {id : Nat}
    (h : Frontier s source targets visited done (trail :: queue))
    (hids : (ofStructure s).containersOf trail.last = before ++ id :: after)
    (htarget : targets.contains id = true)
    (hbefore : ∀ x ∈ before, visited.contains x = true ∨ targets.contains x = false) :
    s.Answers source targets (some (trail.extend id).nodes) := by
  have htrail : trail ∈ done ++ trail :: queue := List.mem_append_right _ List.mem_cons_self
  have hedge : (trail.last, id) ∈ s.edges .memberOf := by
    refine mem_containersOf.1 ?_
    rw [hids]
    exact List.mem_append_right _ List.mem_cons_self
  -- a route into the set does not end where a trail found so far ends
  have hmissed : ∀ t ∈ done ++ trail :: queue, ¬ targets.contains t.last = true := by
    intro t ht hcontains
    rw [h.missed t ht] at hcontains
    cases hcontains
  rw [Trail.nodes_extend]
  refine ⟨⟨(h.route trail htrail).extend trail.getLast?_nodes hedge,
    id, List.getLast?_concat .., htarget⟩, ?_⟩
  intro other hleads
  obtain ⟨hroute, target, hlast, hother⟩ := hleads
  rcases h.covers hroute with ⟨t, ht, hlast', -⟩ | ⟨t, ht, first, rest, rfl, hlast', hle⟩
  · rw [hlast] at hlast'
    cases hlast'
    exact absurd hother (hmissed t (List.mem_append_left _ ht))
  cases rest with
  | nil =>
    rw [List.append_nil, hlast'] at hlast
    cases hlast
    exact absurd hother (hmissed t (List.mem_append_right _ ht))
  | cons y rest =>
    cases rest with
    | nil =>
      -- one node behind a waiting trail: the label of that node decides, or the trail does
      rcases List.mem_cons.1 ht with heq | hqueue
      · have hne : first ≠ [] := by
          intro hnil
          rw [hnil] at hlast'
          cases hlast'
        obtain ⟨x, hx, hedge', -⟩ := hroute.split hne
        rw [hx] at hlast'
        rw [List.getLast?_concat] at hlast
        cases hlast'
        cases hlast
        rw [heq] at hedge' hle
        exact hle.extend (h.label_le hids hbefore (mem_containersOf.2 hedge') hother)
      · exact (((h.front_sooner hqueue).trans_noLater hle).extend id y).noLater
    | cons z rest =>
      -- two nodes or more behind a waiting trail: the route is longer
      have hlen : trail.nodes.length ≤ first.length := by
        rcases List.mem_cons.1 ht with heq | hqueue
        · rw [heq] at hle
          exact hle.length_le
        · exact ((h.front_sooner hqueue).trans_noLater hle).length_le
      refine .inl ?_
      simp only [List.length_append, List.length_cons, List.length_nil]
      omega

/-! ## §5. The run. -/

/-- The steps that taking a trail costs. -/
def searchPrice (m : Membership) (trail : Trail) : Nat := 1 + (m.containersOf trail.last).length

/-- The search takes the trail in front, pays for it, and goes on as its containers tell. -/
theorem search_cons (m : Membership) (targets visited : NodeSet) (trail : Trail)
    (level later : List Trail) :
    search m targets visited (trail :: level) later = (do
      Metered.spend (m.searchPrice trail)
      match explore targets trail visited later (m.containersOf trail.last) with
      | .reached found => pure (some found.nodes)
      | .onward visited later => search m targets visited level later) := by
  rw [search]
  congr 1
  funext _
  split
  · next found h => rw [h]
  · next visited' later' h =>
    show search m targets visited' level later' = _
    rw [h]

/-- How a run ends: with no trail waiting, or with the first target found behind the trail taken
last. -/
inductive Ended (s : Structure) (source : Nat) (targets : NodeSet) :
    List Trail → Option (List Nat) → Prop
  | exhausted {visited : NodeSet} {done : List Trail} :
      Frontier s source targets visited done [] → Ended s source targets done none
  | reached {visited : NodeSet} {done queue : List Trail} {trail : Trail} {before after : List Nat}
      {id : Nat} :
      Frontier s source targets visited done (trail :: queue) →
      (ofStructure s).containersOf trail.last = before ++ id :: after →
      targets.contains id = true →
      (∀ x ∈ before, visited.contains x = true ∨ targets.contains x = false) →
      Ended s source targets (done ++ [trail]) (some (trail.extend id).nodes)

theorem Ended.answers {answer : Option (List Nat)} (h : Ended s source targets done answer) :
    s.Answers source targets answer := by
  cases h with
  | exhausted hfrontier => exact hfrontier.exhausted
  | reached hfrontier hids htarget hbefore => exact hfrontier.shortest hids htarget hbefore

/-- **A run takes trails to an end**, pays for each that it takes, and charges the same whatever the
budget. -/
theorem search_ended (level later : List Trail)
    (h : Frontier s source targets visited done (level ++ later.reverse)) :
    ∃ taken answer,
      Costs (search (ofStructure s) targets visited level later)
        (taken.map (ofStructure s).searchPrice) answer
        ∧ Ended s source targets (done ++ taken) answer := by
  induction visited, level, later using search.induct (ofStructure s) targets generalizing done with
  | case1 visited =>
    refine ⟨[], none, ?_, ?_⟩
    · unfold search
      exact Costs.pure none
    · rw [List.append_nil]
      exact .exhausted h
  | case2 visited trail later ih =>
    unfold search
    have hqueue : (trail :: later).reverse ++ [].reverse = [] ++ (trail :: later).reverse := by
      simp
    exact ih (by rw [hqueue]; exact h)
  | case3 visited trail level later ih =>
    have hlt : ∀ x ∈ (ofStructure s).containersOf trail.last, x < visited.capacity := by
      intro x hx
      rw [h.capacity]
      exact (Structure.edge_lt (mem_containersOf.1 hx)).2
    have outcome := explore_spec targets visited trail later hlt
    rw [search_cons]
    generalize explore targets trail visited later ((ofStructure s).containersOf trail.last) = found
      at ih outcome ⊢
    cases outcome with
    | @onward visited' fresh hsub hfresh hall hcapacity hvisited =>
      -- the new trails wait in reverse, behind those of the present level
      have hqueue : level ++ ((fresh.map trail.extend).reverse ++ later).reverse
          = level ++ later.reverse ++ fresh.map trail.extend := by simp
      have hnext : Frontier s source targets visited' (done ++ [trail])
          (level ++ ((fresh.map trail.extend).reverse ++ later).reverse) := by
        rw [hqueue]
        exact h.onward hsub hfresh hall hcapacity hvisited
      obtain ⟨taken, answer, hcosts, hended⟩ := ih _ _ rfl hnext
      rw [List.append_assoc] at hended
      exact ⟨trail :: taken, answer, (Costs.spend _).bind hcosts, hended⟩
    | reached hids htarget hbefore =>
      exact ⟨[trail], _, (Costs.spend _).bind (Costs.pure _), .reached h hids htarget hbefore⟩

/-- A run answers the question. -/
theorem search_costs (level later : List Trail)
    (h : Frontier s source targets visited done (level ++ later.reverse)) :
    ∃ charges answer,
      Costs (search (ofStructure s) targets visited level later) charges answer
        ∧ s.Answers source targets answer := by
  obtain ⟨taken, answer, hcosts, hended⟩ := search_ended level later h
  exact ⟨_, answer, hcosts, hended.answers⟩

/-- A source that is a target itself is the first route of all. -/
theorem answers_source (htarget : targets.contains source = true) :
    s.Answers source targets (some [source]) := by
  refine ⟨⟨Structure.Route.start s source, source, rfl, htarget⟩, fun other hother => ?_⟩
  -- no route is shorter than the source alone, and only the source is as short
  have hroute := hother.toRoute
  cases other with
  | nil => cases hroute.head
  | cons x rest =>
    cases hroute.head
    cases rest with
    | nil => exact Structure.NoLater.refl s _
    | cons y rest => exact .inl (by simp)

/-- **The chain into a set**: the search from a node answers which route into the set comes first. -/
theorem chain_costs (hsource : source < s.nodeCount) (targets : NodeSet) :
    ∃ charges answer, Costs ((ofStructure s).chain source targets) charges answer
      ∧ s.Answers source targets answer := by
  unfold chain
  by_cases htarget : targets.contains source = true
  · rw [if_pos htarget]
    exact ⟨[], _, Costs.pure _, answers_source htarget⟩
  · rw [if_neg htarget]
    have hbegin := Frontier.begin hsource (Bool.eq_false_iff.2 htarget)
    exact search_costs [⟨source, []⟩] [] hbegin

end Membership

end Admissibility
