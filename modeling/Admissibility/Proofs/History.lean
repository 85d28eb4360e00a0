/-
  Admissibility.Proofs.History
  ────────────────────────────
  **What a structure tells of the calls that built it.**

  Every call is answered with the number of the new node or relation, or with a refusal that leaves
  everything as it was.  So the nodes of a structure are the declarations that were answered, each
  under the number that it was given, and its relations are the additions that were answered.

  `answer_error_iff`: when a call is refused, and why.
  `consistent`: labels, relations and the look-up agree with each other.
  `labels_built_iff`, `relations_built_iff`: node and relation of a number, by the calls.
  `calls_are_atomic`: all of it together.
-/
import Mathlib.Data.List.Induction
import Mathlib.Data.List.Nodup
import Admissibility.Proofs.Builder
import Admissibility.Proofs.Misfit

namespace Admissibility.Structure

variable {s t : Structure} {call : Call} {calls : List Call}

/-! ## §1. Answers and refusals. -/

/-- What a call is answered: the number of the new node or relation. -/
def answer (s : Structure) : Call → Except Refusal Nat
  | .declare label => (s.declare label).map Prod.fst
  | .relate relation => (s.relate relation).map Prod.fst

/-- The calls that a structure refuses, each with the reason. -/
inductive Refuses (s : Structure) : Call → Refusal → Prop
  | emptyLabel : Refuses s (.declare "") .emptyLabel
  | duplicateLabel {label : String} : label ≠ "" → label ∈ s.labels →
      Refuses s (.declare label) (.duplicateLabel label)
  /-- The leftmost endpoint that is no node. -/
  | unknownNode {kind : Relation.Kind} {before after : List Nat} {e line : Nat} :
      (∀ x ∈ before, x < s.nodeCount) → s.nodeCount ≤ e →
      Refuses s (.relate ⟨kind, before ++ e :: after, line⟩) (.unknownNode e)
  /-- A `member-of` or `bounds` between other than two nodes. -/
  | arity {kind : Relation.Kind} {endpoints : List Nat} {line : Nat} :
      (∀ x ∈ endpoints, x < s.nodeCount) → kind ≠ .inverts → endpoints.length ≠ 2 →
      Refuses s (.relate ⟨kind, endpoints, line⟩) (.arityMismatch kind 2 endpoints.length)
  | noEndpoints {line : Nat} : Refuses s (.relate ⟨.inverts, [], line⟩) (.noEndpoints .inverts)

/-- A number of endpoints that a kind does not take: other than two, or none at all. -/
theorem not_takes_iff {kind : Relation.Kind} {count : Nat} : ¬ kind.Takes count ↔
    (kind ≠ .inverts ∧ count ≠ 2 ∧ Refusal.ofArity kind count = .arityMismatch kind 2 count)
      ∨ (kind = .inverts ∧ count = 0 ∧ Refusal.ofArity kind count = .noEndpoints .inverts) := by
  cases kind <;> simp [Relation.Kind.Takes, Relation.Kind.fixedArity, Refusal.ofArity]

/-- A refusal is the answer, and nothing is done. -/
theorem answer_of_declare_error {label : String} {refusal : Refusal}
    (h : s.declare label = .error refusal) :
    s.answer (.declare label) = .error refusal ∧ s.perform (.declare label) = s :=
  ⟨by rw [answer, h]; rfl, by rw [perform, h]⟩

theorem answer_of_declare_ok {label : String} {id : Nat} (h : s.declare label = .ok (id, t)) :
    s.answer (.declare label) = .ok id ∧ s.perform (.declare label) = t :=
  ⟨by rw [answer, h]; rfl, by rw [perform, h]⟩

theorem answer_of_relate_error {r : Relation} {refusal : Refusal}
    (h : s.relate r = .error refusal) :
    s.answer (.relate r) = .error refusal ∧ s.perform (.relate r) = s :=
  ⟨by rw [answer, h]; rfl, by rw [perform, h]⟩

theorem answer_of_relate_ok {r : Relation} {id : Nat} (h : s.relate r = .ok (id, t)) :
    s.answer (.relate r) = .ok id ∧ s.perform (.relate r) = t :=
  ⟨by rw [answer, h]; rfl, by rw [perform, h]⟩

/-- **A declaration** is refused and changes nothing, or makes the next node. -/
theorem declare_step (s : Structure) (label : String) :
    (∃ refusal, Refuses s (.declare label) refusal ∧ s.answer (.declare label) = .error refusal
        ∧ s.perform (.declare label) = s)
      ∨ (label ≠ "" ∧ label ∉ s.labels ∧ s.answer (.declare label) = .ok s.nodeCount
          ∧ (s.perform (.declare label)).labels = s.labels.push label
          ∧ (s.perform (.declare label)).relations = s.relations) := by
  rcases s.declare_cases label with ⟨rfl, h⟩ | ⟨hne, hmem, h⟩ | ⟨hne, hnew, t, h, hlabels, hrelations⟩
  · exact .inl ⟨_, .emptyLabel, answer_of_declare_error h⟩
  · exact .inl ⟨_, .duplicateLabel hne hmem, answer_of_declare_error h⟩
  · obtain ⟨hanswer, hperform⟩ := answer_of_declare_ok h
    rw [hperform]
    exact .inr ⟨hne, hnew, hanswer, hlabels, hrelations⟩

/-- **An addition** is refused and changes nothing, or makes the next relation. -/
theorem relate_step (s : Structure) (r : Relation) :
    (∃ refusal, Refuses s (.relate r) refusal ∧ s.answer (.relate r) = .error refusal
        ∧ s.perform (.relate r) = s)
      ∨ (r.Fits s.nodeCount ∧ s.answer (.relate r) = .ok s.relationCount
          ∧ (s.perform (.relate r)).labels = s.labels
          ∧ (s.perform (.relate r)).relations = s.relations.push r) := by
  obtain ⟨kind, endpoints, line⟩ := r
  rcases s.relate_cases ⟨kind, endpoints, line⟩ with ⟨before, e, after, rfl, hbefore, he, h⟩
    | ⟨hknown, htakes, h⟩ | ⟨hfits, t, h, hlabels, hrelations⟩
  · exact .inl ⟨_, .unknownNode hbefore he, answer_of_relate_error h⟩
  · refine .inl ⟨_, ?_, answer_of_relate_error h⟩
    rcases not_takes_iff.1 htakes with ⟨hkind, hcount, hreason⟩ | ⟨rfl, hcount, hreason⟩
    · rw [hreason]
      exact .arity hknown hkind hcount
    · rw [hreason]
      cases List.length_eq_zero_iff.1 hcount
      exact .noEndpoints
  · obtain ⟨hanswer, hperform⟩ := answer_of_relate_ok h
    rw [hperform]
    exact .inr ⟨hfits, hanswer, hlabels, hrelations⟩

/-- There is one leftmost endpoint that is no node. -/
theorem leftmost_eq {count e e' : Nat} {before after before' after' : List Nat}
    (h : before ++ e :: after = before' ++ e' :: after') (hbefore : ∀ x ∈ before, x < count)
    (he : count ≤ e) (hbefore' : ∀ x ∈ before', x < count) (he' : count ≤ e') : e = e' :=
  (cut_unique h (allFit_iff.2 hbefore) (allFit_iff.2 hbefore') (Nat.not_lt.2 he)
    (Nat.not_lt.2 he')).2

/-- A call that a structure refuses is answered with the reason. -/
theorem Refuses.answer {refusal : Refusal} (h : Refuses s call refusal) :
    s.answer call = .error refusal := by
  cases h with
  | emptyLabel => rfl
  | @duplicateLabel label hne hmem =>
    rcases s.declare_cases label with ⟨hempty, -⟩ | ⟨-, -, h⟩ | ⟨-, hnew, -⟩
    · exact absurd hempty hne
    · exact (answer_of_declare_error h).1
    · exact absurd hmem hnew
  | @unknownNode kind before after e line hbefore he =>
    have hno : ¬ ∀ x ∈ before ++ e :: after, x < s.nodeCount := fun hall =>
      Nat.not_lt.2 he (hall e (by simp))
    rcases s.relate_cases ⟨kind, before ++ e :: after, line⟩ with
      ⟨before', e', after', hsplit, hbefore', he', h⟩ | ⟨hknown, -⟩ | ⟨hfits, -⟩
    · cases leftmost_eq hsplit hbefore he hbefore' he'
      exact (answer_of_relate_error h).1
    · exact absurd hknown hno
    · exact absurd hfits.endpoint_lt hno
  | @arity kind endpoints line hknown hkind hcount =>
    have htakes : ¬ kind.Takes endpoints.length := by
      cases kind <;> first | exact hcount | exact absurd rfl hkind
    rcases s.relate_cases ⟨kind, endpoints, line⟩ with
      ⟨before, e, after, rfl, -, he, -⟩ | ⟨-, -, h⟩ | ⟨hfits, -⟩
    · exact absurd (hknown e (by simp)) (Nat.not_lt.2 he)
    · rw [(answer_of_relate_error h).1]
      cases kind with
      | inverts => exact absurd rfl hkind
      | _ => rfl
    · exact absurd hfits.takes htakes
  | @noEndpoints line =>
    rcases s.relate_cases ⟨.inverts, [], line⟩ with ⟨before, e, after, h, -⟩ | ⟨-, -, h⟩ | ⟨hfits, -⟩
    · simp at h
    · exact (answer_of_relate_error h).1
    · exact absurd hfits.takes (Nat.lt_irrefl 0)

/-- **A call is refused** exactly for these reasons. -/
theorem answer_error_iff {refusal : Refusal} :
    s.answer call = .error refusal ↔ Refuses s call refusal := by
  refine ⟨fun h => ?_, Refuses.answer⟩
  cases call with
  | declare label =>
    rcases s.declare_step label with ⟨other, hrefuses, hanswer, -⟩ | ⟨-, -, hanswer, -⟩
    · rw [hanswer] at h
      cases h
      exact hrefuses
    · rw [hanswer] at h
      cases h
  | relate r =>
    rcases s.relate_step r with ⟨other, hrefuses, hanswer, -⟩ | ⟨-, hanswer, -⟩
    · rw [hanswer] at h
      cases h
      exact hrefuses
    · rw [hanswer] at h
      cases h

/-- **A refused call** changes nothing. -/
theorem perform_of_answer_error {refusal : Refusal} (h : s.answer call = .error refusal) :
    s.perform call = s := by
  cases call with
  | declare label =>
    rcases s.declare_step label with ⟨_, _, _, hsame⟩ | ⟨_, _, hanswer, _⟩
    · exact hsame
    · rw [hanswer] at h
      cases h
  | relate r =>
    rcases s.relate_step r with ⟨_, _, _, hsame⟩ | ⟨_, hanswer, _⟩
    · exact hsame
    · rw [hanswer] at h
      cases h

/-! ## §2. What calls leave behind. -/

/-- The labels, the relations and the look-up of a structure agree with each other. -/
structure Consistent (s : Structure) : Prop where
  label_ne_empty : ∀ label ∈ s.labels, label ≠ ""
  nodup_labels : s.labels.toList.Nodup
  lookup_iff : ∀ label id, s.lookup label = some id ↔ s.labels[id]? = some label
  endpoint_lt : ∀ r ∈ s.relations, ∀ e ∈ r.endpoints, e < s.nodeCount
  two_endpoints : ∀ r ∈ s.relations, r.kind ≠ .inverts → r.arity = 2
  some_endpoint : ∀ r ∈ s.relations, r.kind = .inverts → 1 ≤ r.arity

/-- No label is borne twice. -/
theorem nodup_labels (s : Structure) : s.labels.toList.Nodup := by
  rw [List.nodup_iff_getElem?_ne_getElem?]
  intro i j hij hj heq
  rw [Array.getElem?_toList, Array.getElem?_toList] at heq
  have hi := s.label_of_lt (Nat.lt_trans hij hj)
  -- the label table gives the label one node
  have hid := (s.ids_iff _ i).2 hi
  rw [(s.ids_iff _ j).2 (heq.symm.trans hi)] at hid
  exact Nat.ne_of_gt hij (Option.some.inj hid)

theorem consistent (s : Structure) : s.Consistent where
  label_ne_empty := s.label_ne_empty
  nodup_labels := s.nodup_labels
  lookup_iff := s.lookup_eq_some_iff
  endpoint_lt := fun r hr => (s.fits r hr).endpoint_lt
  two_endpoints := fun r hr hkind => by
    have htakes := (s.fits r hr).takes
    cases hr : r.kind with
    | inverts => exact absurd hr hkind
    | _ =>
      rw [hr] at htakes
      exact htakes
  some_endpoint := fun r hr hkind => by
    have htakes := (s.fits r hr).takes
    rw [hkind] at htakes
    exact htakes

/-! ## §3. Numbers. -/

/-- One of the calls, made on what those before it built, is answered with a number. -/
def Answered (calls : List Call) (call : Call) (id : Nat) : Prop :=
  ∃ before after, calls = before ++ call :: after ∧ (built before).answer call = .ok id

theorem built_append (calls : List Call) (last : Call) :
    built (calls ++ [last]) = (built calls).perform last := by
  rw [built, List.foldl_append]
  rfl

theorem answered_append {last : Call} {id : Nat} : Answered (calls ++ [last]) call id ↔
    Answered calls call id ∨ (last = call ∧ (built calls).answer call = .ok id) := by
  constructor
  · rintro ⟨before, after, hsplit, hanswer⟩
    rcases List.eq_nil_or_concat after with rfl | ⟨after, final, rfl⟩
    · obtain ⟨rfl, hlast⟩ := List.append_inj' hsplit rfl
      cases hlast
      exact .inr ⟨rfl, hanswer⟩
    · have hcut : calls ++ [last] = (before ++ call :: after) ++ [final] := by
        rw [hsplit]
        simp
      exact .inl ⟨before, after, (List.append_inj' hcut rfl).1, hanswer⟩
  · rintro (⟨before, after, rfl, hanswer⟩ | ⟨rfl, hanswer⟩)
    · exact ⟨before, after ++ [last], by simp, hanswer⟩
    · exact ⟨calls, [], rfl, hanswer⟩

theorem getElem?_push_eq_some_iff {α : Type} {items : Array α} {x y : α} {i : Nat} :
    (items.push x)[i]? = some y ↔ items[i]? = some y ∨ (x = y ∧ items.size = i) := by
  rw [Array.getElem?_push]
  split
  · next hi => simp [hi]
  · next hi => simp [Ne.symm hi]

/-- **One call** makes a node where it declares the label and is answered with the number. -/
theorem labels_perform_iff {label : String} {id : Nat} :
    (s.perform call).labels[id]? = some label ↔ s.labels[id]? = some label
      ∨ (call = .declare label ∧ s.answer (.declare label) = .ok id) := by
  cases call with
  | declare l =>
    rcases s.declare_step l with ⟨_, _, hanswer, hsame⟩ | ⟨_, _, hanswer, hlabels, _⟩
    · rw [hsame, or_iff_left]
      rintro ⟨⟨⟩, hok⟩
      rw [hanswer] at hok
      cases hok
    · rw [hlabels, getElem?_push_eq_some_iff]
      refine or_congr_right ⟨?_, ?_⟩
      · rintro ⟨rfl, rfl⟩
        exact ⟨rfl, hanswer⟩
      · rintro ⟨⟨⟩, hok⟩
        rw [hanswer] at hok
        cases hok
        exact ⟨rfl, rfl⟩
  | relate r =>
    have hsame : (s.perform (.relate r)).labels = s.labels := by
      rcases s.relate_step r with ⟨_, _, _, hsame⟩ | ⟨_, _, hlabels, _⟩
      · rw [hsame]
      · exact hlabels
    simp [hsame]

theorem relations_perform_iff {r : Relation} {id : Nat} :
    (s.perform call).relations[id]? = some r ↔ s.relations[id]? = some r
      ∨ (call = .relate r ∧ s.answer (.relate r) = .ok id) := by
  cases call with
  | declare label =>
    have hsame : (s.perform (.declare label)).relations = s.relations := by
      rcases s.declare_step label with ⟨_, _, _, hsame⟩ | ⟨_, _, _, _, hrelations⟩
      · rw [hsame]
      · exact hrelations
    simp [hsame]
  | relate q =>
    rcases s.relate_step q with ⟨_, _, hanswer, hsame⟩ | ⟨_, hanswer, _, hrelations⟩
    · rw [hsame, or_iff_left]
      rintro ⟨⟨⟩, hok⟩
      rw [hanswer] at hok
      cases hok
    · rw [hrelations, getElem?_push_eq_some_iff]
      refine or_congr_right ⟨?_, ?_⟩
      · rintro ⟨rfl, rfl⟩
        exact ⟨rfl, hanswer⟩
      · rintro ⟨⟨⟩, hok⟩
        rw [hanswer] at hok
        cases hok
        exact ⟨rfl, rfl⟩

/-- **The node of a number** is the declaration that was answered with it. -/
theorem labels_built_iff {label : String} {id : Nat} :
    (built calls).labels[id]? = some label ↔ Answered calls (.declare label) id := by
  induction calls using List.reverseRecOn with
  | nil => simp [built, empty, Answered]
  | append_singleton calls last ih => rw [built_append, labels_perform_iff, ih, answered_append]

/-- **The relation of a number** is the addition that was answered with it. -/
theorem relations_built_iff {r : Relation} {id : Nat} :
    (built calls).relations[id]? = some r ↔ Answered calls (.relate r) id := by
  induction calls using List.reverseRecOn with
  | nil => simp [built, empty, Answered]
  | append_singleton calls last ih =>
    rw [built_append, relations_perform_iff, ih, answered_append]

/-! ## §4. Every run of calls. -/

/-- **Calls are atomic, and what they build is consistent.**  Whatever was called before, a call is
refused exactly for the reasons that there are, and is then as good as not made.  Labels, relations
and look-up agree at every moment.  Node and relation of a number are those whose call was answered
with this number. -/
theorem calls_are_atomic (calls : List Call) :
    (built calls).Consistent
      ∧ (∀ label id, (built calls).labels[id]? = some label ↔ Answered calls (.declare label) id)
      ∧ (∀ r id, (built calls).relations[id]? = some r ↔ Answered calls (.relate r) id)
      ∧ (∀ call refusal, (built calls).answer call = .error refusal ↔
          Refuses (built calls) call refusal)
      ∧ ∀ call refusal, (built calls).answer call = .error refusal →
          built (calls ++ [call]) = built calls :=
  ⟨consistent _, fun _ _ => labels_built_iff, fun _ _ => relations_built_iff,
    fun _ _ => answer_error_iff,
    fun call _ h => (built_append calls call).trans (perform_of_answer_error h)⟩

/-- Declarations and additions, every other one of them refused. -/
def interleaved : List Call :=
  [.declare "A", .declare "", .relate ⟨.memberOf, [0], 1⟩, .declare "B", .declare "A",
    .relate ⟨.bounds, [0, 1], 2⟩, .relate ⟨.bounds, [1, 2, 3], 3⟩, .relate ⟨.inverts, [1, 1], 4⟩]

theorem interleaved_history :
    (built interleaved).labels = #["A", "B"] ∧ Answered interleaved (.declare "B") 1
      ∧ Answered interleaved (.relate ⟨.inverts, [1, 1], 4⟩) 1
      ∧ Refuses (built interleaved) (.declare "A") (.duplicateLabel "A")
      ∧ built (interleaved ++ [.declare "A"]) = built interleaved := by
  have hlabels : (built interleaved).labels = #["A", "B"] := by decide +kernel
  have hlast : (built interleaved).relations[1]? = some ⟨.inverts, [1, 1], 4⟩ := by decide +kernel
  have hrefused : (built interleaved).answer (.declare "A") = .error (.duplicateLabel "A") := by
    decide +kernel
  obtain ⟨-, hnodes, hrelations, hrefuses, hatomic⟩ := calls_are_atomic interleaved
  exact ⟨hlabels, (hnodes "B" 1).1 (by rw [hlabels]; rfl), (hrelations _ 1).1 hlast,
    (hrefuses _ _).1 hrefused, hatomic _ _ hrefused⟩

end Admissibility.Structure
