/-
  Admissibility.Proofs.Scenario.Assertion
  ───────────────────────────────────────
  **What it means that an assertion passes.**

  Which side of an assertion is looked at depends on the assertion alone: its expectations on a
  failure if it has any, else those on a witness.  The side that is looked at is looked at to the
  end, so an assertion with expectations on one side passes exactly where it holds.  An assertion
  with expectations on both sides holds nowhere; it passes all the same where the half of it that
  is about failures holds.

  `witnessComplaint?_eq_none_iff`, `failureComplaint?_eq_none_iff`: the two sides.
  `holds_ok_iff`, `holds_error_iff`: what an assertion says of a witness and of a failure.
  `passing_is_exact`: which assertions pass, and where.
-/
import Admissibility.Scenario.Assertion
import Admissibility.Text.Infix
import Mathlib.Control.Monad.Basic
import Mathlib.Data.Option.Basic

namespace Admissibility

open Description (Gate)
open Text (contains_iff)

/-! ## §1. What there is to see. -/

namespace Witness

variable {w : Witness}

theorem checked?_eq_some_iff {checked : Checked} :
    w.checked? = some checked ↔ w = .admissible checked := by
  cases w <;> simp [Witness.checked?]

theorem boundary?_eq_some_iff {b : String} : w.violation?.bind Violation.boundary? = some b ↔
    ∃ bounded chain facts, w = .inadmissible (.boundaryMembership b bounded chain facts) := by
  rcases w with _ | _ | _ | _ <;> simp [Witness.violation?, Violation.boundary?]

theorem chain?_eq_some_iff {ls : List String} : w.violation?.bind Violation.chain? = some ls ↔
    ∃ b bounded facts, w = .inadmissible (.boundaryMembership b bounded ls facts) := by
  rcases w with _ | _ | _ | _ <;> simp [Witness.violation?, Violation.chain?]

theorem shared?_eq_some_iff {n : String} : w.violation?.bind Violation.shared? = some n ↔
    ∃ f g, w = .inadmissible (.inversionOverlap n f g) := by
  rcases w with _ | _ | _ | _ <;> simp [Witness.violation?, Violation.shared?]

end Witness

namespace Scenario

/-- A test that complains unless something holds. -/
theorem ite_none_eq_none_iff {p : Prop} [Decidable p] {complaint : Complaint} :
    (if p then none else some complaint) = none ↔ p := by
  split
  · next h => exact iff_of_true rfl h
  · next h => exact iff_of_false (by simp) h

namespace Failure

variable {f : Failure} {read : PatternReader}

theorem fault?_eq_some_iff {fault : Description.Fault} :
    f.fault? = some fault ↔ f = .description fault := by
  cases f <;> simp [Failure.fault?]

theorem isRefusal_iff {gate : Gate} {fragment : String} : f.isRefusal gate fragment = true ↔
    ∃ fault, f = .description fault ∧ fault.diagnostic.gate = gate
      ∧ fragment.toList <:+: fault.diagnostic.text.toList := by
  simp only [Failure.isRefusal, Option.any_eq_true, fault?_eq_some_iff, Bool.and_eq_true,
    beq_iff_eq, contains_iff]

theorem isAt_iff {line column : Nat} : f.isAt line column = true ↔
    ∃ fault, f = .description fault ∧ (fault.span.line, fault.span.column) = (line, column) := by
  simp only [Failure.isAt, Option.any_eq_true, fault?_eq_some_iff, Bool.and_eq_true, beq_iff_eq,
    Prod.mk.injEq]

theorem patternComplaint?_eq_none_iff {pattern : String} :
    f.patternComplaint? read pattern = none ↔
      ∃ isMatch, read pattern = .ok isMatch ∧ isMatch f.message = true := by
  unfold Failure.patternComplaint?
  cases read pattern with
  | error reason => simp
  | ok isMatch => simp

theorem resource?_eq_some_iff {resource : Resource} :
    f.resource? = some resource ↔ ∃ limit, f = .exhausted ⟨resource, limit⟩ := by
  rcases f with _ | ⟨r, limit⟩ <;> simp [Failure.resource?]

end Failure

namespace Assertion

variable {a : Assertion} {w : Witness} {f : Failure} {o : Outcome} {read : PatternReader}

/-! ## §2. The two sides of an assertion. -/

/-- Something is expected of a witness. -/
def ExpectsWitness (a : Assertion) : Prop :=
  a.verdict.isSome ∨ a.constraint.isSome ∨ a.checked.isSome ∨ a.boundary.isSome ∨
    a.chain.isSome ∨ a.shared.isSome ∨ a.relations.isSome ∨ a.labels.isSome ∨ a.report.isSome ∨
    a.reportContains ≠ []

/-- The expectations that are looked at: with one on a failure, those on failures alone. -/
def heeded (a : Assertion) : Assertion :=
  if a.ExpectsFailure then
    { grammarError := a.grammarError, syntaxError := a.syntaxError, errorAt := a.errorAt,
      errorPattern := a.errorPattern, exhausted := a.exhausted }
  else a

theorem heeded_of_expectsFailure (h : a.ExpectsFailure) :
    a.heeded.ExpectsFailure ∧ ¬ a.heeded.ExpectsWitness := by
  unfold heeded
  rw [if_pos h]
  exact ⟨h, by simp [ExpectsWitness]⟩

theorem heeded_of_not_expectsFailure (h : ¬ a.ExpectsFailure) : a.heeded = a := if_neg h

/-- What is dropped is never looked at. -/
theorem complaint?_heeded : a.heeded.complaint? read o = a.complaint? read o := by
  by_cases h : a.ExpectsFailure
  · have hheeded := (heeded_of_expectsFailure h).1
    have hsame : ∀ f, a.heeded.failureComplaint? read f = a.failureComplaint? read f := by
      intro f
      unfold heeded
      rw [if_pos h]
      rfl
    cases o with
    | ok w => exact (if_pos hheeded).trans (if_pos h).symm
    | error f => exact ((if_pos hheeded).trans (hsame f)).trans (if_pos h).symm
  · rw [heeded_of_not_expectsFailure h]

theorem complaint?_ok_eq_none_iff : a.complaint? read (.ok w) = none ↔
    ¬ a.ExpectsFailure ∧ a.witnessComplaint? w = none := by
  by_cases h : a.ExpectsFailure
  · rw [show a.complaint? read (.ok w) = _ from if_pos h]
    exact iff_of_false (by simp) fun hboth => hboth.1 h
  · rw [show a.complaint? read (.ok w) = _ from if_neg h]
    exact ⟨fun hnone => ⟨h, hnone⟩, And.right⟩

theorem complaint?_error_eq_none_iff : a.complaint? read (.error f) = none ↔
    a.ExpectsFailure ∧ a.failureComplaint? read f = none := by
  by_cases h : a.ExpectsFailure
  · rw [show a.complaint? read (.error f) = _ from if_pos h]
    exact ⟨fun hnone => ⟨h, hnone⟩, And.right⟩
  · rw [show a.complaint? read (.error f) = _ from if_neg h]
    exact iff_of_false (by simp) fun hboth => h hboth.1

/-! ## §3. Expectations on a witness. -/

theorem aspectComplaint?_eq_none_iff {aspect : Aspect} :
    a.aspectComplaint? w aspect = none ↔
      ∀ expected ∈ a.expected? aspect, expected = aspect.observe w := by
  unfold aspectComplaint?
  rw [Option.bind_eq_none_iff]
  exact forall₂_congr fun expected _ => ite_none_eq_none_iff

/-- **The side of witnesses** is looked at to the end: there is no complaint where every aspect is
seen as expected and every part is in the report. -/
theorem witnessComplaint?_eq_none_iff : a.witnessComplaint? w = none ↔
    (∀ aspect, ∀ expected ∈ a.expected? aspect, expected = aspect.observe w)
      ∧ ∀ t ∈ a.reportContains, t.toList <:+: (Report.text w).toList := by
  unfold witnessComplaint?
  rw [Option.orElse_eq_none, List.findSome?_eq_none_iff, List.findSome?_eq_none_iff]
  refine and_congr ?_ (forall₂_congr fun t _ => ite_none_eq_none_iff.trans contains_iff)
  constructor
  · intro h aspect
    exact aspectComplaint?_eq_none_iff.1 (h aspect (Aspect.mem_all aspect))
  · intro h aspect _
    exact aspectComplaint?_eq_none_iff.2 (h aspect)

/-- An expectation on a failure is met by no witness. -/
theorem Holds.not_expectsFailure (h : a.Holds read (.ok w)) : ¬ a.ExpectsFailure := by
  intro hexpects
  simp only [ExpectsFailure, Option.isSome_iff_exists] at hexpects
  rcases hexpects with ⟨t, ht⟩ | ⟨t, ht⟩ | ⟨p, hp⟩ | ⟨t, ht⟩ | ⟨r, hr⟩
  · obtain ⟨_, herror, -⟩ := h.grammarError t ht
    cases herror
  · obtain ⟨_, herror, -⟩ := h.syntaxError t ht
    cases herror
  · obtain ⟨_, herror, -⟩ := h.errorAt p hp
    cases herror
  · obtain ⟨_, _, -, herror, -⟩ := h.errorPattern t ht
    cases herror
  · obtain ⟨_, herror⟩ := h.exhausted r hr
    cases herror

theorem Holds.observe_eq (h : a.Holds read (.ok w)) {aspect : Aspect} {expected : Observation}
    (hexpected : expected ∈ a.expected? aspect) : expected = aspect.observe w := by
  cases aspect with
  | verdict =>
    obtain ⟨v, hv, rfl⟩ := Option.map_eq_some_iff.1 hexpected
    obtain ⟨u, hu, rfl⟩ := h.verdict v hv
    cases hu
    rfl
  | constraint =>
    obtain ⟨c, hc, rfl⟩ := Option.map_eq_some_iff.1 hexpected
    obtain ⟨u, hu, hseen⟩ := h.constraint c hc
    cases hu
    exact congrArg Observation.constraint hseen.symm
  | checked =>
    obtain ⟨c, hc, rfl⟩ := Option.map_eq_some_iff.1 hexpected
    cases h.checked c hc
    rfl
  | boundary =>
    obtain ⟨b, hb, rfl⟩ := Option.map_eq_some_iff.1 hexpected
    obtain ⟨_, _, _, hw⟩ := h.boundary b hb
    cases hw
    rfl
  | chain =>
    obtain ⟨ls, hls, rfl⟩ := Option.map_eq_some_iff.1 hexpected
    obtain ⟨_, _, _, hw⟩ := h.chain ls hls
    cases hw
    rfl
  | shared =>
    obtain ⟨n, hn, rfl⟩ := Option.map_eq_some_iff.1 hexpected
    obtain ⟨_, _, hw⟩ := h.shared n hn
    cases hw
    rfl
  | relations =>
    obtain ⟨ts, hts, rfl⟩ := Option.map_eq_some_iff.1 hexpected
    obtain ⟨u, hu, rfl⟩ := h.relations ts hts
    cases hu
    rfl
  | labels =>
    obtain ⟨ls, hls, rfl⟩ := Option.map_eq_some_iff.1 hexpected
    obtain ⟨u, hu, rfl⟩ := h.labels ls hls
    cases hu
    rfl
  | report =>
    obtain ⟨t, ht, rfl⟩ := Option.map_eq_some_iff.1 hexpected
    obtain ⟨u, hu, rfl⟩ := h.report t ht
    cases hu
    rfl

/-- What an assertion says of a witness. -/
theorem holds_ok_iff : a.Holds read (.ok w) ↔ ¬ a.ExpectsFailure ∧ a.witnessComplaint? w = none := by
  rw [witnessComplaint?_eq_none_iff]
  constructor
  · intro h
    refine ⟨h.not_expectsFailure, fun aspect expected hexpected => h.observe_eq hexpected, ?_⟩
    intro t ht
    obtain ⟨u, hu, hin⟩ := h.reportContains t ht
    cases hu
    exact hin
  · intro h
    obtain ⟨hnot, hseen, hparts⟩ := h
    simp only [ExpectsFailure, not_or, Option.not_isSome_iff_eq_none] at hnot
    obtain ⟨hgrammatical, hsyntactic, hat, hpattern, hexhausted⟩ := hnot
    exact {
      witness := fun _ => ⟨w, rfl⟩
      verdict := fun v hv => ⟨w, rfl, (Observation.verdict.inj
        (hseen .verdict _ (Option.mem_map_of_mem _ hv))).symm⟩
      constraint := fun c hc => ⟨w, rfl, (Observation.constraint.inj
        (hseen .constraint _ (Option.mem_map_of_mem _ hc))).symm⟩
      checked := fun c hc => congrArg Except.ok (Witness.checked?_eq_some_iff.1
        (Observation.checked.inj (hseen .checked _ (Option.mem_map_of_mem _ hc))).symm)
      boundary := fun b hb => by
        obtain ⟨bounded, chain, facts, rfl⟩ := Witness.boundary?_eq_some_iff.1
          (Observation.label.inj (hseen .boundary _ (Option.mem_map_of_mem _ hb))).symm
        exact ⟨bounded, chain, facts, rfl⟩
      chain := fun ls hls => by
        obtain ⟨b, bounded, facts, rfl⟩ := Witness.chain?_eq_some_iff.1
          (Observation.chain.inj (hseen .chain _ (Option.mem_map_of_mem _ hls))).symm
        exact ⟨b, bounded, facts, rfl⟩
      shared := fun n hn => by
        obtain ⟨f, g, rfl⟩ := Witness.shared?_eq_some_iff.1
          (Observation.label.inj (hseen .shared _ (Option.mem_map_of_mem _ hn))).symm
        exact ⟨f, g, rfl⟩
      relations := fun ts hts => ⟨w, rfl, (Observation.texts.inj
        (hseen .relations _ (Option.mem_map_of_mem _ hts))).symm⟩
      labels := fun ls hls => ⟨w, rfl, (Observation.texts.inj
        (hseen .labels _ (Option.mem_map_of_mem _ hls))).symm⟩
      report := fun t ht => ⟨w, rfl, (Observation.text.inj
        (hseen .report _ (Option.mem_map_of_mem _ ht))).symm⟩
      reportContains := fun t ht => ⟨w, rfl, hparts t ht⟩
      grammarError := by simp [hgrammatical]
      syntaxError := by simp [hsyntactic]
      errorAt := by simp [hat]
      errorPattern := by simp [hpattern]
      exhausted := by simp [hexhausted] }

/-! ## §4. Expectations on a failure. -/

/-- **The side of failures** is looked at to the end: there is no complaint where the gates, the
place, the wording and the resource are as expected. -/
theorem failureComplaint?_eq_none_iff : a.failureComplaint? read f = none ↔
    (∀ t ∈ a.grammarError, f.isRefusal .grammatical t = true)
      ∧ (∀ t ∈ a.syntaxError, f.isRefusal .syntactic t = true)
      ∧ (∀ p ∈ a.errorAt, f.isAt p.1 p.2 = true)
      ∧ (∀ t ∈ a.errorPattern, ∃ isMatch, read t = .ok isMatch ∧ isMatch f.message = true)
      ∧ ∀ r ∈ a.exhausted, ∃ limit, f = .exhausted ⟨r, limit⟩ := by
  unfold failureComplaint?
  simp only [Option.orElse_eq_none, Option.bind_eq_none_iff, Failure.refusalComplaint?,
    ite_none_eq_none_iff, Failure.patternComplaint?_eq_none_iff, Failure.resource?_eq_some_iff,
    Option.mem_def]

/-- An expectation on a witness is met by no failure. -/
theorem Holds.not_expectsWitness (h : a.Holds read (.error f)) : ¬ a.ExpectsWitness := by
  intro hexpects
  simp only [ExpectsWitness, Option.isSome_iff_exists] at hexpects
  rcases hexpects with ⟨v, hv⟩ | ⟨c, hc⟩ | ⟨c, hc⟩ | ⟨b, hb⟩ | ⟨ls, hls⟩ | ⟨n, hn⟩ | ⟨ts, hts⟩
    | ⟨ls, hls⟩ | ⟨t, ht⟩ | hparts
  · obtain ⟨_, hok, -⟩ := h.verdict v hv
    cases hok
  · obtain ⟨_, hok, -⟩ := h.constraint c hc
    cases hok
  · cases h.checked c hc
  · obtain ⟨_, _, _, hok⟩ := h.boundary b hb
    cases hok
  · obtain ⟨_, _, _, hok⟩ := h.chain ls hls
    cases hok
  · obtain ⟨_, _, hok⟩ := h.shared n hn
    cases hok
  · obtain ⟨_, hok, -⟩ := h.relations ts hts
    cases hok
  · obtain ⟨_, hok, -⟩ := h.labels ls hls
    cases hok
  · obtain ⟨_, hok, -⟩ := h.report t ht
    cases hok
  · obtain ⟨t, ht⟩ := List.exists_mem_of_ne_nil _ hparts
    obtain ⟨_, hok, -⟩ := h.reportContains t ht
    cases hok

/-- What an assertion says of a failure. -/
theorem holds_error_iff : a.Holds read (.error f) ↔
    a.ExpectsFailure ∧ ¬ a.ExpectsWitness ∧ a.failureComplaint? read f = none := by
  rw [failureComplaint?_eq_none_iff]
  constructor
  · intro h
    refine ⟨?_, h.not_expectsWitness, fun t ht => ?_, fun t ht => ?_, fun p hp => ?_,
      fun t ht => ?_, fun r hr => ?_⟩
    · by_contra hnot
      obtain ⟨_, hok⟩ := h.witness hnot
      cases hok
    · obtain ⟨fault, hfault, hgate, hin⟩ := h.grammarError t ht
      exact Failure.isRefusal_iff.2 ⟨fault, Except.error.inj hfault, hgate, hin⟩
    · obtain ⟨fault, hfault, hgate, hin⟩ := h.syntaxError t ht
      exact Failure.isRefusal_iff.2 ⟨fault, Except.error.inj hfault, hgate, hin⟩
    · obtain ⟨fault, hfault, hplace⟩ := h.errorAt p hp
      exact Failure.isAt_iff.2 ⟨fault, Except.error.inj hfault, hplace⟩
    · obtain ⟨isMatch, failure, hread, hfailure, hmatch⟩ := h.errorPattern t ht
      cases hfailure
      exact ⟨isMatch, hread, hmatch⟩
    · obtain ⟨limit, hlimit⟩ := h.exhausted r hr
      exact ⟨limit, Except.error.inj hlimit⟩
  · intro h
    obtain ⟨hexpects, hnot, hgrammatical, hsyntactic, hat, hpattern, hexhausted⟩ := h
    simp only [ExpectsWitness, not_or, Option.not_isSome_iff_eq_none, not_not] at hnot
    obtain ⟨hverdict, hconstraint, hchecked, hboundary, hchain, hshared, hrelations, hlabels,
      hreport, hparts⟩ := hnot
    exact {
      witness := fun hno => absurd hexpects hno
      verdict := by simp [hverdict]
      constraint := by simp [hconstraint]
      checked := by simp [hchecked]
      boundary := by simp [hboundary]
      chain := by simp [hchain]
      shared := by simp [hshared]
      relations := by simp [hrelations]
      labels := by simp [hlabels]
      report := by simp [hreport]
      reportContains := by simp [hparts]
      grammarError := fun t ht => by
        obtain ⟨fault, rfl, hgate, hin⟩ := Failure.isRefusal_iff.1 (hgrammatical t ht)
        exact ⟨fault, rfl, hgate, hin⟩
      syntaxError := fun t ht => by
        obtain ⟨fault, rfl, hgate, hin⟩ := Failure.isRefusal_iff.1 (hsyntactic t ht)
        exact ⟨fault, rfl, hgate, hin⟩
      errorAt := fun p hp => by
        obtain ⟨fault, rfl, hplace⟩ := Failure.isAt_iff.1 (hat p hp)
        exact ⟨fault, rfl, hplace⟩
      errorPattern := fun t ht => by
        obtain ⟨isMatch, hread, hmatch⟩ := hpattern t ht
        exact ⟨isMatch, f, hread, rfl, hmatch⟩
      exhausted := fun r hr => by
        obtain ⟨limit, rfl⟩ := hexhausted r hr
        exact ⟨limit, rfl⟩ }

/-! ## §5. Passing. -/

/-- An assertion holds where it passes, unless it has expectations on both sides. -/
theorem holds_iff_complaint? : a.Holds read o ↔
    a.complaint? read o = none ∧ ¬ (a.ExpectsFailure ∧ a.ExpectsWitness) := by
  cases o with
  | ok w =>
    rw [holds_ok_iff, complaint?_ok_eq_none_iff]
    exact ⟨fun h => ⟨h, fun hboth => h.1 hboth.1⟩, And.left⟩
  | error f =>
    rw [holds_error_iff, complaint?_error_eq_none_iff]
    constructor
    · intro h
      obtain ⟨hfailure, hwitness, hnone⟩ := h
      exact ⟨⟨hfailure, hnone⟩, fun hboth => hwitness hboth.2⟩
    · intro h
      obtain ⟨⟨hfailure, hnone⟩, hnot⟩ := h
      exact ⟨hfailure, fun hwitness => hnot ⟨hfailure, hwitness⟩, hnone⟩

/-- **Passing**, whatever patterns ask of a text.  An assertion with expectations on one side
passes exactly where all of it holds, so where it holds it passes in any case.  One with
expectations on both sides holds nowhere, and passes where its expectations on failures hold by
themselves: whatever it expects of a witness, it may pass although there is none. -/
theorem passing_is_exact (a : Assertion) (read : PatternReader) (o : Outcome) :
    (a.Holds read o ↔ a.complaint? read o = none ∧ ¬ (a.ExpectsFailure ∧ a.ExpectsWitness))
      ∧ (a.complaint? read o = none ↔ a.heeded.Holds read o) := by
  refine ⟨holds_iff_complaint?, ?_⟩
  have honeSided : ¬ (a.heeded.ExpectsFailure ∧ a.heeded.ExpectsWitness) := by
    by_cases h : a.ExpectsFailure
    · exact fun hboth => (heeded_of_expectsFailure h).2 hboth.2
    · rw [heeded_of_not_expectsFailure h]
      exact fun hboth => h hboth.1
  rw [holds_iff_complaint?, complaint?_heeded]
  exact ⟨fun hnone => ⟨hnone, honeSided⟩, And.left⟩

/-- An admissible structure is expected, and that it cannot be read. -/
def contradictory : Assertion := { verdict := some .admissible, grammarError := some "duplicate" }

/-- A text that declares a node twice. -/
def redeclaration : Failure := .description ⟨.duplicateNode "A", ⟨13, 14, 1, 14⟩⟩

/-- An assertion that passes where it does not hold; there is no pattern in it to be read. -/
theorem contradictory_passes :
    contradictory.errorPattern = none ∧ ∀ read : PatternReader,
      contradictory.complaint? read (.ofText "node A; node A;\n" {}) = none
        ∧ ¬ contradictory.Holds read (.ofText "node A; node A;\n" {}) := by
  have hfails : Outcome.ofText "node A; node A;\n" {} = .error redeclaration := by
    decide +kernel
  have hrefused : redeclaration.isRefusal .grammatical "duplicate" = true := by decide +kernel
  refine ⟨rfl, fun read => ?_⟩
  rw [hfails]
  constructor
  · rw [complaint?_error_eq_none_iff, failureComplaint?_eq_none_iff]
    refine ⟨.inl rfl, fun t ht => ?_, nofun, nofun, nofun, nofun⟩
    cases ht
    exact hrefused
  · intro h
    obtain ⟨w, hok, -⟩ := h.verdict .admissible rfl
    cases hok

end Assertion

end Scenario

end Admissibility
