/-
  Admissibility.Proofs.Command
  ────────────────────────────
  **What a run of the command promises.**

  A run on bytes from standard input, with both streams open, stops at one of three stages: the
  bytes describe no structure, a limit is passed, or there is a verdict.  The exit code tells which,
  and each stage writes to one of the streams only.  A diagnostic takes one line, since messages do.

  `respond_cases`: the stage at which a run stops, with all that it answers.
  `run_keeps_contract`: the exit codes, the streams, and what does not matter for the exit code.
-/
import Admissibility.Command
import Admissibility.Proofs.Description.Message
import Admissibility.Text.Lines

namespace Admissibility.Command

open Admissibility.Description (Fault decode)
open Text (OneLine)

variable {o : Options} {bytes : ByteArray} {s : Structure} {f : Fault}

/-! ## §1. What bytes describe. -/

/-- The bytes are no text, or their text describes no structure. -/
def Refused (bytes : ByteArray) (f : Fault) : Prop :=
  decode bytes = .error f ∨ ∃ text, decode bytes = .ok text ∧ Structure.ofText text = .error f

/-- The bytes are a text that describes a structure. -/
def Describes (bytes : ByteArray) (s : Structure) : Prop :=
  ∃ text, decode bytes = .ok text ∧ Structure.ofText text = .ok s

theorem ofBytes_eq_error_iff : Structure.ofBytes bytes = .error f ↔ Refused bytes f := by
  constructor
  · exact error_of_bind
  · unfold Structure.ofBytes
    rintro (hdecode | ⟨text, hdecode, hread⟩)
    · rw [hdecode]
      rfl
    · rw [hdecode]
      exact hread

theorem ofBytes_eq_ok_iff : Structure.ofBytes bytes = .ok s ↔ Describes bytes s := by
  constructor
  · exact exists_of_bind_ok
  · rintro ⟨text, hdecode, hread⟩
    unfold Structure.ofBytes
    rw [hdecode]
    exact hread

/-- Why bytes are refused is told in one line. -/
theorem Refused.oneLine (h : Refused bytes f) : OneLine f.message := by
  refine Description.oneLine_message fun q hq => ?_
  rcases h with hdecode | ⟨text, -, hread⟩
  · obtain ⟨offset, byte, hcause⟩ := Description.cause_of_decode hdecode
    rw [hcause] at hq
    cases hq
  · exact Description.quoted_of_ofText hread q hq

theorem Describes.unique {t : Structure} (h : Describes bytes s) (h' : Describes bytes t) :
    s = t := by
  rw [← ofBytes_eq_ok_iff] at h h'
  rw [h] at h'
  exact Except.ok.inj h'

theorem Refused.not_describes (h : Refused bytes f) (s : Structure) : ¬ Describes bytes s := by
  rw [← ofBytes_eq_error_iff] at h
  rw [← ofBytes_eq_ok_iff, h]
  nofun

/-! ## §2. The stages of a run. -/

/-- The exit code of a verdict tells the verdict, and no failure. -/
theorem code_ofVerdict (verdict : Verdict) :
    ((Exit.ofVerdict verdict).code = 0 ↔ verdict = .admissible)
      ∧ ((Exit.ofVerdict verdict).code = 1 ↔ verdict = .inadmissible)
      ∧ (Exit.ofVerdict verdict).code ≠ 65 ∧ (Exit.ofVerdict verdict).code ≠ 70 := by
  cases verdict <;> decide

/-- With standard input read, a run is a check of its bytes. -/
theorem respond_stdin (hsource : o.source = .stdin) :
    respond o (.ok bytes) .delivered = check o bytes .delivered := by
  unfold respond
  rw [hsource]
  rfl

/-- **The exit** is told by the structure and the limits alone. -/
theorem exit_check : (check o bytes .delivered).exit =
    match Structure.ofBytes bytes with
    | .error _ => .badDescription
    | .ok s =>
      match s.validate o.limits with
      | .error _ => .exhausted
      | .ok w => .ofVerdict w.verdict := by
  unfold check
  cases Structure.ofBytes bytes with
  | error f => rfl
  | ok s =>
    simp only
    cases s.validate o.limits with
    | error e => rfl
    | ok w =>
      obtain ⟨report, hrender, -⟩ := Report.exists_render w o.format
      simp only [hrender]
      rfl

/-- A text is the report on a witness in the format that the options ask for. -/
def Reports (o : Options) (w : Witness) (report : String) : Prop :=
  (o.format = .text → report = Report.text w) ∧ (o.format = .json → report = Report.json w)

/-- **A run stops at one stage**, and answers what that stage answers. -/
theorem respond_cases (hsource : o.source = .stdin) :
    (∃ f, Refused bytes f
        ∧ respond o (.ok bytes) .delivered = ⟨.badDescription, "", line "<stdin>" f.message⟩)
      ∨ ∃ s, Describes bytes s ∧
        ((∃ e, s.validate o.limits = .error e
            ∧ respond o (.ok bytes) .delivered = ⟨.exhausted, "", line "<stdin>" e.message⟩)
          ∨ ∃ w report, s.validate o.limits = .ok w ∧ Reports o w report
            ∧ respond o (.ok bytes) .delivered = ⟨.ofVerdict w.verdict, report, ""⟩) := by
  rw [respond_stdin hsource, check, hsource]
  cases hread : Structure.ofBytes bytes with
  | error f => exact .inl ⟨f, ofBytes_eq_error_iff.1 hread, rfl⟩
  | ok s =>
    refine .inr ⟨s, ofBytes_eq_ok_iff.1 hread, ?_⟩
    cases hvalid : s.validate o.limits with
    | error e => exact .inl ⟨e, rfl, by simp only [hvalid]; rfl⟩
    | ok w =>
      obtain ⟨report, hrender, hreports⟩ := Report.exists_render w o.format
      exact .inr ⟨w, report, rfl, hreports, by simp only [hvalid, hrender]; rfl⟩

/-! ## §3. The contract. -/

/-- What a run answers to some bytes: its exit code tells the stage at which it stops, a verdict has
its report on standard output, and anything else has one line on standard error. -/
structure Contract (o : Options) (bytes : ByteArray) (r : Response) : Prop where
  refused : r.exit.code = 65 ↔ ∃ f, Refused bytes f
  exhausted : r.exit.code = 70 ↔
    ∃ s e, Describes bytes s ∧ s.validate o.limits = .error e
  admissible : r.exit.code = 0 ↔
    ∃ s w, Describes bytes s ∧ s.validate o.limits = .ok w ∧ w.verdict = .admissible
  inadmissible : r.exit.code = 1 ↔
    ∃ s w, Describes bytes s ∧ s.validate o.limits = .ok w ∧ w.verdict = .inadmissible
  exits : r.exit.code = 65 ∨ r.exit.code = 70 ∨ r.exit.code = 0 ∨ r.exit.code = 1
  report : r.exit.code = 0 ∨ r.exit.code = 1 → r.stderr = "" ∧
    ∃ s w, Describes bytes s ∧ s.validate o.limits = .ok w
      ∧ (o.format = .text → r.stdout = Report.text w)
      ∧ (o.format = .json → r.stdout = Report.json w)
  diagnostic : r.exit.code = 65 ∨ r.exit.code = 70 → r.stdout = "" ∧
    ∃ message, ((∃ f, Refused bytes f ∧ message = f.message)
        ∨ ∃ s e, Describes bytes s ∧ s.validate o.limits = .error e ∧ message = e.message)
      ∧ r.stderr = "<stdin>: " ++ message ++ "\n" ∧ '\n' ∉ message.toList
      ∧ Text.lines r.stderr.toList = [("<stdin>: " ++ message).toList]

/-- A message that stays on its line is one line behind the name of the source. -/
theorem lines_line {message : String} (h : OneLine message) :
    Text.lines (line "<stdin>" message).toList = [("<stdin>: " ++ message).toList] := by
  have hline : OneLine ("<stdin>: " ++ message) := Text.oneLine_append.2 ⟨by decide, h⟩
  show Text.lines ("<stdin>: " ++ message ++ "\n").toList = _
  rw [String.toList_append]
  exact Text.lines_terminated (hline.not_mem (by decide) (by decide))
    (hline.not_mem (by decide) (by decide)) []

theorem contract_of_refused (h : Refused bytes f) :
    Contract o bytes ⟨.badDescription, "", line "<stdin>" f.message⟩ where
  refused := iff_of_true rfl ⟨f, h⟩
  exhausted := iff_of_false nofun fun ⟨s, _, hs, _⟩ => h.not_describes s hs
  admissible := iff_of_false nofun fun ⟨s, _, hs, _⟩ => h.not_describes s hs
  inadmissible := iff_of_false nofun fun ⟨s, _, hs, _⟩ => h.not_describes s hs
  exits := .inl rfl
  report := nofun
  diagnostic _ := ⟨rfl, f.message, .inl ⟨f, h, rfl⟩, rfl, h.oneLine.not_mem (by decide) (by decide),
    lines_line h.oneLine⟩

theorem contract_of_exhausted {e : Exhausted} (hs : Describes bytes s)
    (he : s.validate o.limits = .error e) :
    Contract o bytes ⟨.exhausted, "", line "<stdin>" e.message⟩ := by
  -- there is no verdict on the only structure that the bytes describe
  have hno : ∀ t w, Describes bytes t → t.validate o.limits ≠ .ok w := by
    intro t w ht hw
    cases hs.unique ht
    rw [he] at hw
    cases hw
  have hline := e.oneLine_message
  exact {
    refused := iff_of_false nofun fun ⟨f, hf⟩ => hf.not_describes s hs
    exhausted := iff_of_true rfl ⟨s, e, hs, he⟩
    admissible := iff_of_false nofun fun ⟨t, w, ht, hw, _⟩ => hno t w ht hw
    inadmissible := iff_of_false nofun fun ⟨t, w, ht, hw, _⟩ => hno t w ht hw
    exits := .inr (.inl rfl)
    report := nofun
    diagnostic := fun _ => ⟨rfl, e.message, .inr ⟨s, e, hs, he, rfl⟩, rfl,
      hline.not_mem (by decide) (by decide), lines_line hline⟩ }

theorem contract_of_verdict {w : Witness} {report : String} (hs : Describes bytes s)
    (hw : s.validate o.limits = .ok w) (hreports : Reports o w report) :
    Contract o bytes ⟨.ofVerdict w.verdict, report, ""⟩ := by
  -- the verdict on the only structure that the bytes describe
  have hunique : ∀ t u, Describes bytes t → t.validate o.limits = .ok u → u = w := by
    intro t u ht hu
    cases hs.unique ht
    rw [hw] at hu
    exact (Except.ok.inj hu).symm
  have hexhausted : ¬ ∃ t e, Describes bytes t ∧ t.validate o.limits = .error e := by
    rintro ⟨t, e, ht, he⟩
    cases hs.unique ht
    rw [hw] at he
    cases he
  have hcode : ∀ verdict, (∃ t u, Describes bytes t ∧ t.validate o.limits = .ok u
      ∧ u.verdict = verdict) ↔ w.verdict = verdict := by
    intro verdict
    constructor
    · rintro ⟨t, u, ht, hu, rfl⟩
      rw [hunique t u ht hu]
    · exact fun h => ⟨s, w, hs, hw, h⟩
  have hrefused : ¬ ∃ f, Refused bytes f := fun ⟨f, hf⟩ => hf.not_describes s hs
  obtain ⟨hzero, hone, hno, hno'⟩ := code_ofVerdict w.verdict
  refine ⟨iff_of_false hno hrefused, iff_of_false hno' hexhausted, ?_, ?_, ?_,
    fun _ => ⟨rfl, s, w, hs, hw, hreports⟩, fun h => h.elim (absurd · hno) (absurd · hno')⟩
  · exact hzero.trans (hcode .admissible).symm
  · exact hone.trans (hcode .inadmissible).symm
  · refine .inr (.inr ?_)
    rw [hzero, hone]
    cases w.verdict
    · exact .inl rfl
    · exact .inr rfl

/-- **A run keeps its contract**, whatever bytes are on standard input, and neither the format nor
the verbosity changes its exit code. -/
theorem run_keeps_contract (o : Options) (bytes : ByteArray) (hsource : o.source = .stdin) :
    Contract o bytes (respond o (.ok bytes) .delivered)
      ∧ ∀ (format : Report.Format) (verbosity : Nat),
          (respond { o with format, verbosity } (.ok bytes) .delivered).exit.code
            = (respond o (.ok bytes) .delivered).exit.code := by
  refine ⟨?_, fun format verbosity => ?_⟩
  · rcases @respond_cases o bytes hsource with ⟨f, hf, hr⟩ | ⟨s, hs, ⟨e, he, hr⟩
      | ⟨w, report, hw, hreports, hr⟩⟩
    · rw [hr]
      exact contract_of_refused hf
    · rw [hr]
      exact contract_of_exhausted hs he
    · rw [hr]
      exact contract_of_verdict hs hw hreports
  · have hother : Options.source { o with format, verbosity } = .stdin := hsource
    rw [respond_stdin hother, respond_stdin hsource, exit_check, exit_check]

/-- A broken boundary, told in lines. -/
def brokenBoundary : Response where
  exit := .inadmissible
  stdout := "inadmissible\nviolation: boundary-exclusion\nboundary: A\nbounded: B\n"
    ++ "chain: A -> B\nrelations:\n  bounds(A, B)\n  member-of(A, B)\n"

/-- A structure with nothing to object to, told as a document. -/
def nothingBroken : Response where
  exit := .admissible
  stdout := "\x7b\n  \"verdict\": \"admissible\",\n  \"checked\": \x7b\n    \"boundaries\": 0,\n"
    ++ "    \"inversions\": 0\n  \x7d,\n  \"relations\": [],\n  \"labels\": []\n\x7d"

/-- A limit that is passed. -/
def overLimit : Response where
  exit := .exhausted
  stderr := "<stdin>: resource exhausted: nodes (limit 1)\n"

/-- A control character on the second line, which the diagnostic quotes as it is. -/
def escapeCharacter : Response where
  exit := .badDescription
  stderr := "<stdin>: syntax error at line 2, column 1: unexpected character '\x1b'\n"

/-- A run on a text at standard input gives an answer, and keeps the contract with it. -/
def Exhibits (o : Options) (text : String) (r : Response) : Prop :=
  o.source = .stdin ∧ respond o (.ok text.toUTF8) .delivered = r ∧ Contract o text.toUTF8 r

/-- Both verdicts, one in each format, and both failures. -/
theorem contract_of_runs :
    Exhibits {} "node A, B; bounds(A, B); member-of(A, B);" brokenBoundary
      ∧ Exhibits { format := .json } "node A;" nothingBroken
      ∧ Exhibits { limits := { maxNodes := 1 } } "node A, B;" overLimit
      ∧ Exhibits { input := some "-", format := .json } "A\n\x1b" escapeCharacter
      ∧ (respond { input := some "-", format := .text, verbosity := 2 } (.ok "A\n\x1b".toUTF8)
          .delivered).exit.code = 65 := by
  have hbroken : respond {} (.ok "node A, B; bounds(A, B); member-of(A, B);".toUTF8) .delivered
      = brokenBoundary := by decide +kernel
  have hnothing : respond { format := .json } (.ok "node A;".toUTF8) .delivered
      = nothingBroken := by decide +kernel
  have hlimit : respond { limits := { maxNodes := 1 } } (.ok "node A, B;".toUTF8) .delivered
      = overLimit := by decide +kernel
  have hescape : respond { input := some "-", format := .json } (.ok "A\n\x1b".toUTF8) .delivered
      = escapeCharacter := by decide +kernel
  have hsource : Options.source { input := some "-", format := .json } = .stdin := by decide
  obtain ⟨hcontract, hexit⟩ := run_keeps_contract _ "A\n\x1b".toUTF8 hsource
  have hcode := hexit .text 2
  rw [hescape] at hcontract hcode
  refine ⟨⟨rfl, hbroken, ?_⟩, ⟨rfl, hnothing, ?_⟩, ⟨rfl, hlimit, ?_⟩,
    ⟨hsource, hescape, hcontract⟩, hcode⟩
  · rw [← hbroken]
    exact (run_keeps_contract {} _ rfl).1
  · rw [← hnothing]
    exact (run_keeps_contract { format := .json } _ rfl).1
  · rw [← hlimit]
    exact (run_keeps_contract { limits := { maxNodes := 1 } } _ rfl).1

end Admissibility.Command
