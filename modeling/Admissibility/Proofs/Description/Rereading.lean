/-
  Admissibility.Proofs.Description.Rereading
  ──────────────────────────────────────────
  **Reading that is taken up again settles.**

  A call of the reader goes on where the one before stopped, be it in the middle of an item.  It takes
  tokens that are there and never the end of the text, so what is left after any number of calls is
  what stands behind some place of the stream.  A call that takes nothing leaves the next one to do
  the same, and each call before the first of that kind takes a token at least: so there are no more
  of them than tokens.

  `ofTokens_suffix`, `tokens_of_ok`: what one call leaves.
  `after_suffix`, `after_settled`: what a run of calls leaves.
  `getElem?_place`, `marks_after`: where it leaves the reader.
  `rereading_settles`: places and answers of all calls.
-/
import Mathlib.Data.List.Induction
import Admissibility.Proofs.Description.Lookahead

namespace Admissibility.Description

open Admissibility.Text (Span)

variable {stream : TokenStream}

/-! ## §1. One call. -/

/-- A call leaves some of the tokens, and the end of the text. -/
theorem ofTokens_suffix (stream : TokenStream) :
    (ofTokens stream).2.tokens <:+ stream.tokens ∧ (ofTokens stream).2.stop = stream.stop := by
  obtain ⟨mine, htokens, -⟩ := @itemsFrom_takes stream.stop stream.tokens _ [] _ rfl
  exact ⟨⟨mine, htokens.symm⟩, rfl⟩

/-- Items are read to the end. -/
theorem rest_of_itemsFrom {stop : Span} {tokens rest : List Token} {done items : List Item}
    (h : itemsFrom stop done tokens = (.ok items, rest)) : rest = [] := by
  fun_induction itemsFrom stop done tokens with
  | case1 done =>
    cases h
    rfl
  | case2 done t tokens i after hread _ ih => exact ih h
  | case3 done t tokens fault after hread => cases h

/-- A call that succeeds leaves no token. -/
theorem tokens_of_ok {d : Description} (h : (ofTokens stream).1 = .ok d) :
    (ofTokens stream).2.tokens = [] := by
  obtain ⟨rest, hread⟩ := itemsFrom_of_ofTokens h
  show (itemsFrom stream.stop [] stream.tokens).2 = []
  rw [hread]
  exact rest_of_itemsFrom hread

/-- With no token left there is nothing to read. -/
theorem ofTokens_of_nil (h : stream.tokens = []) : ofTokens stream = (.ok ⟨[]⟩, stream) := by
  obtain ⟨tokens, stop⟩ := stream
  cases h
  rw [ofTokens, itemsFrom]
  rfl

/-! ## §2. A run of calls. -/

/-- What some calls leave of a stream, each of which goes on where the one before stopped. -/
def TokenStream.after (stream : TokenStream) : Nat → TokenStream
  | 0 => stream
  | calls + 1 => (ofTokens (stream.after calls)).2

/-- What a call answers, with so many calls before it. -/
def TokenStream.answer (stream : TokenStream) (calls : Nat) : Except Fault Description :=
  (ofTokens (stream.after calls)).1

/-- The place among the marks of a stream at which some calls leave the reader. -/
def TokenStream.place (stream : TokenStream) (calls : Nat) : Nat :=
  stream.marks.length - (stream.after calls).marks.length

/-- What a reader of the stream has before it: its first token, or the end of the text. -/
def TokenStream.next (stream : TokenStream) : Option Token.Kind × Span :=
  match stream.tokens with
  | [] => (none, stream.stop)
  | t :: _ => t.mark

theorem length_marks (stream : TokenStream) : stream.marks.length = stream.tokens.length + 1 := by
  simp [TokenStream.marks]

/-- **Later calls** leave fewer tokens, and the same end. -/
theorem after_suffix (stream : TokenStream) {k j : Nat} (h : k ≤ j) :
    (stream.after j).tokens <:+ (stream.after k).tokens
      ∧ (stream.after j).stop = (stream.after k).stop := by
  induction h with
  | refl => exact ⟨List.suffix_rfl, rfl⟩
  | @step j _ ih =>
    obtain ⟨hsuffix, hstop⟩ := ofTokens_suffix (stream.after j)
    exact ⟨hsuffix.trans ih.1, hstop.trans ih.2⟩

/-- A call that leaves all that it was given is the last to change anything. -/
theorem after_settled {k j : Nat} (hsame : stream.after (k + 1) = stream.after k) (h : k ≤ j) :
    stream.after j = stream.after k := by
  induction h with
  | refl => rfl
  | @step j _ ih =>
    show (ofTokens (stream.after j)).2 = _
    rw [ih]
    exact hsame

theorem answer_settled {k j : Nat} (hsame : stream.after (k + 1) = stream.after k) (h : k ≤ j) :
    stream.answer j = stream.answer k := by
  rw [TokenStream.answer, TokenStream.answer, after_settled hsame h]

/-! ## §3. Places. -/

/-- The place is the number of tokens in front of what is left. -/
theorem place_spec (stream : TokenStream) (calls : Nat) :
    stream.place calls + (stream.after calls).tokens.length = stream.tokens.length := by
  have hle := (after_suffix stream (Nat.zero_le calls)).1.length_le
  have hzero : (stream.after 0).tokens.length = stream.tokens.length := rfl
  rw [TokenStream.place, length_marks, length_marks]
  omega

theorem marks_after (stream : TokenStream) (calls : Nat) :
    (stream.after calls).marks = stream.marks.drop (stream.place calls) := by
  obtain ⟨⟨before, hbefore⟩, hstop⟩ := after_suffix stream (Nat.zero_le calls)
  have htokens : before ++ (stream.after calls).tokens = stream.tokens := hbefore
  have hplace : stream.place calls = (before.map Token.mark).length := by
    have hlen := congrArg List.length htokens
    have hspec := place_spec stream calls
    rw [List.length_append] at hlen
    rw [List.length_map]
    omega
  have hmarks : stream.marks = before.map Token.mark ++ (stream.after calls).marks := by
    rw [TokenStream.marks, TokenStream.marks, ← htokens, hstop, List.map_append, List.append_assoc]
    rfl
  rw [hplace, hmarks, List.drop_left]

theorem head?_marks (stream : TokenStream) : stream.marks.head? = some stream.next := by
  obtain ⟨tokens, stop⟩ := stream
  cases tokens with
  | nil => rfl
  | cons t tokens => rfl

/-- **The mark at the place** is what the reader has before it. -/
theorem getElem?_place (stream : TokenStream) (calls : Nat) :
    stream.marks[stream.place calls]? = some (stream.after calls).next := by
  rw [← List.head?_drop, ← marks_after, head?_marks]

theorem place_mono (stream : TokenStream) {k j : Nat} (h : k ≤ j) :
    stream.place k ≤ stream.place j := by
  have hle := (after_suffix stream h).1.length_le
  have hk := place_spec stream k
  have hj := place_spec stream j
  omega

/-- At an unmoved place the same is left. -/
theorem after_of_place {k : Nat} (h : stream.place (k + 1) = stream.place k) :
    stream.after (k + 1) = stream.after k := by
  obtain ⟨hsuffix, hstop⟩ := after_suffix stream (show k ≤ k + 1 from Nat.le_succ k)
  have hk := place_spec stream k
  have hk' := place_spec stream (k + 1)
  have htokens := hsuffix.eq_of_length (by omega)
  cases hleft : stream.after (k + 1)
  cases hgiven : stream.after k
  rw [hleft, hgiven] at htokens hstop
  cases htokens
  cases hstop
  rfl

/-- **Each call takes a token** until one takes none. -/
theorem le_place_or_settled (stream : TokenStream) (k : Nat) :
    k ≤ stream.place k ∨ stream.after (k + 1) = stream.after k := by
  induction k with
  | zero => exact .inl (Nat.zero_le _)
  | succ k ih =>
    rcases Nat.lt_or_ge (stream.place k) (stream.place (k + 1)) with hlt | hge
    · refine ih.imp (fun hle => Nat.lt_of_le_of_lt hle hlt) fun hsame => ?_
      exact (after_settled hsame (by omega)).trans (after_settled hsame (by omega)).symm
    · have hsame := after_of_place (Nat.le_antisymm hge (place_mono stream (Nat.le_succ k)))
      exact .inr ((after_settled hsame (by omega)).trans hsame.symm)

/-- After as many calls as there are tokens nothing changes any more. -/
theorem settled_at_length (stream : TokenStream) :
    stream.after (stream.tokens.length + 1) = stream.after stream.tokens.length := by
  rcases le_place_or_settled stream stream.tokens.length with hle | hsame
  · -- no token is left
    have hspec := place_spec stream stream.tokens.length
    have hnil : (stream.after stream.tokens.length).tokens = [] :=
      List.eq_nil_of_length_eq_zero (by omega)
    show (ofTokens _).2 = _
    rw [ofTokens_of_nil hnil]
  · exact hsame

/-! ## §4. All calls. -/

/-- **Reading that is taken up again settles.**  The place of the reader never moves back, and there
is always a mark of the stream at it, the end of the text at the last: that of the token which the
reader has before it.  What is left is what stands from there on.  Behind a success all calls
succeed with nothing; a call that fails where it started is answered for ever by the same fault; and
from the call on whose number is that of the marks, all answers are the same.  Calls are numbered
from zero. -/
theorem rereading_settles (stream : TokenStream) :
    (∀ k j, k ≤ j → stream.place k ≤ stream.place j)
      ∧ (∀ k, stream.marks[stream.place k]? = some (stream.after k).next
          ∧ (stream.after k).marks = stream.marks.drop (stream.place k))
      ∧ (∀ k d, stream.answer k = .ok d → ∀ j, k < j → stream.answer j = .ok ⟨[]⟩)
      ∧ (∀ k f, stream.answer k = .error f → stream.place (k + 1) = stream.place k →
          ∀ j, k ≤ j → stream.answer j = .error f)
      ∧ ∀ j, stream.marks.length ≤ j + 1 →
          stream.answer j = stream.answer (stream.marks.length - 1) := by
  refine ⟨fun k j => place_mono stream, fun k => ⟨getElem?_place stream k, marks_after stream k⟩,
    fun k d hd j hj => ?_, fun k f hf hplace j hj => ?_, fun j hj => ?_⟩
  · have hnil : (stream.after j).tokens = [] := by
      have hsuffix := (after_suffix stream hj).1
      rw [show (stream.after (k + 1)).tokens = [] from tokens_of_ok hd] at hsuffix
      exact List.suffix_nil.1 hsuffix
    rw [TokenStream.answer, ofTokens_of_nil hnil]
  · rw [answer_settled (after_of_place hplace) hj, hf]
  · rw [length_marks] at hj ⊢
    exact answer_settled (settled_at_length stream) (Nat.le_of_succ_le_succ hj)

/-- `bounds(A, {} node B`, on one line with a character for each token. -/
def resumed : TokenStream where
  tokens := [.relation .bounds, .openParen, .label "A", .comma, .openBrace, .closeBrace, .node,
    .label "B"].zipIdx.map fun (kind, i) => ⟨kind, ⟨i, i + 1, 1, i + 1⟩⟩
  stop := ⟨8, 8, 1, 9⟩

/-- `node )`, in the same way. -/
def stray : TokenStream where
  tokens := [⟨.node, ⟨0, 1, 1, 1⟩⟩, ⟨.closeParen, ⟨1, 2, 1, 2⟩⟩]
  stop := ⟨2, 2, 1, 3⟩

theorem resumed_rereading :
    (resumed.answer 0 = .error ⟨.emptySet, ⟨4, 6, 1, 5⟩⟩ ∧ resumed.place 1 = 6
        ∧ resumed.answer 1 = .ok ⟨[.nodes [⟨"B", ⟨7, 8, 1, 8⟩⟩] ⟨6, 8, 1, 7⟩]⟩
        ∧ ∀ j, 1 < j → resumed.answer j = .ok ⟨[]⟩)
      ∧ (stray.answer 1 = .error ⟨.unexpectedToken .item .closeParen, ⟨1, 2, 1, 2⟩⟩
        ∧ stray.place 2 = stray.place 1
        ∧ ∀ j, 1 ≤ j →
          stray.answer j = .error ⟨.unexpectedToken .item .closeParen, ⟨1, 2, 1, 2⟩⟩) := by
  have hread : resumed.answer 1 = .ok ⟨[.nodes [⟨"B", ⟨7, 8, 1, 8⟩⟩] ⟨6, 8, 1, 7⟩]⟩ := by
    decide +kernel
  have hrefused : stray.answer 1 = .error ⟨.unexpectedToken .item .closeParen, ⟨1, 2, 1, 2⟩⟩ := by
    decide +kernel
  have hplace : stray.place 2 = stray.place 1 := by decide +kernel
  obtain ⟨-, -, hdone, -⟩ := rereading_settles resumed
  obtain ⟨-, -, -, hstuck, -⟩ := rereading_settles stray
  exact ⟨⟨by decide +kernel, by decide +kernel, hread, hdone 1 _ hread⟩,
    hrefused, hplace, hstuck 1 _ hrefused hplace⟩

end Admissibility.Description
