/-
  Admissibility.Proofs.Description.Lookahead
  ──────────────────────────────────────────
  **Reading looks one token ahead.**

  A reader takes some of the tokens in front and leaves the others.  Which ones it takes, and whether
  it succeeds, hangs on those and on the kind of the next token alone: behind that anything else may
  stand.  Two rests that begin alike are therefore left alike.

  `labelList_takes`, `endpoint_takes`, `item_takes`: one lemma for each reader, by its recursion.
  `itemsFrom_takes`: items to the end.
-/
import Admissibility.Proofs.Description.Grammar

namespace Admissibility.Description

open Admissibility.Text (Span)

variable {stop : Span} {tokens rest other mine : List Token} {α : Type}

/-! ## §1. Rests that begin alike. -/

/-- The first tokens of two rests are of one kind, or both rests are empty. -/
def Alike (rest other : List Token) : Prop :=
  (rest.map Token.kind).head? = (other.map Token.kind).head?

theorem Alike.append (before : List Token) (h : Alike rest other) :
    Alike (before ++ rest) (before ++ other) := by
  cases before with
  | nil => exact h
  | cons t before => rfl

theorem Alike.nil (h : Alike [] other) : other = [] := by
  cases other with
  | nil => rfl
  | cons t other => cases h

theorem Alike.cons {t : Token} (h : Alike (t :: rest) other) :
    ∃ span after, other = ⟨t.kind, span⟩ :: after := by
  cases other with
  | nil => cases h
  | cons u after =>
    have hkind : t.kind = u.kind := Option.some.inj h
    rw [hkind]
    exact ⟨u.span, after, rfl⟩

/-- A rest that begins like one without some kind in front has none in front either. -/
theorem Alike.not_headed {kind : Token.Kind} (h : Alike rest other)
    (hno : ∀ span after, rest = ⟨kind, span⟩ :: after → False) (span : Span) (after : List Token) :
    other = ⟨kind, span⟩ :: after → False := by
  rintro rfl
  have hhead : ((rest.map Token.kind).head?) = some kind := h
  cases rest with
  | nil => cases hhead
  | cons t rest =>
    have hkind : t.kind = kind := Option.some.inj hhead
    exact hno t.span rest (by rw [← hkind])

/-! ## §2. What a reader takes. -/

/-- Two results are the same, faults aside. -/
inductive Agrees : Except Fault α → Except Fault α → Prop
  | ok (a : α) : Agrees (.ok a) (.ok a)
  | error (f g : Fault) : Agrees (.error f) (.error g)

/-- A reader takes some tokens with some result, and leaves what is behind them, whatever stands
there as long as it begins like a given rest. -/
def Takes (read : Span → List Token → Reading α) (mine : List Token) (result : Except Fault α)
    (rest : List Token) : Prop :=
  ∀ stop other, Alike rest other →
    ∃ outcome, read stop (mine ++ other) = (outcome, other) ∧ Agrees result outcome

variable {read : Span → List Token → Reading α} {result : Except Fault α}

/-- What is read is read from the same tokens again. -/
theorem Takes.ok {a : α} (h : Takes read mine (.ok a) rest) (stop : Span)
    (halike : Alike rest other) : read stop (mine ++ other) = (.ok a, other) := by
  obtain ⟨outcome, hread, hagrees⟩ := h stop other halike
  cases hagrees
  exact hread

/-- What is refused is refused again. -/
theorem Takes.error {f : Fault} (h : Takes read mine (.error f) rest) (stop : Span)
    (halike : Alike rest other) : ∃ g, read stop (mine ++ other) = (.error g, other) := by
  obtain ⟨outcome, hread, hagrees⟩ := h stop other halike
  cases hagrees with
  | error _ g => exact ⟨g, hread⟩

/-- What refuses the next token takes nothing. -/
theorem Takes.refused {f : Fault} (expected : Expected)
    (hagain : ∀ stop other, Alike rest other → read stop other = refuse stop expected other) :
    Takes read [] (.error f) rest :=
  fun stop other halike => ⟨_, hagain stop other halike, .error _ _⟩

theorem Agrees.refl (result : Except Fault α) : Agrees result result := by
  cases result with
  | error f => exact .error f f
  | ok a => exact .ok a

/-- What is read, and a token of some kind behind it that closes it. -/
def closing {β : Type} (read : Span → List Token → Reading α) (close : Token.Kind)
    (expected : Expected) (make : α → Span → Except Fault β) (stop : Span) (tokens : List Token) :
    Reading β :=
  match read stop tokens with
  | (.error fault, rest) => (.error fault, rest)
  | (.ok _, []) => refuse stop expected []
  | (.ok a, t :: rest) =>
    if t.kind = close then (make a t.span, rest) else refuse stop expected (t :: rest)

theorem closing_takes {β : Type} {close : Token.Kind} {expected : Expected}
    {make : α → Span → Except Fault β} {result : Except Fault β}
    (hread : ∀ {a left}, read stop tokens = (a, left) →
      ∃ mine, tokens = mine ++ left ∧ Takes read mine a left)
    (h : closing read close expected make stop tokens = (result, rest)) :
    ∃ mine, tokens = mine ++ rest ∧ Takes (closing read close expected make) mine result rest := by
  unfold closing at h
  split at h
  · next hfirst =>
    cases h
    obtain ⟨mine, rfl, htakes⟩ := hread hfirst
    refine ⟨mine, rfl, fun stop' other halike => ?_⟩
    obtain ⟨g, hrefused⟩ := htakes.error stop' halike
    exact ⟨.error g, by rw [closing, hrefused], .error _ _⟩
  · next hfirst =>
    cases h
    obtain ⟨mine, rfl, htakes⟩ := hread hfirst
    refine ⟨mine, rfl, fun stop' other halike => ?_⟩
    cases halike.nil
    exact ⟨_, by rw [closing, htakes.ok stop' rfl]; rfl, .error _ _⟩
  · next a t after hfirst =>
    obtain ⟨mine, rfl, htakes⟩ := hread hfirst
    split at h
    · next hclose =>
      cases h
      refine ⟨mine ++ [t], by simp, fun stop' other _ => ⟨make a t.span, ?_, .refl _⟩⟩
      have hagain : read stop' (mine ++ t :: other) = (.ok a, t :: other) := htakes.ok stop' rfl
      rw [List.append_assoc, List.singleton_append, closing, hagain]
      exact if_pos hclose
    · next hopen =>
      cases h
      refine ⟨mine, rfl, fun stop' other halike => ?_⟩
      obtain ⟨span, after', rfl⟩ := halike.cons
      refine ⟨.error (unexpected stop' expected (⟨t.kind, span⟩ :: after')), ?_, .error _ _⟩
      rw [closing, htakes.ok stop' halike]
      exact if_neg hopen

/-! ## §3. Lists of labels. -/

theorem moreLabels_takes {done : List Label} {result : Except Fault (List Label)}
    (h : moreLabels stop done tokens = (result, rest)) :
    ∃ mine, tokens = mine ++ rest ∧ Takes (moreLabels · done) mine result rest := by
  fun_induction moreLabels stop done tokens with
  | case1 done comma name span after ih =>
    obtain ⟨mine, rfl, htakes⟩ := ih h
    exact ⟨⟨.comma, comma⟩ :: ⟨.label name, span⟩ :: mine, rfl, htakes⟩
  | case2 done comma after hlabel =>
    cases h
    refine ⟨[⟨.comma, comma⟩], rfl, fun stop' other halike => ?_⟩
    refine ⟨.error (unexpected stop' .label other), ?_, .error _ _⟩
    show moreLabels stop' done (⟨.comma, comma⟩ :: other) = _
    rw [moreLabels]
    · rfl
    · exact fun name => halike.not_headed (hlabel name)
  | case3 done after hlabel hcomma =>
    cases h
    refine ⟨[], rfl, fun stop' other halike => ⟨.ok done.reverse, ?_, .ok _⟩⟩
    show moreLabels stop' done other = _
    rw [moreLabels]
    · exact fun comma name span more => halike.not_headed hcomma comma _
    · exact halike.not_headed hcomma

theorem labelList_takes {result : Except Fault (List Label)}
    (h : labelList stop tokens = (result, rest)) :
    ∃ mine, tokens = mine ++ rest ∧ Takes labelList mine result rest := by
  unfold labelList at h
  split at h
  · next name span after =>
    obtain ⟨mine, rfl, htakes⟩ := moreLabels_takes h
    exact ⟨⟨.label name, span⟩ :: mine, rfl, htakes⟩
  · next hlabel =>
    cases h
    refine ⟨[], rfl, .refused .label fun stop' other halike => ?_⟩
    rw [labelList]
    exact fun name => halike.not_headed (hlabel name)

/-! ## §4. Endpoints. -/

/-- A brace with anything but its counterpart behind it begins a set of labels. -/
theorem endpoint_brace {first : Span}
    (hno : ∀ last after, tokens = ⟨.closeBrace, last⟩ :: after → False) :
    endpoint stop (⟨.openBrace, first⟩ :: tokens) = closing labelList .closeBrace .closeBrace
      (fun labels last => .ok (.set labels (first.upTo last))) stop tokens := by
  unfold closing
  rw [endpoint.eq_def]
  split
  · next heq =>
    cases heq
    exact (hno _ _ rfl).elim
  · next heq =>
    cases heq
    rcases labelList stop tokens with ⟨_ | labels, _ | ⟨⟨kind, last⟩, rest⟩⟩
    · rfl
    · rfl
    · rfl
    · cases kind <;> rfl
  · next heq => cases heq
  · next hbrace _ => exact (hbrace _ _ rfl).elim

theorem endpoint_takes {result : Except Fault Endpoint}
    (h : endpoint stop tokens = (result, rest)) :
    ∃ mine, tokens = mine ++ rest ∧ Takes endpoint mine result rest := by
  have hwhole := h
  unfold endpoint at h
  split at h
  · next first last after =>
    cases h
    exact ⟨[⟨.openBrace, first⟩, ⟨.closeBrace, last⟩], rfl, fun _ _ _ => ⟨_, rfl, .error _ _⟩⟩
  · next first after hclose =>
    rw [endpoint_brace hclose] at hwhole
    obtain ⟨mine, rfl, htakes⟩ := closing_takes labelList_takes hwhole
    refine ⟨⟨.openBrace, first⟩ :: mine, rfl, fun stop' other halike => ?_⟩
    obtain ⟨outcome, hread, hagrees⟩ := htakes stop' other halike
    refine ⟨outcome, ?_, hagrees⟩
    rw [List.cons_append, endpoint_brace ((halike.append mine).not_headed hclose), hread]
  · next name span after =>
    cases h
    exact ⟨[⟨.label name, span⟩], rfl, fun _ _ _ => ⟨_, rfl, .ok _⟩⟩
  · next hempty hbrace hlabel =>
    cases h
    refine ⟨[], rfl, .refused .label fun stop' other halike => ?_⟩
    rw [endpoint]
    · exact fun first last after => halike.not_headed hbrace first _
    · exact halike.not_headed hbrace
    · exact fun name => halike.not_headed (hlabel name)

theorem moreEndpoints_takes {done : List Endpoint} {result : Except Fault (List Endpoint)}
    (h : moreEndpoints stop done tokens = (result, rest)) :
    ∃ mine, tokens = mine ++ rest ∧ Takes (moreEndpoints · done) mine result rest := by
  fun_induction moreEndpoints stop done tokens with
  | case1 done comma after e after' hread _ ih =>
    obtain ⟨mine, rfl, htakes⟩ := ih h
    obtain ⟨first, rfl, hfirst⟩ := endpoint_takes hread
    refine ⟨⟨.comma, comma⟩ :: (first ++ mine), by simp, fun stop' other halike => ?_⟩
    obtain ⟨outcome, hmore, hagrees⟩ := htakes stop' other halike
    refine ⟨outcome, ?_, hagrees⟩
    rw [List.cons_append, List.append_assoc]
    exact (moreEndpoints_comma (hfirst.ok stop' (halike.append mine))).trans hmore
  | case2 done comma after fault after' hread =>
    cases h
    obtain ⟨first, rfl, hfirst⟩ := endpoint_takes hread
    refine ⟨⟨.comma, comma⟩ :: first, rfl, fun stop' other halike => ?_⟩
    obtain ⟨g, hrefused⟩ := hfirst.error stop' halike
    exact ⟨.error g, moreEndpoints_error hrefused, .error _ _⟩
  | case3 done after hcomma =>
    cases h
    refine ⟨[], rfl, fun stop' other halike => ⟨.ok done.reverse, ?_, .ok _⟩⟩
    show moreEndpoints stop' done other = _
    rw [moreEndpoints]
    exact halike.not_headed hcomma

theorem endpointList_takes {result : Except Fault (List Endpoint)}
    (h : endpointList stop tokens = (result, rest)) :
    ∃ mine, tokens = mine ++ rest ∧ Takes endpointList mine result rest := by
  unfold endpointList at h
  split at h
  · next e after hread =>
    obtain ⟨mine, rfl, htakes⟩ := moreEndpoints_takes h
    obtain ⟨first, rfl, hfirst⟩ := endpoint_takes hread
    refine ⟨first ++ mine, by simp, fun stop' other halike => ?_⟩
    obtain ⟨outcome, hmore, hagrees⟩ := htakes stop' other halike
    refine ⟨outcome, ?_, hagrees⟩
    rw [List.append_assoc, endpointList, hfirst.ok stop' (halike.append mine)]
    exact hmore
  · next hread =>
    cases h
    obtain ⟨first, rfl, hfirst⟩ := endpoint_takes hread
    refine ⟨first, rfl, fun stop' other halike => ?_⟩
    obtain ⟨g, hrefused⟩ := hfirst.error stop' halike
    refine ⟨.error g, ?_, .error _ _⟩
    rw [endpointList, hrefused]

/-! ## §5. Items. -/

/-- A relation whose form is checked. -/
def formed (kind : Relation.Kind) (first : Span) (endpoints : List Endpoint) (last : Span) :
    Except Fault Item :=
  match shapeFault? kind endpoints (first.upTo last) with
  | some fault => .error fault
  | none => .ok (.relation kind endpoints (first.upTo last))

/-- A parenthesis begins the endpoints of a relation. -/
theorem relation_paren {kind : Relation.Kind} {first paren : Span} :
    relation stop kind first (⟨.openParen, paren⟩ :: tokens)
      = closing endpointList .closeParen .closeParen (formed kind first) stop tokens := by
  unfold closing
  rw [relation]
  rcases endpointList stop tokens with ⟨_ | endpoints, _ | ⟨⟨close, last⟩, rest⟩⟩
  · rfl
  · rfl
  · rfl
  · cases close with
    | closeParen =>
      show _ = (formed kind first endpoints last, rest)
      unfold formed
      cases hshape : shapeFault? kind endpoints (first.upTo last) <;> simp only [hshape]
    | _ => rfl

theorem relation_takes {kind : Relation.Kind} {first : Span} {result : Except Fault Item}
    (h : relation stop kind first tokens = (result, rest)) :
    ∃ mine, tokens = mine ++ rest ∧ Takes (relation · kind first) mine result rest := by
  have hwhole := h
  unfold relation at h
  split at h
  · next paren after =>
    rw [relation_paren] at hwhole
    obtain ⟨mine, rfl, htakes⟩ := closing_takes endpointList_takes hwhole
    refine ⟨⟨.openParen, paren⟩ :: mine, rfl, fun stop' other halike => ?_⟩
    obtain ⟨outcome, hread, hagrees⟩ := htakes stop' other halike
    exact ⟨outcome, relation_paren.trans hread, hagrees⟩
  · next hopen =>
    cases h
    refine ⟨[], rfl, .refused .openParen fun stop' other halike => ?_⟩
    rw [relation]
    exact halike.not_headed hopen

theorem nodes_takes {first : Span} {result : Except Fault Item}
    (h : nodes stop first tokens = (result, rest)) :
    ∃ mine, tokens = mine ++ rest ∧ Takes (nodes · first) mine result rest := by
  unfold nodes at h
  split at h
  · next labels after hread =>
    cases h
    obtain ⟨mine, rfl, htakes⟩ := labelList_takes hread
    refine ⟨mine, rfl, fun stop' other halike => ⟨.ok _, ?_, .ok _⟩⟩
    show nodes stop' first (mine ++ other) = _
    rw [nodes, htakes.ok stop' halike]
  · next hread =>
    cases h
    obtain ⟨mine, rfl, htakes⟩ := labelList_takes hread
    refine ⟨mine, rfl, fun stop' other halike => ?_⟩
    obtain ⟨g, hrefused⟩ := htakes.error stop' halike
    refine ⟨.error g, ?_, .error _ _⟩
    show nodes stop' first (mine ++ other) = _
    rw [nodes, hrefused]

/-- What begins with no keyword is no item: it is refused, and nothing is taken. -/
theorem item_refused (hnode : ∀ first after, tokens = ⟨.node, first⟩ :: after → False)
    (hrelation : ∀ kind first after, tokens = ⟨.relation kind, first⟩ :: after → False) :
    ∃ f, item stop tokens = (.error f, tokens) := by
  unfold item
  split
  · next first after => exact (hnode first after rfl).elim
  · next kind first after => exact (hrelation kind first after rfl).elim
  · exact ⟨_, rfl⟩
  · exact ⟨_, rfl⟩

/-- **An item** is read from the tokens that are taken, in view of the next one. -/
theorem item_takes {result : Except Fault Item} (h : item stop tokens = (result, rest)) :
    ∃ mine, tokens = mine ++ rest ∧ Takes item mine result rest := by
  -- without a keyword in front nothing is taken, whatever stands behind a label
  have hnone : (∀ first after, tokens = ⟨.node, first⟩ :: after → False) →
      (∀ kind first after, tokens = ⟨.relation kind, first⟩ :: after → False) →
      ∃ mine, tokens = mine ++ rest ∧ Takes item mine result rest := by
    intro hnode hrelation
    obtain ⟨f, hrefused⟩ := @item_refused stop tokens hnode hrelation
    rw [hrefused] at h
    cases h
    refine ⟨[], rfl, fun stop' other halike => ?_⟩
    obtain ⟨g, hread⟩ := @item_refused stop' other (halike.not_headed hnode)
      fun kind => halike.not_headed (hrelation kind)
    exact ⟨.error g, hread, .error _ _⟩
  rcases tokens with _ | ⟨⟨kind, first⟩, after⟩
  · exact hnone nofun nofun
  · cases kind with
    | node =>
      obtain ⟨mine, rfl, htakes⟩ := nodes_takes h
      exact ⟨⟨.node, first⟩ :: mine, rfl, htakes⟩
    | relation kind =>
      obtain ⟨mine, rfl, htakes⟩ := relation_takes h
      exact ⟨⟨.relation kind, first⟩ :: mine, rfl, htakes⟩
    | _ => exact hnone nofun nofun

/-! ## §6. Items to the end. -/

/-- Semicolons in front are skipped, as long as no other one stands behind them. -/
theorem skipSemicolons_takes (tokens : List Token) :
    ∃ mine, tokens = mine ++ skipSemicolons tokens ∧
      ∀ other, Alike (skipSemicolons tokens) other → skipSemicolons (mine ++ other) = other := by
  refine ⟨tokens.takeWhile fun t => t.kind == .semicolon, List.takeWhile_append_dropWhile.symm, ?_⟩
  intro other halike
  have hhead : ∀ t after, other = t :: after → ¬ (t.kind == .semicolon) = true := by
    rintro t after rfl
    obtain ⟨span, after', hrest⟩ := Alike.cons halike.symm
    have hfirst := List.head?_dropWhile_not (fun t : Token => t.kind == .semicolon) tokens
    rw [show tokens.dropWhile _ = _ from hrest] at hfirst
    simpa using hfirst
  rw [skipSemicolons, List.dropWhile_append_of_pos (List.all_eq_true.1 List.all_takeWhile)]
  cases other with
  | nil => rfl
  | cons t after => rw [List.dropWhile_cons, if_neg (hhead t after rfl)]

theorem itemsFrom_takes {done : List Item} {result : Except Fault (List Item)}
    (h : itemsFrom stop done tokens = (result, rest)) :
    ∃ mine, tokens = mine ++ rest ∧ Takes (itemsFrom · done) mine result rest := by
  fun_induction itemsFrom stop done tokens with
  | case1 done =>
    cases h
    refine ⟨[], rfl, fun stop' other halike => ⟨.ok done.reverse, ?_, .ok _⟩⟩
    cases halike.nil
    show itemsFrom stop' done [] = _
    rw [itemsFrom]
  | case2 done t tokens i after hread _ ih =>
    obtain ⟨mine, hmine, htakes⟩ := ih h
    obtain ⟨first, hfirst, hitem⟩ := item_takes hread
    obtain ⟨semicolons, hafter, hskip⟩ := skipSemicolons_takes after
    rw [hmine] at hafter hskip
    refine ⟨first ++ (semicolons ++ mine), by rw [hfirst, hafter]; simp, fun stop' other halike => ?_⟩
    obtain ⟨outcome, hmore, hagrees⟩ := htakes stop' other halike
    refine ⟨outcome, ?_, hagrees⟩
    -- what stands behind the item begins as it did
    have hbehind : Alike after (semicolons ++ (mine ++ other)) := by
      rw [hafter]
      exact (halike.append mine).append semicolons
    have hread' := hitem.ok stop' hbehind
    have hwhole := hbehind.append first
    rw [← hfirst] at hwhole
    obtain ⟨span, tokens', hcons⟩ := hwhole.cons
    show itemsFrom stop' done (first ++ (semicolons ++ mine) ++ other) = _
    rw [List.append_assoc, List.append_assoc, hcons]
    rw [hcons] at hread'
    rw [itemsFrom_cons hread', hskip _ (halike.append mine)]
    exact hmore
  | case3 done t tokens fault after hread =>
    cases h
    obtain ⟨mine, hmine, htakes⟩ := item_takes hread
    refine ⟨mine, hmine, fun stop' other halike => ?_⟩
    obtain ⟨g, hrefused⟩ := htakes.error stop' halike
    have hwhole := halike.append mine
    rw [← hmine] at hwhole
    obtain ⟨span, tokens', hcons⟩ := hwhole.cons
    rw [hcons] at hrefused
    refine ⟨.error g, ?_, .error _ _⟩
    show itemsFrom stop' done (mine ++ other) = _
    rw [hcons]
    exact itemsFrom_error hrefused

/-! ## §7. Streams and their marks. -/

/-- A token by kind and place. -/
def Token.mark (t : Token) : Option Token.Kind × Span := (some t.kind, t.span)

/-- The tokens of a stream by kind and place, with the end of the text as the last of them, which is
of no kind. -/
def TokenStream.marks (stream : TokenStream) : List (Option Token.Kind × Span) :=
  stream.tokens.map Token.mark ++ [(none, stream.stop)]

theorem map_fst_mark (tokens : List Token) :
    (tokens.map Token.mark).map Prod.fst = (tokens.map Token.kind).map some := by
  rw [List.map_map, List.map_map]
  rfl

/-- The end comes behind all tokens, so kinds in front of it are those of tokens. -/
theorem split_of_prefix {kinds others : List Token.Kind} {next : Option Token.Kind}
    (h : kinds.map some ++ [next] <+: others.map some ++ [none]) :
    ∃ more, others = kinds ++ more ∧ more.head? = next := by
  induction kinds generalizing others with
  | nil =>
    refine ⟨others, rfl, ?_⟩
    cases others with
    | nil => exact (List.cons_prefix_cons.1 h).1.symm
    | cons k others => exact (List.cons_prefix_cons.1 h).1.symm
  | cons k kinds ih =>
    cases others with
    | nil => cases (List.cons_prefix_cons.1 h).1
    | cons k' others =>
      obtain ⟨hk, hmore⟩ := List.cons_prefix_cons.1 h
      obtain ⟨more, rfl, hnext⟩ := ih hmore
      cases hk
      exact ⟨more, rfl, hnext⟩

end Admissibility.Description
