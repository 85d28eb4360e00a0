/-
  Admissibility.Proofs.Text.ByteOrder
  ───────────────────────────────────
  **Texts compare as their UTF-8 bytes do.**

  Texts are compared character by character.  UTF-8 was made so that comparing bytes comes to the
  same: of two characters, the encoding of the lesser one is less at the first byte in which the two
  encodings differ, and no encoding is the beginning of another one.

  `ahead_digits`: the encodings of two characters differ at some byte, in the right direction.
  `bytes_lt_iff`: the order of texts is the order of their bytes.
  `map_bytes_lt_iff`: and so for lists of texts.
-/

namespace Admissibility.Text

/-! ## §1. Lists that differ at some place. -/

/-- The first list is less than the second at the first place in which the two differ. -/
def Ahead {α : Type} [LT α] (first second : List α) : Prop :=
  ∃ common x y rest rest', first = common ++ x :: rest ∧ second = common ++ y :: rest' ∧ x < y

section Ahead

variable {α β : Type} [LT α] [LT β] {first second : List α}

theorem Ahead.of_lt {x y : α} (h : x < y) (rest rest' : List α) :
    Ahead (x :: rest) (y :: rest') :=
  ⟨[], x, y, rest, rest', rfl, rfl, h⟩

theorem Ahead.cons (h : Ahead first second) (x : α) : Ahead (x :: first) (x :: second) := by
  obtain ⟨common, u, v, rest, rest', hfirst, hsecond, hlt⟩ := h
  refine ⟨x :: common, u, v, rest, rest', ?_, ?_, hlt⟩
  · rw [hfirst, List.cons_append]
  · rw [hsecond, List.cons_append]

/-- What comes behind the place of difference does not matter. -/
theorem Ahead.append (h : Ahead first second) (more more' : List α) :
    Ahead (first ++ more) (second ++ more') := by
  obtain ⟨common, u, v, rest, rest', hfirst, hsecond, hlt⟩ := h
  refine ⟨common, u, v, rest ++ more, rest' ++ more', ?_, ?_, hlt⟩
  · rw [hfirst, List.append_assoc, List.cons_append]
  · rw [hsecond, List.append_assoc, List.cons_append]

theorem Ahead.map {f : α → β} (h : Ahead first second)
    (hf : ∀ x, ∀ y ∈ second, x < y → f x < f y) : Ahead (first.map f) (second.map f) := by
  obtain ⟨common, u, v, rest, rest', hfirst, hsecond, hlt⟩ := h
  refine ⟨common.map f, f u, f v, rest.map f, rest'.map f, ?_, ?_, hf u v ?_ hlt⟩
  · rw [hfirst, List.map_append, List.map_cons]
  · rw [hsecond, List.map_append, List.map_cons]
  · rw [hsecond]
    simp

theorem Ahead.lt (h : Ahead first second) : first < second := by
  obtain ⟨common, u, v, rest, rest', hfirst, hsecond, hlt⟩ := h
  rw [hfirst, hsecond]
  exact List.append_left_lt (List.Lex.rel hlt)

end Ahead

/-! ## §2. The encoding of a character. -/

/-- The bytes of a character's encoding as numbers. -/
def digits (code : Nat) : List Nat :=
  if code ≤ 0x7f then [code]
  else if code ≤ 0x7ff then [code / 64 + 0xc0, code % 64 + 0x80]
  else if code ≤ 0xffff then [code / 4096 + 0xe0, code / 64 % 64 + 0x80, code % 64 + 0x80]
  else [code / 262144 + 0xf0, code / 4096 % 64 + 0x80, code / 64 % 64 + 0x80, code % 64 + 0x80]

theorem code_le (c : Char) : c.val.toNat ≤ 0x10ffff := by
  have h : c.val.toNat < 0xd800 ∨ 0xdfff < c.val.toNat ∧ c.val.toNat < 0x110000 := c.valid
  omega

theorem utf8EncodeChar_eq (c : Char) :
    String.utf8EncodeChar c = (digits c.val.toNat).map UInt8.ofNat := by
  have hc := code_le c
  unfold String.utf8EncodeChar digits
  -- the first byte has room for what is left of the code
  have h1 : c.val.toNat ≤ 0x7ff → c.val.toNat / 64 % 0x20 = c.val.toNat / 64 := by omega
  have h2 : c.val.toNat ≤ 0xffff → c.val.toNat / 4096 % 0x10 = c.val.toNat / 4096 := by omega
  have h3 : c.val.toNat / 262144 % 0x08 = c.val.toNat / 262144 := by omega
  show (if c.val.toNat ≤ 0x7f then _ else if c.val.toNat ≤ 0x7ff then _
    else if c.val.toNat ≤ 0xffff then _ else _) = _
  by_cases hone : c.val.toNat ≤ 0x7f
  · rw [if_pos hone, if_pos hone]
    rfl
  · rw [if_neg hone, if_neg hone]
    by_cases htwo : c.val.toNat ≤ 0x7ff
    · rw [if_pos htwo, if_pos htwo, h1 htwo]
      rfl
    · rw [if_neg htwo, if_neg htwo]
      by_cases hthree : c.val.toNat ≤ 0xffff
      · rw [if_pos hthree, if_pos hthree, h2 hthree]
        rfl
      · rw [if_neg hthree, if_neg hthree, h3]
        rfl

theorem digits_lt {code : Nat} (h : code ≤ 0x10ffff) : ∀ d ∈ digits code, d < 256 := by
  intro d hd
  unfold digits at hd
  split at hd
  · simp only [List.mem_cons, List.not_mem_nil, or_false] at hd
    omega
  · split at hd
    · simp only [List.mem_cons, List.not_mem_nil, or_false] at hd
      omega
    · split at hd
      · simp only [List.mem_cons, List.not_mem_nil, or_false] at hd
        omega
      · simp only [List.mem_cons, List.not_mem_nil, or_false] at hd
        omega

/-- A byte that is no greater decides where it is less, and leaves the rest to decide otherwise. -/
theorem Ahead.byte {x y : Nat} {rest rest' : List Nat} (hle : x ≤ y)
    (hrest : x = y → Ahead rest rest') : Ahead (x :: rest) (y :: rest') := by
  rcases Nat.lt_or_eq_of_le hle with hlt | heq
  · exact .of_lt hlt rest rest'
  · have htail := hrest heq
    rw [heq]
    exact htail.cons y

/-- **Greater codes have greater bytes**, at the first byte in which the encodings differ. -/
theorem ahead_digits {v w : Nat} (h : v < w) : Ahead (digits v) (digits w) := by
  -- encodings of one length, from the last byte to the first
  have hlast : v / 64 = w / 64 → Ahead [v % 64 + 0x80] [w % 64 + 0x80] := by
    intro heq
    exact .of_lt (by omega) [] []
  have hmiddle : v / 4096 = w / 4096 → Ahead [v / 64 % 64 + 0x80, v % 64 + 0x80]
      [w / 64 % 64 + 0x80, w % 64 + 0x80] := by
    intro heq
    exact .byte (by omega) fun hnext => hlast (by omega)
  have hfront : v / 262144 = w / 262144 →
      Ahead [v / 4096 % 64 + 0x80, v / 64 % 64 + 0x80, v % 64 + 0x80]
        [w / 4096 % 64 + 0x80, w / 64 % 64 + 0x80, w % 64 + 0x80] := by
    intro heq
    exact .byte (by omega) fun hnext => hmiddle (by omega)
  unfold digits
  by_cases hone : v ≤ 0x7f
  · -- a single byte is less than every first byte of a longer encoding
    rw [if_pos hone]
    split
    · exact .of_lt h _ _
    · split
      · exact .of_lt (by omega) _ _
      · split
        · exact .of_lt (by omega) _ _
        · exact .of_lt (by omega) _ _
  rw [if_neg hone, if_neg (show ¬ w ≤ 0x7f by omega)]
  by_cases htwo : v ≤ 0x7ff
  · -- and so for the first byte of two
    rw [if_pos htwo]
    split
    · exact .byte (by omega) fun hnext => hlast (by omega)
    · split
      · exact .of_lt (by omega) _ _
      · exact .of_lt (by omega) _ _
  rw [if_neg htwo, if_neg (show ¬ w ≤ 0x7ff by omega)]
  by_cases hthree : v ≤ 0xffff
  · -- and of three
    rw [if_pos hthree]
    split
    · exact .byte (by omega) fun hnext => hmiddle (by omega)
    · exact .of_lt (by omega) _ _
  rw [if_neg hthree, if_neg (show ¬ w ≤ 0xffff by omega)]
  exact .byte (by omega) fun hnext => hfront (by omega)

theorem ofNat_lt_ofNat {m n : Nat} (hn : n < 256) (h : m < n) :
    UInt8.ofNat m < UInt8.ofNat n := by
  show (UInt8.ofNat m).toNat < (UInt8.ofNat n).toNat
  rw [UInt8.toNat_ofNat', UInt8.toNat_ofNat']
  omega

theorem ahead_utf8EncodeChar {c d : Char} (h : c < d) :
    Ahead (String.utf8EncodeChar c) (String.utf8EncodeChar d) := by
  have hcode : c.val.toNat < d.val.toNat := h
  rw [utf8EncodeChar_eq, utf8EncodeChar_eq]
  refine (ahead_digits hcode).map fun x y hy hlt => ?_
  exact ofNat_lt_ofNat (digits_lt (code_le d) y hy) hlt

theorem utf8EncodeChar_ne_nil (c : Char) : String.utf8EncodeChar c ≠ [] := by
  rw [utf8EncodeChar_eq, digits]
  split
  · simp
  · split
    · simp
    · split <;> simp

/-! ## §3. The bytes of a text. -/

/-- The UTF-8 bytes of a text. -/
def bytes (text : String) : List UInt8 := text.toUTF8.data.toList

theorem bytes_eq (text : String) : bytes text = text.toList.flatMap String.utf8EncodeChar := by
  unfold bytes
  rw [String.toUTF8_eq_toByteArray, ← String.utf8Encode_toList]
  unfold List.utf8Encode
  rw [List.toList_data_toByteArray]

theorem flatMap_lt_flatMap {first second : List Char} (h : first < second) :
    first.flatMap String.utf8EncodeChar < second.flatMap String.utf8EncodeChar := by
  induction first generalizing second with
  | nil =>
    cases second with
    | nil => exact absurd h (List.lt_irrefl [])
    | cons d rest =>
      rw [List.flatMap_cons]
      cases hbytes : String.utf8EncodeChar d with
      | nil => exact absurd hbytes (utf8EncodeChar_ne_nil d)
      | cons x more => exact List.Lex.nil
  | cons c first ih =>
    cases second with
    | nil => cases h
    | cons d rest =>
      rw [List.flatMap_cons, List.flatMap_cons]
      rcases List.cons_lt_cons_iff.1 h with hlt | ⟨heq, hrest⟩
      · exact ((ahead_utf8EncodeChar hlt).append _ _).lt
      · rw [heq]
        exact List.append_left_lt (ih hrest)

/-- **Texts compare as their bytes do.** -/
theorem bytes_lt_iff {a b : String} : bytes a < bytes b ↔ a < b := by
  have mono : ∀ {a b : String}, a < b → bytes a < bytes b := by
    intro a b h
    rw [bytes_eq, bytes_eq]
    exact flatMap_lt_flatMap h
  constructor
  · intro h
    refine Decidable.byContradiction fun hnot => ?_
    have hle : b ≤ a := String.not_lt.1 hnot
    by_cases heq : b = a
    · rw [heq] at h
      exact List.lt_irrefl _ h
    · exact List.lt_asymm h (mono (Std.lt_of_le_of_ne hle heq))
  · exact mono

theorem bytes_injective {a b : String} (h : bytes a = bytes b) : a = b := by
  refine String.toByteArray_inj.1 (ByteArray.ext (Array.toList_inj.1 ?_))
  rw [← String.toUTF8_eq_toByteArray, ← String.toUTF8_eq_toByteArray]
  exact h

/-- Lists of texts compare as the lists of their bytes do. -/
theorem map_bytes_lt_iff {first second : List String} :
    first.map bytes < second.map bytes ↔ first < second := by
  induction first generalizing second with
  | nil =>
    cases second with
    | nil => exact iff_of_false (List.lt_irrefl _) (List.lt_irrefl _)
    | cons b second => exact iff_of_true List.Lex.nil List.Lex.nil
  | cons a first ih =>
    cases second with
    | nil => exact iff_of_false (fun h => by cases h) (fun h => by cases h)
    | cons b second =>
      rw [List.map_cons, List.map_cons, List.cons_lt_cons_iff, List.cons_lt_cons_iff, bytes_lt_iff,
        ih]
      exact or_congr_right (and_congr_left fun _ => ⟨bytes_injective, congrArg bytes⟩)

end Admissibility.Text
