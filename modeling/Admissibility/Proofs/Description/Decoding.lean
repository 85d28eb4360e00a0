/-
  Admissibility.Proofs.Description.Decoding
  ─────────────────────────────────────────
  **Decoding is exact, and a fault stands where a reader of the text before it would.**

  Decoding takes one character after the other, and what it has taken is always the text that the
  bytes in front encode.  Where no character follows it stops; and no longer text fits, since the
  next character of such a text would have followed.

  `decodeFrom_cases`: a decoding ends with the whole text, or behind a text that no character follows.
  `le_of_valid_extract`: no longer front of the bytes is a text.
  `decoding_is_exact`: texts and faults.
-/
import Admissibility.Description
import Admissibility.Proofs.Description.Places

namespace Admissibility.Description

open Admissibility.Text (Position)

variable {bytes rest : ByteArray} {before : List Char} {f : Fault}

/-! ## §1. Fronts of bytes. -/

/-- Behind a text, bytes are a text if and only if they are one with it. -/
theorem valid_append_iff (cs : List Char) (rest : ByteArray) :
    (cs.utf8Encode ++ rest).IsValidUTF8 ↔ rest.IsValidUTF8 := by
  induction cs with
  | nil => rw [List.utf8Encode_nil, ByteArray.empty_append]
  | cons c cs ih =>
    rw [List.utf8Encode_cons, ByteArray.append_assoc,
      ByteArray.isValidUTF8_utf8Encode_singleton_append_iff, ih]

/-- A text that is not empty begins with a character. -/
theorem isSome_of_valid (h : rest.IsValidUTF8) (hsize : 0 < rest.size) :
    (rest.utf8DecodeChar? 0).isSome = true := by
  obtain ⟨cs, rfl⟩ := h
  cases cs with
  | nil =>
    rw [List.utf8Encode_nil, ByteArray.size_empty] at hsize
    exact absurd hsize (Nat.lt_irrefl 0)
  | cons c cs => rw [List.utf8DecodeChar?_utf8Encode_cons, Option.isSome_some]

/-- **No longer front is a text** than one that no character follows. -/
theorem le_of_valid_extract (hsplit : bytes = before.utf8Encode ++ rest)
    (hnone : rest.utf8DecodeChar? 0 = none) {n : Nat} (hn : n ≤ bytes.size)
    (hvalid : (bytes.extract 0 n).IsValidUTF8) : n ≤ before.utf8Encode.size := by
  rcases Nat.lt_or_ge before.utf8Encode.size n with hlt | hge
  · obtain ⟨more, rfl⟩ := Nat.exists_eq_add_of_lt hlt
    rw [Nat.add_assoc] at hn hvalid
    rw [hsplit, ByteArray.size_append] at hn
    have hfront : bytes.extract 0 (before.utf8Encode.size + (more + 1))
        = before.utf8Encode ++ rest.extract 0 (more + 1) := by
      rw [ByteArray.extract_eq_extract_append_extract before.utf8Encode.size (Nat.zero_le _)
        (Nat.le_add_right _ _), hsplit, ByteArray.extract_append_eq_left rfl]
      exact congrArg _ (ByteArray.extract_append_size_add (i := 0))
    rw [hfront, valid_append_iff] at hvalid
    have hchar := isSome_of_valid hvalid (by rw [ByteArray.size_extract]; omega)
    -- the character that the longer text goes on with follows in the bytes
    have hfollows := ByteArray.isSome_utf8DecodeChar?_append hchar (rest.extract (more + 1) rest.size)
    rw [← ByteArray.extract_eq_extract_append_extract _ (Nat.zero_le _) (by omega),
      ByteArray.extract_zero_size, hnone] at hfollows
    cases hfollows
  · exact hge

/-! ## §2. Where decoding ends. -/

/-- The character behind a text is the first of the bytes behind it. -/
theorem decodeChar_behind (hsplit : bytes = before.utf8Encode ++ rest) :
    bytes.utf8DecodeChar? before.utf8Encode.size = rest.utf8DecodeChar? 0 := by
  rw [ByteArray.utf8DecodeChar?_eq_utf8DecodeChar?_extract, hsplit,
    ByteArray.extract_append_eq_right rfl ByteArray.size_append]

/-- A decoding ends with the whole text, or behind a text that no character follows. -/
theorem decodeFrom_cases {start : Nat} {done : List Char}
    (hsplit : bytes = done.reverse.utf8Encode ++ rest)
    (hstart : start = done.reverse.utf8Encode.size) :
    (∃ cs, bytes = cs.utf8Encode ∧ decodeFrom bytes start done = .ok (String.ofList cs))
      ∨ ∃ before rest h, bytes = before.utf8Encode ++ rest ∧ rest.utf8DecodeChar? 0 = none
          ∧ decodeFrom bytes start done
            = .error (encodingFault bytes before before.utf8Encode.size h) := by
  fun_induction decodeFrom bytes start done generalizing rest with
  | case1 start done hlt c hc ih =>
    subst hstart
    rw [decodeChar_behind hsplit] at hc
    have hrest := ByteArray.eq_of_utf8DecodeChar?_eq_some hc
    have hdone : (c :: done).reverse.utf8Encode
        = done.reverse.utf8Encode ++ (String.utf8EncodeChar c).toByteArray := by
      rw [List.reverse_cons, List.utf8Encode_append, List.utf8Encode_singleton]
    refine @ih (rest.extract c.utf8Size rest.size) ?_ ?_
    · rw [hdone, ByteArray.append_assoc, ← hrest, ← hsplit]
    · rw [hdone, ByteArray.size_append, List.size_toByteArray, String.length_utf8EncodeChar]
  | case2 start done hlt hnone =>
    subst hstart
    rw [decodeChar_behind hsplit] at hnone
    exact .inr ⟨done.reverse, rest, hlt, hsplit, hnone, rfl⟩
  | case3 start done hge =>
    -- no byte is left
    have hsize : rest.size = 0 := by
      rw [hsplit, ByteArray.size_append] at hge
      omega
    refine .inl ⟨done.reverse, ?_, rfl⟩
    rw [hsplit, ByteArray.size_eq_zero_iff.1 hsize, ByteArray.append_empty]

/-! ## §3. What a fault tells. -/

/-- A line and a column that are counted over a text are those of a reader behind it. -/
theorem advanceAll_counted (cs : List Char) : Position.start.advanceAll cs
    = ⟨cs.utf8Encode.size, cs.count '\n' + 1, (Text.lastLine cs).length + 1⟩ := by
  have hoffset : (Position.start.advanceAll cs).offset = cs.utf8Encode.size := by
    rw [Position.start_advanceAll_offset, ← String.size_toByteArray, String.toByteArray_ofList]
  have hline : (Position.start.advanceAll cs).line = cs.count '\n' + 1 := by
    rw [Position.advanceAll_line, Nat.add_comm]
    rfl
  have hcolumn : (Position.start.advanceAll cs).column = (Text.lastLine cs).length + 1 := by
    rw [Position.advanceAll_column, Text.lastLine, List.length_reverse, Nat.add_comm]
  cases hplace : Position.start.advanceAll cs
  rw [hplace] at hoffset hline hcolumn
  cases hoffset
  cases hline
  cases hcolumn
  rfl

/-- A byte is written with two hexadecimal digits. -/
theorem hex_byte (byte : UInt8) : Text.hex 2 byte.toNat
    = String.ofList [Nat.digitChar (byte.toNat / 16), Nat.digitChar (byte.toNat % 16)] := by
  have hall : ∀ n < 256, Text.hex 2 n
      = String.ofList [Nat.digitChar (n / 16), Nat.digitChar (n % 16)] := by decide +kernel
  exact hall byte.toNat byte.toNat_lt

/-- A broken sequence has a byte at least, and ends with the bytes at the latest. -/
theorem stop_encodingFault {offset : Nat} (h : offset < bytes.size) :
    offset < (encodingFault bytes before offset h).span.stop
      ∧ (encodingFault bytes before offset h).span.stop ≤ bytes.size := by
  have hle := Text.Utf8.brokenLength_le (bytes.data.toList.drop offset)
  have hlength : (bytes.data.toList.drop offset).length = bytes.size - offset := by
    rw [List.length_drop, Array.length_toList]
    rfl
  have hpos : 0 < Text.Utf8.brokenLength (bytes.data.toList.drop offset) := by
    cases hdrop : bytes.data.toList.drop offset with
    | nil =>
      rw [hdrop, List.length_nil] at hlength
      omega
    | cons lead rest =>
      rw [Text.Utf8.brokenLength]
      omega
  rw [hlength] at hle
  show offset < offset + _ ∧ offset + _ ≤ bytes.size
  omega

/-- A fault tells where bytes stop being a text: it is syntactic and stands behind the longest text in
front, at the place to which a reader comes over it, covers bytes that are there, and names the first
of them. -/
structure Located (bytes : ByteArray) (f : Fault) : Prop where
  gate : f.diagnostic.gate = .syntactic
  front : ∃ text : String, bytes.extract 0 f.span.start = text.toUTF8
    ∧ Position.start.advanceAll text.toList = ⟨f.span.start, f.span.line, f.span.column⟩
  longest : ∀ n ≤ bytes.size, (bytes.extract 0 n).IsValidUTF8 → n ≤ f.span.start
  start_lt_stop : f.span.start < f.span.stop
  stop_le_size : f.span.stop ≤ bytes.size
  found : ∃ h : f.span.start < bytes.size, f.diagnostic.found
    = some ("0x" ++ String.ofList [Nat.digitChar (bytes[f.span.start].toNat / 16),
        Nat.digitChar (bytes[f.span.start].toNat % 16)])

theorem located_of_split (hsplit : bytes = before.utf8Encode ++ rest)
    (hnone : rest.utf8DecodeChar? 0 = none) (h : before.utf8Encode.size < bytes.size) :
    Located bytes (encodingFault bytes before before.utf8Encode.size h) where
  gate := rfl
  front := by
    refine ⟨String.ofList before, ?_, ?_⟩
    · rw [String.toUTF8_eq_toByteArray, String.toByteArray_ofList]
      show bytes.extract 0 before.utf8Encode.size = _
      rw [hsplit, ByteArray.extract_append_eq_left rfl]
    · rw [String.toList_ofList]
      exact advanceAll_counted before
  longest n hn hvalid := le_of_valid_extract hsplit hnone hn hvalid
  start_lt_stop := (stop_encodingFault h).1
  stop_le_size := (stop_encodingFault h).2
  found := ⟨h, by rw [← hex_byte]; rfl⟩

/-! ## §4. All bytes. -/

/-- **Decoding is exact.**  Bytes are decoded to a text exactly when they are its encoding, and bytes
that encode no text are refused where they stop being one. -/
theorem decoding_is_exact (bytes : ByteArray) :
    (∀ text : String, decode bytes = .ok text ↔ bytes = text.toUTF8)
      ∧ ((∀ text : String, bytes ≠ text.toUTF8) → ∃ f, decode bytes = .error f ∧ Located bytes f) := by
  have hstart : bytes = ([] : List Char).reverse.utf8Encode ++ bytes := by
    rw [List.reverse_nil, List.utf8Encode_nil, ByteArray.empty_append]
  rcases decodeFrom_cases hstart rfl with ⟨cs, hbytes, hread⟩
    | ⟨before, rest, h, hsplit, hnone, hread⟩
  · have hencoded : bytes = (String.ofList cs).toUTF8 := by
      rw [hbytes, String.toUTF8_eq_toByteArray, String.toByteArray_ofList]
    refine ⟨fun text => ⟨fun hok => ?_, fun htext => ?_⟩, fun hno => absurd hencoded (hno _)⟩
    · rw [← Except.ok.inj (hread.symm.trans hok)]
      exact hencoded
    · rw [← String.toByteArray_inj.1 (hencoded.symm.trans htext)]
      exact hread
  · have hlocated := located_of_split hsplit hnone h
    refine ⟨fun text => ⟨fun hok => ?_, fun htext => ?_⟩, fun _ => ⟨_, hread, hlocated⟩⟩
    · cases hread.symm.trans hok
    · -- the whole would be a longer text
      have hvalid : (bytes.extract 0 bytes.size).IsValidUTF8 := by
        rw [ByteArray.extract_zero_size]
        exact ⟨text.toList, by rw [htext]; exact (String.utf8Encode_toList).symm⟩
      exact absurd (hlocated.longest _ (Nat.le_refl _) hvalid) (Nat.not_le.2 h)

/-- A line feed, a letter of two bytes, and the first two of the three bytes of a sign. -/
def cutShort : ByteArray := ⟨#[0x41, 0x0a, 0xc3, 0xa9, 0xe2, 0x82]⟩

theorem cutShort_decoding :
    decode "A\né".toUTF8 = .ok "A\né" ∧ decode cutShort = .error ⟨.invalidByte 4 0xe2, ⟨4, 6, 2, 2⟩⟩
      ∧ (∀ text : String, cutShort ≠ text.toUTF8)
      ∧ ∃ f, decode cutShort = .error f ∧ Located cutShort f := by
  have hread : decode cutShort = .error ⟨.invalidByte 4 0xe2, ⟨4, 6, 2, 2⟩⟩ := by decide +kernel
  obtain ⟨hok, hrefused⟩ := decoding_is_exact cutShort
  have hno : ∀ text : String, cutShort ≠ text.toUTF8 := by
    intro text htext
    rw [(hok text).2 htext] at hread
    cases hread
  exact ⟨((decoding_is_exact _).1 _).2 rfl, hread, hno, hrefused hno⟩

end Admissibility.Description
