/-
  Admissibility.Text.Utf8
  ───────────────────────
  **Where bytes stop being UTF-8.**

  Each first byte of a character prescribes ranges for the bytes after it.  Bytes that do not form
  a character break off at the first one outside its range; what was well-formed up to there, one
  byte at least, is the broken sequence.

  `brokenLength_le`: a broken sequence lies inside the bytes that it is part of.
-/

namespace Admissibility.Text.Utf8

/-- The range of a byte that continues a character. -/
def tail : UInt8 × UInt8 := (0x80, 0xbf)

/-- The ranges of the bytes that have to follow a first byte; none after a byte that stands alone
or begins no character. -/
def continuations (lead : UInt8) : List (UInt8 × UInt8) :=
  if lead < 0xc2 then []
  else if lead < 0xe0 then [tail]
  else if lead = 0xe0 then [(0xa0, 0xbf), tail]
  else if lead = 0xed then [(0x80, 0x9f), tail]
  else if lead < 0xf0 then [tail, tail]
  else if lead = 0xf0 then [(0x90, 0xbf), tail, tail]
  else if lead < 0xf4 then [tail, tail, tail]
  else if lead = 0xf4 then [(0x80, 0x8f), tail, tail]
  else []

/-- The number of bytes in front that lie in their ranges. -/
def accepted : List (UInt8 × UInt8) → List UInt8 → Nat
  | (low, high) :: ranges, b :: bytes =>
    if low ≤ b ∧ b ≤ high then accepted ranges bytes + 1 else 0
  | _, _ => 0

/-- The length of the broken sequence at the head of some bytes. -/
def brokenLength : List UInt8 → Nat
  | [] => 0
  | lead :: bytes => 1 + accepted (continuations lead) bytes

theorem accepted_le (ranges : List (UInt8 × UInt8)) (bytes : List UInt8) :
    accepted ranges bytes ≤ bytes.length := by
  induction ranges generalizing bytes with
  | nil => simp [accepted]
  | cons range ranges ih =>
    cases bytes with
    | nil => simp [accepted]
    | cons b bytes =>
      have := ih bytes
      simp only [accepted, List.length_cons]
      split <;> omega

theorem brokenLength_le (bytes : List UInt8) : brokenLength bytes ≤ bytes.length := by
  cases bytes with
  | nil => exact Nat.le_refl 0
  | cons lead bytes =>
    have := accepted_le (continuations lead) bytes
    simp only [brokenLength, List.length_cons]
    omega

end Admissibility.Text.Utf8
