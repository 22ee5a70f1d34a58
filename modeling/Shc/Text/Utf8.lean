/-
  Shc/Text/Utf8.lean
  ==================
  Reading bytes as UTF-8.  The well-formed sequences are those of the Unicode
  standard: a lead byte fixes how many bytes follow and which values the first of
  them may take, which rules out overlong forms, surrogates and numbers above
  0x10FFFF.  `pieces` cuts any bytes into characters and ill-formed stretches, each
  stretch as long as it could still have become a character.  `decode` accepts the
  bytes only when no stretch is ill-formed; `decodeLossy` shows each such stretch
  as the replacement character.
-/

namespace Shc.Text.Utf8

/-- What a lead byte asks for: how many bytes follow, the range of the first of
    them, and the bits that the lead byte itself contributes. -/
structure Lead where
  count : Nat
  low : UInt8
  high : UInt8
  bits : Nat

/-- The lead bytes of sequences of two, three and four bytes. -/
def lead? (b : UInt8) : Option Lead :=
  if 0xC2 ≤ b ∧ b ≤ 0xDF then some ⟨1, 0x80, 0xBF, b.toNat - 0xC0⟩
  else if b = 0xE0 then some ⟨2, 0xA0, 0xBF, 0⟩
  else if b = 0xED then some ⟨2, 0x80, 0x9F, 0xD⟩
  else if 0xE1 ≤ b ∧ b ≤ 0xEF then some ⟨2, 0x80, 0xBF, b.toNat - 0xE0⟩
  else if b = 0xF0 then some ⟨3, 0x90, 0xBF, 0⟩
  else if 0xF1 ≤ b ∧ b ≤ 0xF3 then some ⟨3, 0x80, 0xBF, b.toNat - 0xF0⟩
  else if b = 0xF4 then some ⟨3, 0x80, 0x8F, 4⟩
  else none

/-- Read `count` further bytes, the first of them between `low` and `high`.  The
    answer is the code point, or nothing when a byte does not fit, and the bytes
    from there on. -/
def tails (low high : UInt8) : (count bits : Nat) → List UInt8 → Option Nat × List UInt8
  | 0, bits, rest => (some bits, rest)
  | _ + 1, _, [] => (none, [])
  | count + 1, bits, b :: rest =>
    if low ≤ b ∧ b ≤ high then tails 0x80 0xBF count (bits * 64 + b.toNat % 64) rest
    else (none, b :: rest)

theorem length_tails_le (low high : UInt8) (count bits : Nat) (bytes : List UInt8) :
    (tails low high count bits bytes).2.length ≤ bytes.length := by
  induction count generalizing low high bits bytes with
  | zero => simp [tails]
  | succ count ih =>
    cases bytes with
    | nil => simp [tails]
    | cons b rest =>
      simp only [tails]
      split
      · exact Nat.le_succ_of_le (ih ..)
      · simp

/-- The characters of a byte sequence, with `none` for each ill-formed stretch. -/
def pieces : List UInt8 → List (Option Char)
  | [] => []
  | b :: rest =>
    if b < 0x80 then some (Char.ofNat b.toNat) :: pieces rest
    else
      match lead? b with
      | none => none :: pieces rest
      | some l =>
        let read := tails l.low l.high l.count l.bits rest
        read.1.map Char.ofNat :: pieces read.2
termination_by bytes => bytes.length
decreasing_by
  · simp
  · simp
  · exact Nat.lt_succ_of_le (length_tails_le ..)

/-- The text that the bytes spell, if they are well-formed throughout. -/
def decode (bytes : List UInt8) : Option (List Char) :=
  (pieces bytes).mapM id

/-- The text that the bytes spell, with U+FFFD for each ill-formed stretch. -/
def decodeLossy (bytes : List UInt8) : List Char :=
  (pieces bytes).map (·.getD '\uFFFD')

/-- The bytes that spell a text. -/
def encode (s : String) : List UInt8 :=
  s.toUTF8.data.toList

end Shc.Text.Utf8
