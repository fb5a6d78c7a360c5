/-
Bytes and the text they spell. File names, file contents and what flows
through pipes are bytes; command lines are text. `pieces` is the one
reader of UTF-8: it cuts a byte sequence into characters and into the
maximal ill-formed subsequences between them, so that strict reading
(`decode`) and reading with replacement (`decodeLossy`) agree on where
the faults are.
-/

namespace LineShell

/-- A sequence of bytes. -/
abbrev Bytes := List UInt8

namespace Bytes

/-- The UTF-8 form of a text. -/
def ofString (s : String) : Bytes := s.toUTF8.toList

/-- The bytes of one line of text. -/
def ofLine (s : String) : Bytes := ofString s ++ [10]

/-- Is this a continuation byte within the given bounds? -/
def within (lo hi : UInt8) : Option UInt8 → Bool
  | some b => lo ≤ b && b ≤ hi
  | none => false

/-- The bounds of the second byte after a given first byte, and the
number of bytes that the character takes; `none` where no character
starts with that byte. -/
def lead (b : UInt8) : Option (UInt8 × UInt8 × Nat) :=
  if b < 0x80 then some (0, 0, 1)
  else if 0xC2 ≤ b && b ≤ 0xDF then some (0x80, 0xBF, 2)
  else if b == 0xE0 then some (0xA0, 0xBF, 3)
  else if b == 0xED then some (0x80, 0x9F, 3)
  else if 0xE1 ≤ b && b ≤ 0xEF then some (0x80, 0xBF, 3)
  else if b == 0xF0 then some (0x90, 0xBF, 4)
  else if 0xF1 ≤ b && b ≤ 0xF3 then some (0x80, 0xBF, 4)
  else if b == 0xF4 then some (0x80, 0x8F, 4)
  else none

/-- The value that the low bits of a character's bytes spell. -/
def codePoint : Bytes → Nat
  | [a] => a.toNat
  | [a, b] => (a.toNat - 0xC0) * 64 + (b.toNat - 0x80)
  | [a, b, c] => ((a.toNat - 0xE0) * 64 + (b.toNat - 0x80)) * 64 + (c.toNat - 0x80)
  | [a, b, c, d] =>
      (((a.toNat - 0xF0) * 64 + (b.toNat - 0x80)) * 64 + (c.toNat - 0x80)) * 64 + (d.toNat - 0x80)
  | _ => 0

/-- The first piece of a non-empty sequence: a character and its length,
or no character and the length of the ill-formed subsequence, which ends
where no character could be continued. -/
def firstPiece (b : UInt8) (bs : Bytes) : Option Char × Nat :=
  match lead b with
  | none => (none, 1)
  | some (_, _, 1) => (some (Char.ofNat b.toNat), 1)
  | some (lo, hi, n) =>
      if !within lo hi bs[0]? then (none, 1)
      else if n == 2 then (some (Char.ofNat (codePoint (b :: bs.take 1))), 2)
      else if !within 0x80 0xBF bs[1]? then (none, 2)
      else if n == 3 then (some (Char.ofNat (codePoint (b :: bs.take 2))), 3)
      else if !within 0x80 0xBF bs[2]? then (none, 3)
      else (some (Char.ofNat (codePoint (b :: bs.take 3))), 4)

/-- The characters of a byte sequence in order, `none` standing for one
maximal ill-formed subsequence. -/
def pieces : Bytes → List (Option Char)
  | [] => []
  | b :: bs =>
      let (piece, n) := firstPiece b bs
      piece :: pieces (bs.drop (n - 1))
termination_by bs => bs.length
decreasing_by simp only [List.length_drop, List.length_cons]; omega

/-- The text that the bytes spell, if they are well-formed. -/
def decode (bs : Bytes) : Option String :=
  (bs.pieces.mapM id).map String.ofList

/-- The text that the bytes spell, U+FFFD standing for each ill-formed
subsequence. -/
def decodeLossy (bs : Bytes) : String :=
  String.ofList (bs.pieces.map (·.getD (Char.ofNat 0xFFFD)))

/-- A byte as two lowercase hexadecimal digits. -/
def hexDigits (b : UInt8) : List Char :=
  [Nat.digitChar (b.toNat / 16), Nat.digitChar (b.toNat % 16)]

/-- The bytes in lowercase hexadecimal. -/
def hex (bs : Bytes) : String := String.ofList (bs.flatMap hexDigits)

/-- The value of a hexadecimal digit. -/
def hexValue (c : Char) : Option Nat :=
  if '0' ≤ c && c ≤ '9' then some (c.toNat - '0'.toNat)
  else if 'a' ≤ c && c ≤ 'f' then some (c.toNat - 'a'.toNat + 10)
  else if 'A' ≤ c && c ≤ 'F' then some (c.toNat - 'A'.toNat + 10)
  else none

/-- The bytes that pairs of hexadecimal digits spell. -/
def ofHex : List Char → Option Bytes
  | [] => some []
  | h :: l :: rest => do
      let high ← hexValue h
      let low ← hexValue l
      let bytes ← ofHex rest
      pure (UInt8.ofNat (high * 16 + low) :: bytes)
  | [_] => none

end Bytes

end LineShell
