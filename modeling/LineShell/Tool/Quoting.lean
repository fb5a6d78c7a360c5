/-
How complaints show names.

A name stands in single quotes so that a shell would read it back: a
byte that cannot be printed is written as an escape between `$'` and a
quote, and a name with single quotes in it stands in double quotes where
that is enough. Where quotes are optional, they are left out of names
that hold nothing special.
-/
import LineShell.Text.Utf8

namespace LineShell.Tool

/-- Is the byte a printable ASCII character? -/
def isShown (b : UInt8) : Bool := 32 ≤ b && b < 127

/-- The byte as an escape. -/
def escaped (b : UInt8) : Bytes :=
  match [(7, 97), (8, 98), (9, 116), (10, 110), (11, 118), (12, 102), (13, 114)].lookup b with
  | some letter => [92, letter]
  | none => [92, 48 + b / 64, 48 + b / 8 % 8, 48 + b % 8]

/-- The inside of a name in single quotes. The flag tells whether an escape
was written last, so that the quotes of escapes stand around it. -/
def singleQuoted : Bool → Bytes → Bytes
  | _, [] => [39]
  | false, b :: rest =>
      if b = 39 then [39, 92, 39, 39] ++ singleQuoted false rest
      else if isShown b then b :: singleQuoted false rest
      else [39, 36, 39] ++ escaped b ++ singleQuoted true rest
  | true, b :: rest =>
      if b = 39 then [39, 39, 39, 92, 39, 39] ++ singleQuoted false rest
      else if isShown b then [39, 39] ++ b :: singleQuoted false rest
      else escaped b ++ singleQuoted true rest

/-- A name in quotes. -/
def inQuotes (name : Bytes) : Bytes :=
  if name.contains 39 && name.all fun b => isShown b && !([34, 36, 92, 96] : Bytes).contains b then
    34 :: name ++ [34]
  else 39 :: singleQuoted false name

/-- A text in single quotes with escapes inside, as arguments that are no
names are shown. -/
def marked (text : Bytes) : Bytes :=
  let inside : UInt8 → Bytes := fun b =>
    if b = 39 || b = 92 then [92, b] else if isShown b then [b] else escaped b
  39 :: text.flatMap inside ++ [39]

/-- Does the byte need no quotes? -/
def isPlainByte (b : UInt8) : Bool :=
  let c := Char.ofNat b.toNat
  c.isAlphanum || "%+,-./@_]\x7b\x7d#~".toList.contains c

/-- A name, in quotes if it needs them. -/
def shown (name : Bytes) : Bytes :=
  if !name.isEmpty && name.all isPlainByte && name.head? ≠ some 35 &&
      name.head? ≠ some 126 then name
  else inQuotes name

end LineShell.Tool
