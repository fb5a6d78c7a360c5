/-
Sizes as programs take them: a number with a unit after it, and numbers
set to the right of a column.
-/
import LineShell.Tool.Print

namespace LineShell.Tool

variable {ρ : Type}

/-- Why a text is no size. -/
inductive SizeError where
  | invalid
  | tooLarge
  deriving DecidableEq, Repr

/-- The power that a unit's letter stands for. -/
def unitPower (letter : Char) : Option Nat :=
  match letter with
  | 'k' | 'K' => some 1
  | 'm' | 'M' => some 2
  | 'G' => some 3
  | 'T' => some 4
  | 'P' => some 5
  | 'E' => some 6
  | _ => none

/-- What a unit stands for; none if there is no such unit. -/
def unitOf (text : String) : Option Nat :=
  match text.toList with
  | [] => some 1
  | ['b'] => some 512
  | [c] | [c, 'i', 'B'] => (unitPower c).map (Nat.pow 1024)
  | [c, 'B'] => (unitPower c).map (Nat.pow 1000)
  | _ => none

/-- Reads a size. A unit alone counts once. -/
def readSize (text : Bytes) : Except SizeError Nat :=
  let text := if text.head? = some 43 then text.drop 1 else text
  let digits := text.takeWhile fun b => 48 ≤ b && b ≤ 57
  let unit := Bytes.decodeLossy (text.drop digits.length)
  match unitOf unit with
  | none => .error .invalid
  | some factor =>
      if text.isEmpty then .error .invalid
      else
        let n := ((decimal? digits).getD 1) * factor
        if 18446744073709551615 < n then .error .tooLarge else .ok n

/-- Reads a size, or complains and ends the program. -/
def sizeOrDie (fault : String) (text : Bytes) : Job ρ Nat :=
  match readSize text with
  | .ok n => pure n
  | .error e =>
      Job.die (Bytes.ofString (fault ++ ": ") ++ inQuotes text ++
        Bytes.ofString (if e = .tooLarge then ": " ++ Errno.EOVERFLOW.libraryText else ""))

/-- A number, right-aligned. -/
def aligned (width n : Nat) : Bytes :=
  let digits := decimalOf n
  List.replicate (width - digits.length) 32 ++ digits

end LineShell.Tool
