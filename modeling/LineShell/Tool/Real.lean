/-
Real numbers as they are printed: `%f`, `%e` and `%g`.

A number is read as the nearest binary number of some precision, and that
one is then written exactly, to so many digits. Where two are equally
near, the even one is taken, both times.
-/
import LineShell.Tool.Print

namespace LineShell.Tool

-- =============================================================== rounding

/-- A quotient to the nearest whole number, a half to the even one. -/
def roundedQuotient (num den : Nat) : Nat :=
  let q := num / den
  let twice := 2 * (num % den)
  if den < twice || (twice = den && q % 2 = 1) then q + 1 else q

/-- A positive fraction. -/
structure Fraction where
  num : Nat
  den : Nat := 1
  deriving DecidableEq, Repr

namespace Fraction

/-- The fraction times a power of a base. -/
def scale (x : Fraction) (base : Nat) (power : Int) : Fraction :=
  if 0 ≤ power then { x with num := x.num * Nat.pow base power.toNat }
  else { x with den := x.den * Nat.pow base (-power).toNat }

/-- The largest power of a base that is not above the fraction, which is
not 0. -/
def exponent (base : Nat) (x : Fraction) : Int :=
  let size (n : Nat) : Int := (Nat.toDigits base n).length
  let guess := size x.num - size x.den
  let y := x.scale base (-guess)
  if y.num < y.den then guess - 1 else guess

/-- The nearest binary number with so many bits. -/
def nearestBinary (bits : Nat) (x : Fraction) : Fraction :=
  if x.num = 0 then x
  else
    let power := x.exponent 2 - (bits - 1 : Nat)
    let y := x.scale 2 (-power)
    scale { num := roundedQuotient y.num y.den } 2 power

end Fraction

-- ================================================================ writing

/-- A decimal number of so many places. -/
def fixedText (x : Fraction) (places : Nat) : Bytes :=
  let y := x.scale 10 places
  Decimal.write (roundedQuotient y.num y.den) places

/-- A number as digits and a power of ten, in so many places. -/
def scientificText (x : Fraction) (places : Nat) (upper : Bool) : Bytes × Int :=
  let power := if x.num = 0 then 0 else x.exponent 10
  let y := x.scale 10 (places - power)
  let digits := roundedQuotient y.num y.den
  let (digits, power) :=
    if digits = Nat.pow 10 (places + 1) then (digits / 10, power + 1) else (digits, power)
  let size := decimalOf power.natAbs
  let tail := (if upper then 69 else 101) :: (if power < 0 then 45 else 43) ::
    (List.replicate (2 - size.length) 48 ++ size)
  (Decimal.write digits places ++ tail, power)

/-- A text without zeros at the end of its decimals, before an exponent. -/
def withoutZeros (text : Bytes) : Bytes :=
  let number := text.takeWhile fun b => b ≠ 101 && b ≠ 69
  let tail := text.drop number.length
  if number.contains 46 then
    let kept := (number.reverse.dropWhile (· = 48)).reverse
    (if kept.getLast? = some 46 then kept.dropLast else kept) ++ tail
  else text

/-- The shorter way to write a number of so many digits. `full`: zeros at
the end stay. -/
def generalText (x : Fraction) (digits : Nat) (upper full : Bool) : Bytes :=
  let digits := max 1 digits
  let (text, power) := scientificText x (digits - 1) upper
  let text :=
    if -4 ≤ power && power < digits then fixedText x ((digits : Int) - 1 - power).toNat else text
  if full then text else withoutZeros text

/-- A number by the letter of its conversion: `f`, `e` or `g`, or a capital
of those. -/
def realText (letter : Char) (x : Fraction) (places : Nat) (full : Bool) : Bytes :=
  let upper := letter.isUpper
  match letter.toLower with
  | 'f' => fixedText x places
  | 'e' => (scientificText x places upper).1
  | _ => generalText x places upper full

end LineShell.Tool
