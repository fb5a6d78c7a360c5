/-
`printf`: a format with conversions, run through as often as there are
arguments left.

Two programs and a builtin print so and differ in their complaints only.
What a run comes to is therefore a list of events in order: text, and
arguments that are no numbers.
-/
import LineShell.Tool.Real

namespace LineShell.Tool

open Posix

variable {ρ : Type}

-- ================================================================ layouts

/-- How a conversion lays its text out. -/
structure Layout where
  left : Bool := false
  zeros : Bool := false
  plus : Bool := false
  blank : Bool := false
  alternate : Bool := false
  width : Nat := 0
  precision : Option Nat := none

/-- Fills a text up to the layout's width. -/
def Layout.fill (l : Layout) (text : Bytes) : Bytes :=
  let gap := l.width - text.length
  if l.left then text ++ List.replicate gap 32 else List.replicate gap 32 ++ text

/-- A text that is a number, with its sign, laid out. -/
def Layout.signed (l : Layout) (negative : Bool) (text : Bytes) : Bytes :=
  let sign : Bytes :=
    if negative then [45] else if l.plus then [43] else if l.blank then [32] else []
  let gap := if l.zeros && !l.left then l.width - sign.length - text.length else 0
  l.fill (sign ++ List.replicate gap 48 ++ text)

/-- A number in some base with its sign, laid out. -/
def Layout.number (l : Layout) (base : Nat) (upper : Bool) (n : Int) : Bytes :=
  let ds := if n = 0 && l.precision = some 0 then [] else Nat.toDigits base n.natAbs
  let ds := if upper then ds.map Char.toUpper else ds
  let ds := List.replicate ((l.precision.getD 1) - ds.length) '0' ++ ds
  let sign := if n < 0 then ['-'] else if l.plus then ['+'] else if l.blank then [' '] else []
  let lead :=
    if l.alternate && base = 16 && n ≠ 0 then (if upper then ['0', 'X'] else ['0', 'x'])
    else if l.alternate && base = 8 && ds.head? ≠ some '0' then ['0']
    else []
  let bodyWidth := l.width - sign.length - lead.length
  let ds :=
    if l.zeros && !l.left && l.precision.isNone then
      List.replicate (bodyWidth - ds.length) '0' ++ ds
    else ds
  l.fill ((sign ++ lead ++ ds).map fun c => UInt8.ofNat c.toNat)

-- ================================================================ numbers

/-- Why an argument is not quite a number. -/
inductive NumberFault where
  | noNumber
  | leftOver
  | outOfRange
  deriving DecidableEq, Repr

/-- The number at the start of an argument, and what is wrong with it:
decimal, octal, hexadecimal, or the code of a byte after a quote. The
bounds are those of the least and the greatest number. -/
def readInteger (lo hi : Int) (arg : Bytes) : Int × Option NumberFault :=
  match arg with
  | [] => (0, none)
  | 39 :: c :: _ | 34 :: c :: _ => (c.toNat, none)
  | _ =>
      let text := arg.dropWhile fun b => b = 32 || (9 ≤ b && b ≤ 13)
      let negative := text.head? = some 45
      let text := if negative || text.head? = some 43 then text.drop 1 else text
      let isHex : Bool :=
        match text with
        | 48 :: x :: d :: _ => (x = 120 || x = 88) && (digits 16 1 0 [d]).2.isEmpty
        | _ => false
      let (base, ds) : Nat × Bytes :=
        if isHex then (16, text.drop 2) else if text.head? = some 48 then (8, text) else (10, text)
      let (value, rest) := digits base ds.length 0 ds
      if rest.length = ds.length then (0, some .noNumber)
      else
        let n : Int := if negative then -(value : Int) else value
        if n < lo then (lo, some .outOfRange)
        else if hi < n then (hi, some .outOfRange)
        else (n, if rest.isEmpty then none else some .leftOver)

/-- The real number at the start of an argument, of so many bits, whether
it is negative, and what is wrong with it. -/
def readReal (bits : Nat) (arg : Bytes) : Fraction × Bool × Option NumberFault :=
  match arg with
  | [] => ({ num := 0 }, false, none)
  | 39 :: c :: _ | 34 :: c :: _ => ({ num := c.toNat }, false, none)
  | _ =>
      let starts := (List.range (arg.length + 1)).reverse.filterMap fun n =>
        (Decimal.read? (arg.take n)).map (n, ·)
      match starts.head? with
      | none => ({ num := 0 }, false, some .noNumber)
      | some (n, d) =>
          let isBlank (b : UInt8) : Bool := b = 32 || (9 ≤ b && b ≤ 13)
          let negative := (arg.dropWhile isBlank).head? = some 45
          let x : Fraction := { num := d.digits.natAbs, den := Nat.pow 10 d.places }
          (x.nearestBinary bits, negative, if n = arg.length then none else some .leftOver)

-- ================================================================= events

inductive PrintEvent where
  | text (bytes : Bytes)
  | fault (arg : Bytes) (why : NumberFault)
  deriving DecidableEq, Repr

/-- Why a run through the format ended early. -/
inductive PrintEnd where
  /-- A conversion that there is not. -/
  | noConversion (spec : Bytes)
  /-- A conversion without its letter. -/
  | unfinished (spec : Bytes)
  /-- Something asked for it. -/
  | asked
  deriving DecidableEq, Repr

/-- What a run through the format gives. -/
structure Printed where
  /-- What happened, the last first. -/
  events : List PrintEvent := []
  /-- Arguments not used. -/
  rest : List Bytes
  stopped : Option PrintEnd := none
  /-- Did any conversion take an argument? -/
  consumed : Bool := false

/-- How a program prints. -/
structure Manner where
  escapes : Escapes
  /-- Does `\\c` in the format end all output? -/
  stops : Bool
  /-- The bits of its real numbers. -/
  bits : Nat

namespace Printed

/-- Adds text. -/
def add (p : Printed) (text : Bytes) : Printed :=
  match p.events with
  | .text before :: events => { p with events := .text (before ++ text) :: events }
  | events => { p with events := .text text :: events }

/-- Takes an argument; there is always one, if an empty one. -/
def take (p : Printed) : Bytes × Printed :=
  (p.rest.headD [], { p with rest := p.rest.drop 1, consumed := true })

/-- Takes an argument as a number. -/
def takeNumber (p : Printed) (lo hi : Int) : Int × Printed :=
  let (arg, p) := p.take
  match readInteger lo hi arg with
  | (n, none) => (n, p)
  | (n, some why) => (n, { p with events := .fault arg why :: p.events })

end Printed

/-- The greatest number with a sign. -/
def maxSigned : Int := 9223372036854775807

/-- The greatest number without a sign. -/
def maxUnsigned : Int := 18446744073709551615

-- ============================================================ conversions

/-- The flags at the start of a conversion. -/
def takeFlags : Bytes → Layout → Layout × Bytes
  | 45 :: rest, l => takeFlags rest { l with left := true }
  | 48 :: rest, l => takeFlags rest { l with zeros := true }
  | 43 :: rest, l => takeFlags rest { l with plus := true }
  | 32 :: rest, l => takeFlags rest { l with blank := true }
  | 35 :: rest, l => takeFlags rest { l with alternate := true }
  | rest, l => (l, rest)

/-- A width or precision, which may be an argument. -/
def takeSize (text : Bytes) (p : Printed) : Int × Bytes × Printed :=
  match text with
  | 42 :: rest =>
      let (n, p) := p.takeNumber (-maxSigned - 1) maxSigned
      (n, rest, p)
  | _ =>
      let (n, rest) := digits 10 9 0 text
      (n, rest, p)

/-- Flags, width and precision of a conversion. -/
def takeLayout (text : Bytes) (p : Printed) : Layout × Bytes × Printed :=
  let (l, rest) := takeFlags text {}
  let (width, rest, p) := takeSize rest p
  let l := { l with width := width.natAbs, left := l.left || width < 0 }
  match rest with
  | 46 :: rest =>
      let (precision, rest, p) := takeSize rest p
      ({ l with precision := if precision < 0 then none else some precision.toNat }, rest, p)
  | _ => (l, rest, p)

/-- One conversion by its letter, after its layout; none if there is no
such conversion. -/
def convert (m : Manner) (l : Layout) (letter : UInt8) (p : Printed) : Option Printed :=
  let cut (text : Bytes) := l.precision.elim text text.take
  let signed : Printed :=
    let (n, p) := p.takeNumber (-maxSigned - 1) maxSigned
    p.add (l.number 10 false n)
  let unsigned (base : Nat) (upper : Bool) : Printed :=
    let (n, p) := p.takeNumber (-maxUnsigned) maxUnsigned
    p.add ({ l with plus := false, blank := false }.number base upper (n % (maxUnsigned + 1)))
  match letter.toNat with
  | 115 =>
      let (arg, p) := p.take
      some (p.add (l.fill (cut arg)))
  | 98 =>
      let (arg, p) := p.take
      let (text, stop) := Escapes.replace { m.escapes with zero := true } (arg.length + 1) arg
      let p := p.add (l.fill (cut text))
      some (if stop then { p with stopped := some .asked } else p)
  | 99 =>
      let (arg, p) := p.take
      some (p.add (l.fill [arg.headD 0]))
  | 100 | 105 => some signed
  | 117 => some (unsigned 10 false)
  | 111 => some (unsigned 8 false)
  | 120 => some (unsigned 16 false)
  | 88 => some (unsigned 16 true)
  | 102 | 70 | 101 | 69 | 103 | 71 =>
      let (arg, p) := p.take
      let (x, negative, fault) := readReal m.bits arg
      let p := fault.elim p fun why => { p with events := .fault arg why :: p.events }
      let text := realText (Char.ofNat letter.toNat) x (l.precision.getD 6) l.alternate
      some (p.add (l.signed negative text))
  | _ => none

/-- One run through the format. -/
def printRun (m : Manner) : Nat → Bytes → Printed → Printed
  | 0, _, p => p
  | _, [], p => p
  | n + 1, 92 :: rest, p =>
      if m.stops && rest.head? = some 99 then { p with stopped := some .asked }
      else
        let (out, rest) := m.escapes.read rest
        printRun m n rest (p.add out)
  | n + 1, 37 :: 37 :: rest, p => printRun m n rest (p.add [37])
  | n + 1, 37 :: rest, p =>
      let (l, rest', p) := takeLayout rest p
      match rest' with
      | [] => { p with stopped := some (.unfinished (37 :: rest)) }
      | letter :: rest'' =>
          match convert m l letter p with
          | none =>
              let spec := 37 :: rest.take (rest.length - rest''.length)
              { p with stopped := some (.noConversion spec) }
          | some p => if p.stopped.isSome then p else printRun m n rest'' p
  | n + 1, b :: rest, p => printRun m n rest (p.add [b])

/-- Runs through the format until the arguments are used up. -/
def printRuns (m : Manner) (format : Bytes) : Nat → Printed → Printed
  | 0, p => p
  | n + 1, p =>
      let p := printRun m (format.length + 1) format { p with consumed := false }
      if p.stopped.isSome || p.rest.isEmpty || !p.consumed then p else printRuns m format n p

/-- What a format and its arguments come to. -/
def printed (m : Manner) (format : Bytes) (args : List Bytes) : Printed :=
  printRuns m format (args.length + 1) { rest := args }

-- ============================================================ the program

def NumberFault.text : NumberFault → String
  | noNumber => "expected a numeric value"
  | leftOver => "value not completely converted"
  | outOfRange => "Numerical result out of range"

/-- Prints text and complains, in the order of events. -/
def printEvents : List PrintEvent → Int → Job ρ Int
  | [], status => pure status
  | .text bytes :: rest, status => do
      Job.say bytes
      printEvents rest status
  | .fault arg why :: rest, _ => do
      Job.complain (marked arg ++ Bytes.ofString (": " ++ why.text))
      printEvents rest failure

def printfTool : Body ρ := fun args => do
  match if args.head? = some [45, 45] then args.drop 1 else args with
  | [] => Job.missingOperand
  | format :: args => do
      let p := printed { escapes := { quote := true }, stops := true, bits := 64 } format args
      let status ← printEvents p.events.reverse 0
      match p.stopped with
      | some (.noConversion spec) | some (.unfinished spec) =>
          Job.die (spec ++ Bytes.ofString ": invalid conversion specification")
      | some .asked => pure status
      | none => do
          match p.rest.head? with
          | some arg =>
              Job.complain (Bytes.ofString "warning: ignoring excess arguments, starting with " ++
                marked arg)
          | none => pure ()
          pure status

end LineShell.Tool
