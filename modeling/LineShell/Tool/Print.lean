/-
Programs that print something small: `echo`, `yes`, `seq`, `factor`,
`printenv`, `pwd`, `sleep`, and those that say who and where one is.
-/
import LineShell.Tool.Options

namespace LineShell.Tool

open Posix

variable {ρ : Type}

-- ================================================================ escapes

/-- The value of up to so many digits of a base, and what follows them. -/
def digits (base : Nat) : Nat → Nat → Bytes → Nat × Bytes
  | 0, value, rest => (value, rest)
  | _, value, [] => (value, [])
  | n + 1, value, b :: rest =>
      let c := Char.ofNat b.toNat
      let d :=
        if '0' ≤ c && c ≤ '9' then c.toNat - '0'.toNat
        else if 'a' ≤ c && c ≤ 'f' then c.toNat - 'a'.toNat + 10
        else if 'A' ≤ c && c ≤ 'F' then c.toNat - 'A'.toNat + 10
        else 99
      if d < base then digits base n (value * base + d) rest else (value, b :: rest)

/-- The byte of a one-letter escape. -/
def letterEscape (b : UInt8) : Option UInt8 :=
  [(97, 7), (98, 8), (101, 27), (102, 12), (110, 10), (114, 13), (116, 9),
   (118, 11), (92, 92)].lookup b

/-- What escapes there are besides letters and octal digits. -/
structure Escapes where
  /-- Hexadecimal digits after `x`? -/
  hex : Bool := true
  /-- May a zero precede three octal digits? -/
  zero : Bool := false
  /-- A quote? -/
  quote : Bool := false

/-- What the text after a backslash stands for, and what follows it. -/
def Escapes.read (e : Escapes) : Bytes → Bytes × Bytes
  | b :: rest =>
      match letterEscape b with
      | some c => ([c], rest)
      | none =>
          if b = 120 && e.hex then
            let (value, rest') := digits 16 2 0 rest
            if rest'.length = rest.length then ([92, 120], rest) else ([UInt8.ofNat value], rest')
          else if b = 34 && e.quote then ([34], rest)
          else if 48 ≤ b && b ≤ 55 then
            let (value, rest) := digits 8 3 0 (if b = 48 && e.zero then rest else b :: rest)
            ([UInt8.ofNat value], rest)
          else ([92, b], rest)
  | [] => ([92], [])

/-- Text with its escapes replaced; `\c` ends it, and with it all output. -/
def Escapes.replace (e : Escapes) : Nat → Bytes → Bytes × Bool
  | 0, _ => ([], false)
  | _, [] => ([], false)
  | n + 1, 92 :: 99 :: _ => let _ := n; ([], true)
  | n + 1, 92 :: rest =>
      let (out, rest) := e.read rest
      let (more, stop) := e.replace n rest
      (out ++ more, stop)
  | n + 1, b :: rest =>
      let (more, stop) := e.replace n rest
      (b :: more, stop)

-- =================================================================== echo

/-- Words with a blank between them. -/
def joined (words : List Bytes) : Bytes := (words.intersperse [32]).flatten

/-- The options at the start of the words: no newline, escapes. -/
def echoOptions : List Bytes → Bool × Bool → (Bool × Bool) × List Bytes
  | (45 :: o :: os) :: rest, (bare, escapes) =>
      if (o :: os).all fun b => b = 110 || b = 101 || b = 69 then
        let bare := bare || (o :: os).contains 110
        let escapes :=
          (o :: os).foldl (fun e b => if b = 101 then true else if b = 69 then false else e) escapes
        echoOptions rest (bare, escapes)
      else ((bare, escapes), (45 :: o :: os) :: rest)
  | words, options => (options, words)

def echo (words : List Bytes) : Bytes :=
  let ((bare, escapes), words) := echoOptions words (false, false)
  let text := joined words
  let (text, stop) :=
    if escapes then Escapes.replace { zero := true } (text.length + 1) text else (text, false)
  if bare || stop then text else text ++ [10]

def echoTool : Body ρ := fun words => do
  Job.say (echo words)
  pure 0

-- ==================================================================== yes

/-- Writes the same block over and over, so many times at most. -/
def repeatBlock (block : Bytes) : Nat → Job ρ Int
  | 0 => pure 0
  | n + 1 => do
      match ← Job.task (Task.writeAll Fd.stdout block) with
      | .ok () => repeatBlock block n
      | .error e => do
          Job.complainOf (Bytes.ofString "standard output") e
          pure failure

def yesTool : Body ρ := fun args =>
  withOptions {} args failure fun o => do
    let line := (if o.operands.isEmpty then [121] else joined o.operands) ++ [10]
    repeatBlock (List.replicate (Job.bufferSize / line.length + 1) line).flatten blockBound

-- ==================================================================== seq

/-- A decimal number: `digits` divided by a power of ten. -/
structure Decimal where
  digits : Int
  places : Nat := 0
  deriving DecidableEq, Repr

namespace Decimal

/-- The digits of the number with more places. -/
def scaled (d : Decimal) (places : Nat) : Int := d.digits * Nat.pow 10 (places - d.places)

/-- Reads a number with a sign, decimals, a power of ten, or hexadecimal
digits. -/
def read? (text : Bytes) : Option Decimal := do
  let text := text.dropWhile fun b => b = 32 || (9 ≤ b && b ≤ 13)
  let negative := text.head? = some 45
  let text := if negative || text.head? = some 43 then text.drop 1 else text
  let sign : Int := if negative then -1 else 1
  if text.take 2 = [48, 120] || text.take 2 = [48, 88] then
    let (value, rest) := Tool.digits 16 text.length 0 (text.drop 2)
    if rest.isEmpty && 2 < text.length then some { digits := sign * value } else none
  else
    let isDigit (b : UInt8) : Bool := 48 ≤ b && b ≤ 57
    let whole := text.takeWhile isDigit
    let rest := text.drop whole.length
    let decimals := if rest.head? = some 46 then (rest.drop 1).takeWhile isDigit else []
    let rest := if rest.head? = some 46 then rest.drop (decimals.length + 1) else rest
    guard !(whole.isEmpty && decimals.isEmpty)
    let power : Int ← match rest with
      | [] => some 0
      | e :: power => if e = 101 || e = 69 then signed? power else none
    let value : Int := ((decimal? (whole ++ decimals)).getD 0 : Nat)
    let places : Int := decimals.length - power
    if places < 0 then some { digits := sign * value * Nat.pow 10 (-places).toNat }
    else some { digits := sign * value, places := places.toNat }

/-- The number written with so many places, for digits of as many. -/
def write (digits : Int) (places : Nat) : Bytes :=
  let ds := Nat.toDigits 10 digits.natAbs
  let ds := List.replicate (places + 1 - ds.length) '0' ++ ds
  let whole := ds.take (ds.length - places)
  let text := (if digits < 0 then ['-'] else []) ++ whole ++
    (if places = 0 then [] else '.' :: ds.drop (ds.length - places))
  Bytes.ofString (String.ofList text)

end Decimal

/-- A number in decimal. -/
def decimalOf (n : Int) : Bytes := Bytes.ofString (toString n)

/-- The numbers from one to another in steps. -/
def sequenceOf (first step last : Int) : List Int :=
  if step > 0 && first ≤ last then
    (List.range (((last - first) / step).toNat + 1)).map fun (k : Nat) => first + step * (k : Int)
  else if step < 0 && last ≤ first then
    (List.range (((first - last) / (-step)).toNat + 1)).map fun (k : Nat) =>
      first + step * (k : Int)
  else []

/-- Fills a number with zeros up to a width, after its sign. -/
def zeroFilled (width : Nat) (text : Bytes) : Bytes :=
  match text with
  | 45 :: rest => 45 :: List.replicate (width - text.length) 48 ++ rest
  | _ => List.replicate (width - text.length) 48 ++ text

/-- The numbers between two others in steps, each written; `equal`: with
the same width. -/
def sequence (first step last : Decimal) (equal : Bool) : List Bytes :=
  let places := max first.places step.places
  let most := max places last.places
  let shift : Int := Nat.pow 10 (most - places)
  let numbers :=
    (sequenceOf (first.scaled most) (step.scaled most) (last.scaled most)).map (· / shift)
  let texts := numbers.map (Decimal.write · places)
  if equal then
    let widths := [first, last].map fun d => (Decimal.write (d.scaled most / shift) places).length
    let width := widths.max?.getD 0
    texts.map (zeroFilled width)
  else texts

/-- The options of `seq`. -/
def seqSpec : Spec :=
  { plain := "w", valued := "s",
    inFront := true, long := [("equal-width", 'w'), ("separator", 's')] }

/-- Arguments with an end of options before the first one that is a
negative number. -/
def beforeNegative : List Bytes → List Bytes
  | [] => []
  | arg :: rest =>
      match arg with
      | 45 :: b :: _ =>
          if b = 46 || (48 ≤ b && b ≤ 57) then [45, 45] :: arg :: rest
          else if arg = [45, 115] then arg :: rest.take 1 ++ beforeNegative (rest.drop 1)
          else arg :: beforeNegative rest
      | _ => arg :: rest
termination_by args => args.length

def seqTool : Body ρ := fun args =>
  withOptions seqSpec (beforeNegative args) failure fun o => do
    match o.operands with
    | [] => Job.missingOperand
    | _ :: _ :: _ :: extra :: _ => Job.extraOperand extra
    | operands => do
        let numbers ← operands.mapM fun text =>
          match Decimal.read? text with
          | some d => pure d
          | none => Job.misused (Bytes.ofString "invalid floating point argument: " ++ marked text)
        let one : Decimal := { digits := 1 }
        let (first, step, last) :=
          match numbers with
          | [first, step, last] => (first, step, last)
          | [first, last] => (first, one, last)
          | [last] => (one, one, last)
          | _ => (one, one, one)
        if step.digits = 0 then
          Job.misused (Bytes.ofString "invalid Zero increment value: " ++
            marked (operands[1]?.getD []))
        let texts := sequence first step last (o.has 'w')
        let separator := (o.value? 's').getD [10]
        if !texts.isEmpty then
          Job.say ((texts.intersperse separator).flatten ++ [10])
        pure 0

-- ================================================================= factor

/-- The prime factors of a number from a divisor on, in so many steps at
most. -/
def factorsFrom : Nat → Nat → Nat → List Nat
  | 0, n, _ => if 1 < n then [n] else []
  | steps + 1, n, d =>
      if n < d * d then if 1 < n then [n] else []
      else if n % d = 0 then d :: factorsFrom steps (n / d) d
      else factorsFrom steps n (d + 1)

def factorTool : Body ρ := fun args =>
  withOptions {} args failure fun o => do
    let statuses ← o.operands.mapM fun text =>
      match decimal? text with
      | some n => do
          Job.say (decimalOf n ++ [58] ++
            (factorsFrom 1000000 n 2).flatMap (fun (p : Nat) => 32 :: decimalOf p) ++ [10])
          pure 0
      | none => do
          Job.complain (marked text ++ Bytes.ofString " is not a valid positive integer")
          pure failure
    pure (firstBad statuses)

-- ============================================================ environment

/-- A binding as it is printed. -/
def bindingText : String × String → Bytes
  | (name, value) => Bytes.ofString (name ++ "=" ++ value)

/-- Texts, each with an end: a line's or, if so asked, a NUL. -/
def withEnd (nul : Bool) (texts : List Bytes) : Bytes :=
  texts.flatMap (· ++ [if nul then 0 else 10])

def printenvTool : Body ρ := fun args =>
  withOptions { plain := "0", long := [("null", '0')], inFront := true } args 2 fun o => do
    let env ← Job.view fun v => v.process.env
    let nul := o.has '0'
    if o.operands.isEmpty then
      Job.say (withEnd nul (env.bindings.map bindingText))
      pure 0
    else
      let values := o.operands.map fun n => n.decode.bind env.get?
      Job.say (withEnd nul ((values.filterMap id).map Bytes.ofString))
      pure (if values.all Option.isSome then 0 else failure)

/-- Does an absolute path without dots lead to the working directory? -/
def leadsHere (path : Bytes) (v : View) : Bool :=
  path.head? = some FileTree.slash &&
    ((FileTree.components path).all fun name => name ≠ FileTree.dot && name ≠ FileTree.dotDot) &&
    match (Call.nodeAt path).attempt v with
    | (.ok id, _) => id = v.process.cwd
    | _ => false

def pwdTool : Body ρ := fun args =>
  withOptions { plain := "LP", long := [("logical", 'L'), ("physical", 'P')] }
        args failure fun o => do
    if !o.operands.isEmpty then Job.complainText "ignoring non-option arguments"
    let logical := o.lastOf "LP" = some 'L'
    let given ← Job.view fun v =>
      let path := ((v.process.env.get? "PWD").map Bytes.ofString).getD []
      if logical && leadsHere path v then some path else v.cwdPath
    match given with
    | some path => do
        Job.say (path ++ [10])
        pure 0
    | none => Job.die (Bytes.ofString "couldn't find directory entry in '..' with matching i-node")

-- ================================================================== sleep

/-- A number of seconds, possibly with decimals and a unit, in
microseconds. -/
def microseconds? (arg : Bytes) : Option Nat := do
  let (number, factor) :=
    match arg.getLast? with
    | some 115 => (arg.dropLast, 1)
    | some 109 => (arg.dropLast, 60)
    | some 104 => (arg.dropLast, 3600)
    | some 100 => (arg.dropLast, 86400)
    | _ => (arg, 1)
  let d ← Decimal.read? number
  guard (0 ≤ d.digits)
  pure (d.digits.toNat * 1000000 * factor / Nat.pow 10 d.places)

def sleepTool : Body ρ := fun args =>
  withOptions {} args failure fun o => do
    if o.operands.isEmpty then Job.missingOperand
    else
      let wrong := o.operands.filter (microseconds? · |>.isNone)
      for text in wrong do
        Job.complain (Bytes.ofString "invalid time interval " ++ marked text)
      if !wrong.isEmpty then Job.adviseHelp failure
      Job.task (Task.sleep ((o.operands.filterMap microseconds?).foldl (· + ·) 0))
      pure 0

-- ============================================================= who and where

/-- The name of the only user. -/
def userName : String := "root"

/-- Says something that takes no operand. -/
def sayTool (text : String) : Body ρ := fun args =>
  withOptions {} args failure fun o =>
    match o.operands with
    | [] => do
        Job.say (Bytes.ofLine text)
        pure 0
    | extra :: _ => Job.extraOperand extra

def idTool : Body ρ := fun args =>
  withOptions { plain := "ugGnr" } args failure fun o => do
    match o.operands.find? fun name => name ≠ Bytes.ofString userName && name ≠ [48] with
    | some name => do
        Job.complain (marked name ++ Bytes.ofString ": no such user")
        pure failure
    | none =>
        if o.has 'u' || o.has 'g' || o.has 'G' then
          Job.say (Bytes.ofLine (if o.has 'n' then userName else "0"))
          pure 0
        else if o.has 'n' || o.has 'r' then
          Job.die (Bytes.ofString "cannot print only names or real IDs in default format")
        else
          Job.say (Bytes.ofLine "uid=0(root) gid=0(root) groups=0(root)")
          pure 0

/-- `uname`: says what system this is; nothing else is known of it. -/
def unameTool : Body ρ := fun args =>
  withOptions { plain := "so", long := [("kernel-name", 's'), ("operating-system", 'o')] }
        args failure fun o =>
    match o.operands with
    | extra :: _ => Job.extraOperand extra
    | [] => do
        let kernel := if o.has 's' || !o.has 'o' then ["Linux"] else []
        let system := if o.has 'o' then ["GNU/Linux"] else []
        Job.say (Bytes.ofLine (" ".intercalate (kernel ++ system)))
        pure 0

/-- `tty`: standard input is never a terminal. -/
def ttyTool : Body ρ := fun args =>
  withOptions { plain := "s", long := [("silent", 's'), ("quiet", 's')] } args 2 fun o => do
    if !o.has 's' then Job.say (Bytes.ofLine "not a tty")
    pure failure

end LineShell.Tool
