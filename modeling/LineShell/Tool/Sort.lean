/-
`sort`: lines in order, by the whole line or by keys within it.

A key is a stretch of a line between two places, each a field and a byte
in it. Keys are compared in turn; lines that agree in all of them are
compared as a whole in the end, unless their first order is to stay.
-/
import LineShell.Tool.Size

namespace LineShell.Tool

open Posix

variable {ρ : Type}

-- =================================================================== lines

/-- Are the bytes in dictionary order? -/
def notAfter : Bytes → Bytes → Bool
  | [], _ => true
  | _ :: _, [] => false
  | a :: as, b :: bs => if a = b then notAfter as bs else a < b

/-- The lines of some data by the byte that ends them; the last may lack
it. -/
def linesBy (stop : UInt8) (data : Bytes) : List Bytes :=
  let parts := data.splitOnP (· == stop)
  if parts.getLast? == some [] then parts.dropLast else parts

/-- Lines, each with its end. -/
def withEnds (stop : UInt8) (lines : List Bytes) : Bytes := lines.flatMap (· ++ [stop])

/-- How two byte sequences compare. -/
def compareBytes (a b : Bytes) : Ordering :=
  if a = b then .eq else if notAfter a b then .lt else .gt

-- ==================================================================== keys

/-- How keys are compared. -/
structure Comparison where
  /-- Only blanks, letters and digits count. -/
  dictionary : Bool := false
  /-- Small letters count as capitals. -/
  fold : Bool := false
  /-- Only bytes that can be printed count. -/
  printableOnly : Bool := false
  numeric : Bool := false
  /-- Numbers with a power of ten. -/
  general : Bool := false
  reversed : Bool := false
  blanks : Bool := false
  deriving DecidableEq, Repr

/-- A place in a line: a field, and a byte in it. -/
structure Place where
  field : Nat
  byte : Nat := 0
  /-- Are blanks before it passed over? -/
  blanks : Bool := false
  deriving DecidableEq, Repr

structure Key where
  start : Place
  /-- The end of the line if there is none. -/
  stop : Option Place := none
  comparison : Comparison := {}
  deriving DecidableEq, Repr

/-- A blank within a line. -/
def isBlankByte (b : UInt8) : Bool := b = 32 || b = 9 || b = 10

/-- What follows so many fields. With a separator, `last` says whether the
one after the last of them is passed too. -/
def skipFields (separator : Option UInt8) (last : Bool) : Nat → Bytes → Bytes
  | 0, line => line
  | n + 1, line =>
      match separator with
      | some tab =>
          let rest := line.dropWhile (· ≠ tab)
          if n = 0 && !last then rest else skipFields separator last n (rest.drop 1)
      | none =>
          skipFields separator last n ((line.dropWhile isBlankByte).dropWhile (!isBlankByte ·))

/-- What follows a place at which a key starts. -/
def Place.after (p : Place) (separator : Option UInt8) (line : Bytes) : Bytes :=
  let rest := skipFields separator true p.field line
  (if p.blanks then rest.dropWhile isBlankByte else rest).drop p.byte

/-- What follows a place at which a key ends; without a byte, that is the
end of its field. -/
def Place.beyond (p : Place) (separator : Option UInt8) (line : Bytes) : Bytes :=
  if p.byte = 0 then skipFields separator false (p.field + 1) line
  else
    let rest := skipFields separator true p.field line
    (if p.blanks then rest.dropWhile isBlankByte else rest).drop p.byte

/-- The stretch of a line that a key is. -/
def Key.of (k : Key) (separator : Option UInt8) (line : Bytes) : Bytes :=
  let start := k.start.after separator line
  match k.stop with
  | none => start
  | some place => start.take (start.length - (place.beyond separator line).length)

/-- The decimal number at the start of a text; anything else counts as 0. -/
def numberAt (text : Bytes) : Decimal :=
  let isDigit (b : UInt8) : Bool := 48 ≤ b && b ≤ 57
  let text := text.dropWhile isBlankByte
  let negative := text.head? = some 45
  let text := if negative then text.drop 1 else text
  let whole := text.takeWhile isDigit
  let rest := text.drop whole.length
  let decimals := if rest.head? = some 46 then (rest.drop 1).takeWhile isDigit else []
  let n : Int := ((decimal? (whole ++ decimals)).getD 0 : Nat)
  { digits := if negative then -n else n, places := decimals.length }

/-- How two decimal numbers compare. -/
def compareDecimals (a b : Decimal) : Ordering :=
  let places := max a.places b.places
  compare (a.scaled places) (b.scaled places)

/-- The longest number at the start of a text, if there is one. -/
def generalNumberAt (text : Bytes) : Option Decimal :=
  (List.range (text.length + 1)).reverse.findSome? fun n => Decimal.read? (text.take n)

/-- How keys compare. -/
def Comparison.apply (c : Comparison) (a b : Bytes) : Ordering :=
  let kept (text : Bytes) : Bytes :=
    let counts (b : UInt8) : Bool :=
      (!c.dictionary || isBlankByte b || (b < 128 && (Char.ofNat b.toNat).isAlphanum)) &&
        (!c.printableOnly || isShown b)
    let text := if c.dictionary || c.printableOnly then text.filter counts else text
    if c.fold then text.map fun b => if 97 ≤ b && b ≤ 122 then b - 32 else b else text
  let order :=
    if c.numeric then compareDecimals (numberAt a) (numberAt b)
    else if c.general then
      match generalNumberAt a, generalNumberAt b with
      | some x, some y => compareDecimals x y
      | none, some _ => .lt
      | some _, none => .gt
      | none, none => .eq
    else compareBytes (kept a) (kept b)
  if c.reversed then order.swap else order

-- ================================================================== orders

/-- How lines are sorted. -/
structure Sorting where
  keys : List Key := []
  separator : Option UInt8 := none
  /-- Are lines that agree in all keys left as they were? -/
  stable : Bool := false
  unique : Bool := false
  reversed : Bool := false

/-- How lines compare by their keys. -/
def Sorting.byKeys (s : Sorting) (a b : Bytes) : Ordering :=
  s.keys.foldl
    (fun order k =>
      match order with
      | .eq => k.comparison.apply (k.of s.separator a) (k.of s.separator b)
      | order => order)
    .eq

/-- How lines compare. -/
def Sorting.compare (s : Sorting) (a b : Bytes) : Ordering :=
  let whole := if s.reversed then compareBytes b a else compareBytes a b
  if s.keys.isEmpty then whole
  else
    match s.byKeys a b with
    | .eq => if s.stable || s.unique then .eq else whole
    | order => order

/-- The first of each run of lines that are level. -/
def firstOfLevel (s : Sorting) : List Bytes → List Bytes
  | a :: b :: rest =>
      if s.compare a b = .eq then firstOfLevel s (a :: rest) else a :: firstOfLevel s (b :: rest)
  | lines => lines
termination_by lines => lines.length

/-- Lines in order. -/
def Sorting.sort (s : Sorting) (lines : List Bytes) : List Bytes :=
  let sorted := lines.mergeSort fun a b => s.compare a b ≠ .gt
  if s.unique then firstOfLevel s sorted else sorted

/-- The first line that is out of order, and its number. -/
def Sorting.disorder (s : Sorting) : Nat → List Bytes → Option (Nat × Bytes)
  | n, a :: b :: rest =>
      let order := s.compare a b
      if order = .gt || (s.unique && order = .eq) then some (n + 1, b)
      else disorder s (n + 1) (b :: rest)
  | _, _ => none

-- ============================================================ specifications

/-- The letters of comparisons. -/
def Comparison.add (c : Comparison) (letter : Char) : Option Comparison :=
  match letter with
  | 'd' => some { c with dictionary := true }
  | 'f' => some { c with fold := true }
  | 'i' => some { c with printableOnly := true }
  | 'n' => some { c with numeric := true }
  | 'g' => some { c with general := true }
  | 'r' => some { c with reversed := true }
  | 'b' => some { c with blanks := true }
  | _ => none

/-- The number at the start of a text, and what follows it. -/
def countAt (text : Bytes) : Option (Nat × Bytes) :=
  let digits := text.takeWhile fun b => 48 ≤ b && b ≤ 57
  (decimal? digits).map (·, text.drop digits.length)

/-- A place in a key's specification, one-based; a byte may be missing. -/
def placeAt (what : String) (isStart : Bool) (spec text : Bytes) :
    Except Bytes (Nat × Nat × Bytes) := do
  let invalid (why : String) : Bytes :=
    Bytes.ofString (why ++ ": invalid field specification ") ++ marked spec
  match countAt text with
  | none =>
      throw (Bytes.ofString ("invalid number " ++ what ++ ": invalid count at start of ") ++
        marked text)
  | some (0, _) => throw (invalid "field number is zero")
  | some (field, 46 :: rest) =>
      match countAt rest with
      | none =>
          throw (Bytes.ofString "invalid number after '.': invalid count at start of " ++
            marked rest)
      | some (byte, rest) =>
          if byte = 0 && isStart then throw (invalid "character offset is zero")
          else pure (field, byte, rest)
  | some (field, rest) => pure (field, if isStart then 1 else 0, rest)

/-- Letters of comparisons at the start of a text; the first value tells
whether blanks are passed over. -/
def lettersAt (c : Comparison) : Bytes → Bool × Comparison × Bytes
  | b :: rest =>
      match c.add (Char.ofNat b.toNat) with
      | some c' =>
          let (blanks, c'', rest) := lettersAt c' rest
          (blanks || b = 98, c'', rest)
      | none => (false, c, b :: rest)
  | [] => (false, c, [])

/-- A key by its specification. -/
def Key.read (spec : Bytes) : Except Bytes Key := do
  let stray : Bytes :=
    Bytes.ofString "stray character in field spec: invalid field specification " ++ marked spec
  let (field, byte, rest) ← placeAt "at field start" true spec spec
  let (startBlanks, c, rest) := lettersAt {} rest
  let start : Place := { field := field - 1, byte := byte - 1, blanks := startBlanks }
  match rest with
  | [] => pure { start, comparison := c }
  | 44 :: rest => do
      let (field, byte, rest) ← placeAt "after ','" false spec rest
      let (stopBlanks, c, rest) := lettersAt c rest
      if !rest.isEmpty then throw stray
      pure { start, stop := some { field := field - 1, byte, blanks := stopBlanks },
             comparison := c }
  | _ => throw stray

/-- A key that takes over the comparison of all if it has none itself. -/
def Key.inherit (k : Key) (all : Comparison) : Key :=
  if k.comparison = {} && !k.start.blanks && !(k.stop.any Place.blanks) then
    { k with
      comparison := all
      start := { k.start with blanks := all.blanks }
      stop := k.stop.map ({ · with blanks := all.blanks }) }
  else k

-- ============================================================= the program

def sortSpec : Spec :=
  { plain := "bdfginrcCmsuz", valued := "kotST"
    long :=
      [("ignore-leading-blanks", 'b'), ("dictionary-order", 'd'), ("ignore-case", 'f'),
       ("general-numeric-sort", 'g'), ("ignore-nonprinting", 'i'), ("numeric-sort", 'n'),
       ("reverse", 'r'), ("key", 'k'), ("field-separator", 't'), ("output", 'o'), ("merge", 'm'),
       ("check", 'c'), ("stable", 's'), ("unique", 'u'), ("zero-terminated", 'z')] }

/-- The status of `sort` in trouble. -/
def sortTrouble : Int := 2

/-- The byte that separates fields. -/
def separatorOf (o : Options) : Job ρ (Option UInt8) :=
  match o.value? 't' with
  | none => pure none
  | some [] => Job.die (Bytes.ofString "empty tab") sortTrouble
  | some [b] => pure (some b)
  | some [92, 48] => pure (some 0)
  | some text => Job.die (Bytes.ofString "multi-character tab " ++ marked text) sortTrouble

/-- How options ask for lines to be sorted. -/
def sortingOf (o : Options) : Job ρ Sorting := do
  let all := ("bdfginr".toList.filter o.has).foldl (fun c l => (c.add l).getD c) ({} : Comparison)
  let keys ← (o.values 'k').mapM fun spec =>
    match Key.read spec with
    | .ok k => pure (k.inherit all)
    | .error message => Job.die message sortTrouble
  let whole : Key := { start := { field := 0, blanks := all.blanks }, comparison := all }
  let keys := if keys.isEmpty && { all with reversed := false } ≠ {} then [whole] else keys
  pure
    { keys, separator := ← separatorOf o, stable := o.has 's', unique := o.has 'u'
      reversed := all.reversed }

/-- The lines of an input; `sort` ends where there are none. -/
def linesToSort (stop : UInt8) (name : Bytes) : Job ρ (List Bytes) := do
  if name = dash && (← Job.view fun v => (v.file? Fd.stdin).isNone) then
    Job.die (Bytes.ofString "stat failed: -: Bad file descriptor") sortTrouble
  match ← Job.readFile name with
  | .ok data => pure (linesBy stop data)
  | .error (unopened, e) =>
      Job.die (Bytes.ofString (if unopened then "cannot read: " else "read failed: ") ++
        shown name ++
        Bytes.ofString (": " ++ e.libraryText)) sortTrouble

/-- Says whether an input is in order. -/
def checkOrder (s : Sorting) (stop : UInt8) (quiet : Bool) (name : Bytes) : Job ρ Int := do
  match s.disorder 1 (← linesToSort stop name) with
  | none => pure 0
  | some (n, line) => do
      if !quiet then
        Job.complain (shown name ++ Bytes.ofString s!":{n}: disorder: " ++ line)
      pure failure

/-- Prints, and says at once if that fails. -/
def sayAtOnce (data : Bytes) : Job ρ Unit := do
  match ← Job.task (Task.writeAll Fd.stdout data) with
  | .ok () => pure ()
  | .error e => do
      modify ({ · with fault := some e })
      Job.complain (Bytes.ofString "fflush failed: 'standard output': " ++
        Bytes.ofString e.libraryText)

def sortTool : Body ρ := fun args =>
  withOptions sortSpec args sortTrouble fun o => do
    let s ← sortingOf o
    let stop : UInt8 := if o.has 'z' then 0 else 10
    let names := Job.inputs o.operands
    if o.has 'c' || o.has 'C' then
      match names with
      | [name] => checkOrder s stop (o.has 'C') name
      | _ =>
          Job.die (Bytes.ofString "extra operand " ++ marked ((names[1]?).getD []) ++
            Bytes.ofString (if o.has 'c' then " not allowed with -c"
              else " not allowed with -C")) sortTrouble
    else
      let lines ← names.mapM (linesToSort stop)
      let text := withEnds stop (s.sort lines.flatten)
      match o.value? 'o' with
      | none => do
          if !text.isEmpty then sayAtOnce text
          pure 0
      | some name =>
          match ← Job.call (Call.openFile name
              { Call.Mode.forOutput false with bits := 0o666 }) with
          | .error e =>
              Job.die (Bytes.ofString "open failed: " ++ shown name ++
                Bytes.ofString (": " ++ e.libraryText)) sortTrouble
          | .ok fd => do
              let _ ← Job.task (Task.writeAll fd text)
              pure 0

end LineShell.Tool
