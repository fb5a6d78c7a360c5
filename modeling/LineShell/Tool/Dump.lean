/-
`od`: bytes shown as numbers or characters.

Input is shown in rows of equally many bytes, each once for every format.
Fields of different formats are spread so that they stand under each
other, and a row that repeats the one before is shown as an asterisk.
-/
import LineShell.Tool.Fields

namespace LineShell.Tool

open Posix

variable {ρ : Type}

namespace Dump

-- ================================================================= formats

/-- How a field is written. -/
inductive Kind where
  | named
  | character
  | signed
  | unsigned
  | octal
  | hex
  deriving DecidableEq, Repr

structure Format where
  kind : Kind
  /-- How many bytes make a field. -/
  size : Nat := 1
  /-- Are the characters shown after a row? -/
  trailer : Bool := false
  deriving DecidableEq, Repr

/-- How wide a field is at most. -/
def Format.width (f : Format) : Nat :=
  match f.kind, f.size with
  | .named, _ | .character, _ => 3
  | .signed, 1 => 4
  | .signed, 2 => 6
  | .signed, 4 => 11
  | .signed, _ => 20
  | .unsigned, 1 => 3
  | .unsigned, 2 => 5
  | .unsigned, 4 => 10
  | .unsigned, _ => 20
  | .octal, 1 => 3
  | .octal, 2 => 6
  | .octal, 4 => 11
  | .octal, _ => 22
  | .hex, n => 2 * n

/-- The names of bytes that cannot be printed. -/
def byteNames : List String :=
  ["nul", "soh", "stx", "etx", "eot", "enq", "ack", "bel", "bs", "ht", "nl", "vt",
   "ff", "cr", "so", "si",
   "dle", "dc1", "dc2", "dc3", "dc4", "nak", "syn", "etb", "can", "em", "sub", "esc",
   "fs", "gs", "rs", "us",
   "sp"]

/-- Digits of a base, filled with zeros. -/
def filledDigits (base width n : Nat) : Bytes :=
  let ds := Nat.toDigits base n
  Bytes.ofString (String.ofList (List.replicate (width - ds.length) '0' ++ ds))

/-- A byte as a character. -/
def characterText (b : UInt8) : Bytes :=
  if isShown b then [b]
  else
    match [(0, 48), (7, 97), (8, 98), (9, 116), (10, 110),
          (11, 118), (12, 102), (13, 114)].lookup b with
    | some letter => [92, letter]
    | none => filledDigits 8 3 b.toNat

/-- The text of a field. -/
def Format.fieldText (f : Format) (bytes : Bytes) : Bytes :=
  let value := bytes.foldr (fun b n => n * 256 + b.toNat) 0
  match f.kind with
  | .character => characterText (bytes.headD 0)
  | .named =>
      let b := bytes.headD 0 % 128
      match byteNames[b.toNat]? with
      | some name => Bytes.ofString name
      | none => if b = 127 then Bytes.ofString "del" else [b]
  | .signed =>
      let half := Nat.pow 256 f.size / 2
      decimalOf (if value < half then (value : Int) else (value : Int) - (2 * half : Nat))
  | .unsigned => decimalOf value
  | .octal => filledDigits 8 f.width value
  | .hex => filledDigits 16 f.width value

/-- The letter of a size. -/
def letterSize (b : UInt8) : Option Nat := [(67, 1), (83, 2), (73, 4), (76, 8)].lookup b

/-- Why a text names no formats. -/
inductive Fault where
  | badLetter (letter : UInt8)
  | badSize (size : Bytes)

/-- The formats that a text names; so many at most. -/
def readFormats : Nat → Bytes → Except Fault (List Format)
  | 0, _ | _, [] => .ok []
  | n + 1, letter :: rest => do
      let numbered? : Option Kind :=
        [(100, Kind.signed), (117, .unsigned), (111, .octal), (120, .hex)].lookup letter
      let (format, rest) : Format × Bytes ←
        if letter = 97 then pure ({ kind := .named }, rest)
        else if letter = 99 then pure ({ kind := .character }, rest)
        else
          match numbered? with
          | none => throw (.badLetter letter)
          | some kind =>
              match rest.head?.bind letterSize with
              | some size => pure ({ kind, size }, rest.drop 1)
              | none =>
                  let digits := rest.takeWhile fun b => 48 ≤ b && b ≤ 57
                  match if digits.isEmpty then some 4 else decimal? digits with
                  | some size =>
                      if [1, 2, 4, 8].contains size then
                        pure ({ kind, size }, rest.drop digits.length)
                      else throw (.badSize digits)
                  | none => throw (.badSize digits)
      let trailer := rest.head? = some 122
      let others ← readFormats n (if trailer then rest.drop 1 else rest)
      pure ({ format with trailer } :: others)

-- ==================================================================== rows

/-- What rows look like. -/
structure Layout where
  formats : List Format
  /-- How many bytes make a row. -/
  width : Nat
  /-- The base of addresses and their number of digits; none for no
  addresses. -/
  address : Option (Nat × Nat)
  /-- Are rows shown that repeat the one before? -/
  all : Bool

/-- An address as it is shown. -/
def Layout.addressText (l : Layout) (n : Nat) : Bytes :=
  match l.address with
  | some (base, digits) => filledDigits base digits n
  | none => []

/-- How wide a row is for its widest format. -/
def Layout.rowWidth (l : Layout) : Nat :=
  (l.formats.map fun f => (f.width + 1) * (l.width / f.size)).foldl max 0

/-- The bytes in groups of a size. -/
def groupsOf (size : Nat) : Nat → Bytes → List Bytes
  | 0, _ | _, [] => []
  | n + 1, bytes => bytes.take size :: groupsOf size n (bytes.drop size)

/-- A row in one format, without its start. -/
def Layout.fields (l : Layout) (f : Format) (row : Bytes) : Bytes :=
  let count := l.width / f.size
  let spare := l.rowWidth - f.width * count
  let pads := (List.range count).map fun i =>
    spare * (count - i) / count - spare * (count - i - 1) / count
  ((groupsOf f.size count row).zip pads).flatMap fun (bytes, pad) =>
    let text := f.fieldText bytes
    List.replicate (pad + f.width - text.length) 32 ++ text

/-- The characters of a row after its fields. -/
def Layout.trailer (l : Layout) (f : Format) (row : Bytes) : Bytes :=
  let count := l.width / f.size
  let spare := l.rowWidth - f.width * count
  let blank := count - (row.length + f.size - 1) / f.size
  List.replicate (blank * f.width + spare * blank / count) 32 ++ Bytes.ofString "  >" ++
    (row.map fun b => if isShown b then b else 46) ++ [60]

/-- A row in all formats. -/
def Layout.rowText (l : Layout) (n : Nat) (row : Bytes) : Bytes :=
  let start := l.addressText n
  (l.formats.zipIdx).flatMap fun (f, i) =>
    (if i = 0 then start else List.replicate start.length 32) ++ l.fields f row ++
      (if f.trailer then l.trailer f row else []) ++ [10]

/-- All rows from an address on; `before` is the row before, and whether
it was shown as an asterisk. -/
def Layout.rows (l : Layout) : Nat → Nat → Option (Bytes × Bool) → Bytes → List Bytes
  | 0, n, _, _ | _, n, _, [] =>
      let address := l.addressText n
      if address.isEmpty then [] else [address ++ [10]]
  | count + 1, n, before, bytes =>
      let row := bytes.take l.width
      let rest := bytes.drop l.width
      match before with
      | some (last, starred) =>
          if !l.all && row = last && row.length = l.width then
            (if starred then [] else [[42, 10]]) ++
              l.rows count (n + row.length) (some (row, true)) rest
          else l.rowText n row :: l.rows count (n + row.length) (some (row, false)) rest
      | none => l.rowText n row :: l.rows count (n + row.length) (some (row, false)) rest

/-- The formats of letters that are options of their own. -/
def letterFormats : List (Char × Format) :=
  [('a', { kind := .named }), ('b', { kind := .octal }), ('c', { kind := .character }),
   ('d', { kind := .unsigned, size := 2 }), ('i', { kind := .signed, size := 4 }),
   ('l', { kind := .signed, size := 8 }), ('o', { kind := .octal, size := 2 }),
   ('s', { kind := .signed, size := 2 }), ('x', { kind := .hex, size := 2 }),
   ('h', { kind := .hex, size := 2 })]

end Dump

/-- The formats that options ask for, or a complaint. -/
def dumpFormats (o : Options) : Job ρ (List Dump.Format) := do
  let parts ← o.given.reverse.mapM fun (c, text) =>
    if c = 't' then
      match Dump.readFormats text.length text with
      | .ok formats => pure formats
      | .error (.badLetter b) =>
          Job.die (Bytes.ofString "invalid character '" ++ [b] ++
            Bytes.ofString "' in type string " ++ marked text)
      | .error (.badSize size) =>
          Job.die (Bytes.ofString "invalid type string " ++ marked text ++
            Bytes.ofString ";\nthis system doesn't provide a " ++ size ++
              Bytes.ofString "-byte integral type")
    else pure ((Dump.letterFormats.filter (·.1 = c)).map Prod.snd)
  let formats := parts.flatten
  pure (if formats.isEmpty then [{ kind := .octal, size := 2 }] else formats)

/-- A size in an option of `od`. -/
def dumpSize (o : Options) (letter : Char) : Job ρ (Option Nat) :=
  (o.value? letter).mapM fun text =>
    match readSize text with
    | .ok n => pure n
    | .error _ => Job.die (Bytes.ofString s!"invalid -{letter} argument " ++ marked text)

def odSpec : Spec :=
  { plain := "abcdhilosvx", valued := "AjNtw"
    long :=
      [("address-radix", 'A'), ("skip-bytes", 'j'), ("read-bytes", 'N'), ("format", 't'),
       ("output-duplicates", 'v'), ("width", 'w')] }

def odTool : Body ρ := fun args =>
  withOptions odSpec args failure fun o => do
    let address ←
      match o.value? 'A' with
      | none | some (111 :: _) => pure (some (8, 7))
      | some (100 :: _) => pure (some (10, 7))
      | some (120 :: _) => pure (some (16, 6))
      | some (110 :: _) => pure none
      | some text =>
          Job.die (Bytes.ofString "invalid output address radix '" ++ text.take 1 ++
            Bytes.ofString "'; it must be one character from [doxn]")
    let skip ← dumpSize o 'j'
    let most ← dumpSize o 'N'
    let formats ← dumpFormats o
    let width ← dumpSize o 'w'
    let largest := (formats.map (·.size)).foldl max 1
    let width := ((width.getD 16) / largest) * largest
    let names := Job.inputs o.operands
    let parts ← names.mapM fun name => do
      match ← Job.readFile name with
      | .ok data => pure (some data, (0 : Int))
      | .error (unopened, e) => do
          Job.complainOf
            (if name = dash then inQuotes (Bytes.ofString "standard input") else shown name) e
          pure (if unopened then none else some [], failure)
    if parts.all fun (data, _) => data.isNone then Job.exit failure
    let data := parts.flatMap fun (data, _) => data.getD []
    let start := skip.getD 0
    if data.length < start then Job.die (Bytes.ofString "cannot skip past end of combined input")
    let rest := data.drop start
    let rest := most.elim rest rest.take
    let layout : Dump.Layout := { formats, width := max width largest, address, all := o.has 'v' }
    Job.say (layout.rows (rest.length + 1) start none rest).flatten
    Job.closeStandardInput "standard input" names (firstBad (parts.map Prod.snd))

end LineShell.Tool
