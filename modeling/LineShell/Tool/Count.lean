/-
`wc`: counting lines, words and bytes.

The columns are as wide as the size of all inputs together, as far as it
is known before they are read.
-/
import LineShell.Tool.Size

namespace LineShell.Tool

open Posix

variable {ρ : Type}

-- ================================================================ counting

/-- Does the byte separate words? -/
def isSpace (b : UInt8) : Bool := b = 32 || (9 ≤ b && b ≤ 13)

/-- How many words the bytes hold; bytes that do not print make none. -/
def countWords (data : Bytes) : Nat :=
  ((data.splitOnP isSpace).filter (·.any isShown)).length

/-- How wide the widest line is: the widest so far, and that of the line
at hand. -/
def widest : Nat → Nat → Bytes → Nat
  | most, here, [] => max most here
  | most, here, b :: rest =>
      if b = 10 || b = 13 || b = 12 then widest (max most here) 0 rest
      else if b = 9 then widest most (here + (8 - here % 8)) rest
      else widest most (if isShown b then here + 1 else here) rest

/-- What is counted of an input. -/
structure Counts where
  lines : Nat := 0
  words : Nat := 0
  bytes : Nat := 0
  width : Nat := 0

/-- The counts of some data. -/
def Counts.of (data : Bytes) : Counts :=
  { lines := data.count 10, words := countWords data, bytes := data.length,
    width := widest 0 0 data }

/-- The counts of two inputs together. -/
def Counts.and (a b : Counts) : Counts :=
  { lines := a.lines + b.lines, words := a.words + b.words, bytes := a.bytes + b.bytes
    width := max a.width b.width }

-- ================================================================== tables

/-- What is known of an input before it is read. -/
inductive Extent where
  | missing
  | sized (bytes : Nat)
  | unsized

/-- The extent of a node. -/
def extentOf (v : View) (id : NodeId) : Extent :=
  match v.world.tree.content id with
  | .file data => .sized data.length
  | _ => .unsized

/-- The extent of an input. -/
def extentAt (name : Bytes) (v : View) : Extent :=
  if name = dash then
    match v.file? Fd.stdin with
    | some (_, f) =>
        match f.target with
        | .node id => extentOf v id
        | _ => .unsized
    | none => .missing
  else
    match (Call.nodeAt name).attempt v with
    | (.ok id, _) => extentOf v id
    | _ => .missing

/-- How wide a column has to be for inputs of some extents. -/
def columnWidth (extents : List Extent) : Nat :=
  let size : Extent → Nat
    | .sized n => n
    | _ => 0
  let isUnsized : Extent → Bool
    | .unsized => true
    | _ => false
  let total : Nat := (extents.map size).foldl (· + ·) 0
  max (decimalOf total).length (if extents.any isUnsized then 7 else 1)

/-- The columns that options ask for. -/
def columnsOf (o : Options) (c : Counts) : List Nat :=
  let all := !("lwcmL".toList.any o.has)
  let column (wanted : Bool) (n : Nat) : List Nat := if wanted then [n] else []
  column (all || o.has 'l') c.lines ++ column (all || o.has 'w') c.words ++
    column (o.has 'm') c.bytes ++
    column (all || o.has 'c') c.bytes ++ column (o.has 'L') c.width

/-- A row of a table. -/
def countRow (o : Options) (width : Nat) (c : Counts) (name : Bytes) : Bytes :=
  joined ((columnsOf o c).map (aligned width)) ++ (if name.isEmpty then [] else 32 :: name) ++ [10]

-- ============================================================= the program

def wcSpec : Spec :=
  { plain := "clmwL", valued := "T"
    long :=
      [("bytes", 'c'), ("chars", 'm'), ("lines", 'l'), ("words", 'w'), ("max-line-length", 'L'),
       ("total", 'T')] }

/-- When the sums are shown. -/
inductive Totals where
  | auto | always | only | never
  deriving DecidableEq, Repr

/-- When options ask for the sums to be shown. -/
def totalsOf (o : Options) : Totals :=
  match o.value? 'T' with
  | none => .auto
  | some value =>
      if value.isPrefixOf (Bytes.ofString "only") then .only
      else if value.isPrefixOf (Bytes.ofString "never") then .never
      else if value = Bytes.ofString "always" then .always
      else .auto

/-- Counts an input: none if it could not be opened, and a bad status if
it could not be read. -/
def countInput (name : Bytes) : Job ρ (Option Counts × Int) := do
  match ← Job.readFile name with
  | .ok data => pure (some (.of data), 0)
  | .error (true, e) => do
      Job.complainOf (shown name) e
      pure (none, failure)
  | .error (false, e) => do
      Job.complainOf
        (if name = dash then inQuotes (Bytes.ofString "standard input") else shown name) e
      pure (some {}, failure)

/-- Prints a row, which is written at once. -/
def sayRow (row : Bytes) : Job ρ Unit := do
  Job.say row
  let _ ← Job.flush

/-- Shows the counts of each input, and gives the sums. -/
def countEach (o : Options) (width : Nat) (shows : Bool) :
    List Bytes → Counts → Job ρ (Counts × Int)
  | [], sums => pure (sums, 0)
  | name :: rest, sums => do
      let (counted, status) ← countInput name
      match counted with
      | some c =>
          if shows then sayRow (countRow o width c (if o.operands.isEmpty then [] else shown name))
      | none => pure ()
      let (sums, others) ← countEach o width shows rest (counted.elim sums sums.and)
      pure (sums, firstBad [status, others])

def wcTool : Body ρ := fun args =>
  withOptions wcSpec args failure fun o => do
    let names := Job.inputs o.operands
    let totals := totalsOf o
    let single := names.length = 1 && (columnsOf o {}).length = 1
    let extents ← names.mapM fun name => Job.view (extentAt name)
    let width := if single || totals = .only then 1 else columnWidth extents
    let (sums, status) ← countEach o width (totals ≠ .only) names {}
    let shows := totals = .always || totals = .only || (totals = .auto && 1 < names.length)
    if shows then
      sayRow (countRow o width sums (if totals = .only then [] else Bytes.ofString "total"))
    Job.closeStandardInput "-" names status

end LineShell.Tool
