/-
Programs that say how two files differ: `cmp` byte by byte, `diff` line by
line.

`diff` keeps as many lines as it can: a table of how long the longest
common part of every two tails is decides at each difference whether a
line was taken out or put in. Equal lines are always kept, so that a
change that could stand in several places stands in the last of them.
-/
import LineShell.Posix.Directory
import LineShell.Tool.Copy

namespace LineShell.Tool

open Posix

variable {ρ : Type}

/-- The status of a comparison that could not be made. -/
def trouble : Int := 2

/-- Complains of how a comparison was asked for, and ends the program. -/
def comparisonMisused {α : Type} (message : Bytes) : Job ρ α :=
  Spec.misused { advisesByName := true } message trouble

/-- Writes what waits before a comparison ends. -/
def endComparison (status : Int) : Job ρ Int := do
  match ← Job.flush with
  | none => pure status
  | some e => do
      Job.complainOf (Bytes.ofString "standard output") e
      Job.exit trouble

-- ===================================================================== cmp

/-- How `cmp` compares. -/
structure ByteComparison where
  /-- How much of each file is passed over. -/
  skips : Nat × Nat := (0, 0)
  /-- How many bytes are compared at most. -/
  most : Option Nat := none
  /-- Are all differences shown? -/
  all : Bool := false
  /-- Are the bytes shown? -/
  bytes : Bool := false
  silent : Bool := false

/-- How far two sequences of bytes agree: the bytes and lines passed, and
what is left. -/
def agreement : Bytes → Bytes → Nat → Nat → Nat × Nat × Bytes × Bytes
  | a :: as, b :: bs, bytes, lines =>
      if a = b then agreement as bs (bytes + 1) (if a = 10 then lines + 1 else lines)
      else (bytes, lines, a :: as, b :: bs)
  | as, bs, bytes, lines => (bytes, lines, as, bs)

/-- A number in three octal digits, filled with blanks. -/
def threeOctal (b : UInt8) : Bytes :=
  let ds := Nat.toDigits 8 b.toNat
  Bytes.ofString (String.ofList (List.replicate (3 - ds.length) ' ' ++ ds))

/-- The lines for all bytes that differ, after a number of bytes. -/
def differingBytes (c : ByteComparison) (width : Nat) : Nat → Bytes → Bytes → List Bytes
  | n, a :: as, b :: bs =>
      let rest := differingBytes c width (n + 1) as bs
      if a = b then rest
      else
        let sign := printable a
        let filled := sign ++ List.replicate (4 - sign.length) 32
        let row :=
          if c.bytes then joined [threeOctal a, filled, threeOctal b, printable b]
          else joined [threeOctal a, threeOctal b]
        (aligned width (n + 1) ++ 32 :: row ++ [10]) :: rest
  | _, _, _ => []

/-- What is compared of a file. -/
def ByteComparison.part (c : ByteComparison) (skip : Nat) (data : Bytes) : Bytes :=
  let rest := data.drop skip
  c.most.elim rest rest.take

/-- Complains that one file ended. -/
def complainOfEnd (c : ByteComparison) (name data : Bytes) (lines : Nat) : Job ρ Unit :=
  let count := data.length
  let place :=
    if data.isEmpty then " which is empty"
    else if c.all then s!" after byte {count}"
    else if data.getLast? = some 10 then s!" after byte {count}, line {lines}"
    else s!" after byte {count}, in line {lines + 1}"
  Job.complain (Bytes.ofString "EOF on " ++ name ++ Bytes.ofString place)

/-- Says how two files differ. -/
def compareFiles (c : ByteComparison) (a b x y : Bytes) : Job ρ Int := do
  let (x, y) := (c.part c.skips.1 x, c.part c.skips.2 y)
  let (bytes, lines, restX, restY) := agreement x y 0 0
  let ending : Job ρ Unit :=
    if x.length < y.length then complainOfEnd c a x lines
    else if y.length < x.length then complainOfEnd c b y lines
    else pure ()
  match restX, restY with
  | [], [] => pure 0
  | p :: _, q :: _ => do
      if c.silent then pure failure
      else if c.all then
        let width := (decimalOf (min x.length y.length)).length
        Job.say (differingBytes c width 0 x y).flatten
        ending
        pure failure
      else
        let unit := if c.bytes then "byte" else "char"
        let values :=
          if c.bytes then
            Bytes.ofString " is " ++ joined [threeOctal p, printable p, threeOctal q, printable q]
          else []
        Job.say (a ++ [32] ++ b ++
          Bytes.ofString s!" differ: {unit} {bytes + 1}, line {lines + 1}" ++ values ++ [10])
        pure failure
  | _, _ => do
      if !c.silent then ending
      pure failure

def cmpSpec : Spec :=
  { plain := "bls", valued := "in", advisesByName := true
    long :=
      [("print-bytes", 'b'), ("ignore-initial", 'i'), ("verbose", 'l'), ("bytes", 'n'),
       ("quiet", 's'),
       ("silent", 's')] }

/-- A size for `cmp`. -/
def cmpSize (what : String) (text : Bytes) : Job ρ Nat :=
  match readSize text with
  | .ok n => pure n
  | .error _ =>
      comparisonMisused (Bytes.ofString ("invalid --" ++ what ++ " value ") ++ marked text)

/-- How much the options and operands tell to pass over. -/
def cmpSkips (o : Options) : Job ρ (Nat × Nat) := do
  match o.value? 'i', o.operands.drop 2 with
  | _, [first] => do pure (← cmpSize "ignore-initial" first, 0)
  | _, [first, second] => do
      pure (← cmpSize "ignore-initial" first, ← cmpSize "ignore-initial" second)
  | some text, _ =>
      let first := text.takeWhile (· ≠ 58)
      let m ← cmpSize "ignore-initial" first
      if first.length = text.length then pure (m, m)
      else do pure (m, ← cmpSize "ignore-initial" (text.drop (first.length + 1)))
  | none, _ => pure (0, 0)

/-- The data of a file to compare. -/
def comparedFile (silent : Bool) (name : Bytes) : Job ρ Bytes := do
  match ← Job.readFile name with
  | .ok data => pure data
  | .error (unopened, e) => do
      if !(silent && unopened) then Job.complainOf name e
      Job.exit trouble

def cmpTool : Body ρ := fun args =>
  withOptions cmpSpec args trouble fun o => do
    let most ← (o.value? 'n').mapM (cmpSize "bytes")
    let c : ByteComparison := { most, all := o.has 'l', bytes := o.has 'b', silent := o.has 's' }
    if c.all && c.silent then
      comparisonMisused (Bytes.ofString "options -l and -s are incompatible")
    match o.operands with
    | [] => comparisonMisused (Bytes.ofString "missing operand after " ++ marked (← get).tool)
    | _ :: _ :: _ :: _ :: extra :: _ =>
        comparisonMisused (Bytes.ofString "extra operand " ++ marked extra)
    | a :: rest => do
        let b := rest.headD dash
        let c := { c with skips := ← cmpSkips o }
        if a = b && c.skips.1 = c.skips.2 then
          let _ ← comparedFile c.silent a
          pure 0
        else
          let x ← comparedFile c.silent a
          let y ← comparedFile c.silent b
          endComparison (← compareFiles c a b x y)

-- ==================================================================== diff

/-- What may happen to a line. -/
inductive Edit where
  | keep
  | delete (line : Bytes)
  | insert (line : Bytes)
  deriving DecidableEq, Repr

/-- How long the longest common part of some lines and each tail of others
is, given the same for the lines after the first. -/
def commonRow (same : Bytes → Bytes → Bool) (line : Bytes) : List Bytes → List Nat → List Nat
  | b :: bs, below :: rest =>
      let row := commonRow same line bs rest
      (if same line b then rest.headD 0 + 1 else max below (row.headD 0)) :: row
  | _, _ => [0]

/-- The rows for all tails of some lines, the first for all of them. -/
def commonRows (same : Bytes → Bytes → Bool) (bs : List Bytes) : List Bytes → List (List Nat)
  | [] => [List.replicate (bs.length + 1) 0]
  | a :: as =>
      let rows := commonRows same bs as
      commonRow same a bs (rows.headD []) :: rows

/-- The edits that lead from some lines to others; `rows` tells how much
they have in common. -/
def editsBetween (same : Bytes → Bytes → Bool) :
    List Bytes → List Bytes → List (List Nat) → List Edit
  | [], bs, _ => bs.map .insert
  | as, [], _ => as.map .delete
  | a :: as, b :: bs, rows =>
      if same a b then .keep :: editsBetween same as bs ((rows.drop 1).map (·.drop 1))
      else if (rows.headD []).getD 1 0 ≤ ((rows.getD 1 []).headD 0) then
        .delete a :: editsBetween same as (b :: bs) (rows.drop 1)
      else .insert b :: editsBetween same (a :: as) bs (rows.map (·.drop 1))
termination_by as bs => as.length + bs.length

/-- A line behind a sign, and a note if it has no end. -/
def signedLine (sign : UInt8) (line : Bytes) : Bytes :=
  sign :: 32 :: line ++
    if line.getLast? = some 10 then [] else 10 :: Bytes.ofLine "\\ No newline at end of file"

/-- Numbers of lines: the last of so many before, and a range of some. -/
def lineRange (before count : Nat) : Bytes :=
  if count ≤ 1 then decimalOf (before + count)
  else decimalOf (before + 1) ++ 44 :: decimalOf (before + count)

/-- One change: lines deleted and inserted, after so many lines in either
file. -/
def changeText (a b : Nat) (deleted inserted : List Bytes) : Bytes :=
  let letter : UInt8 := if deleted.isEmpty then 97 else if inserted.isEmpty then 100 else 99
  lineRange a deleted.length ++ letter :: lineRange b inserted.length ++ [10] ++
    deleted.flatMap (signedLine 60) ++
    (if letter = 99 then Bytes.ofLine "---" else []) ++ inserted.flatMap (signedLine 62)

/-- The text of edits, of which some were collected before, after so many
lines in either file. -/
def changesText : Nat → Nat → List Bytes → List Bytes → List Edit → List Bytes
  | a, b, deleted, inserted, edits =>
      let change : List Bytes :=
        if deleted.isEmpty && inserted.isEmpty then [] else [changeText a b deleted inserted]
      match edits with
      | [] => change
      | .keep :: rest =>
          change ++ changesText (a + deleted.length + 1) (b + inserted.length + 1) [] [] rest
      | .delete line :: rest => changesText a b (deleted ++ [line]) inserted rest
      | .insert line :: rest => changesText a b deleted (inserted ++ [line]) rest
termination_by _ _ _ _ edits => edits.length

def diffSpec : Spec :=
  { plain := "qsiwba", advisesByName := true
    long :=
      [("brief", 'q'), ("report-identical-files", 's'), ("ignore-case", 'i'),
       ("ignore-all-space", 'w'),
       ("ignore-space-change", 'b'), ("text", 'a')] }

/-- What is compared of a line. -/
def comparedLine (o : Options) (line : Bytes) : Bytes :=
  let isGap (b : UInt8) : Bool := b = 32 || (9 ≤ b && b ≤ 13)
  let line := if o.has 'i' then line.map fun b => if 65 ≤ b && b ≤ 90 then b + 32 else b else line
  if o.has 'w' then line.filter (!isGap ·)
  else if o.has 'b' then joined ((line.splitOnP isGap).zipIdx.filterMap fun (part, i) =>
    if part.isEmpty && i ≠ 0 then none else some part)
  else line

/-- The text of all changes between two files. -/
def differenceText (o : Options) (x y : Bytes) : List Bytes :=
  let (xs, ys) := (wholeLines x, wholeLines y)
  let same (a b : Bytes) : Bool := comparedLine o a = comparedLine o b
  let common := ((xs.zip ys).takeWhile fun (a, b) => same a b).length
  let (xs, ys) := (xs.drop common, ys.drop common)
  changesText common common [] [] (editsBetween same xs ys (commonRows same ys xs))

/-- Says how two files with some data differ. -/
def reportDifference (o : Options) (a b x y : Bytes) : Job ρ Int := do
  let pair := a ++ Bytes.ofString " and " ++ b
  let binary := !o.has 'a' && (x.contains 0 || y.contains 0)
  let changes := if binary || x = y then [] else differenceText o x y
  if x = y || (!binary && changes.isEmpty) then
    if o.has 's' then Job.say (Bytes.ofString "Files " ++ pair ++ Bytes.ofLine " are identical")
    pure 0
  else do
    Job.say <|
      if o.has 'q' then Bytes.ofString "Files " ++ pair ++ Bytes.ofLine " differ"
      else if binary then Bytes.ofString "Binary files " ++ pair ++ Bytes.ofLine " differ"
      else changes.flatten
    pure failure

/-- The two names to compare: a file is compared with the one of its name
in a directory. -/
def comparedNames (a b : Bytes) (v : View) : Bytes × Bytes :=
  let isDirectory (name : Bytes) : Bool := Call.isDirectoryAt name .target v
  let inside (dir name : Bytes) : Bytes :=
    let last := ((FileTree.components name).getLast?).getD []
    if FileTree.endsInSlash dir then dir ++ last else dir ++ FileTree.slash :: last
  if a = dash || b = dash then (a, b)
  else
    match isDirectory a, isDirectory b with
    | true, false => (inside a b, b)
    | false, true => (a, inside b a)
    | _, _ => (a, b)

def diffTool : Body ρ := fun args =>
  withOptions diffSpec args trouble fun o => do
    match o.operands with
    | [] => comparisonMisused (Bytes.ofString "missing operand after " ++ marked (← get).tool)
    | [only] => comparisonMisused (Bytes.ofString "missing operand after " ++ marked only)
    | _ :: _ :: extra :: _ => comparisonMisused (Bytes.ofString "extra operand " ++ marked extra)
    | [a, b] => do
        let (a, b) ← Job.view (comparedNames a b)
        if a = b then
          let x ← comparedFile false a
          endComparison (← reportDifference o a b x x)
        else
          let x ← Job.readFile a
          let y ← Job.readFile b
          match x, y with
          | .ok x, .ok y => do endComparison (← reportDifference o a b x y)
          | x, y => do
              match x with
              | .error (_, e) => Job.complainOf a e
              | .ok _ => pure ()
              match y with
              | .error (_, e) => Job.complainOf b e
              | .ok _ => pure ()
              pure trouble

end LineShell.Tool
