/-
Programs that compare lines that stand beside each other, in one file or
in two sorted ones: `uniq`, `comm`.
-/
import LineShell.Tool.Count
import LineShell.Tool.Copy
import LineShell.Tool.Sort

namespace LineShell.Tool

open Posix

variable {ρ : Type}

-- ==================================================================== uniq

def uniqSpec : Spec :=
  { plain := "cdDuiz", valued := "fsw"
    long :=
      [("count", 'c'), ("repeated", 'd'), ("unique", 'u'), ("ignore-case", 'i'),
       ("skip-fields", 'f'),
       ("skip-chars", 's'), ("check-chars", 'w'), ("zero-terminated", 'z')] }

/-- Runs of lines that agree in what is looked at. -/
def runs (look : Bytes → Bytes) : List Bytes → List (List Bytes)
  | [] => []
  | a :: rest =>
      match runs look rest with
      | (b :: more) :: others =>
          if look a = look b then (a :: b :: more) :: others else [a] :: (b :: more) :: others
      | others => [a] :: others

/-- What is looked at in a line: what follows some fields and bytes, up to
a number of bytes. -/
def lookedAt (fields bytes : Nat) (most : Option Nat) (fold : Bool) (line : Bytes) : Bytes :=
  let rest := (skipFields none true fields line).drop bytes
  let rest := most.elim rest rest.take
  if fold then rest.map fun b => if 65 ≤ b && b ≤ 90 then b + 32 else b else rest

/-- A count in an option of `uniq`. -/
def uniqCount (o : Options) (letter : Char) (fault : String) : Job ρ (Option Nat) :=
  match o.value? letter with
  | none => pure none
  | some text =>
      match decimal? text with
      | some n => pure (some n)
      | none => Job.die (text ++ Bytes.ofString (": invalid number of " ++ fault))

/-- The lines that stand for runs. -/
def shownRuns (o : Options) (groups : List (List Bytes)) : List Bytes :=
  let kept := groups.filter fun g => (!o.has 'd' || 1 < g.length) && (!o.has 'u' || g.length = 1)
  if o.has 'D' then (groups.filter fun g => 1 < g.length).flatten
  else kept.map fun g =>
    let line := g.headD []
    if o.has 'c' then aligned 7 g.length ++ 32 :: line else line

def uniqTool : Body ρ := fun args =>
  withOptions uniqSpec args failure fun o => do
    let fields ← uniqCount o 'f' "fields to skip"
    let bytes ← uniqCount o 's' "bytes to skip"
    let most ← uniqCount o 'w' "bytes to compare"
    if o.has 'c' && o.has 'D' then
      Job.misused (Bytes.ofString "printing all duplicated lines and repeat counts is meaningless")
    let stop : UInt8 := if o.has 'z' then 0 else 10
    let reduce (input : Bytes) (output : Bytes) : Job ρ Int := do
      match ← Job.openInput input with
      | .error e => do
          Job.complainOf (shown input) e
          pure failure
      | .ok fd => do
          let opened ←
            if output = dash then pure (.ok none)
            else do
              pure ((← Job.call (Call.openFile output
                  { Call.Mode.forOutput false with bits := 0o666 })).map some)
          match opened with
          | .error e => do
              Job.complainOf (shown output) e
              pure failure
          | .ok target => do
              match ← Job.readAll fd with
              | .error e => do
                  Job.complain (Bytes.ofString "error reading " ++ inQuotes input ++
                    Bytes.ofString (": " ++ e.libraryText))
                  pure failure
              | .ok data => do
                  let key := lookedAt (fields.getD 0) (bytes.getD 0) most (o.has 'i')
                  let groups := runs key (linesBy stop data)
                  let text := withEnds stop (shownRuns o groups)
                  match target with
                  | none => Job.say text
                  | some fd => let _ ← Job.task (Task.writeAll fd text)
                  pure 0
    match o.operands with
    | [] => reduce dash dash
    | [input] => reduce input dash
    | [input, output] => reduce input output
    | _ :: _ :: extra :: _ => Job.extraOperand extra

-- ==================================================================== comm

/-- How far `comm` has come in one file. -/
structure Column where
  /-- The line at hand, and those before it, the latest first. -/
  line : Option Bytes
  before : List Bytes := []
  rest : List Bytes
  /-- Was its order complained of? -/
  disorder : Bool := false

/-- The start of a file. -/
def Column.start (lines : List Bytes) : Column := { line := lines.head?, rest := lines.drop 1 }

/-- The next line of a file. -/
def Column.next (c : Column) : Column :=
  { c with line := c.rest.head?, before := c.line.toList ++ c.before, rest := c.rest.drop 1 }

/-- Is the latest line known to come after a later one? -/
def Column.isDisordered (c : Column) : Bool :=
  match c.line, c.before with
  | some line, last :: _ => !notAfter last line
  | none, last :: earlier :: _ => !notAfter earlier last
  | _, _ => false

/-- What `comm` prints, with the files that turn out not to be sorted in
between; so many steps at most. `unpaired`: a line was in one file only. -/
def commEvents (checks : Option Bool) : Nat → Bool → Column → Column → List (Nat × Bytes)
  | 0, _, _, _ => []
  | n + 1, unpaired, a, b =>
      let order : Option Ordering :=
        match a.line, b.line with
        | some x, some y => some (compareBytes x y)
        | some _, none => some .lt
        | none, some _ => some .gt
        | none, none => none
      match order with
      | none => []
      | some order =>
          let unpaired := unpaired || order ≠ .eq
          let event : Nat × Bytes :=
            match order with
            | .lt => (0, a.line.getD [])
            | .gt => (1, b.line.getD [])
            | .eq => (2, a.line.getD [])
          let looks := checks.getD unpaired
          let advance (moves : Bool) (c : Column) : Column × Bool :=
            let c := if moves then c.next else c
            let found := moves && looks && !c.disorder && c.isDisordered
            ({ c with disorder := c.disorder || found }, found)
          let (a, foundA) := advance (order ≠ .gt) a
          let (b, foundB) := advance (order ≠ .lt) b
          event :: ((if foundA then [(3, [])] else []) ++ (if foundB then [(4, [])] else []) ++
            commEvents checks n unpaired a b)

def commSpec : Spec :=
  { plain := "123zonT", valued := "D"
    long :=
      [("check-order", 'o'), ("nocheck-order", 'n'), ("output-delimiter", 'D'), ("total", 'T'),
       ("zero-terminated", 'z')] }

def commTool : Body ρ := fun args =>
  withOptions commSpec args failure fun o => do
    let stop : UInt8 := if o.has 'z' then 0 else 10
    let linesAt (name : Bytes) : Job ρ (List Bytes) := do
      match ← Job.readFile name with
      | .ok data => pure (linesBy stop data)
      | .error (_, e) => Job.die (shown name ++ Bytes.ofString (": " ++ e.libraryText))
    match o.operands with
    | [] => Job.missingOperand
    | [only] => Job.misused (Bytes.ofString "missing operand after " ++ marked only)
    | [first, second] => do
        let a ← linesAt first
        let b ← linesAt second
        let delimiter := (o.value? 'D').getD [9]
        let lead (column : Nat) : Bytes :=
          match column with
          | 0 => []
          | 1 => if o.has '1' then [] else delimiter
          | _ => (if o.has '1' then [] else delimiter) ++ if o.has '2' then [] else delimiter
        let checks := if o.has 'o' then some true else if o.has 'n' then some false else none
        let events := commEvents checks (a.length + b.length + 1) false (.start a) (.start b)
        for (kind, line) in events do
          if kind = 3 || kind = 4 then
            let message := s!"file {kind - 2} is not in sorted order"
            if o.has 'o' then Job.die (Bytes.ofString message) else Job.complainText message
          else if !o.has (['1', '2', '3'].getD kind '1') then Job.say (lead kind ++ line ++ [stop])
        if o.has 'T' then
          let total (kind : Nat) : Bytes := decimalOf (events.countP fun (k, _) => k = kind)
          Job.say (total 0 ++ delimiter ++ total 1 ++ delimiter ++ total 2 ++ delimiter ++
            Bytes.ofString "total" ++ [stop])
        match (← get).fault with
        | some e => Job.die (Bytes.ofString ("write error: " ++ e.libraryText))
        | none => pure ()
        if events.any fun (kind, _) => kind = 3 || kind = 4 then
          Job.die (Bytes.ofString "input is not in sorted order")
        pure 0
    | _ :: _ :: extra :: _ => Job.extraOperand extra

end LineShell.Tool
