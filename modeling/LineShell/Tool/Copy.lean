/-
Programs that pass their input on, or a part of it: `cat`, `tee`, `head`,
`tail`, `tac`.

A program that needs only the start of its input stops reading there. If
the input is a file, `head` even gives back what it read too much, so
that whoever shares the open file goes on after the last line that was
shown.
-/
import LineShell.Tool.Size

namespace LineShell.Tool

open Posix

variable {ρ : Type}

-- ==================================================================== cat

/-- How `cat` shows what it reads. -/
structure Show where
  ends : Bool := false
  tabs : Bool := false
  /-- Are bytes shown that cannot be printed? -/
  hidden : Bool := false
  numbers : Bool := false
  /-- Are empty lines left without a number? -/
  numbersBare : Bool := false
  squeeze : Bool := false

/-- The lines so far: their number, whether one is open, and how many of
the latest were empty. -/
structure Shown where
  line : Nat := 0
  isOpen : Bool := false
  blanks : Nat := 0

/-- A byte in printable signs. -/
def printable (b : UInt8) : Bytes :=
  let low (b : UInt8) : Bytes := if b < 32 then [94, b + 64] else if b = 127 then [94, 63] else [b]
  if b < 128 then low b else [77, 45] ++ low (b - 128)

/-- A byte as `cat` shows it, before the given rest of the input. -/
def Show.byte (w : Show) (b : UInt8) (rest : Bytes) : Bytes :=
  if b = 9 then (if w.tabs then [94, 73] else [9])
  else if b = 13 && w.ends && !w.hidden && rest.head? = some 10 then [94, 77]
  else if w.hidden then printable b
  else [b]

/-- Input as `cat` shows it, after some lines. -/
def Show.text (w : Show) : Shown → Bytes → List Bytes
  | _, [] => []
  | s, b :: rest =>
      let isEnd := b = 10
      let isBlank := isEnd && !s.isOpen
      let numbered := !s.isOpen && (if w.numbersBare then !isBlank else w.numbers)
      let blanks := if isBlank then s.blanks + 1 else if isEnd then 0 else s.blanks
      if isBlank && w.squeeze && 1 < blanks then w.text { s with blanks } rest
      else
        let line := if numbered then s.line + 1 else s.line
        let lead := if numbered then aligned 6 line ++ [9] else []
        let shown := if isEnd then (if w.ends then [36, 10] else [10]) else w.byte b rest
        let blanks := if isEnd then blanks else 0
        lead :: shown :: w.text { line, isOpen := !isEnd, blanks } rest

/-- Would reading from the descriptor feed on what is written to standard
output? -/
def feedsItself (fd : Fd) (v : View) : Bool :=
  match v.file? fd, v.file? Fd.stdout with
  | some (_, f), some (_, g) =>
      match f.target with
      | .node id =>
          match v.world.tree.content id with
          | .file data =>
              f.target = g.target && (g.append || g.offset ≤ f.offset) && f.offset < data.length
          | _ => false
      | _ => false
  | _, _ => false

/-- The lines that a text ends, after some lines. -/
def Shown.after (w : Show) (s : Shown) (text : Bytes) : Shown :=
  text.foldl
    (fun s b =>
      let isEnd := b = 10
      let isBlank := isEnd && !s.isOpen
      let blanks := if isBlank then s.blanks + 1 else 0
      let dropped := isBlank && w.squeeze && 1 < blanks
      let numbered := !s.isOpen && !dropped && (if w.numbersBare then !isBlank else w.numbers)
      { line := if numbered then s.line + 1 else s.line, isOpen := !isEnd, blanks })
    s

/-- Writes to standard output at once; the program ends if that fails. -/
def writeOut (data : Bytes) : Job ρ Unit := do
  match ← Job.task (Task.writeAll Fd.stdout data) with
  | .ok () => pure ()
  | .error e => Job.die (Bytes.ofString ("write error: " ++ e.libraryText))

def catSpec : Spec :=
  { plain := "AbeEnstTuv"
    long :=
      [("show-all", 'A'), ("number-nonblank", 'b'), ("show-ends", 'E'), ("number", 'n'),
       ("squeeze-blank", 's'), ("show-tabs", 'T'), ("show-nonprinting", 'v')] }

/-- Copies one input to standard output, after some lines. -/
def copyThrough (w : Show) (plain : Bool) (name : Bytes) (s : Shown) : Job ρ (Shown × Int) := do
  match ← Job.openInput name with
  | .error e => do
      Job.complainOf (shown name) e
      pure (s, failure)
  | .ok fd => do
      let result ←
        if ← Job.view (feedsItself fd) then do
          Job.complain (shown name ++ Bytes.ofString ": input file is output file")
          pure (s, failure)
        else do
          let pass (s : Shown) (block : Bytes) : Job ρ (Shown × Bool) := do
            writeOut (if plain then block else (w.text s block).flatten)
            pure (if plain then s else s.after w block, true)
          match ← Job.readBlocks fd pass s with
          | (s, none) => pure (s, 0)
          | (s, some e) => do
              Job.complainOf (shown name) e
              pure (s, failure)
      Job.closeInput fd
      pure result

/-- Copies inputs in turn. -/
def copyAll (w : Show) (plain : Bool) : List Bytes → Shown → Job ρ Int
  | [], _ => pure 0
  | name :: rest, s => do
      let (s, status) ← copyThrough w plain name s
      let others ← copyAll w plain rest s
      pure (firstBad [status, others])

def catTool : Body ρ := fun args =>
  withOptions catSpec args failure fun o => do
    let given (letters : String) : Bool := letters.toList.any o.has
    let w : Show :=
      { ends := given "AeE", tabs := given "AtT", hidden := given "Aetv"
        numbers := o.has 'n', numbersBare := o.has 'b', squeeze := o.has 's' }
    let names := Job.inputs o.operands
    match ← Job.view fun v => (v.file? Fd.stdout).isSome with
    | false => Job.die (Bytes.ofString "standard output: Bad file descriptor")
    | true => do
        let status ← copyAll w (!given "AbeEnstTv") names {}
        Job.closeStandardInput "closing standard input" names status

-- ==================================================================== tee

def teeSpec : Spec :=
  { plain := "aip", long := [("append", 'a'), ("ignore-interrupts", 'i')] }

/-- Writes a block to each of some files, and keeps those that took it. -/
def writeEach (block : Bytes) : List (Bytes × Fd) → Job ρ (List (Bytes × Fd))
  | [] => pure []
  | (name, fd) :: rest => do
      match ← Job.task (Task.writeAll fd block) with
      | .ok () => do
          let others ← writeEach block rest
          pure ((name, fd) :: others)
      | .error e => do
          Job.complainOf name e
          writeEach block rest

def teeTool : Body ρ := fun args =>
  withOptions teeSpec args failure fun o => do
    let opened ← o.operands.mapM fun name => do
      match ← Job.call (Call.openFile name
          { Call.Mode.forOutput (o.has 'a') with bits := 0o666 }) with
      | .ok fd => pure (some (shown name, fd))
      | .error e => do
          Job.complainOf (shown name) e
          pure none
    let all := (inQuotes (Bytes.ofString "standard output"), Fd.stdout) :: opened.filterMap id
    let pass (files : List (Bytes × Fd)) (block : Bytes) : Job ρ (List (Bytes × Fd) × Bool) := do
      let files ← writeEach block files
      pure (files, !files.isEmpty)
    let (left, error) ← Job.readBlocks Fd.stdin pass all
    match error with
    | some e => Job.complainOf (Bytes.ofString "read error") e
    | none => pure ()
    let failed := opened.any Option.isNone || left.length < all.length || error.isSome
    Job.closeStandardInput "standard input" [dash] (if failed then failure else 0)

-- =================================================================== head

/-- Gives back bytes that were read from a file; a pipe takes none. -/
def giveBack (fd : Fd) (count : Nat) (v : View) : View :=
  match v.file? fd with
  | some (n, f) =>
      match f.target with
      | .node _ => (Call.seekTo n (f.offset - count)).after v
      | _ => v
  | none => v

/-- How much `head` reads at once. -/
def headBlock : Nat := 8192

/-- The bytes up to the end of so many lines, and how many lines are
missing. -/
def takeLines (stop : UInt8) : Nat → Bytes → Bytes × Nat
  | 0, _ => ([], 0)
  | n + 1, [] => ([], n + 1)
  | n + 1, b :: rest =>
      let (taken, left) := takeLines stop (if b = stop then n else n + 1) rest
      (b :: taken, left)

/-- What follows so many lines. -/
def dropLines (stop : UInt8) : Nat → Bytes → Bytes
  | 0, data => data
  | _, [] => []
  | n + 1, b :: rest => dropLines stop (if b = stop then n else n + 1) rest

/-- The number of lines; the last may lack its end. -/
def lineCount (stop : UInt8) (data : Bytes) : Nat :=
  data.count stop + if data.isEmpty || data.getLast? = some stop then 0 else 1

/-- An input's name in complaints. -/
def inputName (name : Bytes) : Bytes :=
  if name = dash then Bytes.ofString "standard input" else name

/-- Complains that an input cannot be read. -/
def unreadable (name : Bytes) (e : Errno) : Job ρ Int := do
  Job.complainCannot "error reading" (inputName name) e
  pure failure

/-- Shows the first lines of an input. -/
def showLines (stop : UInt8) (count : Nat) (name : Bytes) (fd : Fd) : Job ρ Int := do
  if count = 0 then pure 0
  else
    let pass (missing : Nat) (block : Bytes) : Job ρ (Nat × Bool) := do
      let (taken, left) := takeLines stop missing block
      Job.say taken
      if left = 0 then Job.modifyView (giveBack fd (block.length - taken.length))
      pure (left, left ≠ 0)
    match ← Job.readBlocksIn fd headBlock pass blockBound count with
    | (_, none) => pure 0
    | (_, some e) => unreadable name e

/-- Shows the first bytes of an input, and reads no more. -/
def showBytes (name : Bytes) (fd : Fd) : Nat → Nat → Job ρ Int
  | 0, _ | _, 0 => pure 0
  | rounds + 1, count => do
      match ← Job.task (Task.read fd (min headBlock count)) with
      | .error e => unreadable name e
      | .ok [] => pure 0
      | .ok block => do
          Job.say block
          showBytes name fd rounds (count - block.length)

/-- Shows a part of all that an input has. -/
def showPart (part : Bytes → Bytes) (name : Bytes) (fd : Fd) : Job ρ Int := do
  match ← Job.readAll fd with
  | .ok data => do
      Job.say (part data)
      pure 0
  | .error e => unreadable name e

/-- The line over each of several inputs. -/
def headingOf (name : Bytes) : Bytes :=
  Bytes.ofString "==> " ++ inputName name ++ Bytes.ofLine " <=="

/-- Shows several inputs in turn, each under its name if so asked; an
empty line stands before each name but the first. -/
def eachHeaded (headed : Bool) (use : Bytes → Fd → Job ρ Int) : Bool → List Bytes → Job ρ Int
  | _, [] => pure 0
  | first, name :: rest => do
      match ← Job.openInput name with
      | .error e => do
          Job.complain (Bytes.ofString "cannot open " ++ inQuotes name ++
            Bytes.ofString (" for reading: " ++ e.libraryText))
          let _ ← eachHeaded headed use first rest
          pure failure
      | .ok fd => do
          if headed then Job.say ((if first then [] else [10]) ++ headingOf name)
          let status ← use name fd
          Job.closeInput fd
          let others ← eachHeaded headed use false rest
          pure (firstBad [status, others])

/-- The options of `head` and `tail`. -/
def partSpec : Spec :=
  { plain := "qvz", valued := "nc"
    long :=
      [("lines", 'n'), ("bytes", 'c'), ("quiet", 'q'), ("silent", 'q'), ("verbose", 'v'),
       ("zero-terminated", 'z')] }

/-- Shows each input by options about names. -/
def showEach (o : Options) (use : Bytes → Fd → Job ρ Int) : Job ρ Int := do
  let names := Job.inputs o.operands
  let headed := o.lastOf "qv" = some 'v' || (o.lastOf "qv" = none && 1 < names.length)
  let status ← eachHeaded headed use true names
  Job.closeStandardInput "-" names status

/-- What is counted: lines, or bytes; `true` for bytes. -/
def whatIsCounted (bytes : Bool) : String :=
  "invalid number of " ++ if bytes then "bytes" else "lines"

/-- The units asked for last, and how many. -/
def partAsked (o : Options) : Option (Bool × Bytes) :=
  match o.lastOf "nc" with
  | some 'c' => some (true, (o.value? 'c').getD [])
  | some _ => some (false, (o.value? 'n').getD [])
  | none => none

/-- An argument that is a dash and a number, with letters after it, as
options. -/
def shortCount : List Bytes → Job ρ (List Bytes)
  | (45 :: d :: ds) :: rest =>
      let digits := (d :: ds).takeWhile fun b => 48 ≤ b && b ≤ 57
      if digits.isEmpty then pure ((45 :: d :: ds) :: rest)
      else do
        let letters := (d :: ds).drop digits.length
        match letters.find? fun b =>
            !([98, 99, 107, 108, 109, 113, 118, 122] : Bytes).contains b with
        | some b => Job.misused (Bytes.ofString "invalid trailing option -- " ++ [b])
        | none => do
            let unit : Bytes :=
              if letters.any fun b => b = 98 || b = 99 || b = 107 || b = 109 then [99] else [110]
            let factor := letters.filter fun b => b = 98 || b = 107 || b = 109
            let others :=
              (letters.filter fun b => b = 113 || b = 118 || b = 122).map fun b => [45, b]
            pure ([(45 :: unit), digits ++ factor.take 1] ++ others ++ rest)
  | args => pure args

def headTool : Body ρ := fun args => do
  withOptions partSpec (← shortCount args) failure fun o => do
    let stop : UInt8 := if o.has 'z' then 0 else 10
    let (bytes, text) := (partAsked o).getD (false, Bytes.ofString "10")
    let fromEnd : Bool := text.head? = some 45
    let n ← sizeOrDie (whatIsCounted bytes) (if fromEnd then text.drop 1 else text)
    showEach o <|
      match bytes, fromEnd with
      | true, false => fun name fd => showBytes name fd (n + 1) n
      | true, true => showPart fun data => data.take (data.length - n)
      | false, false => showLines stop n
      | false, true => showPart fun data => (takeLines stop (lineCount stop data - n) data).1

-- =================================================================== tail

/-- The part of some data that `tail` shows: what follows all but so many
units, or what starts with a unit of some number. -/
def lastPart (stop : UInt8) (bytes fromStart : Bool) (n : Nat) (data : Bytes) : Bytes :=
  match bytes, fromStart with
  | true, true => data.drop (n - 1)
  | true, false => data.drop (data.length - n)
  | false, true => dropLines stop (n - 1) data
  | false, false => dropLines stop (lineCount stop data - n) data

/-- An argument that is a sign and a number, with a unit after it, as an
option; it has to come first, with one operand at most after it. -/
def shortPart : List Bytes → Job ρ (List Bytes)
  | (sign :: rest) :: operands => do
      let digits := rest.takeWhile fun b => 48 ≤ b && b ≤ 57
      let unit := rest.drop digits.length
      let isShort :=
        (sign = 43 || sign = 45) && !digits.isEmpty && (unit = [] || unit = [99] || unit = [108])
      if !isShort then pure ((sign :: rest) :: operands)
      else if operands.length ≤ 1 then
        pure ([[45, if unit = [99] then 99 else 110],
          (if sign = 43 then [43] else []) ++ digits] ++ operands)
      else if sign = 45 then
        Job.die (Bytes.ofString "option used in invalid context -- " ++ digits.take 1)
      else pure ((sign :: rest) :: operands)
  | args => pure args

def tailTool : Body ρ := fun args => do
  withOptions partSpec (← shortPart args) failure fun o => do
    let stop : UInt8 := if o.has 'z' then 0 else 10
    let (bytes, text) := (partAsked o).getD (false, Bytes.ofString "10")
    let fromStart : Bool := text.head? = some 43
    let n ← sizeOrDie (whatIsCounted bytes)
      (if fromStart || text.head? = some 45 then text.drop 1 else text)
    showEach o fun name fd => do
      match ← Job.view fun v => (v.file? fd).isSome with
      | false => do
          Job.complainCannot "cannot fstat" (inputName name) .EBADF
          pure failure
      | true => showPart (lastPart stop bytes fromStart n) name fd

-- ==================================================================== tac

/-- Lines with their ends; the last may lack its. -/
def wholeLines (data : Bytes) : List Bytes :=
  let parts := data.splitOnP (· == 10)
  let ended := parts.dropLast.map (· ++ [10])
  match parts.getLast? with
  | some [] | none => ended
  | some last => ended ++ [last]

def tacTool : Body ρ := fun args =>
  withOptions {} args failure fun o => do
    let names := Job.inputs o.operands
    let statuses ← names.mapM fun name => do
      match ← Job.readFile name with
      | .ok data => do
          Job.say (wholeLines data).reverse.flatten
          pure 0
      | .error (true, e) => do
          Job.complain (Bytes.ofString "failed to open " ++ inQuotes name ++
            Bytes.ofString (" for reading: " ++ e.libraryText))
          pure failure
      | .error (false, e) => do
          let label := if name = dash then inQuotes (inputName name) else shown name
          Job.complainOf (label ++ Bytes.ofString ": read error")
            (if e = .EISDIR then .EINVAL else e)
          pure failure
    Job.closeStandardInput "-" names (firstBad statuses)

end LineShell.Tool
