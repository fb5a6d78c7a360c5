/-
Running statements.

A statement is run in the process of the script, except for the parts of
a pipeline, statements in parentheses or in the background, and scripts
whose output is wanted, which get processes of their own. A program gets
a process of its own too, unless its process ends after it anyway, when
the program takes its place.

How a kind of statement is run is said in terms of a runner for the
statements within; `run` ties the two together, so many levels deep.
-/
import LineShell.Posix.Search
import LineShell.Script.Builtin
import LineShell.Script.Divert
import LineShell.Script.Parse

namespace LineShell.Script

open Posix

variable {ρ : Type}

-- ================================================================ runners

/-- What is known where a statement is run. -/
structure How where
  /-- Does the process end after it? -/
  exits : Bool := false
  /-- Is its status looked at, so that failing does not end the script? -/
  tested : Bool := false

/-- What runs a statement. -/
abbrev Runner (ρ : Type) := How → Statement → Act ρ Unit

/-- Sets the status. -/
def setStatus (status : Int) : Act ρ Unit := modify ({ · with status })

/-- Sets the line that messages name. -/
def setLine (line : Nat) : Act ρ Unit := modify ({ · with line })

/-- Is there anything to be done on a signal or at the end? -/
def Frame.hasTraps (f : Frame) : Bool := f.traps.any fun (_, action) => !action.isEmpty

-- ================================================================== lines

/-- A text to be read in a script as it is now. -/
def Frame.prepare (f : Frame) (source : Source) : Source :=
  { source with next := f.nextDocument, documents := [], aliases := f.aliases }

/-- Reads the next command line of a text. -/
def readLineOf (source : Source) : Act ρ (Reading × Source) := do
  let (reading, source) := ((← get).prepare source).read
  modify fun f =>
    { f with nextDocument := source.next, documents := source.documents ++ f.documents }
  match reading with
  | .ok reading => pure (reading, source)
  | .error fault => do
      setLine source.line
      fail (Bytes.ofString fault.message)

/-- Runs the lines of a text, at most so many, each before the next is
read. The value is the status of the last one that has a statement. -/
def runLines (run : Runner ρ) (how : How) : Nat → Source → Int → Act ρ Int
  | 0, _, status => pure status
  | n + 1, source, status => do
      match ← readLineOf source with
      | (.finish, _) => pure status
      | (.blank, source) => runLines run how n source status
      | (.statement s, source) => do
          run how s
          runLines run how n source (← get).status

/-- Runs a text. -/
def runText (run : Runner ρ) (how : How) (text : Bytes) : Act ρ Int :=
  runLines run how (text.length + 1) { rest := text } 0

-- ================================================================== traps

/-- Does what is to be done on a signal. The status stays as it was,
unless that leaves a function. -/
def runTrap (run : Runner ρ) (action : Bytes) : Act ρ Unit := do
  let outer := (← get).kept
  let status := outer.getD (← get).status
  modify ({ · with kept := some status })
  try
    let _ ← runText run {} action
    pure ()
  catch e =>
    match e with
    | .call => modify ({ · with kept := outer })
    | .loops _ | .rounds _ => modify ({ · with kept := outer, status })
    | .script | .error => pure ()
    throw e
  modify ({ · with kept := outer, status })

/-- Does what is to be done on the signals that have come. -/
def runTraps (run : Runner ρ) : Act ρ Unit := do
  if (← get).traps.any fun (n, action) => n ≠ 0 && !action.isEmpty then
    let pending ← (Task.view fun v => v.process.pending : Task ρ (List Nat))
    if !pending.isEmpty then
      (Task.modify fun v => v.modifyProcess ({ · with pending := [] }) : Task ρ Unit)
      for signal in pending.mergeSort do
        match (← get).traps.lookup signal with
        | some action => runTrap run action
        | none => pure ()

/-- Ends the process with what is to be done at its end. -/
def finish (run : Runner ρ) (f : Frame) : Task ρ Empty := do
  match f.traps.lookup 0 with
  | none => Task.exit f.status
  | some action => do
      let f := { f with traps := f.traps.filter (·.1 ≠ 0), kept := some f.status, builtin := none }
      let (result, g) ← (runText run {} action).run.run f
      match result with
      | .error .script | .error .error => Task.exit g.status
      | _ => Task.exit f.status

-- ============================================================== processes

/-- Makes `/dev/null` the standard input. -/
def withoutInput : Call Unit := do
  let fd ← Call.openFile (Bytes.ofString "/dev/null") { read := true, closeOnExec := false }
  moveFd fd Fd.stdin

/-- Starts a process for a part of the script. `background`: interrupts
do not end it. -/
def startPart (run : Runner ρ) (background : Bool) (setup : Call Unit) (body : Act ρ Unit) :
    Act ρ Pid := do
  let f ← get
  let part : Task ρ Empty := do
    let f ← forgetTraps f
    if background then
      Task.modify (setDisposition Signal.interrupt (some []))
      Task.modify (setDisposition Signal.quit (some []))
    let _ ← Task.call setup
    let (_, f) ← body.run.run { f with jobs := [], ended := [] }
    finish run f
  (Task.fork part.run : Task ρ Pid)

/-- What a script prints that runs in a process of its own. -/
def captureOf (run : Runner ρ) : Capture ρ
  | .nothing => pure []
  | body => do
      match ← (Task.call Call.pipe : Task ρ (Except Errno (Fd × Fd))) with
      | .error _ => fail (Bytes.ofString "Pipe call failed")
      | .ok (r, w) => do
          let setup : Call Unit := do
            Call.close r
            moveFd w Fd.stdout
          let pid ← startPart run false setup (run { exits := true } body)
          let data ← (do
            let _ ← Task.call (Call.close w)
            let data ← Tool.readAll r
            let _ ← Task.call (Call.close r)
            pure data : Task ρ (Except Errno Bytes))
          let status ← waitForJob [pid]
          modify ({ · with captured := status })
          pure (data.toOption.getD [])

/-- Starts the parts of a pipeline, the first with an input given or
else that of the script. -/
def startParts (run : Runner ρ) (how : How) (background : Bool) :
    List Statement → Option Fd → Act ρ (List Pid)
  | [], _ => pure []
  | s :: rest, input => do
      let first := input.isNone
      let output : Option (Fd × Fd) ←
        if rest.isEmpty then pure none
        else
          match ← (Task.call Call.pipe : Task ρ (Except Errno (Fd × Fd))) with
          | .ok ends => pure (some ends)
          | .error _ => do
              match input with
              | some fd => let _ ← (Task.call (Call.close fd) : Task ρ (Except Errno Unit))
              | none => pure ()
              fail (Bytes.ofString "Pipe call failed")
      let setup : Call Unit := do
        if background && first then withoutInput
        if let some (r, _) := output then Call.close r
        if let some fd := input then moveFd fd Fd.stdin
        if let some (_, w) := output then moveFd w Fd.stdout
      let pid ← startPart run background setup (run { how with exits := true } s)
      let _ ← (Task.call (do
        if let some fd := input then Call.close fd
        if let some (_, w) := output then Call.close w) : Task ρ (Except Errno Unit))
      let pids ← startParts run how background rest (output.map Prod.fst)
      pure (pid :: pids)

/-- Remembers processes as those of a statement in the background. -/
def noteJob (pids : List Pid) : Act ρ Unit :=
  modify fun f =>
      { f with jobs := pids :: f.jobs, latest := pids.getLast?.or f.latest, status := 0 }

-- =============================================================== programs

/-- The status of a program that could not be run. -/
def execStatus (e : Errno) : Int :=
  if e = .ENOENT || e = .ENOTDIR || e = .ELOOP || e = .ENAMETOOLONG then exitNotFound
  else exitNotExecutable

/-- Tries to run the program at one path after the other; the value is why
that failed, a missing file being no news. -/
def tryPaths (argv : List Bytes) : List Bytes → Errno → Task ρ Errno
  | [], e => pure e
  | path :: rest, e => do
      let e' ← Search.execAt path argv
      tryPaths argv rest (if e' = .ENOENT || e' = .ENOTDIR then e else e')

/-- Runs a program in place of the process, or gives why not. -/
def tryProgram (f : Frame) (paths argv : List Bytes) : Task ρ Errno := do
  let env ← Task.view fun v => v.process.env
  Task.modify fun v => v.modifyProcess ({ · with env := Variables.environment f.vars })
  let e ← match paths with
    | [path] => Search.execAt path argv
    | _ => tryPaths argv paths .ENOENT
  Task.modify fun v => v.modifyProcess ({ · with env })
  pure e

/-- Runs a program in place of the process; if that fails, it is said, and
the script ends. -/
def replaceBy (paths argv : List Bytes) : Act ρ Unit := do
  let e ← (tryProgram (← get) paths argv : Task ρ Errno)
  warn (argv.headD [] ++ Bytes.ofString (": " ++ programFault e))
  setStatus (execStatus e)
  throw .script

/-- The paths at which the program of a name may be. -/
def pathsOf (search : List Bytes) (name : Bytes) : Act ρ (Except Errno (List Bytes)) := do
  if name.contains FileTree.slash then pure (.ok [name])
  else
    let v ← (Task.view id : Task ρ View)
    pure (findIn v name search .ENOENT)

/-- Runs a program in a process of its own, or in place of one that has
nothing else to do. -/
def runProgram (how : How) (standard : Bool) (name : Bytes) (argv : List Bytes) : Act ρ Unit := do
  let f ← get
  match ← pathsOf (if standard then standardSearchPath else f.searchPath) name with
  | .error e => do
      warn (name ++ Bytes.ofString (": " ++ programFault e))
      setStatus exitNotFound
  | .ok paths =>
      if !standard && !name.contains FileTree.slash then
        modify fun f => { f with found := f.found.erase name ++ [name] }
      if how.exits && !f.hasTraps then replaceBy paths argv
      else
        let child : Task ρ Empty := do
          let (_, f) ← (replaceBy paths argv).run.run f
          Task.exit f.status
        let pid ← (Task.fork child.run : Task ρ Pid)
        setStatus (← waitForJob [pid])

-- =============================================================== builtins

/-- Runs a builtin under its name. An error in it ends the script only if
it is a special one. -/
def underName (name : Bytes) (special : Bool) (body : Act ρ Int) : Act ρ Unit := do
  let outer := (← get).builtin
  modify ({ · with builtin := some name })
  try
    let status ← body
    modify ({ · with builtin := outer, status })
  catch e =>
    modify ({ · with builtin := outer })
    if e ≠ .error || special then throw e

/-- The path of a script to be read in, found by the search path. -/
def scriptPath (name : Bytes) : Act ρ Bytes := do
  if name.contains FileTree.slash then pure name
  else
    let v ← (Task.view id : Task ρ View)
    match findIn v name (← get).searchPath .ENOENT with
    | .ok (path :: _) => pure path
    | _ => failOf name "not found"

/-- `.`: runs the lines of a file here. -/
def sourceBuiltin (run : Runner ρ) : Builtin ρ := fun args => do
  let (_, operands) ← optionsOf "" "" args
  match operands with
  | [] => pure 0
  | name :: _ => do
      let path ← scriptPath name
      match ← (Tool.readFile path : Task ρ (Except (Bool × Errno) Bytes)) with
      | .error (true, e) =>
          fail (Bytes.ofString "cannot open " ++ path ++ Bytes.ofString (": " ++ openFault e))
      | .error (false, _) => pure 0
      | .ok text => do
          modify ({ · with builtin := some path })
          try runText run {} text
          catch e => if e = .call then pure (← get).status else throw e

/-- `eval`: runs its arguments as a script. -/
def evalBuiltin (run : Runner ρ) (how : How) : Builtin ρ := fun args =>
  runText run { tested := how.tested } (Tool.joined args)

/-- `exec`: runs a program in place of the script. -/
def execBuiltin : Builtin ρ := fun args => do
  match (← optionsOf "" "" args).2 with
  | [] => pure 0
  | name :: rest => do
      match ← pathsOf ((← get).searchPath) name with
      | .ok paths => replaceBy paths (name :: rest)
      | .error e => do
          warn (name ++ Bytes.ofString (": " ++ programFault e))
          setStatus (execStatus e)
          throw .script
      pure 0

/-- `command`, where it is to say what a name stands for. -/
def commandBuiltin : Builtin ρ := fun args => do
  let (given, operands) ← optionsOf "pvV" "" args
  let f ← get
  let wordy := given.any (·.1 = 'V')
  match operands with
  | name :: _ =>
      if wordy || given.any (·.1 = 'v') then
        let search := if given.any (·.1 = 'p') then standardSearchPath else f.searchPath
        let v ← (Task.view id : Task ρ View)
        let (text, found) := describe builtinNames wordy search name f v
        let status ← emit text
        pure (if found then status else exitNotFound)
      else pure 0
  | [] => pure 0

-- ================================================================== calls

/-- Calls a function: it has arguments of its own, and leaving it ends the
call only. -/
def callFunction (run : Runner ρ) (how : How)
    (body : Statement) (args : List Bytes) : Act ρ Unit := do
  let outer ← get
  modify ({ · with args, index := 1, letter := 0, loops := 0, calls := outer.calls + 1 })
  let called : Act ρ Unit := do
    try run { tested := how.tested } body
    catch e => if e ≠ .call then throw e
  andThen called <|
    modify
      ({ · with
        args := outer.args, index := outer.index, letter := outer.letter
        loops := outer.loops, calls := outer.calls })

-- ======================================================= simple statements

/-- What the words of a simple statement name. -/
inductive Named where
  | nothing
  | function (body : Statement)
  | builtin (name : String)
  | program

/-- A simple statement of which words are being expanded. -/
structure Expanded where
  /-- The arguments so far. -/
  argv : List Bytes := []
  /-- How many of them come before what is named: `command` and options. -/
  skipped : Nat := 0
  /-- The words that are still to be expanded. -/
  words : List Word
  named : Named := .nothing
  /-- Was `command` there, so that nothing is special any more? -/
  plain : Bool := false
  /-- Is a program to be looked for where every system has them? -/
  standard : Bool := false

namespace Expanded

/-- What a name names. -/
def nameOf (f : Frame) (plain : Bool) (name : Bytes) : Named :=
  match if plain then none else f.functions.lookup name with
  | some body => .function body
  | none =>
      let text := name.decodeLossy
      if builtinNames.contains text then .builtin text else .program

/-- Expands words until there is an argument more than those skipped. -/
def fill (capture : Capture ρ) : Nat → Expanded → Act ρ Expanded
  | 0, x => pure x
  | n + 1, x =>
      match x.words with
      | [] => pure x
      | w :: rest =>
          if x.skipped < x.argv.length then pure x
          else do
               fill capture n { x with argv := x.argv ++ (← expandWord capture w), words := rest }

/-- Skips `command` and its options where a command follows, for so many
arguments at most; none if it is to be run itself. -/
def pastOptions (capture : Capture ρ) : Nat → Expanded → Act ρ (Option Expanded)
  | 0, _ => pure none
  | n + 1, x => do
      let x ← fill capture (x.words.length + 1) x
      match x.argv[x.skipped]? with
      | none => pure none
      | some (45 :: b :: letters) =>
          if b = 45 && letters.isEmpty then
            let x ← fill capture (x.words.length + 1) { x with skipped := x.skipped + 1 }
            pure (if x.skipped < x.argv.length then some x else none)
          else if (b :: letters).all (· = 112) then
            pastOptions capture n { x with skipped := x.skipped + 1, standard := true }
          else pure none
      | some _ => pure (some x)

/-- Finds what is named, past so many `command`s at most. -/
def findNamed (capture : Capture ρ) : Nat → Expanded → Act ρ Expanded
  | 0, x => pure x
  | n + 1, x => do
      let x ← fill capture (x.words.length + 1) x
      match x.argv[x.skipped]? with
      | none => pure x
      | some name =>
          let x := { x with named := nameOf (← get) x.plain name }
          match x.named with
          | .builtin "command" => do
              let y := { x with skipped := x.skipped + 1, plain := true }
              match ← pastOptions capture (x.argv.length + x.words.length + 1) y with
              | some y => findNamed capture n y
              | none => pure x
          | _ => pure x

/-- The arguments of the words that are left; those that are assignments
are not split where what is named takes assignments. -/
def rest (capture : Capture ρ) (x : Expanded) : Act ρ (List Bytes) := do
  let takesAssignments : Bool := match x.named with
    | .builtin name => ["export", "readonly", "local"].contains name
    | _ => false
  let one (w : Word) : Act ρ (List Bytes) := do
    if takesAssignments && (assignment? w).isSome then pure [← expandValue capture w]
    else expandWord capture w
  pure (x.argv ++ (← x.words.mapM one).flatten)

end Expanded

/-- Shows a statement before it is run. -/
def showStatement (errors : Fd) (values : List (Bytes × Bytes))
    (argv : List Bytes) : Act ρ Unit := do
  let f ← get
  if f.has 'x' then
    let shown := values.map fun (name, value) => name ++ 61 :: value
    let text := ((f.text? "PS4").getD []) ++ Tool.joined (shown ++ argv) ++ [10]
    let _ ← (Task.writeAll errors text : Task ρ (Except Errno Unit))

/-- Runs a simple statement. -/
def runSimple (run : Runner ρ) (how : How) (line : Nat) (assignments : List (Bytes × Word))
    (words : List Word) (ds : List (Diversion Word)) : Act ρ Unit := do
  setLine line
  modify ({ · with captured := 0 })
  let capture := captureOf run
  let x ← Expanded.findNamed capture (words.length + 1) { words }
  let argv ← x.rest capture
  let special : Bool := match x.named with
    | .builtin name => !x.plain && specialBuiltins.contains name
    | _ => false
  let isExec : Bool := match x.named with
    | .builtin name => name = "exec"
    | _ => false
  let isNothing : Bool := match x.named with
    | .nothing => true
    | _ => false
  /- Values given to a command are its own, unless it is a special one. -/
  let own := !isNothing && !special
  let command := argv.drop x.skipped
  let whole : Act ρ Unit := do
    let goals ← goalsOf capture ds
    let refused : Act ρ Unit := if special then throw .error else pure ()
    diverted isExec goals refused fun saved => do
      let values ← assignments.mapM fun (name, w) => do
        let value ← expandValue capture w
        if own then hideVariable name
        setVariable name value (own || (isExec && 1 < command.length))
        pure (name, value)
      showStatement saved.errors values argv
      match x.named, command with
      | .nothing, _ => setStatus (← get).captured
      | .function body, _ :: args => callFunction run how body args
      | .builtin text, name :: args =>
          underName name special <|
            match text with
            | "." => sourceBuiltin run args
            | "eval" => evalBuiltin run how args
            | "exec" => execBuiltin args
            | "command" => commandBuiltin args
            | _ =>
                match builtin? text with
                | some body => body args
                | none => pure 0
      | .program, name :: _ => runProgram how x.standard name command
      | _, [] => pure ()
  if own then withHidden whole else whole

-- ================================================================== loops

/-- One round of a loop: does it end the loop? -/
def roundEnds (body : Act ρ Unit) : Act ρ Bool := do
  try
    body
    pure false
  catch e =>
    match e with
    | .loops n => if n ≤ 1 then pure true else throw (.loops (n - 1))
    | .rounds n => if n ≤ 1 then pure false else throw (.rounds (n - 1))
    | e => throw e

/-- Does something as a loop. -/
def inLoop (body : Act ρ Unit) : Act ρ Unit := do
  modify fun f => { f with loops := f.loops + 1 }
  andThen body (modify fun f => { f with loops := f.loops - 1 })

/-- The rounds of a loop as long as its test comes out as given, so many
at most. The status is that of the last round. -/
def runRounds (run : Runner ρ) (how : How) (expected : Bool) (test body : Statement) :
    Nat → Int → Act ρ Unit
  | 0, status => setStatus status
  | n + 1, status => do
      let ended ← roundEnds (run { tested := true } test)
      let held := ((← get).status = 0) = expected
      if ended || !held then setStatus status
      else
        let ended ← roundEnds (run { tested := how.tested } body)
        let status := (← get).status
        if ended then setStatus status else runRounds run how expected test body n status

/-- The rounds of a loop over values. -/
def runValues (run : Runner ρ) (how : How) (name : Bytes) (body : Statement) :
    List Bytes → Act ρ Unit
  | [] => pure ()
  | value :: rest => do
      setVariable name value
      if !(← roundEnds (run { tested := how.tested } body)) then runValues run how name body rest

-- ============================================================= statements

/-- Does a text fit one of some patterns? -/
def fitsAny (capture : Capture ρ) (text : Bytes) : List Word → Act ρ Bool
  | [] => pure false
  | w :: rest => do
      if fits (← expandPattern capture w) text then pure true else fitsAny capture text rest

/-- Runs the first branch with a pattern that a text fits. -/
def runBranches (run : Runner ρ) (how : How) (text : Bytes) :
    List (List Word × Statement) → Act ρ Unit
  | [] => setStatus 0
  | (patterns, body) :: rest => do
      if ← fitsAny (captureOf run) text patterns then
        match body with
        | .nothing => setStatus 0
        | body => run how body
      else runBranches run how text rest

/-- Is a failure of the statement itself a reason to end the script? -/
def Statement.counts : Statement → Bool
  | .simple _ _ _ _ | .subshell _ _ _ | .background _ _ | .pipeline _ => true
  | _ => false

/-- Runs the statement itself. -/
def runParts (run : Runner ρ) (how : How) : Statement → Act ρ Unit
  | .nothing => pure ()
  | .simple line assignments words ds => runSimple run how line assignments words ds
  | .pipeline parts => do
      setStatus (← waitForJob (← startParts run how false parts none))
  | .andThen left right => do
      run { tested := true } left
      if (← get).status = 0 then run how right
  | .orElse left right => do
      run { tested := true } left
      if (← get).status ≠ 0 then run how right
  | .negation body => do
      run { tested := true } body
      setStatus (if (← get).status = 0 then 1 else 0)
  | .sequence left right => do
      run { tested := how.tested } left
      run how right
  | .background line body => do
      match body with
      | .pipeline parts => noteJob (← startParts run how true parts none)
      | body => do
          setLine line
          noteJob [← startPart run true withoutInput (run { exits := true } body)]
  | .subshell line body ds => do
      setLine line
      let goals ← goalsOf (captureOf run) ds
      let part : Act ρ Unit := do
        divertForGood goals
        run { how with exits := true } body
      setStatus (← waitForJob [← startPart run false (pure ()) part])
  | .diverted line body ds => do
      setLine line
      let goals ← goalsOf (captureOf run) ds
      diverted false goals (pure ()) fun _ => run { tested := how.tested } body
  | .conditional test yes no => do
      run { tested := true } test
      if (← get).status = 0 then run how yes
      else
        match no with
        | .nothing => setStatus 0
        | no => run how no
  | .loop expected test body => inLoop (runRounds run how expected test body Tool.blockBound 0)
  | .forEach line name words body => do
      setLine line
      let values ← expandWords (captureOf run) words
      setStatus 0
      inLoop (runValues run how name body values)
  | .choice line subject branches => do
      setLine line
      runBranches run how (← expandText (captureOf run) subject) branches
  | .definition name body => do
      modify fun f =>
        { f with functions := (name, body) :: f.functions.filter (·.1 ≠ name), status := 0 }

/-- Runs a statement, given a runner for those within it, with what is to
be done on signals before and after it. -/
def runStatement (run : Runner ρ) (how : How) (s : Statement) : Act ρ Unit := do
  if !(← get).has 'n' then
    runTraps run
    runParts run how s
  runTraps run
  let f ← get
  if f.has 'e' && s.counts && !how.tested && f.status ≠ 0 then throw .script
  if how.exits then throw .script

/-- How deep statements are run; every statement within another is one
level deeper. -/
def depth : Nat := 100000

/-- Runs a statement, so many levels deep. -/
def runAt : Nat → Runner ρ
  | 0, _, _ => fail (Bytes.ofString "Out of space")
  | n + 1, how, s => runStatement (runAt n) how s

/-- Runs a statement. -/
def run : Runner ρ := runAt depth

end LineShell.Script
