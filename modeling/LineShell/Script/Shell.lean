/-
The standard shell as a program.

Its script is an argument, a file or standard input. The variables with
proper names that the process was given become variables of the script.
From standard input it takes a block at a time, so that the lines run
before all have come, and what was taken is lost to its programs.
-/
import LineShell.Script.Run

namespace LineShell.Script

open Posix

variable {ρ : Type}

-- ================================================================ starting

/-- The variables that a process is given: those with proper names. A few
variables of the script's own take no value from there. -/
def importVariables (env : Environment) : Act ρ Unit := do
  for (name, value) in env.bindings do
    let name := Bytes.ofString name
    if isName name then setVariable name (Bytes.ofString value) true
  for v in predefined do
    if v.name = Bytes.ofString "IFS" || v.name = Bytes.ofString "OPTIND" then
      modify fun f => { f with vars := f.vars.put v }

/-- A script that starts in a process. -/
def Frame.start (name : Bytes) (p : Process) : Frame :=
  { name, pid := p.pid, parent := p.parent, line := 0 }

/-- Takes over the variables and the working directory of the process. -/
def enter (p : Process) : Act ρ Unit := do
  importVariables p.env
  setVariable (Bytes.ofString "PPID") (Bytes.ofString (toString p.parent))
  startDirectory

-- ================================================================= sources

/-- The size of the blocks that a script is read in. -/
def inputBlock : Nat := 8192

/-- Runs lines as they come from standard input, in so many steps at most.
A line that goes up to the end of what has come may go on. -/
def runInput : Nat → Source → Bool → Act ρ Unit
  | 0, _, _ => pure ()
  | n + 1, source, complete => do
      let (_, tried) := ((← get).prepare source).read
      if tried.ended && !complete then
        match ← (Task.read Fd.stdin inputBlock : Task ρ (Except Errno Bytes)) with
        | .ok (b :: block) => runInput n { source with rest := source.rest ++ b :: block } false
        | _ => runInput n source true
      else
        match ← readLineOf source with
        | (.finish, _) => pure ()
        | (.blank, source) => runInput n source complete
        | (.statement s, source) => do
            run {} s
            runInput n source complete

/-- Runs a script in a file. A directory is an empty one. -/
def runFile (path : Bytes) : Act ρ Unit := do
  match ← (Tool.readFile path : Task ρ (Except (Bool × Errno) Bytes)) with
  | .error (true, e) =>
      fail (Bytes.ofString "cannot open " ++ path ++ Bytes.ofString (": " ++ openFault e))
  | .error (false, _) => pure ()
  | .ok text => do
      modify ({ · with name := path })
      let _ ← runText run {} text

/-- Runs what the arguments say. -/
def runArguments (p : Process) (args : List Bytes) : Act ρ Unit := do
  enter p
  let s ← setOptions true (args.length + 1) args
  match s.script, s.operands with
  | true, [] => fail (Bytes.ofString "-c requires an argument")
  | true, text :: operands => do
      match operands with
      | name :: rest => modify ({ · with name, args := rest })
      | [] => pure ()
      let _ ← runText run {} text
      if (← get).has 's' then runInput Tool.blockBound { rest := [] } false
  | false, [] => do
      setOption 's' true
      runInput Tool.blockBound { rest := [] } false
  | false, path :: rest => do
      if (← get).has 's' then
        modify ({ · with args := path :: rest })
        runInput Tool.blockBound { rest := [] } false
      else
        modify ({ · with args := rest })
        runFile path

/-- The shell. -/
def shell (name : Bytes) (args : List Bytes) : Task ρ Int := do
  let p ← Task.view View.process
  let (_, f) ← (runArguments p args).run.run (Frame.start name p)
  let nothing ← finish run f
  nothing.elim

end LineShell.Script
