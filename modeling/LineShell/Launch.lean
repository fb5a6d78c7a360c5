/-
Launching for real: the walk of a tree as a program of the machine.

A program is started in a process of its own, which puts the
redirections in place for good and then replaces itself. A branch first
wires its streams, and then either replaces itself likewise (if it is
one external command, so that its death by a signal stays visible) or
walks its subtree and exits with the status. What a branch cannot do it
reports itself, and exits with a failure. A process that is to run an
external command does not ignore the signal of broken pipes any more, so
a report to a pipe that nobody reads is its end.
-/
import LineShell.Posix.Search
import LineShell.Posix.Signal
import LineShell.Walk

namespace LineShell

open Posix

variable {ρ : Type}

-- ============================================================== programs

/-- Changes what a program inherits: writes to pipes nobody reads kill it
again. -/
def defaultPipeSignal (v : View) : View :=
  v.modifyProcess fun p => { p with ignored := p.ignored.erase Signal.pipe }

/-- Reports and exits. -/
def dieWith (message : String) (status : Int) : Task ρ Empty := do
  Task.modify (report message)
  Task.exit status

/-- Reports and exits, where a report that nobody can read kills. -/
def giveUp (message : String) (status : Int) : Task ρ Empty := do
  let _ ← Task.writeAll Fd.stderr (reportLine message)
  Task.exit status

/-- The life of a process that is to run an external command. -/
def runExternal (c : Command) : Task ρ Empty := do
  Task.modify defaultPipeSignal
  match ← Task.act (Redirection.openAll c) with
  | .error e => giveUp e.message exitFailure
  | .ok opened =>
      match ← Task.act (Redirection.attach opened) with
      | .error e => giveUp (c.verb ++ ": " ++ e.describe) exitFailure
      | .ok () =>
          if hasNul c.verb || c.argv.any hasNul then
            giveUp (c.verb ++ ": argument contains a NUL byte") exitFailure
          else
            let e ← Search.execByName (Bytes.ofString c.verb) (c.argv.map Bytes.ofString)
            if e = .ENOENT then giveUp (c.verb ++ ": command not found") exitNotFound
            else giveUp (c.verb ++ ": " ++ e.text) exitNotExecutable

-- ============================================================== branches

/-- Puts the wiring of a branch in place. -/
def Wiring.apply (w : Wiring) : Call Unit := do
  if let some fd := w.stdin then Call.dup2 fd Fd.stdin
  if let some fd := w.stdout then Call.dup2 fd Fd.stdout
  for fd in w.close do
    if fd > Fd.stderr then Call.close fd

/-- The life of a branch, given how it evaluates its subtree. -/
def runBranch (tree : Tree) (parent : Operator) (w : Wiring)
    (evaluate : Task ρ (Except ExecError Int)) : Task ρ Empty := do
  match ← Task.call w.apply with
  | .error e => dieWith ("cannot wire " ++ parent.symbol ++ " branch: " ++ e.describe) exitFailure
  | .ok () =>
      match tree.external? with
      | some c => runExternal c
      | none =>
          match ← evaluate with
          | .ok status => Task.exit status
          | .error e =>
              Task.modify (View.note .error ("branch " ++ tree.label ++ " failed: " ++ e.message))
              dieWith e.message exitFailure

-- =============================================================== waiting

/-- Waits for a child. A child killed by a signal that has no name is
waited for, and yet the waiting has failed. -/
def waitFor (child : Int) : Task ρ (Except ExecError Ending) := do
  let failed (e : Errno) : Task ρ (Except ExecError Ending) := do
    Task.modify (View.note .error ("waitpid(" ++ toString child ++ ") failed: " ++ e.describe))
    pure (.error (.wait e))
  match ← Task.wait child with
  | .error e => failed e
  | .ok (_, .exited code) => pure (.ok (.exited code))
  | .ok (pid, .signaled n) =>
      match Signal.name? n with
      | some name =>
          Task.modify (View.note .warn ("pid " ++ toString pid ++ " killed by " ++ name))
          pure (.ok (.signaled n))
      | none => failed .EINVAL

-- ================================================================= walks

/-- Starts a program. -/
def launchProgram (c : Command) : Task ρ Child := do
  let pid ← Task.fork (runExternal c).run
  Task.modify (View.note .debug ("forked pid " ++ toString pid ++ " for `" ++ c.verb ++ "`"))
  pure pid

/-- Starts a branch, given how it evaluates its subtree. -/
def launchBranch (tree : Tree) (parent : Operator) (w : Wiring)
    (evaluate : Task ρ (Except ExecError Int)) : Task ρ Child := do
  let pid ← Task.fork (runBranch tree parent w evaluate).run
  Task.modify (View.note .debug
    ("forked pid " ++ toString pid ++ " for " ++ tree.label ++ " under `" ++ parent.symbol ++ "`"))
  pure pid

namespace Walk

/-- Takes a walk in a process of the machine. -/
def perform : Walk → Task ρ (Except ExecError Int)
  | done s => pure (.ok s)
  | failed e => pure (.error e)
  | log level text next => do
      Task.modify (View.note level text)
      next.perform
  | builtin _ b c next => do
      match ← Task.act (b.run c) with
      | .status s => (next s).perform
      | .leave => Task.exit 0
  | launch _ c next => do
      let child ← launchProgram c
      (next (.ok child)).perform
  | fork _ tree _ parent w branch next => do
      let child ← launchBranch tree parent w branch.perform
      (next (.ok child)).perform
  | channel _ next => do
      match ← Task.call Call.pipe with
      | .error e => (next (.error (.channel e))).perform
      | .ok (r, w) => (next (.ok ⟨r, w⟩)).perform
  | release ch next => do
      Task.modify (Redirection.closeAll [ch.read, ch.write])
      next.perform
  | wait child next => do
      let r ← waitFor child
      (next r).perform

end Walk

/-- Executes a tree in a process of the machine. -/
def Tree.perform (t : Tree) : Task ρ (Except ExecError Int) :=
  (Walk.execute t 0 none).perform

end LineShell
