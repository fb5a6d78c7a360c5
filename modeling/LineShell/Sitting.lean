/-
A sitting: the shell run from a setup to its end, on a machine of its
own.
-/
import LineShell.Log.Plain
import LineShell.Posix.Machine
import LineShell.Session.Setup
import LineShell.Shell

namespace LineShell.Sitting

open Posix

/-- What a sitting came to. -/
structure Report where
  ending : Ending
  out : Bytes
  err : Bytes
  files : List (Bytes × Session.Listed)
  /-- What the shell's own process logged. -/
  log : List LogRecord
  deriving Repr

/-- Where a sitting's log goes unless something else is asked for. -/
def logPath : String := Session.basePath ++ "/log"

/-- How many moves of the machine a sitting may take. -/
def fuel : Nat := 1000000000

/-- The machine after the shell has run. -/
def machine (programs : Installed Unit) (v : View) (build : Build) (date : String) : Machine Unit :=
  let todo : Task Unit Empty := do
    let status ← Shell.run build date
    Task.exit status
  (Machine.start v ()).perform programs fuel todo.run

/-- How the shell ended. -/
def endingOf (m : Machine Unit) : Ending :=
  match m.standing with
  | .ended how => how
  | _ => .exited exitFailure

/-- The records of a process that the settings let through, as plain text;
none unless the log is where it is looked for. -/
def keptLog (settings : Settings) (date : String) (v : View) : List LogRecord :=
  let path := Bytes.ofString (LogFile.name { settings with logDir := logPath } date)
  match v.world.tree.find .none FileTree.root path with
  | .ok _ =>
      let filter := LogFilter.ofSetting settings.name (.ofName settings.logLevel)
      (v.process.log.reverse.filter fun r => filter.keeps settings.name r.level).map fun r =>
        { r with text := Plain.text r.text }
  | .error _ => []

/-- Runs the shell on a day, with a limit on descriptors if one is given. -/
def run (programs : Installed Unit) (names : List String) (setup : Session.Setup) (build : Build)
    (date : String) (fdLimit : Option Nat) : Report :=
  let stage := setup.stage names
  let start := stage.view.modifyProcess fun p => { p with fdLimit := fdLimit.getD p.fdLimit }
  let m := machine programs start build date
  let tree := m.world.tree
  { ending := endingOf m
    out := Session.contentsOf tree stage.out
    err := Session.contentsOf tree stage.err
    files := Session.list tree stage.root
    log := keptLog (Settings.load build start).1 date m.view }

end LineShell.Sitting
