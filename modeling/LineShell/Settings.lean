/-
Settings: how much is logged and where, how lines are edited, and how the
prompt looks.

Each has a default, and a variable of the environment that overrides it.
Before the environment is read, a file of settings is loaded into it,
which never changes what is set: the nearest file of its name in the
working directory or a directory above. It has one name during
development and another in a release.
-/
import LineShell.Posix.View
import LineShell.Settings.Dotenv

namespace LineShell

open Posix

structure Settings where
  /-- The program's name, which is also the name its log records bear. -/
  name : String := "minish"
  logLevel : String := "info"
  logDir : String
  editor : String := "emacs"
  theme : String := "default"
  deriving DecidableEq, Repr

/-- The ways of editing a line. -/
inductive EditMode where
  | emacs
  | vi
  deriving DecidableEq, Repr

def EditMode.name : EditMode → String
  | emacs => "Emacs"
  | vi => "Vi"

/-- Which build of the program runs. -/
inductive Build where
  | development
  | release
  deriving DecidableEq, Repr

/-- The name of the file of settings. -/
def Build.settingsFile : Build → String
  | development => ".env.development"
  | release => ".env"

/-- A path below another. Below the empty path it stays as it is, and a
slash is not doubled. -/
def joinPath (base rest : String) : String :=
  if base.isEmpty then rest
  else if FileTree.endsInSlash (Bytes.ofString base) then base ++ rest
  else base ++ "/" ++ rest

namespace Settings

/-- Where the program keeps its own files. -/
def homeDir (env : Environment) : String :=
  match env.get? "HOME" with
  | some home => joinPath home ".config/minish"
  | none => "tmp"

/-- The settings that an environment makes. -/
def ofEnvironment (env : Environment) : Settings :=
  let base : Settings := { logDir := joinPath (homeDir env) "logs" }
  { base with
    logLevel := (env.get? "MINISH_LOG_LEVEL").getD base.logLevel
    logDir := (env.get? "MINISH_LOG_DIR").getD base.logDir
    editor := (env.get? "MINISH_EDITOR").getD base.editor
    theme := (env.get? "MINISH_THEME").getD base.theme }

/-- How lines are edited: only the name `vi`, in either case of its
letters, asks for that mode. -/
def editMode (s : Settings) : EditMode :=
  if s.editor.map Char.toLower = "vi" then .vi else .emacs

-- ======================================================== file of settings

/-- A directory and those above it, up to the root. -/
def upwards (dir : Bytes) : List Bytes :=
  let names := FileTree.components dir
  (List.range (names.length + 1)).reverse.map fun n =>
    (names.take n).flatMap (FileTree.slash :: ·)

/-- The nearest file of a name, in the first of the directories that has
one. Where it is missing the next directory is looked into; any other
error ends the search. -/
def nearest (name : Bytes) : List Bytes → Call Bytes
  | [] => throw .ENOENT
  | dir :: rest => do
      let path := dir ++ FileTree.slash :: name
      let v ← get
      match (Call.nodeAt path).attempt v with
      | (.ok id, _) =>
          match v.world.tree.content id with
          | .file _ => pure path
          | _ => nearest name rest
      | (.error e, _) => if e = .ENOENT then nearest name rest else throw e

/-- The lines of some data, each without its end, which may be a carriage
return and a newline. A line that is no text is none. -/
def linesOf (data : Bytes) : List (Option String) :=
  let parts := data.splitOnP (· == 10)
  let ended := parts.dropLast.map fun l => if l.getLast? = some 13 then l.dropLast else l
  let last := parts.getLast?.toList.filter (· ≠ [])
  (ended ++ last).map Bytes.decode

/-- Loads the nearest file of settings into the environment. -/
def loadFile (name : String) : Call Unit := do
  let v ← get
  match v.cwdPath with
  | none => throw .ENOENT
  | some cwd =>
      let path ← nearest (Bytes.ofString name) (upwards cwd)
      let fd ← Call.openFile path .forReading
      let data ← Call.readToEnd fd
      Call.close fd
      modify (·.modifyProcess fun p => { p with env := Dotenv.load p.env (linesOf data) })

/-- Loads the file of settings, if there is one to be had, and reads the
environment. -/
def load (build : Build) (v : View) : Settings × View :=
  let v := (loadFile build.settingsFile).after v
  (ofEnvironment v.process.env, v)

end Settings

end LineShell
