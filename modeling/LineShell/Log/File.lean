/-
Where the log goes: a file named for the day, in a directory that is made
with all that are missing above it.
-/
import LineShell.Posix.Directory
import LineShell.Failure
import LineShell.Settings

namespace LineShell.LogFile

open Posix

/-- The path above a path. The empty path and the root have none. -/
def above? (path : Bytes) : Option Bytes :=
  let names := (FileTree.components path).filter (· ≠ FileTree.dot)
  let root : Bytes := if path.head? = some FileTree.slash then [FileTree.slash] else []
  if !names.isEmpty then some (root ++ (names.dropLast.intersperse [FileTree.slash]).flatten)
  else if root.isEmpty && !path.isEmpty then some []
  else none

/-- Makes a directory, unless there is one. -/
def makeOrKeep (path : Bytes) : Call Unit := do
  try Call.makeDirectory path 0o777
  catch e =>
    let v ← get
    unless Call.isDirectoryAt path .target v do throw e

/-- Makes a directory and those missing above it, so many at most. -/
def makeAll : Nat → Bytes → Call Unit
  | 0, _ => throw .ENOENT
  | depth + 1, path =>
      if path.isEmpty then pure ()
      else do
        let v ← get
        match (Call.makeDirectory path 0o777).attempt v with
        | (.error e, v') =>
            set v'
            if e = .ENOENT then
              match above? path with
              | some up => makeAll depth up
              | none => throw e
              makeOrKeep path
            else makeOrKeep path
        | (.ok (), v') => set v'

/-- The log's file name for a day. -/
def name (settings : Settings) (date : String) : String :=
  joinPath settings.logDir ("minish_" ++ date ++ ".log")

/-- Opens the log's file for adding to it, and makes its directory. -/
def openIn (settings : Settings) (date : String) : Call Fd := do
  let dir := Bytes.ofString settings.logDir
  makeAll (dir.length + 1) dir
  Call.openFile (Bytes.ofString (name settings date))
      { Call.Mode.forOutput true with bits := 0o666 }

/-- Starts the log. Its first record says how much it lets through. -/
def start (settings : Settings) (date : String) (v : View) : Except FileError Unit × View :=
  if hasNul settings.logDir then (.error .nulInName, v)
  else
    match (openIn settings date).attempt v with
    | (.error e, v) => (.error (.system e), v)
    | (.ok _, v) =>
        let level := LevelFilter.ofName settings.logLevel
        (.ok (), v.note .debug ("log level set to " ++ level.name))

end LineShell.LogFile
