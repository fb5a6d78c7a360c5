/-
Finding the program of a name.

A name with a slash is a path. Any other name is tried in each directory
of `PATH` in turn, where an empty entry is the working directory. A
directory in which it is missing, or whose own path leads nowhere, is
passed over, and one in which it may not be run is remembered; any other
error ends the search. An executable file that is neither a program nor
names an interpreter is handed to the standard shell.
-/
import LineShell.Posix.Program

namespace LineShell.Posix.Search

variable {ρ : Type}

/-- The search path where the environment has none. -/
def defaultPath : String := "/bin:/usr/bin"

/-- The shell that files without an interpreter are given to. -/
def standardShell : Bytes := Bytes.ofString "/bin/sh"

/-- The paths to try for a name, in order. -/
def candidates (path : String) (name : Bytes) : List Bytes :=
  ((Bytes.ofString path).splitOnP (· == 58)).map fun dir =>
    if dir.isEmpty then name else dir ++ FileTree.slash :: name

/-- Runs the file at a path, with the standard shell if need be; the value
is why that failed. -/
def execAt (path : Bytes) (argv : List Bytes) : Task ρ Errno := do
  let e ← Task.exec path argv
  if e = .ENOEXEC then Task.exec standardShell (standardShell :: path :: argv.drop 1)
  else pure e

/-- Is the error of one directory no reason to stop searching? -/
def passes (e : Errno) : Bool := e = .EACCES || e = .ENOENT || e = .ENOTDIR

/-- Tries paths in turn. `denied` is whether one may not be run, `last`
the latest error. -/
def tryAll (argv : List Bytes) : List Bytes → Bool → Errno → Task ρ Errno
  | [], denied, last => pure (if denied then .EACCES else last)
  | path :: rest, denied, _ => do
      let e ← execAt path argv
      if passes e then tryAll argv rest (denied || e = .EACCES) e else pure e

/-- Runs the program of a name in place of the one that asks; the value is
why that failed. -/
def execByName (name : Bytes) (argv : List Bytes) : Task ρ Errno := do
  if name.isEmpty then pure .ENOENT
  else if name.contains FileTree.slash then execAt name argv
  else if name.length > FileTree.nameMax then pure .ENAMETOOLONG
  else
    let path ← Task.view fun v => (v.process.env.get? "PATH").getD defaultPath
    tryAll argv (candidates path name) false .ENOENT

end LineShell.Posix.Search
