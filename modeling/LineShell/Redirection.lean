/-
Redirections of one command.

Files are opened first, all of them, in the order input, output, error;
output and error with one path are one file, opened as the output asks.
Only then are they put in place of the standard streams, either for good
(in a process about to run a program) or under a guard that remembers
the replaced streams (in the shell, around a builtin). Whatever happens,
the descriptors made on the way are closed again.
-/
import LineShell.Command
import LineShell.Failure

namespace LineShell

open Posix

/-- A redirection that could not be opened. -/
structure RedirectError where
  path : String
  cause : FileError
  deriving DecidableEq, Repr, Inhabited

def RedirectError.message (e : RedirectError) : String := e.path ++ ": " ++ e.cause.text

/-- The files opened for a command, not yet in place. -/
structure Opened where
  input : Option Fd := none
  output : Option Fd := none
  error : Option Fd := none
  /-- Standard error goes where output goes. -/
  shared : Bool := false
  deriving DecidableEq, Repr, Inhabited

/-- The streams that were replaced, each with the copy that keeps its
file, the first replaced first. -/
structure Guard where
  saved : List (Fd × Fd) := []
  deriving DecidableEq, Repr, Inhabited

namespace Redirection

/-- Opens one path. -/
def openPath (path : String) (mode : Call.Mode) (v : View) : Except RedirectError Fd × View :=
  if hasNul path then (.error ⟨path, .nulInName⟩, v)
  else
    match Call.openFile (Bytes.ofString path) mode v with
    | .ok fd v' => (.ok fd, v')
    | .error e v' => (.error ⟨path, .system e⟩, v')

/-- Closes descriptors, those that are open. -/
def closeAll (fds : List Fd) (v : View) : View :=
  fds.foldl (fun v fd => (Call.close fd).after v) v

/-- The descriptors that an opening made. -/
def held (o : Opened) : List Fd := o.input.toList ++ o.output.toList ++ o.error.toList

/-- Opens one stream's file, if there is one to open. On failure what was
opened before it is closed. -/
def openNext (o : Opened) (target : Option (String × Call.Mode))
    (record : Opened → Fd → Opened) (v : View) : Except RedirectError Opened × View :=
  match target with
  | none => (.ok o, v)
  | some (path, mode) =>
      match openPath path mode v with
      | (.ok fd, v') => (.ok (record o fd), v')
      | (.error e, v') => (.error e, closeAll (held o) v')

/-- The file of an output redirection. -/
def outputTarget (r : Redirect) : String × Call.Mode := (r.path, .forOutput r.append)

/-- Opens all files of a command. -/
def openAll (c : Command) (v : View) : Except RedirectError Opened × View :=
  match openNext {} (c.input.map (·, .forReading)) ({ · with input := some · }) v with
  | (.error e, v) => (.error e, v)
  | (.ok o, v) =>
      match openNext o (c.output.map outputTarget) ({ · with output := some · }) v with
      | (.error e, v) => (.error e, v)
      | (.ok o, v) =>
          if c.sharesOutputAndError then (.ok { o with shared := true }, v)
          else openNext o (c.error.map outputTarget) ({ · with error := some · }) v

/-- Which open file goes in place of which stream, in order. -/
def targets (o : Opened) : List (Fd × Fd) :=
  (o.input.toList.map (·, Fd.stdin)) ++
  (o.output.toList.flatMap fun fd =>
    (fd, Fd.stdout) :: if o.shared then [(fd, Fd.stderr)] else []) ++
  (o.error.toList.map (·, Fd.stderr))

/-- Puts files in place one after the other. -/
def replaceAll : List (Fd × Fd) → Call Unit
  | [] => pure ()
  | (fd, stream) :: rest => do
      Call.dup2 fd stream
      replaceAll rest

/-- Puts the files in place for good. The descriptors of the opening are
closed either way. -/
def attach (o : Opened) (v : View) : Except Errno Unit × View :=
  let (r, v') := (replaceAll (targets o)).attempt v
  (r, closeAll (held o) v')

/-- Gives the streams back in reverse order and closes the copies. -/
def restore (g : Guard) (v : View) : View :=
  let v' := g.saved.reverse.foldl
    (fun v (stream, copy) => (Call.close copy).after ((Call.dup2 copy stream).after v)) v
  v'.note .debug ("restored " ++ toString g.saved.length ++ " standard stream(s)")

/-- Puts files in place one after the other, keeping a copy of each
stream before it is replaced. On failure the guard made so far comes
back with the error. -/
def saveAndReplace : List (Fd × Fd) → Guard → View → (Guard × Option Errno) × View
  | [], g, v => ((g, none), v)
  | (fd, stream) :: rest, g, v =>
      match (Call.dup stream).attempt v with
      | (.error e, v) => ((g, some e), v)
      | (.ok copy, v) =>
          let g := { g with saved := g.saved ++ [(stream, copy)] }
          match (Call.dup2 fd stream).attempt v with
          | (.error e, v) => ((g, some e), v)
          | (.ok (), v) => saveAndReplace rest g v

/-- Puts the files in place until the guard is restored. The descriptors
of the opening are closed either way; on failure the streams are back
as they were. -/
def attachScoped (o : Opened) (v : View) : Except Errno Guard × View :=
  match saveAndReplace (targets o) {} v with
  | ((g, none), v) => (.ok g, closeAll (held o) v)
  | ((g, some e), v) => (.error e, closeAll (held o) (restore g v))

end Redirection

end LineShell
