/-
What can go wrong while a tree is executed, and how it is reported.

A command that fails says so by its status and no more. A process
primitive that fails (starting a process, making a pipe, waiting) stops
the tree: that is an `ExecError`. Reports are single lines on the
standard error of the process that makes them, wherever it points.
-/
import LineShell.Ending
import LineShell.Posix.View

namespace LineShell

open Posix

/-- A process primitive failed. -/
inductive ExecError where
  | fork (cause : Errno)
  | channel (cause : Errno)
  | wait (cause : Errno)
  deriving DecidableEq, Repr, Inhabited

namespace ExecError

/-- The primitive's name in answers. -/
def kind : ExecError → String
  | fork _ => "Fork"
  | channel _ => "Channel"
  | wait _ => "Wait"

def message : ExecError → String
  | fork e => "fork failed: " ++ e.describe
  | channel e => "pipe creation failed: " ++ e.describe
  | wait e => "waitpid failed: " ++ e.describe

end ExecError

/-- Why a file could not be reached: the system refused, or the name can
be no file name. -/
inductive FileError where
  | system (cause : Errno)
  | nulInName
  deriving DecidableEq, Repr, Inhabited

/-- The wording of a file error. -/
def FileError.text : FileError → String
  | system e => e.text
  | nulInName => "file name contained an unexpected NUL byte"

/-- Can a text be handed to the system as a name or an argument? -/
def hasNul (s : String) : Bool := s.toList.contains '\x00'

/-- The line that reports something. -/
def reportLine (message : String) : Bytes := Bytes.ofLine ("minish: " ++ message)

/-- Writes a report to standard error, as far as that works. -/
def report (message : String) : View → View :=
  Call.after (Call.writeNow Fd.stderr (reportLine message))

end LineShell
