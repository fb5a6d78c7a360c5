/-
The command line: the shell on what standard input holds, in an empty
directory on a machine of its own. What it writes goes to the two output
streams, and its status is the program's.
-/
import LineShell.Sitting
import LineShell.Tool

namespace LineShell

/-- The variables that the shell is given. -/
def inherited : List String :=
  ["TERM", "CLICOLOR_FORCE", "MINISH_LOG_LEVEL", "MINISH_LOG_DIR", "MINISH_EDITOR", "MINISH_THEME"]

/-- All bytes of a stream. -/
partial def readStream (stream : IO.FS.Stream) (seen : ByteArray) : IO ByteArray := do
  let block ← stream.read 65536
  if block.isEmpty then pure seen else readStream stream (seen ++ block)

end LineShell

def main : IO UInt32 := do
  let input ← LineShell.readStream (← IO.getStdin) .empty
  let env ← LineShell.inherited.filterMapM fun name => do
    let value ← IO.getEnv name
    pure (value.map fun v => (name, some v))
  let setup : LineShell.Session.Setup := { stdin := input.toList, env }
  let report := LineShell.Sitting.run LineShell.Tool.programs LineShell.Tool.names
      setup .development "today" none
  (← IO.getStdout).write ⟨report.out.toArray⟩
  (← IO.getStderr).write ⟨report.err.toArray⟩
  pure (UInt32.ofNat report.ending.status.toNat)
