/-
How processes end, and the statuses that stand for it. Codes are
integers here, because a rehearsal may be told of any; a process that
really exits hands on the last eight bits.
-/

namespace LineShell

/-- The status of builtins that refuse, of failed redirections and of
children killed by a signal. -/
def exitFailure : Int := 1

/-- The status when the program was found but cannot be run. -/
def exitNotExecutable : Int := 126

/-- The status when no program was found. -/
def exitNotFound : Int := 127

/-- How a process ended. -/
inductive Ending where
  | exited (code : Int)
  | signaled (signal : Int)
  deriving DecidableEq, Repr, Inhabited

namespace Ending

/-- The status that the tree sees. Death by a signal is a plain failure. -/
def status : Ending → Int
  | exited code => code
  | signaled _ => exitFailure

/-- Was the process killed? -/
def isAbnormal : Ending → Bool
  | exited _ => false
  | signaled _ => true

/-- Did the process exit with zero? -/
def isSuccess (e : Ending) : Bool := e = exited 0

/-- How the log shows an ending. -/
def describe : Ending → String
  | exited code => "Exited(" ++ toString code ++ ")"
  | signaled signal => "Signaled(" ++ toString signal ++ ")"

end Ending

end LineShell
