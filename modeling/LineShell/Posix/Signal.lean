/-
Signals: their names, what is said of a process that one of them ended,
and what they do to a process that did not ask for them.
-/

namespace LineShell.Posix.Signal

-- ================================================================== names

/-- The names of the signals that can be told apart, from number 1 on. -/
def names : List String :=
  ["SIGHUP", "SIGINT", "SIGQUIT", "SIGILL", "SIGTRAP", "SIGABRT", "SIGBUS", "SIGFPE", "SIGKILL",
   "SIGUSR1", "SIGSEGV", "SIGUSR2", "SIGPIPE", "SIGALRM", "SIGTERM", "SIGSTKFLT", "SIGCHLD",
   "SIGCONT", "SIGSTOP", "SIGTSTP", "SIGTTIN", "SIGTTOU", "SIGURG", "SIGXCPU", "SIGXFSZ",
   "SIGVTALRM", "SIGPROF", "SIGWINCH", "SIGIO", "SIGPWR", "SIGSYS"]

/-- The name of a signal; none for the real-time signals. -/
def name? (n : Int) : Option String := if n ≤ 0 then none else names[(n - 1).toNat]?

/-- The first and the last of the real-time signals. -/
def firstRealTime : Nat := 34
def lastRealTime : Nat := 64

/-- The name by which a script knows a signal, 0 being its own end. The
real-time signals are named by their distance from the nearer end of
their row, and those without a name by their number. -/
def shortName (n : Nat) : String :=
  if n = 0 then "EXIT"
  else if n = 16 then "16"
  else if n = firstRealTime then "RTMIN"
  else if n = lastRealTime then "RTMAX"
  else if firstRealTime < n && n < 50 then s!"RTMIN+{n - firstRealTime}"
  else if 50 ≤ n && n < lastRealTime then s!"RTMAX-{lastRealTime - n}"
  else
    match names[n - 1]? with
    | some name => (name.drop 3).toString
    | none => toString n

/-- The number of a signal by its short name, in either case of letters. -/
def number? (short : String) : Option Nat :=
  (List.range (lastRealTime + 1)).find? fun n =>
    (shortName n).map Char.toUpper = short.map Char.toUpper

-- ================================================================== texts

/-- What is said of processes that signals ended, from number 1 on. -/
def texts : List String :=
  ["Hangup", "Interrupt", "Quit", "Illegal instruction", "Trace/breakpoint trap", "Aborted",
   "Bus error", "Floating point exception", "Killed", "User defined signal 1", "Segmentation fault",
   "User defined signal 2", "Broken pipe", "Alarm clock", "Terminated", "Stack fault",
   "Child exited",
   "Continued", "Stopped (signal)", "Stopped", "Stopped (tty input)", "Stopped (tty output)",
   "Urgent I/O condition", "CPU time limit exceeded", "File size limit exceeded",
   "Virtual timer expired", "Profiling timer expired", "Window changed", "I/O possible",
   "Power failure", "Bad system call"]

/-- What is said of a process that a signal ended. -/
def text (n : Nat) : String :=
  match texts[n - 1]? with
  | some t => t
  | none =>
      if firstRealTime ≤ n then s!"Real-time signal {n - firstRealTime}" else s!"Unknown signal {n}"

-- ================================================================ numbers

def interrupt : Nat := 2
def quit : Nat := 3

/-- The signal that no process can catch or ignore. -/
def kill : Nat := 9

/-- The signal for a write that nobody can read. -/
def pipe : Nat := 13

/-- The signal that asks a process to end. -/
def terminate : Nat := 15

/-- Signals that do nothing to a process that did not ask for them. -/
def isHarmless (n : Nat) : Bool := n = 0 || n = 17 || n = 18 || n = 23 || n = 28

end LineShell.Posix.Signal
