/-
Programs, as what a process asks of the machine.

A program is a tree of requests: each node is one request, with what
comes next for every answer. `step` is a request that no other process
can hinder; the others may have to wait, end the process or make a new
one. The type `ρ` is that of the result for which the outermost program
is run; a program that only ever exits works for every `ρ`.

`Task` is for writing programs in sequence: a task says what to do, given
what to do afterwards with its value.
-/
import LineShell.Ending
import LineShell.Posix.View

namespace LineShell.Posix

/-- A process number. -/
abbrev Pid := Nat

inductive Prog (ρ : Type) where
  /-- The result is there; the process waits to be given more to do. -/
  | ret (result : ρ)
  | exit (ending : Ending)
  /-- Change the view; what comes next depends on the view as it was. -/
  | step (act : View → View) (next : View → Prog ρ)
  | read (fd : Fd) (count : Nat) (next : Except Errno Bytes → Prog ρ)
  | write (fd : Fd) (data : Bytes) (next : Except Errno Nat → Prog ρ)
  | fork (child : Prog ρ) (next : Pid → Prog ρ)
  /-- Wait for one child, by its number, or for any child (-1). -/
  | wait (child : Int) (next : Except Errno (Pid × Ending) → Prog ρ)
  | kill (process : Int) (signal : Nat) (next : Except Errno Unit → Prog ρ)
  /-- Let microseconds pass. -/
  | sleep (duration : Nat) (next : Prog ρ)
  /-- Run the program at a path in place of this one; there is a next
  only if that fails. -/
  | exec (path : Bytes) (argv : List Bytes) (next : Errno → Prog ρ)

/-- Something to do in a program. -/
def Task (ρ α : Type) := (α → Prog ρ) → Prog ρ

namespace Task

variable {ρ α β : Type}

instance : Monad (Task ρ) where
  pure a := fun k => k a
  bind t f := fun k => t fun a => f a k

/-- Ends the process by a code. -/
def exit (code : Int) : Task ρ α := fun _ => .exit (.exited code)

/-- Reads something off the view. -/
def view (f : View → α) : Task ρ α := fun k => .step id fun v => k (f v)

/-- Changes the view. -/
def modify (f : View → View) : Task ρ Unit := fun k => .step f fun _ => k ()

/-- Changes the view and gets a value. -/
def act (f : View → α × View) : Task ρ α := fun k => .step (fun v => (f v).2) fun v => k (f v).1

/-- Makes a system call. -/
def call (c : Call α) : Task ρ (Except Errno α) := act c.attempt

def read (fd : Fd) (count : Nat) : Task ρ (Except Errno Bytes) := fun k => .read fd count k

def write (fd : Fd) (data : Bytes) : Task ρ (Except Errno Nat) := fun k => .write fd data k

/-- Starts a child; the value is its number. -/
def fork (child : Prog ρ) : Task ρ Pid := fun k => .fork child k

def wait (child : Int) : Task ρ (Except Errno (Pid × Ending)) := fun k => .wait child k

def kill (process : Int) (signal : Nat) : Task ρ (Except Errno Unit) :=
  fun k => .kill process signal k

def sleep (duration : Nat) : Task ρ Unit := fun k => .sleep duration (k ())

/-- Runs the program at a path in place of this one; the value is why
that failed. -/
def exec (path : Bytes) (argv : List Bytes) : Task ρ Errno := fun k => .exec path argv k

/-- Writes all bytes, in so many requests at most. -/
def writeAllIn (fd : Fd) : Nat → Bytes → Task ρ (Except Errno Unit)
  | 0, _ => pure (.ok ())
  | n + 1, data => do
      if data.isEmpty then pure (.ok ())
      else
        match ← write fd data with
        | .error e => pure (.error e)
        | .ok written => writeAllIn fd n (data.drop written)

/-- Writes all bytes, which takes several requests where a pipe is nearly full. -/
def writeAll (fd : Fd) (data : Bytes) : Task ρ (Except Errno Unit) :=
  writeAllIn fd (data.length + 1) data

/-- A task that ends in an exit, as a program. -/
def run (t : Task ρ Empty) : Prog ρ := t fun e => e.elim

end Task

/-- The programs that can be installed: what the program of a name does
with its arguments. -/
abbrev Installed (ρ : Type) := String → List Bytes → Prog ρ

end LineShell.Posix
