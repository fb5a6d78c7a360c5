/-
Programs that print.

What a program prints waits until there is much of it, until the program
complains or until it ends; where it cannot be written in the end, that is
the program's last complaint. Input may be endless, so a program that
reads does it block by block and says after each whether it wants more.
-/
import LineShell.Tool.Stream

namespace LineShell.Tool

open Posix

variable {ρ : Type}

-- ================================================================ programs

/-- What a running program knows of itself. -/
structure Console where
  /-- The name that it was called by. -/
  tool : Bytes
  /-- Its status if what it prints cannot be written. -/
  bad : Int := failure
  /-- What was printed and not yet written, the last first, and how many
  bytes that is. -/
  waiting : List Bytes := []
  size : Nat := 0
  /-- Why writing failed, if it did. -/
  fault : Option Errno := none

/-- Something that a program does. -/
abbrev Job (ρ α : Type) := StateT Console (Task ρ) α

namespace Job

/-- Does something that has nothing to do with printing. -/
def task {α : Type} (t : Task ρ α) : Job ρ α := liftM t

/-- Makes a system call. -/
def call {α : Type} (c : Call α) : Job ρ (Except Errno α) := task (Task.call c)

/-- Reads something off the view. -/
def view {α : Type} (f : View → α) : Job ρ α := task (Task.view f)

/-- Changes the view. -/
def modifyView (f : View → View) : Job ρ Unit := task (Task.modify f)

/-- Ends the program at once, and gives up what waits. -/
def exit {α : Type} (status : Int) : Job ρ α := task (Task.exit status)

-- ================================================================ printing

/-- Writes what waits. -/
def flush : Job ρ (Option Errno) := do
  let c ← get
  if c.waiting.isEmpty then pure none
  else
    set { c with waiting := [], size := 0 }
    match ← task (Task.writeAll Fd.stdout c.waiting.reverse.flatten) with
    | .ok () => pure none
    | .error e => do
        modify ({ · with fault := some e })
        pure (some e)

/-- Writes a line to standard error under the program's name. -/
def complain (message : Bytes) : Job ρ Unit := do
  let _ ← flush
  let _ ← task (Task.writeAll Fd.stderr ((← get).tool ++ Bytes.ofString ": " ++ message ++ [10]))

/-- Complains in words. -/
def complainText (message : String) : Job ρ Unit := complain (Bytes.ofString message)

/-- Complains about something, for an error. -/
def complainOf (name : Bytes) (e : Errno) : Job ρ Unit :=
  complain (name ++ Bytes.ofString (": " ++ e.libraryText))

/-- Complains about a use that a name cannot be put to, for an error. -/
def complainCannot (use : String) (name : Bytes) (e : Errno) : Job ρ Unit :=
  complainOf (Bytes.ofString (use ++ " ") ++ inQuotes name) e

/-- Complains, and ends the program. -/
def die {α : Type} (message : Bytes) (status : Int := failure) : Job ρ α := do
  complain message
  exit status

/-- How much may wait. -/
def bufferSize : Nat := 4096

/-- Prints. Where much cannot be written, the program ends. -/
def say (data : Bytes) : Job ρ Unit := do
  if !data.isEmpty then
    modify fun c => { c with waiting := data :: c.waiting, size := c.size + data.length }
    if bufferSize ≤ (← get).size then
      match ← flush with
      | none => pure ()
      | some e => die (Bytes.ofString ("write error: " ++ e.libraryText)) (← get).bad

/-- Writes what waits before the program ends with a status. Where an
earlier try failed, the reason is not known any more, unless there is
nothing to write to. -/
def close (status : Int) : Job ρ Int := do
  let earlier := (← get).fault
  match ← flush, earlier with
  | none, none => pure status
  | some e, _ | none, some e => do
      let isOpen ← view fun v => (v.process.fds.get? Fd.stdout).isSome
      complain (Bytes.ofString <|
        if earlier.isSome && isOpen then "write error" else "write error: " ++ e.libraryText)
      pure (← get).bad

/-- A program as a task: its body, with what it prints written at the end. -/
def toTask (tool : Bytes) (bad : Int) (body : Job ρ Int) : Task ρ Int := do
  let (status, _) ← (do close (← body)).run { tool, bad }
  pure status

/-- Advises to ask for help, and ends the program. -/
def adviseHelp {α : Type} (status : Int) : Job ρ α := do
  let _ ← flush
  let tool := (← get).tool
  let _ ← task (Task.writeAll Fd.stderr
    (Bytes.ofString "Try '" ++ tool ++ Bytes.ofLine " --help' for more information."))
  exit status

/-- Complains of how the program was called, and ends it. -/
def misused {α : Type} (message : Bytes) (status : Int := failure) : Job ρ α := do
  complain message
  adviseHelp status

/-- Complains that there is no operand, and ends the program. -/
def missingOperand {α : Type} (status : Int := failure) : Job ρ α :=
  misused (Bytes.ofString "missing operand") status

/-- Complains of an operand too much, and ends the program. -/
def extraOperand {α : Type} (operand : Bytes) (status : Int := failure) : Job ρ α :=
  misused (Bytes.ofString "extra operand " ++ marked operand) status

-- ================================================================= reading

/-- Reads blocks and hands each to `use`, which gives a new state and says
whether to go on; so many blocks at most. -/
def readBlocksIn {σ : Type} (fd : Fd) (size : Nat) (use : σ → Bytes → Job ρ (σ × Bool)) :
    Nat → σ → Job ρ (σ × Option Errno)
  | 0, s => pure (s, none)
  | n + 1, s => do
      match ← task (Task.read fd size) with
      | .error e => pure (s, some e)
      | .ok [] => pure (s, none)
      | .ok block => do
          let (s, more) ← use s block
          if more then readBlocksIn fd size use n s else pure (s, none)

/-- Reads blocks up to an error, and gives the last state. -/
def readBlocks {σ : Type} (fd : Fd) (use : σ → Bytes → Job ρ (σ × Bool)) (s : σ) :
    Job ρ (σ × Option Errno) :=
  readBlocksIn fd blockSize use blockBound s

/-- Everything that is left to read. -/
def readAll (fd : Fd) : Job ρ (Except Errno Bytes) := task (Tool.readAll fd)

/-- Opens a file, or takes standard input for its name. -/
def openInput (name : Bytes) : Job ρ (Except Errno Fd) := task (Tool.openInput name)

/-- Closes a descriptor, standard input excepted. -/
def closeInput (fd : Fd) : Job ρ Unit := task (Tool.closeInput fd)

/-- Everything in a file, or the error of opening (`true`) or reading it. -/
def readFile (name : Bytes) : Job ρ (Except (Bool × Errno) Bytes) := task (Tool.readFile name)

/-- The operands, or else standard input. -/
def inputs (operands : List Bytes) : List Bytes := if operands.isEmpty then [dash] else operands

/-- Closes standard input if it was among the inputs, which fails if it
was closed before. The status is bad then. -/
def closeStandardInput (label : String) (names : List Bytes) (status : Int) : Job ρ Int := do
  if names.contains dash then
    match ← call (Call.close Fd.stdin) with
    | .ok () => pure status
    | .error e => do
        complainOf (Bytes.ofString label) e
        pure failure
  else pure status

end Job

/-- What a program does with its arguments. -/
abbrev Body (ρ : Type) := List Bytes → Job ρ Int

/-- The worst of some statuses: the first that is not 0. -/
def firstBad (statuses : List Int) : Int := (statuses.find? (· ≠ 0)).getD 0

end LineShell.Tool
