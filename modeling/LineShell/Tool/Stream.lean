/-
Reading all that a descriptor gives.

Data is read block by block; there is a bound on the number of blocks,
far above what any run here comes to.
-/
import LineShell.Posix.Program
import LineShell.Tool.Quoting

namespace LineShell.Tool

open Posix

variable {ρ : Type}

/-- The status of a tool that met an error, or that says no. -/
def failure : Int := 1

/-- How many blocks any program reads or writes. -/
def blockBound : Nat := 1048576

/-- The size of the blocks that are read. -/
def blockSize : Nat := 131072

-- ================================================================ reading

/-- Reads blocks to the end, so many at most, the last one first. -/
def readBlocksTo (fd : Fd) : Nat → List Bytes → Task ρ (Except Errno (List Bytes))
  | 0, blocks => pure (.ok blocks)
  | n + 1, blocks => do
      match ← Task.read fd blockSize with
      | .error e => pure (.error e)
      | .ok [] => pure (.ok blocks)
      | .ok block => readBlocksTo fd n (block :: blocks)

/-- Everything that is left to read. -/
def readAll (fd : Fd) : Task ρ (Except Errno Bytes) := do
  match ← readBlocksTo fd blockBound [] with
  | .error e => pure (.error e)
  | .ok blocks => pure (.ok blocks.reverse.flatten)

/-- The name that stands for standard input. -/
def dash : Bytes := [45]

/-- Opens a file, or takes standard input for its name. -/
def openInput (name : Bytes) : Task ρ (Except Errno Fd) :=
  if name = dash then pure (.ok Fd.stdin) else Task.call (Call.openFile name .forReading)

/-- Closes a descriptor, standard input excepted. -/
def closeInput (fd : Fd) : Task ρ Unit := do
  if fd ≠ Fd.stdin then
    let _ ← Task.call (Call.close fd)

/-- Everything in a file, or the error of opening (`true`) or reading it. -/
def readFile (name : Bytes) : Task ρ (Except (Bool × Errno) Bytes) := do
  match ← openInput name with
  | .error e => pure (.error (true, e))
  | .ok fd =>
      let r ← readAll fd
      closeInput fd
      pure (r.mapError (false, ·))

/-- The lines of some data; the last may lack its end. -/
def linesOf (data : Bytes) : List Bytes :=
  let parts := data.splitOnP (· == 10)
  if parts.getLast? == some [] then parts.dropLast else parts

/-- A decimal number. -/
def decimal? (b : Bytes) : Option Nat :=
  if b.isEmpty then none
  else
    b.foldlM (fun n d => if 48 ≤ d && d ≤ 57 then some (n * 10 + (d.toNat - 48)) else none) 0

/-- A decimal number with an optional sign. -/
def signed? : Bytes → Option Int
  | 45 :: rest => (decimal? rest).map fun n => -(n : Int)
  | 43 :: rest => (decimal? rest).map Int.ofNat
  | b => (decimal? b).map Int.ofNat

end LineShell.Tool
