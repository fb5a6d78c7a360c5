/-
What a running script knows besides the process's own state, and how its
actions use and change that.

Variables are kept in the order in which they came. Programs get those
that are exported, in an order that depends on their names only up to
their number (`bucket`).

An action ends with a value or leaves what it is part of: a loop, a
function, or the whole script. What it changed stays changed.
-/
import LineShell.Posix.Program
import LineShell.Posix.Signal
import LineShell.Script.Syntax
import LineShell.Tool.Stream

namespace LineShell.Script

open Posix

variable {ρ : Type}

-- ============================================================== variables

structure Variable where
  name : Bytes
  /-- None if the variable only has a mark. -/
  value : Option Bytes := none
  exported : Bool := false
  readOnly : Bool := false
  deriving DecidableEq, Repr, Inhabited

/-- The number that orders variables for programs. -/
def bucket (name : Bytes) : Nat :=
  ((name.head?.getD 0).toNat * 16 + name.foldl (fun n b => n + b.toNat) 0) % 39

/-- Variables, each name once. -/
abbrev Variables := List Variable

namespace Variables

/-- The variable of a name. -/
def find? (vs : Variables) (name : Bytes) : Option Variable := List.find? (·.name = name) vs

/-- Puts a variable in place of the one with its name, or after all. -/
def put (vs : Variables) (v : Variable) : Variables :=
  if vs.any (·.name = v.name) then vs.map fun w => if w.name = v.name then v else w else vs ++ [v]

/-- Removes a variable. -/
def remove (vs : Variables) (name : Bytes) : Variables := vs.filter (·.name ≠ name)

/-- The variables in the order for programs. -/
def ordered (vs : Variables) : Variables := vs.mergeSort fun a b => bucket a.name ≤ bucket b.name

/-- What programs get. -/
def environment (vs : Variables) : Environment :=
  .ofList ((ordered vs).filterMap fun v =>
    if v.exported then v.value.map (v.name.decodeLossy, ·.decodeLossy) else none)

end Variables

/-- The blanks that separate fields if nothing else is said. -/
def defaultSeparators : Bytes := [32, 9, 10]

/-- The variables that every script has. -/
def predefined : Variables :=
  [("OPTIND", "1"), ("PS4", "+ "), ("PS2", "> "), ("PS1", "# "),
   ("PATH", "/usr/local/sbin:/usr/local/bin:/usr/sbin:/usr/bin:/sbin:/bin"), ("IFS", " \t\n")].map
    fun (name, value) => { name := Bytes.ofString name, value := some (Bytes.ofString value) }

-- ================================================================= frames

structure Frame where
  /-- What the script calls itself. -/
  name : Bytes
  args : List Bytes := []
  vars : Variables := predefined
  functions : List (Bytes × Statement) := []
  aliases : List (Bytes × Bytes) := []
  /-- The texts of documents, by number, and the next number. -/
  documents : List (Nat × Word) := []
  nextDocument : Nat := 0
  status : Int := 0
  /-- The status of the latest script whose output was wanted. -/
  captured : Int := 0
  /-- The process that the script started in, and the one above it. -/
  pid : Pid
  parent : Pid
  /-- The last process started in the background. -/
  latest : Option Pid := none
  /-- The processes of each statement in the background. -/
  jobs : List (List Pid) := []
  /-- Children that have ended, with their statuses. -/
  ended : List (Pid × Int) := []
  /-- The letters of the options that are on. -/
  options : List Char := []
  /-- What to do on signals, by number; 0 stands for the script's end. -/
  traps : List (Nat × Bytes) := []
  /-- The status before what is being done on a signal. -/
  kept : Option Int := none
  line : Nat := 1
  /-- The builtin that is running. -/
  builtin : Option Bytes := none
  /-- How many loops are running, and how many functions. -/
  loops : Nat := 0
  calls : Nat := 0
  /-- What the variables that a call has for itself were before. -/
  hidden : List (Bytes × Option Variable) := []
  /-- The options before the call, if it has options for itself. -/
  outerOptions : Option (List Char) := none
  /-- The working directory by the path that led there; empty if unknown. -/
  directory : Bytes := []
  /-- The number of the next argument to read options from, and how far
  the one before it has been read. -/
  index : Nat := 1
  letter : Nat := 0
  /-- The names of the programs found by the search path. -/
  found : List Bytes := []

/-- What an action leaves. -/
inductive Leave where
  /-- The script, which has come to its end or met an error. -/
  | script
  | error
  | call
  | loops (count : Nat)
  /-- One round of the outermost of several loops. -/
  | rounds (count : Nat)
  deriving DecidableEq, Repr

/-- Something that a script does. -/
abbrev Act (ρ α : Type) := ExceptT Leave (StateT Frame (Task ρ)) α

namespace Frame

/-- Is the option on? -/
def has (f : Frame) (option : Char) : Bool := f.options.contains option

/-- The value of a variable. -/
def var? (f : Frame) (name : Bytes) : Option Bytes := (f.vars.find? name).bind Variable.value

/-- The value of a variable by its name as text. -/
def text? (f : Frame) (name : String) : Option Bytes := f.var? (Bytes.ofString name)

/-- The signs that separate fields. -/
def separators (f : Frame) : Bytes := (f.text? "IFS").getD defaultSeparators

/-- What stands between arguments that are put together. -/
def joint (f : Frame) : Bytes :=
  match f.text? "IFS" with
  | none => [32]
  | some signs => signs.take 1

/-- The value of a parameter that is one text. -/
def value? (f : Frame) (name : Bytes) : Option Bytes :=
  let number (n : Int) : Option Bytes := some (Bytes.ofString (toString n))
  match name with
  | [63] => number f.status
  | [36] => number f.pid
  | [35] => number f.args.length
  | [33] => f.latest.bind fun p => number p
  | [45] => some (Bytes.ofString (String.ofList ("ubaCEVvxsnmiIfe".toList.filter f.has)))
  | [64] | [42] => if f.args.isEmpty then none else some (f.args.intersperse f.joint).flatten
  | _ =>
      match Tool.decimal? name with
      | some 0 => some f.name
      | some n => f.args[n - 1]?
      | none => f.var? name

end Frame

-- =============================================================== messages

/-- What stands before a message. -/
def Frame.heading (f : Frame) : Bytes :=
  f.name ++ Bytes.ofString s!": {f.line}: " ++
    (match f.builtin with
    | some name => name ++ Bytes.ofString ": "
    | none => [])

/-- Says something on standard error. -/
def tell (text : Bytes) : Act ρ Unit := do
  let _ ← (Task.writeAll Fd.stderr text : Task ρ _)

/-- Says what is wrong. -/
def warn (message : Bytes) : Act ρ Unit := do
  tell ((← get).heading ++ message ++ [10])

/-- The status after an error. -/
def errorStatus : Int := 2

/-- Says what is wrong, and leaves what cannot go on. -/
def fail {α : Type} (message : Bytes) : Act ρ α := do
  warn message
  modify ({ · with status := errorStatus })
  throw .error

/-- What is wrong with a name or a number: the text itself, and why. -/
def failOf {α : Type} (text : Bytes) (why : String) : Act ρ α :=
  fail (text ++ Bytes.ofString (": " ++ why))

/-- Fails because a text should have been a number. -/
def failNumber {α : Type} (text : Bytes) : Act ρ α :=
  fail (Bytes.ofString "Illegal number: " ++ text)

-- ====================================================== setting variables

/-- Gives a variable a value, and marks it as exported if asked for. -/
def setVariable (name value : Bytes) (exported : Bool := false) : Act ρ Unit := do
  let f ← get
  let old := (f.vars.find? name).getD { name }
  if old.readOnly then failOf name "is read only"
  else
    let v := { old with value := some value, exported := old.exported || exported || f.has 'a' }
    set { f with vars := f.vars.put v }
    if name = Bytes.ofString "OPTIND" then
      modify ({ · with index := max 1 ((Tool.decimal? value).getD 1), letter := 0 })
    if name = Bytes.ofString "PATH" then modify ({ · with found := [] })

/-- Removes a variable. -/
def unsetVariable (name : Bytes) : Act ρ Unit := do
  let f ← get
  if (f.vars.find? name).any (·.readOnly) then failOf name "is read only"
  else set { f with vars := f.vars.remove name }

/-- Notes what a variable was, to be put back when the call ends. -/
def hideVariable (name : Bytes) : Act ρ Unit :=
  modify fun f => { f with hidden := (name, f.vars.find? name) :: f.hidden }

/-- Puts back variables that were hidden, the last one first. -/
def restoreVariables (vs : Variables) (hidden : List (Bytes × Option Variable)) : Variables :=
  hidden.foldl (fun vs (name, old) => old.elim (vs.remove name) vs.put) vs

/-- Does something, and then something else however it ended. -/
def andThen {α : Type} (body : Act ρ α) (after : Act ρ Unit) : Act ρ α := do
  let a ←
    try body
    catch e =>
      after
      throw e
  after
  pure a

/-- Does something with variables and options of its own, which are put
back however it ends. -/
def withHidden {α : Type} (body : Act ρ α) : Act ρ α := do
  let outer ← get
  modify ({ · with hidden := [], outerOptions := none })
  andThen body <|
    modify fun f =>
      { f with
        vars := restoreVariables f.vars f.hidden
        hidden := outer.hidden
        options := f.outerOptions.getD f.options
        outerOptions := outer.outerOptions }

end LineShell.Script
