/-
The builtins of a script by their names, those aside that run statements
themselves.

Those here only print, say how something stands, or leave what is
running; the others have modules of their own.
-/
import LineShell.Script.Builtin.Place
import LineShell.Script.Builtin.Process
import LineShell.Script.Condition
import LineShell.Tool.Printf

namespace LineShell.Script

open Posix

variable {ρ : Type}

-- =============================================================== printing

/-- `echo`: writes words with blanks between them. Only the first one can
ask for the end of the line to be left out; escapes are replaced. -/
def echoBuiltin : Builtin ρ := fun args =>
  let bare := args.head? = some (Bytes.ofString "-n")
  let text := Tool.joined (if bare then args.drop 1 else args)
  let (text, stop) := Tool.Escapes.replace { hex := false, zero := true } (text.length + 1) text
  emit (if bare || stop then text else text ++ [10])

/-- What is said of an argument that is not quite a number. -/
def numberComplaint : Tool.NumberFault → String
  | .noNumber => "expected numeric value"
  | .leftOver => "not completely converted"
  | .outOfRange => "Numerical result out of range"

/-- `printf`: prints by a format. What is to be said of the arguments
comes before all that is printed. -/
def printfBuiltin : Builtin ρ := fun args => do
  let (_, operands) ← optionsOf "" "" args
  match operands with
  | [] => fail (Bytes.ofString "usage: printf format [arg ...]")
  | format :: args => do
      let p := Tool.printed
              { escapes := { hex := false, quote := true }, stops := false, bits := 53 }
            format args
      let events := p.events.reverse
      let texts := events.filterMap fun
        | .text bytes => some bytes
        | .fault _ _ => none
      let complaints := events.filterMap fun
        | .text _ => none
        | .fault arg why => some (arg ++ Bytes.ofString (": " ++ numberComplaint why))
      complaints.forM warn
      let refuse (message : Bytes) : Act ρ Int := do
        warn message
        let _ ← emit texts.flatten
        pure errorStatus
      match p.stopped with
      | some (.noConversion spec) => refuse (spec ++ Bytes.ofString ": invalid directive")
      | some (.unfinished _) => refuse (Bytes.ofString "missing format character")
      | some .asked | none => do
          let status ← emit texts.flatten
          pure (if complaints.isEmpty then status else Tool.failure)

/-- `test`: says whether a condition holds. -/
def testBuiltin : Builtin ρ := fun args => do
  let bracketed := (← get).builtin = some (Bytes.ofString "[")
  if bracketed && args.getLast? ≠ some (Bytes.ofString "]") then fail (Bytes.ofString "missing ]")
  let words := if bracketed then args.dropLast else args
  let v ← (Task.view id : Task ρ View)
  match Condition.holds v (2 * words.length + 2) words with
  | .ok holds => pure (if holds then 0 else Tool.failure)
  | .error message => fail message

-- ================================================================ leaving

/-- `exit`: ends the script; what it was doing on a signal hides its own
last status. -/
def exitBuiltin : Builtin ρ := fun args => do
  let f ← get
  let status ← match args with
    | [] => pure (f.kept.getD f.status)
    | arg :: _ => do pure (← numberOf arg : Int)
  modify ({ · with status })
  throw .script

/-- `return`: leaves the function that is running. -/
def returnBuiltin : Builtin ρ := fun args => do
  let status ← match args with
    | [] => pure (← get).status
    | arg :: _ => do pure (← numberOf arg : Int)
  modify ({ · with status })
  throw .call

/-- `break` and `continue`: leave so many loops, or all if there are not
that many. -/
def loopBuiltin (leave : Nat → Leave) : Builtin ρ := fun args => do
  let count ← match args with
    | [] => pure 1
    | arg :: _ => do
        let n ← numberOf arg
        if n = 0 then failNumber arg else pure n
  modify ({ · with status := 0 })
  match min count (← get).loops with
  | 0 => pure 0
  | n => throw (leave n)

-- ============================================================== programs

/-- `hash`: shows which programs were found by the search path, forgets
them, or looks for more. -/
def hashBuiltin : Builtin ρ := fun args => do
  let (given, names) ← optionsOf "rv" "" args
  if given.any (·.1 = 'r') then
    modify ({ · with found := [] })
    pure 0
  else
    let f ← get
    let v ← (Task.view id : Task ρ View)
    let pathOf (name : Bytes) : Except Errno Bytes :=
      (findIn v name f.searchPath .ENOENT).map fun paths => paths.headD []
    if names.isEmpty then
      emit (f.found.flatMap fun name => ((pathOf name).toOption.map (· ++ [10])).getD [])
    else
      names.foldlM
        (fun status name => do
          match pathOf name with
          | .ok _ => do
              modify fun f => { f with found := f.found.erase name ++ [name] }
              pure status
          | .error e => do
              warn (name ++ Bytes.ofString (": " ++ programFault e))
              pure Tool.failure)
        (0 : Int)

/-- `times`: shows how long the script and its children took, which is no
time at all. -/
def timesBuiltin : Builtin ρ := fun _ =>
  let line := Bytes.ofLine "0m0.000000s 0m0.000000s"
  emit (line ++ line)

/-- `fg` and `bg`: there is nothing to be moved. -/
def noJobBuiltin : Builtin ρ := fun _ => fail (Bytes.ofString "No current job")

-- ============================================================== the table

/-- The builtins that run statements themselves. -/
def running : List String := [".", "command", "eval", "exec"]

/-- The builtins by their names, those aside that run statements
themselves. -/
def builtins : List (String × Builtin ρ) :=
  [(":", fun _ => pure 0), ("true", fun _ => pure 0), ("false", fun _ => pure Tool.failure),
   ("echo", echoBuiltin), ("printf", printfBuiltin), ("test", testBuiltin), ("[", testBuiltin),
   ("exit", exitBuiltin), ("return", returnBuiltin), ("break", loopBuiltin .loops),
   ("continue", loopBuiltin .rounds),
   ("set", setBuiltin), ("shift", shiftBuiltin), ("export", exportBuiltin),
   ("readonly", readonlyBuiltin), ("local", localBuiltin), ("unset", unsetBuiltin),
   ("read", readBuiltin), ("getopts", getoptsBuiltin),
   ("alias", aliasBuiltin), ("unalias", unaliasBuiltin),
   ("cd", cdBuiltin), ("chdir", cdBuiltin), ("pwd", pwdBuiltin), ("hash", hashBuiltin),
   ("wait", waitBuiltin), ("kill", killBuiltin), ("trap", trapBuiltin), ("umask", umaskBuiltin),
   ("ulimit", ulimitBuiltin), ("times", timesBuiltin), ("jobs", fun _ => pure 0),
   ("fg", noJobBuiltin), ("bg", noJobBuiltin)]

/-- The names of all builtins. -/
def builtinNames : List String :=
  "type" :: running ++ (builtins : List (String × Builtin Unit)).map Prod.fst

/-- The builtin of a name that runs no statements itself. -/
def builtin? (name : String) : Option (Builtin ρ) :=
  if name = "type" then some (typeBuiltin builtinNames) else builtins.lookup name

end LineShell.Script
